/-
PublishOnce.Proofs.FileTree.Places — where a path leads, whatever is there.

Walking along a path asks the tree at every segment, but all that the tree
decides is whether the walk comes to its end. Where that end is can be read off
the segments alone (`Path.place`): there are no links, so a segment says itself
whether it stays, goes up or goes to a member.

So a path has a place before anything stands there, and the same one
afterwards. This is what it takes to speak about a directory that is made in
one moment and removed in another. A path with `..` in it is the one to be
careful with. Its place is not below all that it goes through, and it leads
nowhere as long as one of the directories that it only passes is missing, even
if something stands at its place.
-/
import Mathlib.Data.List.Infix
import PublishOnce.FileTree
import PublishOnce.Proofs.Text.Pieces

namespace PublishOnce

/-! ## 1. Segments -/

theorem Path.isInert_up : isInert FileTree.up = false := rfl

namespace Location

/-- A segment that names a member of a directory. -/
def IsName (segment : Bytes) : Prop := segment ≠ [] ∧ segment ≠ [Path.dot] ∧ segment ≠ FileTree.up

instance (segment : Bytes) : Decidable (IsName segment) := inferInstanceAs (Decidable (_ ∧ _))

/-- A name that can stand between two separators and leads to a member. -/
def IsPlain (name : Bytes) : Prop := IsName name ∧ Path.slash ∉ name

instance (name : Bytes) : Decidable (IsPlain name) := inferInstanceAs (Decidable (_ ∧ _))

/-- Where one segment leads from a place. -/
def step (place : Location) (segment : Bytes) : Location :=
  if Path.isInert segment then place
  else if segment = FileTree.up then place.dropLast
  else place ++ [segment]

/-- Where segments lead from a place. -/
def follow (place : Location) (segments : List Bytes) : Location := segments.foldl step place

variable {place : Location} {segment : Bytes} {segments front more : List Bytes}

@[simp] theorem follow_nil (place : Location) : place.follow [] = place := rfl

@[simp] theorem follow_cons (place : Location) (segment : Bytes) (rest : List Bytes) :
    place.follow (segment :: rest) = (place.step segment).follow rest := rfl

theorem follow_append (place : Location) (segments more : List Bytes) :
    place.follow (segments ++ more) = (place.follow segments).follow more :=
  List.foldl_append

theorem step_of_isName (h : IsName segment) : place.step segment = place ++ [segment] := by
  obtain ⟨hempty, hdot, hup⟩ := h
  simp [step, Path.isInert, hempty, hdot, hup]

/-- Without going up, segments lead further down. -/
theorem prefix_follow (h : FileTree.up ∉ segments) : place <+: place.follow segments := by
  induction segments generalizing place with
  | nil => exact List.prefix_rfl
  | cons segment rest ih =>
    rw [List.mem_cons, not_or] at h
    have hstep : place <+: place.step segment := by
      unfold step
      split
      · exact List.prefix_rfl
      · rw [if_neg (Ne.symm h.1)]
        exact List.prefix_append ..
    exact hstep.trans (ih h.2)

/-- Without going up, every place on the way is above the end of it. -/
theorem follow_prefix_follow (h : FileTree.up ∉ segments) (hfront : front <+: segments) :
    place.follow front <+: place.follow segments := by
  obtain ⟨more, rfl⟩ := hfront
  rw [follow_append]
  exact prefix_follow fun hmem => h (List.mem_append_right _ hmem)

end Location

/-! ## 2. Walking -/

namespace FileTree

open Location (IsName)

variable {tree : FileTree} {cwd place found : Location} {path : Path} {segments : List Bytes}

@[simp] theorem get?_root (tree : FileTree) : tree.get? [] = some .dir := by
  simp [get?]

theorem isDirAt_iff : tree.isDirAt place = true ↔ tree.get? place = some .dir := by
  simp [isDirAt]

theorem walk_cons (tree : FileTree) (place : Location) (segment : Bytes) (rest : List Bytes) :
    tree.walk place (segment :: rest) =
      if tree.isDirAt place = false then .error .notADirectory
      else if IsName segment ∧ tree.get? (place ++ [segment]) = none then .error .notFound
      else tree.walk (place.step segment) rest := by
  rw [walk]
  unfold Location.step IsName
  by_cases hdir : tree.isDirAt place = true
  · by_cases hstay : segment = [] ∨ segment = [Path.dot]
    · rcases hstay with rfl | rfl <;> simp [hdir, Path.isInert]
    · rw [not_or] at hstay
      by_cases hup : segment = up
      · subst hup
        simp [hdir, Path.isInert_up]
      · simp [hdir, Path.isInert, hstay, hup, Option.isNone_iff_eq_none]
  · simp [hdir]

/-- A walk that comes to an end comes to the place that its segments lead to. -/
theorem follow_of_walk (h : tree.walk place segments = .ok found) :
    found = place.follow segments := by
  induction segments generalizing place with
  | nil =>
    rw [walk, Except.ok.injEq] at h
    exact h.symm
  | cons segment rest ih =>
    rw [walk_cons] at h
    split at h
    · cases h
    · split at h
      · cases h
      · exact ih h

/-- A walk comes to its end if there are directories on the way and something at the end. -/
theorem walk_eq_ok
    (hway : ∀ front, front <+: segments → front ≠ segments →
      tree.isDirAt (place.follow front) = true)
    (hend : (tree.get? (place.follow segments)).isSome = true) :
    tree.walk place segments = .ok (place.follow segments) := by
  induction segments generalizing place with
  | nil => rfl
  | cons segment rest ih =>
    have hhere : tree.isDirAt place = true := hway [] List.nil_prefix (by simp)
    have hnext : ∀ front, front <+: rest → front ≠ rest →
        tree.isDirAt ((place.step segment).follow front) = true := fun front hfront hne =>
      hway (segment :: front) ((List.prefix_cons_inj segment).mpr hfront) (by simpa using hne)
    have hthere : ¬ (IsName segment ∧ tree.get? (place ++ [segment]) = none) := by
      rintro ⟨hname, hnone⟩
      rw [← Location.step_of_isName hname] at hnone
      cases rest with
      | nil =>
        rw [Location.follow_cons, Location.follow_nil, hnone] at hend
        cases hend
      | cons next more =>
        have hdir := hnext [] List.nil_prefix (by simp)
        rw [Location.follow_nil, isDirAt_iff, hnone] at hdir
        cases hdir
    rw [walk_cons, if_neg (by simp [hhere]), if_neg hthere]
    exact ih hnext hend

theorem entry?_eq_some_iff {entry : Entry} : tree.entry? cwd path = some entry ↔
    ∃ place, tree.resolve cwd path = .ok place ∧ tree.get? place = some entry := by
  unfold entry?
  cases tree.resolve cwd path with
  | ok place => simp
  | error reason => simp

/-- What can be read is a file, and its path leads there. -/
theorem readFile?_eq_some_iff {content : Bytes} : tree.readFile? cwd path = some content ↔
    ∃ place, tree.resolve cwd path = .ok place ∧ tree.get? place = some (.file content) := by
  rw [← entry?_eq_some_iff]
  unfold readFile?
  rcases tree.entry? cwd path with _ | _ | _ <;> simp

end FileTree

/-! ## 3. The place of a path -/

namespace Path

open FileTree (startOf segments)
open Location (IsName)

/-- Where a path leads. -/
def place (cwd : Location) (path : Path) : Location :=
  (startOf cwd path).follow (segments path)

/-- The places on the way along a path, from the first one to where it leads. -/
def way (cwd : Location) (path : Path) : List Location :=
  (segments path).inits.map (startOf cwd path).follow

/-- A path that never goes up. -/
def IsForward (path : Path) : Prop := FileTree.up ∉ segments path

instance (path : Path) : Decidable path.IsForward := inferInstanceAs (Decidable (¬ _))

variable {tree : FileTree} {cwd passed found : Location} {path base : Path} {name : Bytes}

theorem place_of_resolve (h : tree.resolve cwd path = .ok found) : found = path.place cwd := by
  unfold FileTree.resolve at h
  split at h
  · cases h
  · exact FileTree.follow_of_walk h

theorem mem_way :
    passed ∈ path.way cwd ↔
      ∃ front, front <+: segments path ∧ (startOf cwd path).follow front = passed := by
  simp [way]

theorem place_mem_way (cwd : Location) (path : Path) : path.place cwd ∈ path.way cwd :=
  mem_way.mpr ⟨_, List.prefix_rfl, rfl⟩

/-- A path that never goes up leads below all that it goes through. -/
theorem IsForward.prefix_place (h : path.IsForward) (hpassed : passed ∈ path.way cwd) :
    passed <+: path.place cwd := by
  obtain ⟨front, hfront, rfl⟩ := mem_way.mp hpassed
  exact Location.follow_prefix_follow h hfront

/-- Nothing below the place of such a path is on the way there. -/
theorem IsForward.not_mem_way {below : Location} (h : path.IsForward) (hne : below ≠ []) :
    path.place cwd ++ below ∉ path.way cwd := by
  intro hmem
  have hlength := (h.prefix_place hmem).length_le
  have hpos := List.length_pos_iff.mpr hne
  rw [List.length_append] at hlength
  omega

/-! ## 4. A name behind a path -/

theorem segments_of_bytes {front rest : Bytes} (h : path.bytes = front ++ slash :: rest) :
    segments path = segments ⟨front⟩ ++ segments ⟨rest⟩ := by
  unfold segments
  rw [h, Text.splitOn_append]

theorem segments_of_not_mem (h : slash ∉ name) : segments ⟨name⟩ = [name] :=
  Text.splitOn_of_not_mem h

theorem isEmpty_bytes_of_segments {front : List Bytes} (h : segments path = front ++ [name])
    (hne : name ≠ []) : path.bytes.isEmpty = false := by
  rw [Bool.eq_false_iff]
  intro hempty
  have hsegments : segments path = [[]] := by
    rw [segments, List.isEmpty_iff.mp hempty]
    rfl
  rw [hsegments] at h
  cases front with
  | nil => exact hne (List.cons.inj h).1.symm
  | cons first more => simp at h

theorem isAbsolute_of_not_mem (h : slash ∉ name) : (Path.mk name).isAbsolute = false := by
  unfold isAbsolute
  cases name with
  | nil => simp
  | cons c rest =>
    rw [List.mem_cons, not_or] at h
    simpa using Ne.symm h.1

theorem startOf_of_bytes {behind : Bytes} (hne : base.bytes ≠ [])
    (h : path.bytes = base.bytes ++ behind) : startOf cwd path = startOf cwd base := by
  unfold startOf isAbsolute
  rw [h, List.head?_append_of_ne_nil _ hne]

/-- A name joined to a path is the last segment. What is in front of it leads where the path did. -/
theorem segments_join_name (hslash : slash ∉ name) (base : Path) :
    ∃ front, segments (base.join ⟨name⟩) = front ++ [name]
      ∧ (∀ segment ∈ front, segment ∈ segments base)
      ∧ ∀ cwd, (startOf cwd (base.join ⟨name⟩)).follow front = base.place cwd := by
  have hlast : segments ⟨name⟩ = [name] := segments_of_not_mem hslash
  unfold join
  rw [if_neg (by simp [isAbsolute_of_not_mem hslash])]
  by_cases hempty : base = ⟨[]⟩
  · subst hempty
    refine ⟨[], by simp [hlast], by simp, fun cwd => ?_⟩
    have hplace : Path.place cwd ⟨[]⟩ = cwd := by
      rw [place, startOf, segments_of_not_mem (by simp), isAbsolute_of_not_mem (by simp)]
      rfl
    rw [hplace]
    simp [startOf, isAbsolute_of_not_mem hslash]
  have hne : base.bytes ≠ [] := fun h => hempty (by
    cases base
    exact congrArg Path.mk h)
  by_cases hends : base.bytes.getLast? = some slash
  · obtain ⟨front, hfront⟩ := List.getLast?_eq_some_iff.mp hends
    have hbytes : (Path.mk (base.bytes ++ name)).bytes = front ++ slash :: name := by
      show base.bytes ++ name = _
      rw [hfront, List.append_assoc, List.singleton_append]
    have hbase : segments base = segments ⟨front⟩ ++ [[]] := by
      rw [segments_of_bytes hfront]
      rfl
    rw [if_pos (by simp [hends])]
    refine ⟨segments ⟨front⟩, by rw [segments_of_bytes hbytes, hlast], ?_, fun cwd => ?_⟩
    · exact fun segment h => hbase ▸ List.mem_append_left _ h
    · rw [startOf_of_bytes hne rfl, place, hbase, Location.follow_append]
      rfl
  · rw [if_neg (by simp [hends, hne])]
    have hbytes : (Path.mk (base.bytes ++ slash :: name)).bytes = base.bytes ++ slash :: name := rfl
    refine ⟨segments base, by rw [segments_of_bytes hbytes, hlast], fun _ h => h, ?_⟩
    exact fun cwd => by rw [startOf_of_bytes hne hbytes, place]

end Path

end PublishOnce
