/-
PublishOnce.Proofs.FileTree.Changes — what a change of a tree leaves alone.

Each operation is described by what a look at an arbitrary place finds
afterwards. Putting an entry is seen in one place and removing one at and below
a place. Making a directory together with those that lead to it
(`makeWay_spec`) is seen only where nothing was, and only on the way.

Filling a directory is seen at and below it. The two together (`plant_spec`)
are what a program does that makes a tree of files at a path.
-/
import PublishOnce.Proofs.FileTree.Places
import PublishOnce.Proofs.Rows

namespace PublishOnce.FileTree

open Location (IsName)

variable {tree branch : FileTree} {cwd place other : Location} {path : Path} {entry : Entry}
  {segments : List Bytes}

/-! ## 1. Entries -/

theorem get?_put (h : place ≠ []) :
    (tree.put place entry).get? other = if other = place then some entry else tree.get? other := by
  unfold put get?
  by_cases hroot : other = []
  · subst hroot
    rw [if_pos rfl, if_neg (Ne.symm h), if_pos rfl]
  · rw [if_neg hroot, if_neg hroot, List.lookup_append,
      Rows.lookup_filter (fun row => decide (row ≠ place))]
    by_cases hother : other = place
    · simp [hother]
    · have hbeq : (other == place) = false := beq_eq_false_iff_ne.mpr hother
      simp [hother, hbeq, List.lookup_cons]

theorem get?_removeAt (h : place ≠ []) :
    (tree.removeAt place).get? other = if place <+: other then none else tree.get? other := by
  unfold removeAt get?
  rw [Rows.lookup_filter (fun row => !place.isPrefixOf row)]
  by_cases hroot : other = []
  · subst hroot
    simp [h]
  · have hiff : place.isPrefixOf other = true ↔ place <+: other := List.isPrefixOf_iff_prefix
    by_cases hbelow : place <+: other
    · rw [if_pos hbelow, if_neg hroot, hiff.mpr hbelow]
      rfl
    · rw [if_neg hbelow, if_neg hroot, if_neg hroot, Bool.eq_false_iff.mpr (mt hiff.mp hbelow)]
      rfl

/-- Nothing stands at a place or below it. -/
def VoidAt (tree : FileTree) (place : Location) : Prop :=
  ∀ other, place <+: other → tree.get? other = none

theorem voidAt_removeAt (h : place ≠ []) : (tree.removeAt place).VoidAt place :=
  fun other hother => by rw [get?_removeAt h, if_pos hother]

/-- Every entry stands in a directory. -/
def IsRooted (tree : FileTree) : Prop :=
  ∀ place, (tree.get? place).isSome = true → tree.get? place.dropLast = some .dir

/-- In a rooted tree there are only directories above an entry. -/
theorem IsRooted.above (h : tree.IsRooted) (hentry : (tree.get? place).isSome = true)
    (hother : other <+: place) (hne : other ≠ place) : tree.get? other = some .dir := by
  obtain ⟨more, rfl⟩ := hother
  induction more using List.reverseRecOn with
  | nil => simp at hne
  | append_singleton more last ih =>
    have habove := h _ hentry
    rw [← List.append_assoc, List.dropLast_concat] at habove
    by_cases hmore : more = []
    · rwa [hmore, List.append_nil] at habove
    · exact ih (by rw [habove]; rfl) (by simpa using hmore)

/-! ## 2. Making directories -/

theorem makeWay_cons (tree : FileTree) (place : Location) (segment : Bytes)
    (rest : List Bytes) :
    tree.makeWay place (segment :: rest) =
      if tree.isDirAt place = false then none
      else if IsName segment ∧ tree.get? (place ++ [segment]) = none then
        (tree.put (place ++ [segment]) .dir).makeWay (place.step segment) rest
      else tree.makeWay (place.step segment) rest := by
  rw [makeWay]
  unfold Location.step IsName
  by_cases hdir : tree.isDirAt place = true
  · by_cases hstay : segment = [] ∨ segment = [Path.dot]
    · rcases hstay with rfl | rfl <;> simp [hdir, Path.isInert]
    · rw [not_or] at hstay
      by_cases hup : segment = up
      · subst hup
        simp [hdir, Path.isInert_up]
      · cases hentry : tree.get? (place ++ [segment]) <;>
          simp [hdir, Path.isInert, hstay, hup, hentry]
  · simp [hdir]

/-- Every entry of one tree is in another tree, as it was. -/
def Kept (tree left : FileTree) : Prop :=
  ∀ place entry, tree.get? place = some entry → left.get? place = some entry

/-- A tree that has grown out of another one by directories in certain places. -/
def GrownBy (made : Location → Prop) (tree grown : FileTree) : Prop :=
  ∀ place, grown.get? place = tree.get? place
    ∨ (tree.get? place = none ∧ grown.get? place = some .dir ∧ made place)

theorem GrownBy.isDirAt {made : Location → Prop} {grown : FileTree} (h : GrownBy made tree grown)
    (hdir : tree.isDirAt place = true) : grown.isDirAt place = true := by
  rw [isDirAt_iff] at hdir ⊢
  rcases h place with hsame | ⟨hnone, -, -⟩
  · rw [hsame, hdir]
  · rw [hdir] at hnone
    cases hnone

/-- The way along segments is made of directories in the end, and all that has been made is on it. -/
theorem makeWay_spec {grown : FileTree} {found : Location}
    (h : tree.makeWay place segments = some (grown, found)) :
    found = place.follow segments
      ∧ (∀ front, front <+: segments → grown.isDirAt (place.follow front) = true)
      ∧ GrownBy (fun made => ∃ front, front <+: segments ∧ place.follow front = made) tree grown := by
  induction segments generalizing tree place with
  | nil =>
    rw [makeWay] at h
    split at h
    · next hdir =>
      cases h
      exact ⟨rfl, fun front hfront => by rwa [List.prefix_nil.mp hfront], fun _ => .inl rfl⟩
    · cases h
  | cons segment rest ih =>
    rw [makeWay_cons] at h
    split at h
    · cases h
    next hdir =>
    -- either the tree has the next place already, or a directory is put there
    have hnext : ∃ next, next.makeWay (place.step segment) rest = some (grown, found)
        ∧ GrownBy (· = place.step segment) tree next := by
      split at h
      · next hmissing =>
        refine ⟨_, h, fun other => ?_⟩
        rw [get?_put (by simp), Location.step_of_isName hmissing.1]
        by_cases hother : other = place ++ [segment]
        · rw [hother]
          exact .inr ⟨hmissing.2, if_pos rfl, rfl⟩
        · exact .inl (if_neg hother)
      · exact ⟨tree, h, fun _ => .inl rfl⟩
    obtain ⟨next, hmade, hput⟩ := hnext
    obtain ⟨hfound, hway, hgrown⟩ := ih hmade
    have hgrows : GrownBy (fun made => ∃ front, front <+: segment :: rest
        ∧ place.follow front = made) tree grown := by
      intro other
      rcases hgrown other with hsame | ⟨hnone, hsome, front, hfront, hother⟩
      · rcases hput other with hsame' | ⟨hnone, hsome, rfl⟩
        · exact .inl (hsame.trans hsame')
        · exact .inr ⟨hnone, hsame.trans hsome, [segment], by simp, rfl⟩
      · refine .inr ⟨?_, hsome, segment :: front, (List.prefix_cons_inj segment).mpr hfront, hother⟩
        rcases hput other with hsame' | ⟨hnone', -, -⟩
        · rw [← hsame', hnone]
        · exact hnone'
    refine ⟨hfound, fun front hfront => ?_, hgrows⟩
    cases front with
    | nil => exact hgrows.isDirAt (by simpa using hdir)
    | cons first front =>
      obtain ⟨rfl, hrest⟩ := List.cons_prefix_cons.mp hfront
      exact hway front hrest

/-! ## 3. Filling a directory -/

theorem get?_graftAt (h : place ≠ [])
    (hrows : ∀ row ∈ branch.entries, other ≠ place ++ row.1) :
    (tree.graftAt place branch).get? other =
      if other = place then some .dir else tree.get? other := by
  have hfold : ∀ (rows : List (Location × Entry)) (grown : FileTree),
      (∀ row ∈ rows, other ≠ place ++ row.1) →
      (rows.foldl (fun grown row => grown.put (place ++ row.1) row.2) grown).get? other =
        grown.get? other := by
    intro rows
    induction rows with
    | nil => exact fun _ _ => rfl
    | cons row rest ih =>
      intro grown hother
      rw [List.foldl_cons, ih _ fun row hrow => hother row (List.mem_cons_of_mem _ hrow),
        get?_put (by simp [h]), if_neg (hother row List.mem_cons_self)]
  rw [graftAt, hfold _ _ hrows, get?_put h]

/-- A path leads to a directory. -/
def LeadsToDir (tree : FileTree) (cwd : Location) (path : Path) : Prop :=
  tree.resolve cwd path = .ok (path.place cwd) ∧ tree.isDirAt (path.place cwd) = true

instance (tree : FileTree) (cwd : Location) (path : Path) : Decidable (tree.LeadsToDir cwd path) :=
  inferInstanceAs (Decidable (_ ∧ _))

/-- Beside the place of a path, a tree has only grown by directories on the way there. -/
def SameBeside (cwd : Location) (path : Path) (tree grown : FileTree) : Prop :=
  ∀ other, ¬ path.place cwd <+: other →
    grown.get? other = tree.get? other
      ∨ (tree.get? other = none ∧ grown.get? other = some .dir ∧ other ∈ path.way cwd)

theorem SameBeside.get?_eq_some {grown : FileTree} (h : SameBeside cwd path tree grown)
    (hother : ¬ path.place cwd <+: other) (hentry : tree.get? other = some entry) :
    grown.get? other = some entry := by
  rcases h other hother with hsame | ⟨hnone, -, -⟩
  · rw [hsame, hentry]
  · rw [hentry] at hnone
    cases hnone

/-- A directory that is planted at a path is where the path leads, and nothing else has changed. It
must not cover a directory that the path goes through. Where a file is in the way, nothing is
planted. -/
theorem plant_spec (hplace : path.place cwd ≠ []) (hbytes : path.bytes.isEmpty = false)
    (hclear : ∀ row ∈ branch.entries, path.place cwd ++ row.1 ∉ path.way cwd) :
    tree.plant cwd path branch = tree
      ∨ ((tree.plant cwd path branch).LeadsToDir cwd path
        ∧ SameBeside cwd path tree (tree.plant cwd path branch)) := by
  unfold plant
  cases hmade : tree.makeWay (startOf cwd path) (FileTree.segments path) with
  | none => exact .inl rfl
  | some made =>
    obtain ⟨grown, found⟩ := made
    obtain ⟨hfound, hway, hgrown⟩ := makeWay_spec hmade
    replace hfound : found = path.place cwd := hfound
    subst hfound
    simp only
    have hdir : ∀ other ∈ path.way cwd,
        (grown.graftAt (path.place cwd) branch).isDirAt other = true := by
      intro other hother
      obtain ⟨front, hfront, rfl⟩ := Path.mem_way.mp hother
      rw [isDirAt_iff, get?_graftAt hplace fun row hrow heq => hclear row hrow (heq ▸ hother)]
      split
      · rfl
      · exact isDirAt_iff.mp (hway front hfront)
    have hhere := hdir _ (Path.place_mem_way cwd path)
    refine .inr ⟨⟨?_, hhere⟩, fun other hother => ?_⟩
    · rw [resolve, hbytes, if_neg (by simp)]
      refine walk_eq_ok (fun front hfront _ => hdir _ (Path.mem_way.mpr ⟨front, hfront, rfl⟩)) ?_
      rw [isDirAt_iff] at hhere
      exact Option.isSome_of_eq_some hhere
    · have hne : other ≠ path.place cwd := fun h => hother (h ▸ List.prefix_rfl)
      have hbeside : ∀ row ∈ branch.entries, other ≠ path.place cwd ++ row.1 := by
        rintro row - rfl
        exact hother (List.prefix_append ..)
      rw [get?_graftAt hplace hbeside, if_neg hne]
      rcases hgrown other with hsame | ⟨hnone, hsome, hfront⟩
      · exact .inl hsame
      · exact .inr ⟨hnone, hsome, Path.mem_way.mpr hfront⟩

/-! ## 4. Removing a directory -/

theorem removeDir_of_leadsToDir (h : tree.LeadsToDir cwd path) :
    tree.removeDir cwd path = .ok (tree.removeAt (path.place cwd)) := by
  unfold removeDir
  rw [h.1]
  exact if_pos h.2

theorem removeDir_eq_ok {left : FileTree} (h : tree.removeDir cwd path = .ok left) :
    tree.LeadsToDir cwd path ∧ left = tree.removeAt (path.place cwd) := by
  unfold removeDir at h
  split at h
  · cases h
  · next found hfound =>
    obtain rfl := Path.place_of_resolve hfound
    split at h
    · next hdir =>
      cases h
      exact ⟨⟨hfound, hdir⟩, rfl⟩
    · cases h

/-! ## 5. Nothing there -/

theorem isRooted_of_entries (h : ∀ row ∈ tree.entries, tree.get? row.1.dropLast = some .dir) :
    tree.IsRooted := by
  intro place hplace
  by_cases hroot : place = []
  · rw [hroot, List.dropLast_nil, get?_root]
  · obtain ⟨entry, hentry⟩ := Option.isSome_iff_exists.mp hplace
    rw [get?, if_neg hroot] at hentry
    obtain ⟨before, after, hrows, -⟩ := List.lookup_eq_some_iff.mp hentry
    exact h (place, entry) (hrows ▸ List.mem_append_right _ List.mem_cons_self)

/-- Where a path that never goes up leads to nothing, there is nothing at all. A tree that has something
below a place has the directories that lead there. -/
theorem voidAt_of_not_pathExists {front : List Bytes} {name : Bytes} (hrooted : tree.IsRooted)
    (hforward : path.IsForward) (hlast : FileTree.segments path = front ++ [name])
    (hname : IsName name) (h : tree.pathExists cwd path = false) :
    tree.VoidAt (path.place cwd) := by
  intro other hother
  by_contra hsome
  rw [← Ne, Option.ne_none_iff_isSome] at hsome
  have hhere : (tree.get? (path.place cwd)).isSome = true := by
    by_cases hend : path.place cwd = other
    · rw [hend, hsome]
    · rw [hrooted.above hsome hother hend]
      rfl
  have hplace : path.place cwd = (startOf cwd path).follow front ++ [name] := by
    rw [Path.place, hlast, Location.follow_append, Location.follow_cons,
      Location.step_of_isName hname, Location.follow_nil]
  have hway : ∀ passed, passed <+: FileTree.segments path → passed ≠ FileTree.segments path →
      tree.isDirAt ((startOf cwd path).follow passed) = true := by
    intro passed hpassed hne
    rw [isDirAt_iff]
    have hfront : passed <+: front := by
      rw [hlast] at hpassed hne
      exact (List.prefix_concat_iff.mp hpassed).resolve_left hne
    have habove : (startOf cwd path).follow passed <+: (startOf cwd path).follow front :=
      Location.follow_prefix_follow
        (fun hmem => hforward (by rw [hlast]; exact List.mem_append_left _ hmem)) hfront
    refine hrooted.above hhere (hplace ▸ habove.trans (List.prefix_append ..)) fun heq => ?_
    have hlength := habove.length_le
    rw [heq, hplace, List.length_append, List.length_singleton] at hlength
    omega
  have hresolve : tree.resolve cwd path = .ok (path.place cwd) := by
    unfold resolve
    rw [Path.isEmpty_bytes_of_segments hlast hname.1, if_neg (by simp)]
    exact walk_eq_ok hway hhere
  rw [pathExists, entry?, hresolve] at h
  simp [hhere] at h

end PublishOnce.FileTree
