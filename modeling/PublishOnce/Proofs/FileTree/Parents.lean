/-
PublishOnce.Proofs.FileTree.Parents — the directory that holds a file.

The parent of a path is found in its bytes: the last component goes, with the
separators around it. The directory that holds a file is found in the tree. For
an absolute path the two are the same as soon as there is a file
(`resolve_parent?`). A file ends the walk along its path, so the last segment
is a name; a path that ends in `..`, `.` or a separator leads to a directory or
nowhere.

That `..` leads to a directory is not a matter of course, since nothing forbids
a tree in which a directory is below a file. But a walk from the root asks for
a directory at every step, and goes up only through those (`isDirAt_of_walk`).
-/
import Mathlib.Data.List.TakeWhile
import PublishOnce.Proofs.FileTree.Places
import PublishOnce.Settings.Sources

namespace PublishOnce

/-! ## 1. Absolute paths -/

namespace Path

variable {root base path parent : Path}

theorem isAbsolute_iff : path.isAbsolute = true ↔ ∃ rest, path.bytes = slash :: rest := by
  unfold isAbsolute
  rw [decide_eq_true_iff, List.head?_eq_some_iff]

theorem isAbsolute_join (h : base.isAbsolute = true) (path : Path) :
    (base.join path).isAbsolute = true := by
  obtain ⟨rest, hrest⟩ := isAbsolute_iff.mp h
  unfold join
  split
  · assumption
  · split
    · exact isAbsolute_iff.mpr ⟨rest ++ path.bytes, by simp [hrest]⟩
    · exact isAbsolute_iff.mpr ⟨rest ++ slash :: path.bytes, by simp [hrest]⟩

theorem isAbsolute_resolveIn (h : root.isAbsolute = true) (home : Option String) (path : Path) :
    (resolveIn home root path).isAbsolute = true :=
  isAbsolute_join h _

theorem shape_of_isAbsolute {rest : Bytes} (h : path.bytes = slash :: rest) :
    shape path.bytes = (.root, Text.splitOn slash rest) := by
  rw [h, shape_slash]

/-- The parent of an absolute path in segments. -/
theorem parent?_of_isAbsolute {rest : Bytes} (h : path.bytes = slash :: rest) :
    path.parent? =
      if dropInertEnd (Text.splitOn slash rest) = [] then none
      else some ⟨slash :: joinSegments (dropInertEnd (dropInertEnd (Text.splitOn slash rest)).dropLast)⟩ := by
  unfold parent?
  rw [shape_of_isAbsolute h]
  simp only
  split
  · next hnil => rw [if_pos hnil, if_neg (by decide)]
  · next hsome => rw [if_neg hsome]; rfl

theorem isAbsolute_parent? (h : path.isAbsolute = true) (hparent : path.parent? = some parent) :
    parent.isAbsolute = true := by
  obtain ⟨rest, hrest⟩ := isAbsolute_iff.mp h
  rw [parent?_of_isAbsolute hrest] at hparent
  split at hparent
  · cases hparent
  · obtain rfl := Option.some.inj hparent
    exact isAbsolute_iff.mpr ⟨_, rfl⟩

theorem ancestors_of_parent?_eq_none (h : path.parent? = none) : path.ancestors = [path] := by
  rw [ancestors]
  split
  · rfl
  · next hsome => exact absurd (h.symm.trans hsome) (by simp)

theorem ancestors_of_parent?_eq_some (h : path.parent? = some parent) :
    path.ancestors = path :: parent.ancestors := by
  rw [ancestors]
  split
  · next hnone => exact absurd (h.symm.trans hnone) (by simp)
  · next hsome => rw [Option.some.inj (h.symm.trans hsome)]

theorem isAbsolute_of_mem_ancestors (h : path.isAbsolute = true) (hmem : parent ∈ path.ancestors) :
    parent.isAbsolute = true := by
  induction path using ancestors.induct with
  | case1 path hnone =>
    rw [ancestors_of_parent?_eq_none hnone, List.mem_singleton] at hmem
    exact hmem ▸ h
  | case2 path up hup ih =>
    rw [ancestors_of_parent?_eq_some hup, List.mem_cons] at hmem
    rcases hmem with rfl | hmem
    · exact h
    · exact ih (isAbsolute_parent? h hup) hmem

end Path

theorem Location.isAbsolute_path (place : Location) : place.path.isAbsolute = true :=
  Path.isAbsolute_iff.mpr ⟨_, rfl⟩

/-! ## 2. Walks from the root -/

namespace FileTree

open Location (IsName)

variable {tree : FileTree} {place found : Location} {segments more : List Bytes}

theorem walk_append (tree : FileTree) (place : Location) (segments more : List Bytes) :
    tree.walk place (segments ++ more) =
      match tree.walk place segments with
      | .ok middle => tree.walk middle more
      | .error reason => .error reason := by
  induction segments generalizing place with
  | nil => rfl
  | cons segment segments ih =>
    rw [List.cons_append, walk_cons, walk_cons]
    split
    · rfl
    · split
      · rfl
      · exact ih _

/-- All that is above a place is a directory. -/
def IsReached (tree : FileTree) (place : Location) : Prop :=
  ∀ front, front <+: place → front ≠ place → tree.isDirAt front = true

theorem IsReached.isDirAt (h : tree.IsReached place) (hdir : tree.isDirAt place = true)
    {front : Location} (hfront : front <+: place) : tree.isDirAt front = true := by
  by_cases hsame : front = place
  · exact hsame ▸ hdir
  · exact h front hfront hsame

theorem isReached_root (tree : FileTree) : tree.IsReached [] := fun _ hfront hne =>
  absurd (List.prefix_nil.mp hfront) hne

theorem IsReached.step (h : tree.IsReached place) (hdir : tree.isDirAt place = true)
    (segment : Bytes) : tree.IsReached (place.step segment) := by
  intro front hfront hne
  unfold Location.step at hfront hne
  split at hfront
  · exact h.isDirAt hdir hfront
  · split at hfront
    · exact h.isDirAt hdir (hfront.trans (List.dropLast_prefix place))
    · rw [if_neg ‹_›, if_neg ‹_›] at hne
      rcases List.prefix_concat_iff.mp hfront with hsame | hfront
      · exact absurd hsame hne
      · exact h.isDirAt hdir hfront

/-- A walk goes through directories only. -/
theorem IsReached.walk (h : tree.IsReached place) (hwalk : tree.walk place segments = .ok found) :
    tree.IsReached found := by
  induction segments generalizing place with
  | nil => exact Except.ok.inj hwalk ▸ h
  | cons segment segments ih =>
    rw [walk_cons] at hwalk
    split at hwalk
    · cases hwalk
    · next hdir =>
      split at hwalk
      · cases hwalk
      · exact ih (h.step (by simpa using hdir) segment) hwalk

/-- A walk that ends at a file ends with its name. -/
theorem walk_file {last : Bytes} {content : Bytes}
    (hwalk : tree.walk [] (segments ++ [last]) = .ok found)
    (hfile : tree.get? found = some (.file content)) :
    IsName last ∧ tree.walk [] segments = .ok found.dropLast
      ∧ tree.isDirAt found.dropLast = true := by
  rw [walk_append] at hwalk
  split at hwalk
  · next middle hmiddle =>
    have hreached := (isReached_root tree).walk hmiddle
    rw [walk_cons] at hwalk
    split at hwalk
    · cases hwalk
    next hdir =>
    have hdir : tree.isDirAt middle = true := by simpa using hdir
    split at hwalk
    · cases hwalk
    obtain rfl : middle.step last = found := Except.ok.inj hwalk
    have hleaves : ∀ front, front <+: middle → middle.step last ≠ front := fun front hfront hsame => by
      have hfront := hreached.isDirAt hdir hfront
      rw [← hsame, isDirAt_iff, hfile] at hfront
      cases hfront
    have hname : IsName last :=
      ⟨fun h => hleaves middle List.prefix_rfl (by simp [Location.step, h, Path.isInert]),
        fun h => hleaves middle List.prefix_rfl (by simp [Location.step, h, Path.isInert]),
        fun h => hleaves middle.dropLast (List.dropLast_prefix middle) (by
          simp [Location.step, h, Path.isInert, up])⟩
    rw [Location.step_of_isName hname, List.dropLast_concat]
    exact ⟨hname, hmiddle, hdir⟩
  · cases hwalk

/-- Segments that are no components do not lead anywhere else. -/
theorem walk_inert (hinert : ∀ segment ∈ segments, Path.isInert segment)
    (hwalk : tree.walk place segments = .ok found) : found = place := by
  induction segments generalizing place with
  | nil => exact (Except.ok.inj hwalk).symm
  | cons segment segments ih =>
    obtain ⟨hfirst, hinert⟩ := List.forall_mem_cons.mp hinert
    have hstay : place.step segment = place := if_pos hfirst
    rw [walk_cons] at hwalk
    split at hwalk
    · cases hwalk
    · split at hwalk
      · cases hwalk
      · rw [hstay] at hwalk
        exact ih hinert hwalk

end FileTree

/-! ## 3. The parent of a file -/

namespace Path

open FileTree (startOf segments)

theorem dropInertEnd_append (segments : List Bytes) :
    ∃ inert, segments = dropInertEnd segments ++ inert ∧ ∀ segment ∈ inert, isInert segment := by
  refine ⟨(segments.reverse.takeWhile isInert).reverse, ?_, fun segment hsegment => ?_⟩
  · have hsplit := congrArg List.reverse
      (List.takeWhile_append_dropWhile (p := isInert) (l := segments.reverse))
    rw [List.reverse_append, List.reverse_reverse] at hsplit
    exact hsplit.symm
  · exact List.mem_takeWhile_imp (List.mem_reverse.mp hsegment)

theorem splitOn_joinSegments {pieces : List Bytes} (hne : pieces ≠ [])
    (h : ∀ piece ∈ pieces, slash ∉ piece) : Text.splitOn slash (joinSegments pieces) = pieces := by
  induction pieces with
  | nil => exact absurd rfl hne
  | cons piece pieces ih =>
    obtain ⟨hpiece, hpieces⟩ := List.forall_mem_cons.mp h
    cases pieces with
    | nil => exact Text.splitOn_of_not_mem hpiece
    | cons next more =>
      rw [joinSegments, Text.splitOn_append, Text.splitOn_of_not_mem hpiece, ih (by simp) hpieces]
      · rfl
      · simp

theorem dropInertEnd_concat {last : Bytes} (h : isInert last = false)
    (front : List Bytes) : dropInertEnd (front ++ [last]) = front ++ [last] := by
  unfold dropInertEnd
  rw [List.reverse_append, List.reverse_singleton, List.singleton_append,
    List.dropWhile_cons_of_neg (by simp [h]), List.reverse_cons, List.reverse_reverse]

/-- The segments of an absolute path, behind the root. -/
theorem segments_of_slash {path : Path} {rest : Bytes} (h : path.bytes = slash :: rest) :
    segments path = [] :: Text.splitOn slash rest := by
  unfold segments
  rw [h, Text.splitOn, if_pos rfl]

theorem resolve_of_slash {tree : FileTree} {path : Path} {rest : Bytes} (cwd : Location)
    (h : path.bytes = slash :: rest) :
    tree.resolve cwd path = tree.walk [] (Text.splitOn slash rest) := by
  have hempty : path.bytes.isEmpty = false := by
    rw [h]
    rfl
  have hstart : startOf cwd path = [] := if_pos (isAbsolute_iff.mpr ⟨rest, h⟩)
  have hroot : tree.isDirAt [] = true := by simp [FileTree.isDirAt]
  unfold FileTree.resolve
  rw [hempty, hstart, segments_of_slash h, FileTree.walk_cons]
  simp [hroot, Location.IsName, Location.step, isInert]

/-- The segments in front of a last one, without those at the end that are no components, lead to the
same place. -/
theorem walk_dropInertEnd {tree : FileTree} {found : Location} {front : List Bytes}
    (hslash : ∀ piece ∈ front, slash ∉ piece)
    (hwalk : tree.walk [] front = .ok found) :
    tree.walk [] (Text.splitOn slash (joinSegments (dropInertEnd front))) = .ok found := by
  obtain ⟨inert, hfront, hinert⟩ := dropInertEnd_append front
  rw [hfront, FileTree.walk_append] at hwalk
  split at hwalk
  · next middle hmiddle =>
    obtain rfl := FileTree.walk_inert hinert hwalk
    by_cases hnil : dropInertEnd front = []
    · rw [hnil] at hmiddle ⊢
      obtain rfl := Except.ok.inj hmiddle
      have hroot : tree.isDirAt [] = true := by simp [FileTree.isDirAt]
      change tree.walk [] [[]] = _
      rw [FileTree.walk_cons]
      simp [hroot, Location.IsName, Location.step, isInert, FileTree.walk]
    · have hpieces : ∀ piece ∈ dropInertEnd front, slash ∉ piece := fun piece hpiece =>
        hslash piece (hfront ▸ List.mem_append_left _ hpiece)
      rw [splitOn_joinSegments hnil hpieces]
      exact hmiddle
  · cases hwalk

/-- The parent of an absolute path to a file is a path to the directory that holds the file. -/
theorem resolve_parent? {tree : FileTree} {cwd : Location} {path : Path} {content : Bytes}
    (habsolute : path.isAbsolute = true) (hfile : tree.readFile? cwd path = some content) :
    ∃ parent, path.parent? = some parent ∧ tree.resolve cwd parent = .ok (path.place cwd).dropLast
      ∧ tree.isDirAt (path.place cwd).dropLast = true := by
  obtain ⟨rest, hrest⟩ := isAbsolute_iff.mp habsolute
  obtain ⟨found, hresolve, hfound⟩ := FileTree.readFile?_eq_some_iff.mp hfile
  obtain rfl := place_of_resolve hresolve
  rw [resolve_of_slash cwd hrest] at hresolve
  obtain hnil | ⟨front, last, hpieces⟩ := List.eq_nil_or_concat (Text.splitOn slash rest)
  · exact absurd hnil (Text.splitOn_ne_nil slash rest)
  rw [List.concat_eq_append] at hpieces
  rw [hpieces] at hresolve
  obtain ⟨⟨hempty, hdot, -⟩, hwalk, hdir⟩ := FileTree.walk_file hresolve hfound
  have hvisible : isInert last = false := by
    rw [Bool.eq_false_iff]
    intro hinert
    have hlast : last = [] ∨ last = [dot] := by simpa [isInert] using hinert
    rcases hlast with rfl | rfl
    · exact hempty rfl
    · exact hdot rfl
  have hslash : ∀ piece ∈ front, slash ∉ piece := fun piece hpiece =>
    Text.not_mem_of_mem_splitOn (hpieces ▸ List.mem_append_left _ hpiece)
  have hparent : path.parent? =
      some ⟨slash :: joinSegments (dropInertEnd front)⟩ := by
    rw [parent?_of_isAbsolute hrest, hpieces, dropInertEnd_concat hvisible, List.dropLast_concat,
      if_neg (by simp)]
  refine ⟨_, hparent, ?_, hdir⟩
  exact (resolve_of_slash cwd rfl).trans (walk_dropInertEnd hslash hwalk)

end Path

end PublishOnce
