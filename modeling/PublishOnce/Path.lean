/-
PublishOnce.Path — the bytes of a path, joined, shortened and taken apart.

A path is kept exactly as it was written: `/w/.`, `/w/` and `a//b` are three
paths and none is tidied. It is bytes and need not be text; what is shown of it
is the lenient reading of these. What counts as one of its components is decided
when a question is asked. An empty segment or a `.` is no component, except for
the `.` that a relative path may start with; `..` is a component like any other,
because only the file system knows what it leads to.

`parent?` is the question everything else here serves. It takes the last
component away together with the separators and the `.` segments around it, so
the result is shorter (`length_parent?_lt`) and climbing from any path comes to
an end.
-/
import PublishOnce.Bytes
import PublishOnce.Text.Lines

namespace PublishOnce

@[ext]
structure Path where
  /-- The bytes, never normalised. -/
  bytes : Bytes
  deriving DecidableEq, Repr, Inhabited

namespace Path

@[match_pattern]
abbrev slash : UInt8 := 0x2F

@[match_pattern]
abbrev dot : UInt8 := 0x2E

abbrev ofText (text : String) : Path := ⟨text⟩

instance : Coe String Path := ⟨ofText⟩

/-- The path as it is shown to somebody who reads. -/
def shown (path : Path) : String := path.bytes.toText

/-! ## 1. Absolute paths and joining -/

def isAbsolute (path : Path) : Bool := path.bytes.head? = some slash

/-- The path reached from `base` by `path`: an absolute `path` replaces the base, and otherwise one
separator comes between them unless the base is empty or ends in one. -/
def join (base path : Path) : Path :=
  if path.isAbsolute then path
  else if base.bytes.isEmpty || base.bytes.getLast? = some slash then ⟨base.bytes ++ path.bytes⟩
  else ⟨base.bytes ++ slash :: path.bytes⟩

/-! ## 2. Segments -/

/-- What stands before the segments of a path. -/
inductive Anchor where
  | none
  /-- The `.` that a relative path starts with; it counts as a component. -/
  | here
  | root
  deriving DecidableEq, Repr

/-- Anchor and segments; the segments are what the separators part, empty ones included. -/
def shape : Bytes → Anchor × List Bytes
  | slash :: rest => (.root, Text.splitOn slash rest)
  | [dot] => (.here, [])
  | dot :: slash :: rest => (.here, Text.splitOn slash rest)
  | bytes => (.none, Text.splitOn slash bytes)

@[simp] theorem shape_nil : shape [] = (.none, [[]]) := rfl

@[simp] theorem shape_slash (rest : Bytes) :
    shape (slash :: rest) = (.root, Text.splitOn slash rest) := rfl

@[simp] theorem shape_dot : shape [dot] = (.here, []) := rfl

@[simp] theorem shape_dot_slash (rest : Bytes) :
    shape (dot :: slash :: rest) = (.here, Text.splitOn slash rest) := rfl

/-- Segments with a separator between each two. -/
def joinSegments : List Bytes → Bytes
  | [] => []
  | [segment] => segment
  | segment :: rest => segment ++ slash :: joinSegments rest

def render : Anchor → List Bytes → Bytes
  | .none, segments => joinSegments segments
  | .here, segments => dot :: segments.flatMap (slash :: ·)
  | .root, segments => slash :: joinSegments segments

/-- A segment that is no component. -/
def isInert (segment : Bytes) : Bool := segment = [] || segment = [dot]

/-- Segments up to the last one that is a component. -/
def dropInertEnd (segments : List Bytes) : List Bytes :=
  (segments.reverse.dropWhile isInert).reverse

/-! ## 3. Parents and names -/

/-- The path without its last component; the root and the empty path have none. -/
def parent? (path : Path) : Option Path :=
  let (anchor, segments) := shape path.bytes
  match dropInertEnd segments with
  | [] => if anchor = .here then some ⟨[]⟩ else none
  | visible => some ⟨render anchor (dropInertEnd visible.dropLast)⟩

/-- The last component, unless that is the root, the `.` in front or a `..`. -/
def fileName? (path : Path) : Option Bytes :=
  match (dropInertEnd (shape path.bytes).2).getLast? with
  | some segment => if segment = [dot, dot] then none else some segment
  | none => none

/-- A file name cut at its last dot; a dot in front cuts nothing off. -/
def splitExtension (name : Bytes) : Bytes × Option Bytes :=
  let after := (name.reverse.takeWhile (· ≠ dot)).reverse
  let before := name.take (name.length - after.length - 1)
  if before.isEmpty then (name, none) else (before, some after)

def fileStem? (path : Path) : Option Bytes := path.fileName?.map fun name => (splitExtension name).1

def extension? (path : Path) : Option Bytes := path.fileName?.bind fun name => (splitExtension name).2

/-! ## 4. A parent is shorter -/

theorem joinSegments_splitOn (bytes : Bytes) : joinSegments (Text.splitOn slash bytes) = bytes := by
  induction bytes with
  | nil => rfl
  | cons c rest ih =>
    unfold Text.splitOn
    split
    · rename_i h
      subst h
      cases hs : Text.splitOn slash rest with
      | nil => exact absurd hs (Text.splitOn_ne_nil _ _)
      | cons piece more => rw [hs] at ih; simp [joinSegments, ih]
    · split
      · rename_i hs; exact absurd hs (Text.splitOn_ne_nil _ _)
      · rename_i piece more hs
        rw [hs] at ih
        cases more with
        | nil => simpa [joinSegments] using ih
        | cons _ _ => simpa [joinSegments] using ih

theorem flatMap_eq_joinSegments {segments : List Bytes} (h : segments ≠ []) :
    segments.flatMap (slash :: ·) = slash :: joinSegments segments := by
  induction segments with
  | nil => exact absurd rfl h
  | cons segment rest ih =>
    cases rest with
    | nil => simp [joinSegments]
    | cons _ _ => simpa [joinSegments] using ih (by simp)

/-- Nothing is lost in taking a path apart. -/
theorem render_shape (bytes : Bytes) : render (shape bytes).1 (shape bytes).2 = bytes := by
  unfold shape
  split
  · simp [render, joinSegments_splitOn]
  · rfl
  · simp [render, flatMap_eq_joinSegments (Text.splitOn_ne_nil _ _), joinSegments_splitOn]
  · simp [render, joinSegments_splitOn]

/-- Segments and one separator for each. -/
def span : List Bytes → Nat
  | [] => 0
  | segment :: rest => segment.length + 1 + span rest

theorem span_append (xs ys : List Bytes) : span (xs ++ ys) = span xs + span ys := by
  induction xs with
  | nil => simp [span]
  | cons segment rest ih =>
    simp only [List.cons_append, span, ih]
    omega

theorem length_joinSegments (segments : List Bytes) :
    (joinSegments segments).length = span segments - 1 := by
  induction segments with
  | nil => rfl
  | cons segment rest ih =>
    cases rest with
    | nil => simp [joinSegments, span]
    | cons next more =>
      simp only [joinSegments, List.length_append, List.length_cons, ih, span]
      omega

theorem length_flatMap_slash (segments : List Bytes) :
    (segments.flatMap (slash :: ·)).length = span segments := by
  induction segments with
  | nil => rfl
  | cons segment rest ih =>
    simp only [List.flatMap_cons, List.length_append, List.length_cons, ih, span]

theorem dropInertEnd_isPrefix (segments : List Bytes) :
    dropInertEnd segments <+: segments := by
  have h := List.dropWhile_suffix (l := segments.reverse) isInert
  rw [← List.reverse_prefix] at h
  simpa [dropInertEnd] using h

theorem not_isInert_getLast {segments : List Bytes} (h : dropInertEnd segments ≠ []) :
    isInert ((dropInertEnd segments).getLast h) = false := by
  unfold dropInertEnd at *
  rw [List.getLast_reverse]
  have := List.head?_dropWhile_not isInert segments.reverse
  rw [List.head?_eq_some_head (by simpa using h)] at this
  simpa using this

theorem length_parent?_lt {path parent : Path} (h : path.parent? = some parent) :
    parent.bytes.length < path.bytes.length := by
  unfold parent? at h
  generalize hs : shape path.bytes = shaped at h
  obtain ⟨anchor, segments⟩ := shaped
  have htext := render_shape path.bytes
  rw [hs] at htext
  rw [← htext]
  simp only at h
  split at h
  · split at h
    · rename_i ha
      simp only [Option.some.injEq] at h
      subst h ha
      simp [render]
    · simp at h
  · rename_i visible hne
    simp only [Option.some.injEq] at h
    subst h
    have hvis : dropInertEnd segments ≠ [] := hne
    obtain ⟨tail, htail⟩ := dropInertEnd_isPrefix segments
    obtain ⟨tail', htail'⟩ := dropInertEnd_isPrefix (dropInertEnd segments).dropLast
    have hlast := not_isInert_getLast hvis
    have hlen : 1 ≤ ((dropInertEnd segments).getLast hvis).length := by
      cases hcase : (dropInertEnd segments).getLast hvis with
      | nil => simp [hcase, isInert] at hlast
      | cons _ _ => simp
    have hsplit := List.dropLast_concat_getLast hvis
    have hspan : span (dropInertEnd (dropInertEnd segments).dropLast) + 2 ≤ span segments := by
      have h1 : span segments = span (dropInertEnd segments) + span tail := by
        rw [← span_append, htail]
      have h2 : span (dropInertEnd segments)
          = span (dropInertEnd segments).dropLast
            + span [(dropInertEnd segments).getLast hvis] := by
        rw [← span_append, hsplit]
      have h3 : span (dropInertEnd segments).dropLast
          = span (dropInertEnd (dropInertEnd segments).dropLast) + span tail' := by
        rw [← span_append, htail']
      have h4 : 2 ≤ span [(dropInertEnd segments).getLast hvis] := by
        simp [span]; omega
      omega
    cases anchor <;>
      simp only [render, List.length_cons, length_joinSegments,
        length_flatMap_slash] <;> omega

/-- The path, its parent, the parent's parent and so on to the top. -/
def ancestors (path : Path) : List Path :=
  match _h : path.parent? with
  | none => [path]
  | some parent => path :: parent.ancestors
termination_by path.bytes.length
decreasing_by exact length_parent?_lt _h

end Path

end PublishOnce
