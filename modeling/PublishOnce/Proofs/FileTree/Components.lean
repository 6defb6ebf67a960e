/-
PublishOnce.Proofs.FileTree.Components — what a path consists of, and a name
behind it.

`/w`, `/w/` and `//w/.` are written in three ways and one path, as far as paths are compared:
what counts is what a path starts from and which of its segments are components
(`Path.components`). Whatever stands in front, a name that is joined to a path is
its last component, and its parent is the path again (`fileName?_join_name`,
`parent?_join_name`). It need not be written as before, since the separators and dots at
the end of the path go with the name, but it has the same components
(`components_trimmed`).

The dot in front is the one that can go wrong. It is a component where a
relative path starts with it, so a path that is put together again must not start
with a dot that was a segment before. None does: the first segment of such a path
is neither empty nor a dot (`shape_joinSegments`).
-/
import PublishOnce.Proofs.FileTree.Parents

namespace PublishOnce

namespace Path

open Location (IsPlain)

variable {base : Path} {name bytes : Bytes} {segments inert : List Bytes}

/-! ## 1. Segments that are no components -/

theorem dropInertEnd_append_inert (hinert : ∀ segment ∈ inert, isInert segment)
    (segments : List Bytes) : dropInertEnd (segments ++ inert) = dropInertEnd segments := by
  unfold dropInertEnd
  rw [List.reverse_append, List.dropWhile_append_of_pos]
  intro segment hsegment
  exact hinert segment (List.mem_reverse.mp hsegment)

theorem filter_dropInertEnd (segments : List Bytes) :
    (dropInertEnd segments).filter (!isInert ·) = segments.filter (!isInert ·) := by
  obtain ⟨inert, happend, hinert⟩ := dropInertEnd_append segments
  have hnone : inert.filter (!isInert ·) = [] := by
    rw [List.filter_eq_nil_iff]
    intro segment hsegment
    simp [hinert segment hsegment]
  conv_rhs => rw [happend, List.filter_append, hnone, List.append_nil]

/-! ## 2. The shape of a path that is put together -/

/-- What starts neither at the root nor with a dot of its own is all segments. -/
theorem shape_of_plain (hroot : ∀ more, bytes ≠ slash :: more) (hdot : bytes ≠ [dot])
    (hhere : ∀ more, bytes ≠ dot :: slash :: more) :
    shape bytes = (.none, Text.splitOn slash bytes) := by
  unfold shape
  split
  · exact absurd rfl (hroot _)
  · exact absurd rfl hdot
  · exact absurd rfl (hhere _)
  · rfl

theorem shape_of_not_mem (hslash : slash ∉ bytes) (hdot : bytes ≠ [dot]) :
    shape bytes = (.none, [bytes]) := by
  have hplain : shape bytes = (.none, Text.splitOn slash bytes) := by
    refine shape_of_plain ?_ hdot ?_
    · rintro more rfl
      simp at hslash
    · rintro more rfl
      simp at hslash
  rw [hplain, Text.splitOn_of_not_mem hslash]

/-- A separator behind a path adds segments and changes none. The empty path is an exception, since a
separator behind it is the root. -/
theorem shape_append_slash (bytes : Bytes) :
    ∃ front, (∀ rest, shape (bytes ++ slash :: rest) = (front.1, front.2 ++ Text.splitOn slash rest))
      ∧ (bytes ≠ [] → shape bytes = front) := by
  by_cases hempty : bytes = []
  · subst hempty
    exact ⟨(.root, []), fun rest => rfl, fun h => absurd rfl h⟩
  by_cases hroot : ∃ more, bytes = slash :: more
  · obtain ⟨more, rfl⟩ := hroot
    refine ⟨_, fun rest => ?_, fun _ => rfl⟩
    simp [Text.splitOn_append]
  by_cases hdot : bytes = [dot]
  · subst hdot
    exact ⟨_, fun rest => rfl, fun _ => rfl⟩
  by_cases hhere : ∃ more, bytes = dot :: slash :: more
  · obtain ⟨more, rfl⟩ := hhere
    refine ⟨_, fun rest => ?_, fun _ => rfl⟩
    simp [Text.splitOn_append]
  push Not at hroot hhere
  refine ⟨_, fun rest => ?_, fun _ => rfl⟩
  rw [shape_of_plain hroot hdot hhere, shape_of_plain, Text.splitOn_append]
  -- The first two bytes are those of the path, and these start nothing.
  all_goals
    obtain _ | ⟨c, _ | ⟨d, more⟩⟩ := bytes <;> simp_all

theorem joinSegments_cons (first : Bytes) (segments : List Bytes) :
    ∃ behind, joinSegments (first :: segments) = first ++ behind := by
  cases segments with
  | nil => exact ⟨[], by simp [joinSegments]⟩
  | cons next more => exact ⟨slash :: joinSegments (next :: more), by simp [joinSegments]⟩

/-- Segments that are put together are read back, unless the first is empty or a dot. -/
theorem shape_joinSegments {first : Bytes} (hinert : isInert first = false)
    (hslash : ∀ segment ∈ first :: segments, slash ∉ segment) :
    shape (joinSegments (first :: segments)) = (.none, first :: segments) := by
  have hplain : shape (joinSegments (first :: segments)) =
      (.none, Text.splitOn slash (joinSegments (first :: segments))) := by
    have hfirst : ∀ c ∈ first, c ≠ slash := by
      rintro c hc rfl
      exact hslash first List.mem_cons_self hc
    obtain ⟨behind, hbehind⟩ := joinSegments_cons first segments
    rw [hbehind]
    refine shape_of_plain ?_ ?_ ?_
    all_goals
      obtain _ | ⟨c, _ | ⟨d, more⟩⟩ := first <;> simp_all [isInert]
  rw [hplain, splitOn_joinSegments (by simp) hslash]

theorem slash_not_mem_of_mem_shape {segment : Bytes} (h : segment ∈ (shape bytes).2) :
    slash ∉ segment := by
  unfold shape at h
  split at h
  · exact Text.not_mem_of_mem_splitOn h
  · simp at h
  · exact Text.not_mem_of_mem_splitOn h
  · exact Text.not_mem_of_mem_splitOn h

/-- A path that starts from nothing starts with a component, unless it is empty. -/
theorem eq_nil_of_isInert {first : Bytes} (hanchor : (shape bytes).1 = .none)
    (hfirst : first ∈ (shape bytes).2.head?) (hinert : isInert first = true) : bytes = [] := by
  obtain ⟨more, hsegments⟩ := List.head?_eq_some_iff.mp hfirst
  have hbytes : joinSegments (first :: more) = bytes := by
    rw [← render_shape bytes, hanchor, hsegments, render]
  have hcases : first = [] ∨ first = [dot] := by simpa [isInert] using hinert
  rcases hcases with rfl | rfl <;> cases more <;> simp only [joinSegments] at hbytes <;> subst hbytes
  · rfl
  -- What is left starts at the root or with a dot of its own.
  all_goals simp at hanchor

theorem isInert_head?_of_isPrefix {front : List Bytes} (hbytes : bytes ≠ [])
    (hanchor : (shape bytes).1 = .none) (hfront : front <+: (shape bytes).2) :
    ∀ first ∈ front.head?, isInert first = false := by
  intro first hfirst
  rw [Bool.eq_false_iff]
  intro hinert
  have hhead : first ∈ (shape bytes).2.head? := by
    obtain ⟨behind, happend⟩ := hfront
    rw [← happend, List.head?_append, Option.mem_def.mp hfirst]
    rfl
  exact hbytes (eq_nil_of_isInert hanchor hhead hinert)

/-- A rendered path has the anchor and the components that it was made of. -/
theorem shape_render {anchor : Anchor} (hslash : ∀ segment ∈ segments, slash ∉ segment)
    (hfirst : anchor = .none → ∀ first ∈ segments.head?, isInert first = false) :
    (shape (render anchor segments)).1 = anchor
      ∧ (shape (render anchor segments)).2.filter (!isInert ·) = segments.filter (!isInert ·) := by
  cases segments with
  | nil => cases anchor <;> simp [render, joinSegments, Text.splitOn, isInert]
  | cons first more =>
    have hsplit := splitOn_joinSegments (List.cons_ne_nil first more) hslash
    have hshape : shape (render anchor (first :: more)) = (anchor, first :: more) := by
      cases anchor with
      | none => exact shape_joinSegments (hfirst rfl first rfl) hslash
      | here =>
        rw [render, flatMap_eq_joinSegments (List.cons_ne_nil first more), shape_dot_slash, hsplit]
      | root => rw [render, shape_slash, hsplit]
    rw [hshape]
    exact ⟨rfl, rfl⟩

/-! ## 3. Components -/

/-- What a path consists of: what it starts from, and those of its segments that count. -/
def components (path : Path) : Anchor × List Bytes :=
  ((shape path.bytes).1, (shape path.bytes).2.filter (!isInert ·))

/-- A path without the separators and the dots at its end. -/
def trimmed (path : Path) : Path :=
  ⟨render (shape path.bytes).1 (dropInertEnd (shape path.bytes).2)⟩

theorem components_trimmed (path : Path) : path.trimmed.components = path.components := by
  by_cases hbytes : path.bytes = []
  · obtain rfl : path = ⟨[]⟩ := congrArg Path.mk hbytes
    decide +kernel
  unfold components trimmed
  simp only
  have hfront := dropInertEnd_isPrefix (shape path.bytes).2
  have hslash : ∀ segment ∈ dropInertEnd (shape path.bytes).2, slash ∉ segment := by
    intro segment hsegment
    exact slash_not_mem_of_mem_shape (hfront.subset hsegment)
  have hfirst : (shape path.bytes).1 = .none →
      ∀ first ∈ (dropInertEnd (shape path.bytes).2).head?, isInert first = false := by
    intro hanchor
    exact isInert_head?_of_isPrefix hbytes hanchor hfront
  obtain ⟨hanchor, hsegments⟩ := shape_render hslash hfirst
  rw [hanchor, hsegments, filter_dropInertEnd]

/-! ## 4. A name behind a path -/

theorem isInert_of_isPlain (hname : IsPlain name) : isInert name = false := by
  obtain ⟨⟨hempty, hdot, -⟩, -⟩ := hname
  simp [isInert, hempty, hdot]

/-- A name that is joined to a path comes behind its segments, but for those at the end that are no
components. -/
theorem shape_join_name (hname : IsPlain name) (base : Path) :
    ∃ front inert, (shape base.bytes).2 = front ++ inert
      ∧ (∀ segment ∈ inert, isInert segment)
      ∧ shape (base.join ⟨name⟩).bytes = ((shape base.bytes).1, front ++ [name]) := by
  have hlast := Text.splitOn_of_not_mem hname.2
  unfold join
  rw [if_neg (by simp [isAbsolute_of_not_mem hname.2])]
  by_cases hempty : base.bytes = []
  · have hbase : shape base.bytes = (.none, [[]]) := by
      rw [hempty]
      rfl
    refine ⟨[], [[]], by rw [hbase]; rfl, by simp [isInert], ?_⟩
    rw [hbase, if_pos (by simp [hempty]), hempty, List.nil_append]
    exact shape_of_not_mem hname.2 hname.1.2.1
  by_cases hends : base.bytes.getLast? = some slash
  · obtain ⟨bytes, hbytes⟩ := List.getLast?_eq_some_iff.mp hends
    obtain ⟨front, hfront, -⟩ := shape_append_slash bytes
    have hbase : shape base.bytes = (front.1, front.2 ++ [[]]) := by
      rw [hbytes, hfront]
      rfl
    rw [if_pos (by simp [hends])]
    refine ⟨front.2, [[]], by rw [hbase], by simp [isInert], ?_⟩
    show shape (base.bytes ++ name) = _
    rw [hbase, hbytes, List.append_assoc, List.singleton_append, hfront, hlast]
  · obtain ⟨front, hfront, hbase⟩ := shape_append_slash base.bytes
    rw [if_neg (by simp [hends, hempty])]
    have hbase := hbase hempty
    refine ⟨front.2, [], by simp [hbase], by simp, ?_⟩
    show shape (base.bytes ++ slash :: name) = _
    rw [hfront, hlast, hbase]

theorem fileName?_join_name (hname : IsPlain name) (base : Path) :
    (base.join ⟨name⟩).fileName? = some name := by
  obtain ⟨front, inert, -, -, hshape⟩ := shape_join_name hname base
  have hup : name ≠ [dot, dot] := hname.1.2.2
  simp [fileName?, hshape, dropInertEnd_concat (isInert_of_isPlain hname), hup]

/-- The parent of a name that is joined to a path is the path. -/
theorem parent?_join_name (hname : IsPlain name) (base : Path) :
    (base.join ⟨name⟩).parent? = some base.trimmed := by
  obtain ⟨front, inert, hbase, hinert, hshape⟩ := shape_join_name hname base
  unfold parent? trimmed
  rw [hshape, hbase, dropInertEnd_append_inert hinert]
  simp only [dropInertEnd_concat (isInert_of_isPlain hname)]
  split
  · next hnil => simp at hnil
  · rw [List.dropLast_concat]

/-- A path that ends in a name has nothing at its end to be taken away. -/
theorem trimmed_join_name (hname : IsPlain name) (base : Path) :
    (base.join ⟨name⟩).trimmed = base.join ⟨name⟩ := by
  obtain ⟨front, inert, -, -, hshape⟩ := shape_join_name hname base
  have hrender := render_shape (base.join ⟨name⟩).bytes
  unfold trimmed
  rw [hshape] at hrender ⊢
  rw [dropInertEnd_concat (isInert_of_isPlain hname), hrender]

end Path

end PublishOnce
