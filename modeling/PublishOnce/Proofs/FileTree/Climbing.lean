/-
PublishOnce.Proofs.FileTree.Climbing — the way up from a path, and how long it is.

The parent of a path is found in its bytes, and they get fewer, so the way up comes
to an end. How long it is can be said without climbing: every step takes one component
away (`components_parent?`), so there are as many steps as there are
components (`climb_eq_none_iff`). Separators and dots on the way are no steps, `..` is
one like any name, and the `.` that a relative path starts with is one as well, since
the empty path is its parent.

It is the components that are counted and not the segments, because a parent loses more
than one segment at a time: the separators and dots in front of a component go with it.
-/
import PublishOnce.Proofs.FileTree.Components

namespace PublishOnce

namespace Path

variable {path parent : Path}

/-! ## 1. One step -/

/-- What there is to be taken away from a path. -/
def depth (path : Path) : Nat :=
  path.components.2.length + if path.components.1 = .here then 1 else 0

/-- A path without components is not taken apart, unless it starts with a dot. -/
theorem dropInertEnd_shape_eq_nil_iff :
    dropInertEnd (shape path.bytes).2 = [] ↔ path.components.2 = [] := by
  show _ ↔ (shape path.bytes).2.filter (!isInert ·) = []
  rw [← filter_dropInertEnd]
  constructor
  · intro h
    rw [h, List.filter_nil]
  · intro h
    by_contra hne
    have hlast := not_isInert_getLast hne
    have hmem := List.getLast_mem hne
    simpa [hlast] using List.filter_eq_nil_iff.mp h _ hmem

/-- A parent lacks the last component. The dot in front goes last, and leaves nothing. -/
theorem components_parent? (h : path.parent? = some parent) :
    (∃ last, path.components = (parent.components.1, parent.components.2 ++ [last]))
      ∨ path.components = (.here, []) ∧ parent.components = (.none, []) := by
  unfold parent? at h
  simp only at h
  split at h
  · next hnil =>
    split at h
    · next hhere =>
      obtain rfl := Option.some.inj h
      exact .inr ⟨Prod.ext hhere (dropInertEnd_shape_eq_nil_iff.mp hnil), by decide +kernel⟩
    · cases h
  · next hne =>
    obtain rfl := Option.some.inj h
    have hfront : dropInertEnd (dropInertEnd (shape path.bytes).2).dropLast <+:
        (shape path.bytes).2 :=
      ((dropInertEnd_isPrefix _).trans (List.dropLast_prefix _)).trans (dropInertEnd_isPrefix _)
    have hslash : ∀ segment ∈ dropInertEnd (dropInertEnd (shape path.bytes).2).dropLast,
        slash ∉ segment := by
      intro segment hsegment
      exact slash_not_mem_of_mem_shape (hfront.subset hsegment)
    have hbytes : path.bytes ≠ [] := by
      intro hbytes
      rw [hbytes] at hne
      exact hne rfl
    obtain ⟨hanchor, hsegments⟩ := shape_render hslash fun hanchor =>
      isInert_head?_of_isPrefix hbytes hanchor hfront
    have hlast := not_isInert_getLast hne
    refine .inl ⟨(dropInertEnd (shape path.bytes).2).getLast hne, ?_⟩
    unfold components
    simp only
    rw [hanchor, hsegments, filter_dropInertEnd, ← filter_dropInertEnd]
    conv_lhs => rw [← List.dropLast_concat_getLast hne]
    simp [hlast]

theorem depth_of_parent? (h : path.parent? = some parent) : path.depth = parent.depth + 1 := by
  unfold depth
  rcases components_parent? h with ⟨last, hpath⟩ | ⟨hpath, hparent⟩
  · simp only [hpath, List.length_append, List.length_singleton]
    omega
  · simp [hpath, hparent]

/-- Only a path without components has no parent, be it the root or the empty path. -/
theorem parent?_eq_none_iff : path.parent? = none ↔ path.depth = 0 := by
  constructor
  · intro h
    unfold parent? at h
    simp only at h
    split at h
    · next hnil =>
      split at h
      · cases h
      · next hhere =>
        have hsegments : path.components.2 = [] := dropInertEnd_shape_eq_nil_iff.mp hnil
        have hanchor : path.components.1 ≠ .here := hhere
        simp [depth, hsegments, hanchor]
    · cases h
  · intro hdepth
    cases h : path.parent? with
    | none => rfl
    | some parent =>
      rw [depth_of_parent? h] at hdepth
      cases hdepth

/-! ## 2. The whole way -/

/-- The path that is so many steps up, if the way is long enough. -/
def climb : Path → Nat → Option Path
  | path, 0 => some path
  | path, steps + 1 =>
    match path.parent? with
    | none => none
    | some parent => parent.climb steps

@[simp] theorem climb_zero (path : Path) : path.climb 0 = some path := rfl

theorem climb_succ_of_parent?_eq_none (h : path.parent? = none) (steps : Nat) :
    path.climb (steps + 1) = none := by
  rw [climb, h]

theorem climb_succ_of_parent?_eq_some (h : path.parent? = some parent) (steps : Nat) :
    path.climb (steps + 1) = parent.climb steps := by
  rw [climb, h]

/-- The way up has as many steps as the path has components, and ends there. -/
theorem climb_eq_none_iff {steps : Nat} : path.climb steps = none ↔ path.depth < steps := by
  induction steps generalizing path with
  | zero => simp
  | succ steps ih =>
    cases h : path.parent? with
    | none =>
      have hdepth := parent?_eq_none_iff.mp h
      rw [climb_succ_of_parent?_eq_none h]
      simp [hdepth]
    | some parent =>
      rw [climb_succ_of_parent?_eq_some h, ih, depth_of_parent? h]
      omega

/-- Separators and dots are no steps, and `..` is one. -/
example : (Path.ofText "./a//../b/./").depth = 4
    ∧ (Path.ofText "./a//../b/./").climb 3 = some (.ofText ".") ∧ (Path.ofText "//").depth = 0 := by
  decide +kernel

end Path

end PublishOnce
