/-
PublishOnce.Proofs.Rows — looking a key up among rows.

Tables are lists of rows here: the entries of a document, the places of a file
tree, the options of a command line. A look-up takes the first row with a key.
With distinct keys it takes the only one, and it no longer matters how the
rows are ordered.
-/
import Mathlib.Data.List.Nodup

namespace PublishOnce.Rows

variable {κ β : Type} [BEq κ] [LawfulBEq κ] {rows : List (κ × β)} {key : κ} {value : β}

theorem lookup_eq_none_iff_not_mem : rows.lookup key = none ↔ key ∉ rows.map Prod.fst := by
  rw [List.lookup_eq_none_iff, List.mem_map, not_exists]
  refine forall_congr' fun row => ?_
  rw [not_and]
  refine imp_congr_right fun _ => ?_
  rw [bne_iff_ne]
  exact ne_comm

theorem mem_of_lookup (h : rows.lookup key = some value) : (key, value) ∈ rows := by
  obtain ⟨front, back, rfl, -⟩ := List.lookup_eq_some_iff.mp h
  simp

/-- With distinct keys, every row is found. -/
theorem lookup_eq_some_iff_mem (h : (rows.map Prod.fst).Nodup) :
    rows.lookup key = some value ↔ (key, value) ∈ rows := by
  refine ⟨mem_of_lookup, fun hmem => ?_⟩
  obtain ⟨front, back, rfl⟩ := List.append_of_mem hmem
  refine List.lookup_eq_some_iff.mpr ⟨front, back, rfl, fun row hrow => bne_iff_ne.mpr ?_⟩
  rintro rfl
  rw [List.map_append, List.nodup_append] at h
  exact h.2.2 _ (List.mem_map_of_mem hrow) _ List.mem_cons_self rfl

theorem lookup_filter (keep : κ → Bool) (rows : List (κ × β)) (key : κ) :
    (rows.filter fun row => keep row.1).lookup key = if keep key then rows.lookup key else none := by
  induction rows with
  | nil => simp
  | cons row rest ih =>
    obtain ⟨here, value⟩ := row
    by_cases hrow : key = here
    · subst hrow
      cases hkeep : keep key <;> simp [hkeep, ih]
    · have hother : (key == here) = false := beq_eq_false_iff_ne.mpr hrow
      cases hkeep : keep here <;> simp [hkeep, List.lookup_cons, hother, ih]

end PublishOnce.Rows
