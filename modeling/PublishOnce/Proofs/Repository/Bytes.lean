/-
PublishOnce.Proofs.Repository.Bytes — what a reader has taken off.

A reader that succeeds says only what is left. The lemmas here say what was in
front of it.
-/
import Mathlib.Data.List.TakeWhile
import PublishOnce.Repository.Object

namespace PublishOnce

namespace Bytes

theorem eq_cons_of_strip? {b : UInt8} {bytes rest : Bytes} (h : strip? [b] bytes = some rest) :
    bytes = b :: rest := by
  cases bytes with
  | nil => cases h
  | cons c bytes =>
    simp only [strip?] at h
    split at h
    · next hb =>
      cases h
      rw [hb]
    · cases h

/-- A line end has one line feed, at its end. -/
theorem eq_append_of_lineEnd? {bytes rest : Bytes} (h : lineEnd? bytes = some rest) :
    ∃ front, bytes = front ++ lineFeed :: rest ∧ lineFeed ∉ front := by
  unfold lineEnd? at h
  split at h
  · next b tail =>
    split at h
    · next hb =>
      cases h
      exact ⟨[], by rw [hb]; rfl, List.not_mem_nil⟩
    · next hb =>
      split at h
      · split at h
        · next c tail =>
          split at h
          · next hc =>
            cases h
            refine ⟨[b], by rw [hc]; rfl, ?_⟩
            rw [List.mem_singleton]
            exact Ne.symm hb
          · cases h
        · cases h
      · cases h
  · cases h

theorem append_of_cut (p : UInt8 → Bool) (bytes : Bytes) :
    bytes = (cut p bytes).1 ++ (cut p bytes).2 := List.takeWhile_append_dropWhile.symm

theorem of_mem_cut {p : UInt8 → Bool} {bytes : Bytes} {b : UInt8} (h : b ∈ (cut p bytes).1) :
    p b = false := by
  simpa using List.mem_takeWhile_imp h

end Bytes

/-- An id that was taken off is hexadecimal digits. -/
theorem Repository.eq_append_of_takeId {bytes rest : Bytes} {id : Id}
    (h : takeId bytes = some (id, rest)) :
    ∃ digits : Bytes, bytes = digits ++ rest ∧ digits ≠ []
      ∧ ∀ b ∈ digits, Bytes.isHexDigit b = true := by
  obtain ⟨⟨hlength, hall⟩, h⟩ := Option.ite_none_right_eq_some.mp h
  obtain ⟨-, rfl⟩ := Prod.mk.inj (Option.some.inj h)
  refine ⟨bytes.take idLength, (List.take_append_drop ..).symm, ?_, List.all_eq_true.mp hall⟩
  intro hnil
  rw [hnil] at hlength
  cases hlength

end PublishOnce
