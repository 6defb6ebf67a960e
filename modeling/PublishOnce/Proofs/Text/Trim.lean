/-
PublishOnce.Proofs.Text.Trim — what is left of a text when white space is cut
off.

A trimmed text starts and ends with something to see, or there is nothing left of
it (`trimChars_cases`, `isBlank_of_mem_getLast?_dropBlankEnd`), and a text that does so
already is left as it is whatever white space follows it
(`trimChars_of_ends`). Nothing is left exactly of the blank texts
(`isEmpty_trim`), so the two ways of asking whether there is anything to see
give one answer.
-/
import Mathlib.Data.List.DropRight
import Mathlib.Data.List.TakeDrop
import PublishOnce.Text.Blank

namespace PublishOnce.Text

variable {cs : List Char}

/-- Cutting at the end stops at a character that is kept. -/
theorem rdropWhile_cons {p : Char → Bool} {c : Char} (h : p c = false) (rest : List Char) :
    ∃ kept, (c :: rest).rdropWhile p = c :: kept := by
  have hsome : (c :: rest).rdropWhile p ≠ [] := by
    rw [Ne, List.rdropWhile_eq_nil_iff]
    intro hall
    rw [hall c List.mem_cons_self] at h
    cases h
  obtain ⟨behind, hbehind⟩ := List.rdropWhile_prefix p (c :: rest)
  cases hkept : (c :: rest).rdropWhile p with
  | nil => exact absurd hkept hsome
  | cons first kept =>
    rw [hkept, List.cons_append] at hbehind
    rw [(List.cons.inj hbehind).1]
    exact ⟨kept, rfl⟩

/-- White space at the front and at the end of a text is gone, and nothing else. -/
theorem trimChars_of_ends (hfront : ∀ c ∈ cs.head?, isBlank c = false)
    (hend : ∀ c ∈ cs.getLast?, isBlank c = false) {behind : List Char}
    (hbehind : ∀ c ∈ behind, isBlank c = true) : trimChars (cs ++ behind) = cs := by
  cases cs with
  | nil =>
    have hstart : dropBlankStart behind = [] :=
      dropBlankStart_eq_nil_iff.mpr (List.all_eq_true.mpr hbehind)
    rw [List.nil_append, trimChars, hstart]
    rfl
  | cons c rest =>
    have hstart : dropBlankStart (c :: rest ++ behind) = c :: rest ++ behind := by
      unfold dropBlankStart
      rw [List.cons_append, List.dropWhile_cons_of_neg (by simp [hfront c rfl])]
    have hcut : (c :: rest ++ behind).reverse.dropWhile isBlank =
        (c :: rest).reverse.dropWhile isBlank := by
      rw [List.reverse_append, List.dropWhile_append_of_pos]
      exact fun c hc => hbehind c (List.mem_reverse.mp hc)
    have hself : (c :: rest).rdropWhile isBlank = c :: rest :=
      List.rdropWhile_eq_self_iff.mpr fun hl => by
        simp [hend _ (List.getLast?_eq_some_getLast hl)]
    unfold trimChars dropBlankEnd
    rw [hstart, hcut]
    exact hself

/-- A trimmed text is empty or starts with something to see. -/
theorem trimChars_cases (cs : List Char) :
    trimChars cs = [] ∨ ∃ c rest, trimChars cs = c :: rest ∧ isBlank c = false := by
  unfold trimChars
  cases hstart : dropBlankStart cs with
  | nil => exact .inl rfl
  | cons c rest =>
    have hc : isBlank c = false := by
      have := List.head?_dropWhile_not isBlank cs
      unfold dropBlankStart at hstart
      rw [hstart] at this
      simpa using this
    obtain ⟨kept, hkept⟩ := rdropWhile_cons hc rest
    exact .inr ⟨c, kept, hkept, hc⟩

/-- Cutting at the end leaves something to see there. -/
theorem isBlank_of_mem_getLast?_dropBlankEnd {c : Char} (h : c ∈ (dropBlankEnd cs).getLast?) :
    ¬ isBlank c = true := by
  have hkept : dropBlankEnd cs ≠ [] := fun hnil => by
    rw [hnil] at h
    cases h
  rw [List.getLast?_eq_some_getLast hkept, Option.mem_some_iff] at h
  exact h ▸ List.rdropWhile_last_not isBlank cs hkept

/-- Nothing is left exactly of a blank text. -/
theorem trimChars_eq_nil_iff : trimChars cs = [] ↔ cs.all isBlank = true := by
  constructor
  · intro h
    by_contra hvisible
    have hstart : dropBlankStart cs ≠ [] := fun hnil => hvisible (dropBlankStart_eq_nil_iff.mp hnil)
    have hblank : isBlank ((dropBlankStart cs).head hstart) = true :=
      List.rdropWhile_eq_nil_iff.mp h _ (List.head_mem hstart)
    have hsome : isBlank ((dropBlankStart cs).head hstart) = false :=
      List.head_dropWhile_not isBlank hstart
    rw [hsome] at hblank
    cases hblank
  · intro h
    rw [trimChars, dropBlankStart_eq_nil_iff.mpr h]
    rfl

theorem isEmpty_trim (text : String) : (trim text).isEmpty = allBlank text := by
  rw [Bool.eq_iff_iff, allBlank, ← trimChars_eq_nil_iff, String.isEmpty_iff, trim,
    ← String.toList_eq_nil_iff, String.toList_ofList]

end PublishOnce.Text
