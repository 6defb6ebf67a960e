/-
PublishOnce.Proofs.Text.Pieces — the pieces that a separator parts.

No piece has the separator in it, a text without the separator is one piece,
and putting a separator between two texts puts their pieces side by side
(`splitOn_append`). With these three a text that is known to be put together
in some way can be taken apart again without looking at its characters.
-/
import PublishOnce.Text.Lines

namespace PublishOnce.Text

variable {α : Type} [DecidableEq α] {separator : α} {cs : List α}

theorem splitOn_of_not_mem (h : separator ∉ cs) : splitOn separator cs = [cs] := by
  induction cs with
  | nil => rfl
  | cons c rest ih =>
    rw [List.mem_cons, not_or] at h
    rw [splitOn, if_neg (Ne.symm h.1), ih h.2]

theorem not_mem_of_mem_splitOn {piece : List α} (h : piece ∈ splitOn separator cs) :
    separator ∉ piece := by
  induction cs generalizing piece with
  | nil =>
    obtain rfl := List.mem_singleton.mp h
    exact List.not_mem_nil
  | cons c rest ih =>
    unfold splitOn at h
    by_cases hc : c = separator
    · rw [if_pos hc] at h
      rcases List.mem_cons.mp h with rfl | h
      · exact List.not_mem_nil
      · exact ih h
    · rw [if_neg hc] at h
      split at h
      · next hnil => exact absurd hnil (splitOn_ne_nil separator rest)
      · next first more hsplit =>
        rcases List.mem_cons.mp h with rfl | h
        · rw [List.mem_cons, not_or]
          exact ⟨Ne.symm hc, ih (hsplit ▸ List.mem_cons_self)⟩
        · exact ih (hsplit ▸ List.mem_cons_of_mem _ h)

theorem splitOn_cons_of_ne {c : α} (h : c ≠ separator) (rest : List α) :
    ∃ first more, splitOn separator (c :: rest) = (c :: first) :: more := by
  rw [splitOn, if_neg h]
  split
  · exact ⟨[], [], rfl⟩
  · next first more _ => exact ⟨first, more, rfl⟩

theorem splitOn_append (xs ys : List α) :
    splitOn separator (xs ++ separator :: ys) = splitOn separator xs ++ splitOn separator ys := by
  induction xs with
  | nil => simp [splitOn]
  | cons c rest ih =>
    rw [List.cons_append, splitOn, splitOn, ih]
    by_cases hc : c = separator
    · rw [if_pos hc, if_pos hc, List.cons_append]
    · rw [if_neg hc, if_neg hc]
      cases hrest : splitOn separator rest with
      | nil => exact absurd hrest (splitOn_ne_nil separator rest)
      | cons piece more => rfl

/-- What a text ends with, its last piece ends with. -/
theorem splitOn_concat {c : α} (h : c ≠ separator) (front : List α) :
    ∃ pieces piece, splitOn separator (front ++ [c]) = pieces ++ [piece ++ [c]] := by
  induction front with
  | nil => exact ⟨[], [], splitOn_of_not_mem (by simpa using Ne.symm h)⟩
  | cons d rest ih =>
    obtain ⟨pieces, piece, hsplit⟩ := ih
    rw [List.cons_append, splitOn, hsplit]
    by_cases hd : d = separator
    · exact ⟨[] :: pieces, piece, if_pos hd⟩
    · rw [if_neg hd]
      cases pieces with
      | nil => exact ⟨[], d :: piece, rfl⟩
      | cons first more => exact ⟨(d :: first) :: more, piece, rfl⟩

end PublishOnce.Text
