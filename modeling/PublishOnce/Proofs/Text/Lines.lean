/-
PublishOnce.Proofs.Text.Lines — a text that is put together of lines, and its
lines again.

Lines that hold no ends of their own are read back as they were, whichever of the
two ends each of them has (`lines_append_ending`). The carriage return is why both
characters must be kept out of a line: one at the end of a line would be taken for a
part of the end behind it.

The last line may do without an end, but then it must not be empty. An empty text
behind the last end is no line.
-/
import PublishOnce.Text.Lines

namespace PublishOnce.Text

/-- What a line may end with. -/
inductive LineEnd where
  | feed
  | returnFeed

def LineEnd.text : LineEnd → List Char
  | .feed => ['\n']
  | .returnFeed => ['\r', '\n']

/-- A text without line feeds and carriage returns. -/
def IsSingle (cs : List Char) : Prop := ∀ c ∈ cs, c ≠ '\n' ∧ c ≠ '\r'

variable {cs : List Char}

/-- A character that ends no line is the first one of the next line. -/
theorem lines_cons_of_ne {c : Char} (h : c ≠ '\n' ∧ c ≠ '\r') (rest : List Char) :
    lines (c :: rest) =
      match lines rest with
      | [] => [[c]]
      | line :: more => (c :: line) :: more := by
  rw [lines.eq_def (c :: rest)]
  split
  · next hnil => cases hnil
  · next hfeed => exact absurd (List.cons.inj hfeed).1 h.1
  · next hreturn => exact absurd (List.cons.inj hreturn).1 h.2
  · next hother =>
    obtain ⟨rfl, rfl⟩ := List.cons.inj hother
    rfl

theorem lines_ending_append (ending : LineEnd) (rest : List Char) :
    lines (ending.text ++ rest) = [] :: lines rest := by
  cases ending <;> simp [LineEnd.text, lines]

/-- A line and its end are read back, whatever follows. -/
theorem lines_append_ending (h : IsSingle cs) (ending : LineEnd) (rest : List Char) :
    lines (cs ++ (ending.text ++ rest)) = cs :: lines rest := by
  induction cs with
  | nil => exact lines_ending_append ending rest
  | cons c cs ih =>
    obtain ⟨hc, hcs⟩ := List.forall_mem_cons.mp h
    rw [List.cons_append, lines_cons_of_ne hc, ih hcs]

/-- A line without an end is read back unless it is empty. -/
theorem lines_of_isSingle (h : IsSingle cs) (hne : cs ≠ []) : lines cs = [cs] := by
  induction cs with
  | nil => exact absurd rfl hne
  | cons c cs ih =>
    obtain ⟨hc, hcs⟩ := List.forall_mem_cons.mp h
    rw [lines_cons_of_ne hc]
    by_cases hnil : cs = []
    · simp [hnil]
    · rw [ih hcs hnil]

end PublishOnce.Text
