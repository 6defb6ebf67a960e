/-
PublishOnce.Text.Lines — the lines of a text.

A line ends at a line feed, or at a carriage return and a line feed, and the
end is not part of it. A text that stops without an end still has a last line,
so `"a\n"` and `"a"` both have one line and the empty text has none. A carriage
return anywhere else is an ordinary character.
-/

namespace PublishOnce.Text

/-- The lines of a text, without their ends. -/
def lines : List Char → List (List Char)
  | [] => []
  | '\n' :: rest => [] :: lines rest
  | '\r' :: '\n' :: rest => [] :: lines rest
  | c :: rest =>
    match lines rest with
    | [] => [[c]]
    | line :: more => (c :: line) :: more

@[simp] theorem lines_nil : lines [] = [] := by
  simp [lines]

@[simp] theorem lines_lineFeed (rest : List Char) : lines ('\n' :: rest) = [] :: lines rest := by
  simp [lines]

variable {α : Type} [DecidableEq α]

/-- Cut at every occurrence of a separator; there is always one piece more than separators. -/
def splitOn (separator : α) : List α → List (List α)
  | [] => [[]]
  | c :: rest =>
    if c = separator then [] :: splitOn separator rest
    else
      match splitOn separator rest with
      | [] => [[c]]
      | piece :: more => (c :: piece) :: more

theorem splitOn_ne_nil (separator : α) (cs : List α) : splitOn separator cs ≠ [] := by
  cases cs with
  | nil => simp [splitOn]
  | cons c rest =>
    unfold splitOn
    split
    · simp
    · split <;> simp

end PublishOnce.Text
