/-
PublishOnce.Text.Blank — white space, and what is left when it is cut off
the ends of a text.

White space is the Unicode property `White_Space`, not the ASCII blanks: a
branch name pasted with a no-break space is as unusable as one with a plain
space, and a revision printed between line separators is still a revision.
Cutting is done on `List Char`, where it is `dropWhile` at either end; the
`String` versions only wrap it.
-/

namespace PublishOnce.Text

/-! ## 1. The property -/

/-- The inclusive code point ranges of `White_Space`. -/
def blankRanges : List (Nat × Nat) :=
  [(0x09, 0x0D), (0x20, 0x20), (0x85, 0x85), (0xA0, 0xA0), (0x1680, 0x1680), (0x2000, 0x200A),
   (0x2028, 0x2029), (0x202F, 0x202F), (0x205F, 0x205F), (0x3000, 0x3000)]

/-- White space: the code point lies in one of the ranges. -/
def isBlank (c : Char) : Bool :=
  blankRanges.any fun range => range.1 ≤ c.toNat && c.toNat ≤ range.2

/-! ## 2. Cutting at the ends -/

/-- The text from its first visible character on. -/
def dropBlankStart (cs : List Char) : List Char := cs.dropWhile isBlank

/-- The text up to its last visible character. -/
def dropBlankEnd (cs : List Char) : List Char := (cs.reverse.dropWhile isBlank).reverse

/-- The text between its first and its last visible character, both included. -/
def trimChars (cs : List Char) : List Char := dropBlankEnd (dropBlankStart cs)

def trim (s : String) : String := String.ofList (trimChars s.toList)

/-- A text with nothing to see in it, the empty one included. -/
def allBlank (s : String) : Bool := s.toList.all isBlank

def hasBlank (s : String) : Bool := s.toList.any isBlank

/-- Nothing is left of a text when, and only when, there was nothing to see in it. -/
theorem dropBlankStart_eq_nil_iff {cs : List Char} :
    dropBlankStart cs = [] ↔ cs.all isBlank = true := by
  unfold dropBlankStart
  induction cs with
  | nil => simp
  | cons c rest ih =>
    cases h : isBlank c
    · simp [h]
    · simp [h, ih]

end PublishOnce.Text
