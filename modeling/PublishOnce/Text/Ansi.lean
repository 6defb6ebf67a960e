/-
PublishOnce.Text.Ansi — colours and weights on a terminal.

A style is switched on by `ESC [ n m` and off again by a code of its own, so
styles nest by plain nesting of the strings. Codes arrive in git's messages
too; before such a message is judged, every `ESC [` followed by digits and
semicolons and an `m` is taken out.
-/

namespace PublishOnce.Text.Ansi

/-! ## 1. Writing -/

/-- The styles in use. -/
inductive Style where
  | bold | dimmed
  | red | green | yellow | cyan
  | brightRed | brightGreen | brightYellow | brightBlue
  deriving DecidableEq, Repr

def Style.on : Style → String
  | .bold => "1"
  | .dimmed => "2"
  | .red => "31"
  | .green => "32"
  | .yellow => "33"
  | .cyan => "36"
  | .brightRed => "91"
  | .brightGreen => "92"
  | .brightYellow => "93"
  | .brightBlue => "94"

/-- The number that switches it off: weights end with everything, colours with the default colour. -/
def Style.off : Style → String
  | .bold | .dimmed => "0"
  | _ => "39"

def escape : Char := '\x1b'

def code (number : String) : String := String.ofList [escape, '['] ++ number ++ "m"

def Style.paint (style : Style) (text : String) : String :=
  code style.on ++ text ++ code style.off

/-! ## 2. Taking codes out -/

/-- What may stand between `ESC [` and `m`. -/
def isParameter (c : Char) : Bool := c.isDigit || c = ';'

/-- The text behind a code whose `ESC` has just been read, if a code it is. -/
def afterCode? : List Char → Option (List Char)
  | '[' :: rest =>
    match rest.dropWhile isParameter with
    | 'm' :: rest => some rest
    | _ => none
  | _ => none

theorem length_dropWhile_le {α : Type} (p : α → Bool) (xs : List α) :
    (xs.dropWhile p).length ≤ xs.length := by
  induction xs with
  | nil => simp
  | cons x rest ih =>
    simp only [List.dropWhile_cons]
    split
    · exact Nat.le_succ_of_le ih
    · simp

theorem length_afterCode?_lt {cs rest : List Char} (h : afterCode? cs = some rest) :
    rest.length < cs.length := by
  unfold afterCode? at h
  split at h
  · rename_i inner
    split at h
    · rename_i tail heq
      have := length_dropWhile_le isParameter inner
      simp only [Option.some.injEq] at h
      subst h
      simp only [heq, List.length_cons] at this ⊢
      omega
    · simp at h
  · simp at h

/-- The text without its codes; an `ESC` that starts none stays. -/
def strip : List Char → List Char
  | [] => []
  | c :: rest =>
    if c = escape then
      match _h : afterCode? rest with
      | some behind => strip behind
      | none => c :: strip rest
    else c :: strip rest
termination_by cs => cs.length
decreasing_by
  · exact Nat.lt_succ_of_lt (length_afterCode?_lt _h)
  · simp
  · simp

def stripString (s : String) : String := String.ofList (strip s.toList)

end PublishOnce.Text.Ansi
