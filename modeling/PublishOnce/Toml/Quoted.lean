/-
PublishOnce.Toml.Quoted — the four kinds of string and the parts of a key.

A basic string has escapes, a literal one has none; either may be single-line
or, between tripled quotes, run over several lines. All four are read off the
front of the text, and every reader says what is left behind the closing quote.

A run of quotes inside a multi-line string needs care: up to two are content,
and the closing three may be the end of a run of up to five.
-/
import PublishOnce.Toml.Scalar

namespace PublishOnce.Toml

/-! ## 1. Characters and blanks -/

/-- The white space inside a line. -/
def isLineBlank (c : Char) : Bool := c = ' ' || c = '\t'

/-- What may stand in a comment or a string: the tab, and everything printable by its code, which
excludes the control characters. -/
def isPlain (c : Char) : Bool := c = '\t' || (0x20 ≤ c.toNat && c.toNat ≠ 0x7F)

def skipBlanks (cs : List Char) : List Char := cs.dropWhile isLineBlank

/-- What follows the end of a line. -/
def afterNewline? : List Char → Option (List Char)
  | '\n' :: rest => some rest
  | '\r' :: '\n' :: rest => some rest
  | _ => none

def skipLines : List Char → List Char
  | '\n' :: rest => skipLines rest
  | '\r' :: '\n' :: rest => skipLines rest
  | c :: rest => if isLineBlank c then skipLines rest else c :: rest
  | [] => []

/-! ## 2. Escapes -/

/-- The character with a code of exactly `count` hexadecimal digits, and what follows. A surrogate or
a number past the last code point is no character. -/
def coded? (count : Nat) (cs : List Char) : Option (Char × List Char) :=
  let digits := cs.take count
  let code := readDigits 16 digits
  if digits.length = count ∧ digits.all (isDigitOf 16) = true
      ∧ (code < 0xD800 ∨ (0xDFFF < code ∧ code < 0x110000))
  then some (Char.ofNat code, cs.drop count) else none

/-- The character of an escape whose backslash has been read, and what follows. -/
def escaped? : List Char → Option (Char × List Char)
  | 'b' :: rest => some ('\x08', rest)
  | 'f' :: rest => some ('\x0c', rest)
  | 'n' :: rest => some ('\n', rest)
  | 'r' :: rest => some ('\r', rest)
  | 't' :: rest => some ('\t', rest)
  | '"' :: rest => some ('"', rest)
  | '\\' :: rest => some ('\\', rest)
  | 'u' :: rest => coded? 4 rest
  | 'U' :: rest => coded? 8 rest
  | _ => none

/-! ## 3. Strings on one line -/

/-- The rest of a basic string. The first argument bounds the number of characters read. -/
def basicBody : Nat → List Char → Option (List Char × List Char)
  | 0, _ => none
  | _, [] => none
  | _ + 1, '"' :: rest => some ([], rest)
  | bound + 1, '\\' :: rest => do
    let (c, rest) ← escaped? rest
    let (text, rest) ← basicBody bound rest
    return (c :: text, rest)
  | bound + 1, c :: rest =>
    if isPlain c then (basicBody bound rest).map fun (text, rest) => (c :: text, rest) else none

/-- The rest of a literal string. -/
def literalBody : List Char → Option (List Char × List Char)
  | [] => none
  | '\'' :: rest => some ([], rest)
  | c :: rest =>
    if isPlain c then (literalBody rest).map fun (text, rest) => (c :: text, rest) else none

/-! ## 4. Strings over several lines -/

/-- The rest of a string between tripled quotes, with or without escapes. A line end is read as a
line feed. A backslash at the end of a line takes the line end and all white space behind it away.
The first argument bounds the number of steps. -/
def blockBody (quote : Char) (escapes : Bool) : Nat → List Char → Option (List Char × List Char)
  | 0, _ => none
  | _, [] => none
  | bound + 1, c :: rest =>
    let more (text rest : List Char) : Option (List Char × List Char) :=
      (blockBody quote escapes bound rest).map fun (tail, rest) => (text ++ tail, rest)
    if c = quote then
      let run := (c :: rest).takeWhile (· = quote)
      let behind := (c :: rest).dropWhile (· = quote)
      if run.length < 3 then more run behind
      else if run.length ≤ 5 then some (run.drop 3, behind)
      else none
    else if c = '\\' && escapes then
      match afterNewline? (skipBlanks rest) with
      | some behind => more [] (skipLines behind)
      | none => (escaped? rest).bind fun (c, behind) => more [c] behind
    else
      match afterNewline? (c :: rest) with
      | some behind => more ['\n'] behind
      | none => if isPlain c then more [c] rest else none

/-- A block string behind its opening quotes; a line end right there is not part of it. -/
def block (quote : Char) (escapes : Bool) (cs : List Char) : Option (List Char × List Char) :=
  let start := (afterNewline? cs).getD cs
  blockBody quote escapes (start.length + 1) start

/-- A string, whose kind its opening quotes tell. -/
def takeString : List Char → Option (List Char × List Char)
  | '"' :: '"' :: '"' :: rest => block '"' true rest
  | '\'' :: '\'' :: '\'' :: rest => block '\'' false rest
  | '"' :: rest => basicBody (rest.length + 1) rest
  | '\'' :: rest => literalBody rest
  | _ => none

/-! ## 5. Keys -/

/-- What a key may consist of without quotes. -/
def isBareKeyChar (c : Char) : Bool := c.isAlphanum || c = '-' || c = '_'

/-- One part of a key: quoted on one line, or bare. -/
def takeKeyPart : List Char → Option (String × List Char)
  | '"' :: rest =>
    (basicBody (rest.length + 1) rest).map fun (text, rest) => (String.ofList text, rest)
  | '\'' :: rest => (literalBody rest).map fun (text, rest) => (String.ofList text, rest)
  | cs =>
    let bare := cs.takeWhile isBareKeyChar
    if bare.isEmpty then none else some (String.ofList bare, cs.dropWhile isBareKeyChar)

/-- The parts of a dotted key, with the white space around each. The first argument is the number of
parts that may still come. -/
def takeKeyParts : Nat → List Char → Option (List String × List Char)
  | 0, _ => none
  | more + 1, cs => do
    let (part, rest) ← takeKeyPart (skipBlanks cs)
    match skipBlanks rest with
    | '.' :: rest => do
      let (parts, rest) ← takeKeyParts more rest
      return (part :: parts, rest)
    | rest => return ([part], rest)

/-- How deep keys, arrays and inline tables may go; this many levels are too many. -/
def nestingLimit : Nat := 80

/-- A dotted key, split into the way and the last part. -/
def takeKey (cs : List Char) : Option (List String × String × List Char) := do
  let (parts, rest) ← takeKeyParts (nestingLimit - 1) cs
  return (parts.dropLast, ← parts.getLast?, rest)

end PublishOnce.Toml
