/-
PublishOnce.Toml.Scalar — numbers, dates, times and the bare words.

None of these values holds white space, a comma or a bracket, with one exception
(a blank may stand between a date and a time), so each is read as one token:
the longest run of the characters that such values are made of. The token is
then judged as a whole. Reading part of it would help nobody, since nothing
that may follow a value can follow inside the run.
-/
import PublishOnce.Toml.Value

namespace PublishOnce.Toml

/-! ## 1. Digits -/

/-- The value of a digit in bases up to sixteen. -/
def digitValue? (c : Char) : Option Nat :=
  if '0' ≤ c ∧ c ≤ '9' then some (c.toNat - '0'.toNat)
  else if 'a' ≤ c ∧ c ≤ 'f' then some (c.toNat - 'a'.toNat + 10)
  else if 'A' ≤ c ∧ c ≤ 'F' then some (c.toNat - 'A'.toNat + 10)
  else none

def isDigitOf (base : Nat) (c : Char) : Bool :=
  match digitValue? c with
  | some value => value < base
  | none => false

def readDigits (base : Nat) (digits : List Char) : Nat :=
  digits.foldl (fun value c => value * base + (digitValue? c).getD 0) 0

/-- Digits of a base with single underscores between them, the underscores taken out. -/
def ungroup? (base : Nat) : List Char → Option (List Char)
  | [] => none
  | [c] => if isDigitOf base c then some [c] else none
  | c :: '_' :: rest => if isDigitOf base c then (ungroup? base rest).map (c :: ·) else none
  | c :: rest => if isDigitOf base c then (ungroup? base rest).map (c :: ·) else none

/-- Decimal digits as a whole number is written: no zero in front of another digit. -/
def ungroupWhole? (cs : List Char) : Option (List Char) :=
  (ungroup? 10 cs).bind fun digits =>
    if digits.head? = some '0' ∧ digits.length ≠ 1 then none else some digits

def takeSign : List Char → Option Char × List Char
  | '+' :: rest => (some '+', rest)
  | '-' :: rest => (some '-', rest)
  | cs => (none, cs)

/-! ## 2. Whole numbers -/

/-- A whole number must fit into 64 bits with a sign. -/
def wholeInRange? (number : Int) : Option Int :=
  if -0x8000000000000000 ≤ number ∧ number < 0x8000000000000000 then some number else none

/-- A whole number: decimal with an optional sign, or hexadecimal, octal or binary without one. -/
def integer? : List Char → Option Int
  | '0' :: 'x' :: rest => (ungroup? 16 rest).bind fun ds => wholeInRange? (readDigits 16 ds)
  | '0' :: 'o' :: rest => (ungroup? 8 rest).bind fun ds => wholeInRange? (readDigits 8 ds)
  | '0' :: 'b' :: rest => (ungroup? 2 rest).bind fun ds => wholeInRange? (readDigits 2 ds)
  | cs =>
    let (sign, rest) := takeSign cs
    (ungroupWhole? rest).bind fun ds =>
      let magnitude : Int := readDigits 10 ds
      wholeInRange? (if sign = some '-' then -magnitude else magnitude)

/-! ## 3. Floating point numbers -/

/-- Cut at the first character of a kind, which is dropped; `none` if there is none. -/
def cutAt? (p : Char → Bool) : List Char → Option (List Char × List Char)
  | [] => none
  | c :: rest => if p c then some ([], rest) else (cutAt? p rest).map fun (a, b) => (c :: a, b)

/-- The exponent part: a sign and digits, zeros in front allowed. -/
def exponent? (cs : List Char) : Option Int :=
  let (sign, rest) := takeSign cs
  (ungroup? 10 rest).map fun ds =>
    let magnitude : Int := readDigits 10 ds
    if sign = some '-' then -magnitude else magnitude

/-- The decimal that whole part, fraction and exponent write, rounded. A positive number too large
for the format is refused; a negative one becomes negative infinity. -/
def finiteFloat? (sign : Option Char) (whole fraction : List Char) (exponent : Int) :
    Option Binary64 :=
  let digits := whole ++ fraction
  let negative := sign = some '-'
  let number := Binary64.ofDecimal negative (readDigits 10 digits) digits.length
    (exponent - fraction.length)
  if number = .infinity false then none else some number

/-- A number with a fraction, an exponent or both, or one of the words for infinity and for no
number. -/
def float? (cs : List Char) : Option Binary64 :=
  let (sign, rest) := takeSign cs
  if rest = ['i', 'n', 'f'] then some (.infinity (sign = some '-'))
  else if rest = ['n', 'a', 'n'] then some .nan
  else
    let (mantissa, power) :=
      match cutAt? (fun c => c = 'e' || c = 'E') rest with
      | some (mantissa, power) => (mantissa, some power)
      | none => (rest, none)
    match cutAt? (· = '.') mantissa, power with
    | none, none => none
    | none, some power => do
      finiteFloat? sign (← ungroupWhole? mantissa) [] (← exponent? power)
    | some (whole, fraction), none => do
      finiteFloat? sign (← ungroupWhole? whole) (← ungroup? 10 fraction) 0
    | some (whole, fraction), some power => do
      finiteFloat? sign (← ungroupWhole? whole) (← ungroup? 10 fraction) (← exponent? power)

/-! ## 4. Dates and times -/

/-- The number that a field of exactly two digits writes, if it lies in a range. -/
def twoDigits? (low high : Nat) (a b : Char) : Option Nat :=
  if isDigitOf 10 a && isDigitOf 10 b then
    let value := readDigits 10 [a, b]
    if low ≤ value ∧ value ≤ high then some value else none
  else none

def daysIn (year month : Nat) : Nat :=
  if month = 2 then
    if year % 4 = 0 ∧ (year % 100 ≠ 0 ∨ year % 400 = 0) then 29 else 28
  else if month = 4 ∨ month = 6 ∨ month = 9 ∨ month = 11 then 30
  else 31

/-- What follows a date that is one. -/
def afterDate? : List Char → Option (List Char)
  | y₁ :: y₂ :: y₃ :: y₄ :: '-' :: m₁ :: m₂ :: '-' :: d₁ :: d₂ :: rest => do
    if ([y₁, y₂, y₃, y₄].any fun y => !isDigitOf 10 y) then none
    let month ← twoDigits? 1 12 m₁ m₂
    let _ ← twoDigits? 1 (daysIn (readDigits 10 [y₁, y₂, y₃, y₄]) month) d₁ d₂
    return rest
  | _ => none

/-- What follows a time of day; a second may be a leap second and may have a fraction. -/
def afterTime? : List Char → Option (List Char)
  | h₁ :: h₂ :: ':' :: m₁ :: m₂ :: ':' :: s₁ :: s₂ :: rest => do
    let _ ← twoDigits? 0 23 h₁ h₂
    let _ ← twoDigits? 0 59 m₁ m₂
    let _ ← twoDigits? 0 60 s₁ s₂
    match rest with
    | '.' :: fraction =>
      if (fraction.takeWhile (isDigitOf 10)).isEmpty then none
      else return fraction.dropWhile (isDigitOf 10)
    | _ => return rest
  | _ => none

/-- An offset from universal time, or nothing. -/
def isOffset : List Char → Bool
  | [] => true
  | ['Z'] => true
  | ['z'] => true
  | [sign, h₁, h₂, ':', m₁, m₂] =>
    (sign = '+' || sign = '-') && (twoDigits? 0 23 h₁ h₂).isSome && (twoDigits? 0 59 m₁ m₂).isSome
  | _ => false

/-- A time with an optional offset, as it stands behind a date. -/
def isDayTime (cs : List Char) : Bool :=
  match afterTime? cs with
  | some rest => isOffset rest
  | none => false

def isDatetime (cs : List Char) : Bool :=
  match afterDate? cs with
  | some [] => true
  | some ('T' :: time) => isDayTime time
  | some ('t' :: time) => isDayTime time
  | some _ => false
  | none => afterTime? cs = some []

/-! ## 5. One token -/

/-- The characters that the tokens here are made of. -/
def isScalarChar (c : Char) : Bool :=
  c.isAlphanum || c = '+' || c = '-' || c = '_' || c = '.' || c = ':'

def scalar? (token : List Char) : Option Value :=
  if token = "true".toList then some (.boolean true)
  else if token = "false".toList then some (.boolean false)
  else if isDatetime token then some .datetime
  else
    match float? token with
    | some number => some (.float number)
    | none => (integer? token).map .integer

/-- Read a token off the front. A token that is a date takes a time behind a blank with it. -/
def takeScalar (cs : List Char) : Option (Value × List Char) :=
  let token := cs.takeWhile isScalarChar
  let rest := cs.dropWhile isScalarChar
  match scalar? token with
  | none => none
  | some value =>
    match rest with
    | ' ' :: behind =>
      let time := behind.takeWhile isScalarChar
      if (afterDate? token = some []) && (time.head?.any Char.isDigit) then
        if isDayTime time then some (.datetime, behind.dropWhile isScalarChar) else none
      else some (value, rest)
    | _ => some (value, rest)

end PublishOnce.Toml
