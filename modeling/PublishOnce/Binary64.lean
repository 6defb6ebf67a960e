/-
PublishOnce.Binary64 — double precision numbers, read from decimals and written
with the fewest digits.

A value is a sign, a significand and a binary exponent, so all arithmetic is on
whole numbers and nothing is rounded twice. `ofDecimal` takes the nearest
value, ties to the even significand. `shortest?` looks for the coarsest decimal
grid with a point that still reads back as the value and takes the nearest such
point; `text` writes that point positionally, whatever its size.
-/

namespace PublishOnce

inductive Binary64 where
  | nan
  | infinity (negative : Bool)
  /-- ± `significand` · 2 ^ `exponent`, with the significand below 2 ^ 53 and the exponent as small
  as that and −1074 allow. -/
  | finite (negative : Bool) (significand : Nat) (exponent : Int)
  deriving DecidableEq, Repr

namespace Binary64

/-! ## 1. The nearest value of a decimal -/

/-- A positive fraction, as numerator and denominator. -/
structure Ratio where
  num : Nat
  den : Nat

/-- `num` / `den` times a power of a base. -/
def Ratio.scale (r : Ratio) (base : Nat) (power : Int) : Ratio :=
  if 0 ≤ power then ⟨r.num * base.pow power.toNat, r.den⟩
  else ⟨r.num, r.den * base.pow (-power).toNat⟩

/-- A significand of 53 binary digits is at least this. -/
def fullSignificand : Nat := 0x10000000000000

/-- The largest power of two that is at most the fraction, by its exponent. -/
def Ratio.log2 (r : Ratio) : Int :=
  let guess : Int := (r.num.log2 : Int) - r.den.log2
  let scaled := r.scale 2 (-guess)
  if scaled.den ≤ scaled.num then guess else guess - 1

/-- The whole number nearest to a fraction, the even one of two. -/
def Ratio.round (r : Ratio) : Nat :=
  let low := r.num / r.den
  let twice := 2 * (r.num % r.den)
  if twice < r.den then low
  else if r.den < twice then low + 1
  else if low % 2 = 0 then low else low + 1

/-- The value nearest to a positive fraction. -/
def ofRatio (negative : Bool) (r : Ratio) : Binary64 :=
  let exponent := max (r.log2 - 52) (-1074)
  let significand := (r.scale 2 (-exponent)).round
  let (significand, exponent) :=
    if significand = 2 * fullSignificand then (fullSignificand, exponent + 1)
    else (significand, exponent)
  if 971 < exponent then .infinity negative else .finite negative significand exponent

/-- The value nearest to `digits` · 10 ^ `power`, where `digits` has `count` decimal digits. Far
outside the range of the format the answer is known without computing. -/
def ofDecimal (negative : Bool) (digits count : Nat) (power : Int) : Binary64 :=
  if digits = 0 ∨ (count : Int) + power < -400 then .finite negative 0 (-1074)
  else if 400 < power then .infinity negative
  else ofRatio negative (Ratio.scale ⟨digits, 1⟩ 10 power)

/-! ## 2. The shortest decimal of a value -/

/-- The decimals that read back as a value: everything between the midpoints to its neighbours,
the midpoints themselves only for an even significand. All in quarters of a unit of the value. -/
structure Interval where
  low : Nat
  value : Nat
  high : Nat
  closed : Bool

/-- The interval of a positive value. Below a power of two the neighbour is half as far. -/
def interval (significand : Nat) (exponent : Int) : Interval where
  low := 4 * significand - (if significand = fullSignificand ∧ -1074 < exponent then 1 else 2)
  value := 4 * significand
  high := 4 * significand + 2
  closed := significand % 2 = 0

/-- Whether a decimal `digits` · 10 ^ `power` lies in the interval. Both sides are brought to whole
numbers: `unit` is a quarter of the value's unit, times the same denominator. -/
def Interval.holds (i : Interval) (point unit : Nat) : Bool :=
  if i.closed then i.low * unit ≤ point && point ≤ i.high * unit
  else i.low * unit < point && point < i.high * unit

/-- On the grid of multiples of 10 ^ `power`, the point nearest to the value among its two
neighbours, if one of them reads back; of two equally near the larger. -/
def gridPoint? (i : Interval) (exponent power : Int) : Option Nat :=
  -- a common denominator for quarters of 2 ^ exponent and for 10 ^ power
  let unit := (Ratio.scale ⟨1, 1⟩ 2 (exponent - 2))
  let step := (Ratio.scale ⟨1, 1⟩ 10 power)
  let unitWhole := unit.num * step.den
  let stepWhole := step.num * unit.den
  let below := i.value * unitWhole / stepWhole
  let low := i.holds (below * stepWhole) unitWhole
  let high := i.holds ((below + 1) * stepWhole) unitWhole
  let nearLow := 2 * (i.value * unitWhole - below * stepWhole) < stepWhole
  if low && (nearLow || !high) then some below
  else if high then some (below + 1)
  else none

/-- The first of the grids 10 ^ `power`, 10 ^ (`power` − 1), … with a point that reads back. -/
def firstGrid (i : Interval) (exponent : Int) : Nat → Int → Nat × Int
  | 0, power => (((gridPoint? i exponent power).getD 0), power)
  | tries + 1, power =>
    match gridPoint? i exponent power with
    | some digits => (digits, power)
    | none => firstGrid i exponent tries (power - 1)

/-- The shortest decimal of a positive value, as digits and a power of ten. No value is 10 ^ 309 or
more, and seventeen digits always suffice, so the grids below the first one with a nonzero point are
soon fine enough. -/
def shortest (significand : Nat) (exponent : Int) : Nat × Int :=
  firstGrid (interval significand exponent) exponent 700 309

/-! ## 3. The text of a value -/

/-- A decimal written positionally, with at least one digit behind the point. -/
def positional (digits : Nat) (power : Int) : String :=
  let written := toString digits
  if 0 ≤ power then written ++ String.ofList (List.replicate power.toNat '0') ++ ".0"
  else
    let places := (-power).toNat
    let padded := String.ofList (List.replicate (places + 1 - written.length) '0') ++ written
    String.ofList (padded.toList.take (padded.length - places)) ++ "."
      ++ String.ofList (padded.toList.drop (padded.length - places))

/-- The text of a number: a fraction part is always there, an exponent never. -/
def text : Binary64 → String
  | .nan => "NaN"
  | .infinity negative => if negative then "-inf" else "inf"
  | .finite negative significand exponent =>
    let sign := if negative then "-" else ""
    if significand = 0 then sign ++ "0.0"
    else
      let (digits, power) := shortest significand exponent
      sign ++ positional digits power

end Binary64

end PublishOnce
