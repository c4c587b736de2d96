import LinearProgramming.Decimal.Layout
import LinearProgramming.Scalar

/-!
# Numbers in a report

A report shows a number as the simplest thing it could be: nothing, a whole number, a fraction with
a denominator up to a thousand, and only then a decimal. A number is taken for one of these if it
lies within one in a billion of it, since the true value was exact and what is left is residue.

Denominators are tried from two upwards, so the first fraction that fits is in lowest terms.
-/

namespace LinearProgramming

/-- Scalars that can be rounded and shown. -/
class Reportable (α : Type) extends Scalar α where
  /-- The nearest whole number, halves away from zero. -/
  round : α → α
  /-- A whole number as an integer, limited to the range of 64 bits with a sign. -/
  toInteger : α → Int
  /-- Four decimals. -/
  fourDecimals : α → String

namespace Reportable

variable {α : Type} [Reportable α]

/-- How near a number has to be to something simpler to be shown as that. -/
def nearness : α := 1e-9

/-- The largest denominator of a fraction. -/
def maxDenominator : Nat := 1000

/-- Whether two numbers are taken for the same. -/
def isNear (x y : α) : Bool := Scalar.abs (x - y) < (nearness : α)

/-- A natural number as a scalar. -/
def ofNat (n : Nat) : α := OfScientific.ofScientific n false 0

/-- The fraction with denominator `q` that is nearest to `v`, if that is near enough. -/
def fractionOver? (v : α) (q : Nat) : Option (Int × Nat) :=
  let p := round (v * ofNat q)
  if isNear (p / ofNat q) v then some (toInteger p, q) else none

/-- The fraction with the least denominator, two or more, that is near enough to `v`. -/
def fraction? (v : α) : Option (Int × Nat) :=
  (List.range' 2 (maxDenominator - 1)).findSome? (fractionOver? v)

/-- A number as a report shows it. -/
def text (v : α) : String :=
  if Scalar.abs v < (nearness : α) then "0"
  else if isNear v (round v) then toString (toInteger (round v))
  else
    match fraction? v with
    | some (p, q) => s!"{p}/{q}"
    | none => fourDecimals v

end Reportable

/-- An integer limited to the range of 64 bits with a sign. -/
def limitToInt64 (n : Int) : Int := max (-Int.pow 2 63) (min n (Int.pow 2 63 - 1))

/-- The nearest whole number to a double, halves away from zero. From `2 ^ 52` on every double is
whole, and those below are small enough for the result to be a double. -/
def roundFloat (x : Float) : Float :=
  match BinaryValue.ofFloat x with
  | .finite negative significand exponent =>
    if 0 ≤ exponent then x
    else
      let magnitude := Float.ofNat (BinaryValue.finite false significand exponent).round.natAbs
      if negative then -magnitude else magnitude
  | _ => x

/-- A whole double as an integer of 64 bits. Infinities go to the ends of the range and what is not
a number goes to zero. -/
def floatToInteger (x : Float) : Int :=
  match BinaryValue.ofFloat x with
  | .infinite negative => if negative then -Int.pow 2 63 else Int.pow 2 63 - 1
  | value => limitToInt64 value.round

instance : Reportable Float where
  round := roundFloat
  toInteger := floatToInteger
  fourDecimals := fixedFloat 4

/-- The nearest whole number to a rational, halves away from zero. -/
def roundRat (x : Rat) : Int :=
  let magnitude : Int := roundDiv .away x.num.natAbs x.den
  if x.num < 0 then -magnitude else magnitude

instance : Reportable Rat where
  round := fun x ↦ roundRat x
  toInteger := fun x ↦ limitToInt64 (roundRat x)
  fourDecimals := fun x ↦ fixedText 4 (x.num < 0) x.num.natAbs x.den

end LinearProgramming
