import LinearProgramming.Decimal.Shortest

/-!
# Writing decimals

A decimal is written either positionally, digits with a point among them, or scientifically, one
digit before the point and a power of ten behind. What a format decides, when to do which and what
to do with whole numbers, is collected in a `Layout`, so that each format is one value of it.
-/

namespace LinearProgramming

/-- The decisions of a format for floating-point numbers. -/
structure Layout where
  /-- Which way the last digit goes where two decimals are equally near. -/
  tie : Tie
  /-- Whether a number is written positionally, by the exponent of its leading digit. -/
  positional : Int → Bool
  /-- Whether a whole number in positional form ends in `.0`. -/
  showsPoint : Bool
  infinity : String
  undefined : String

namespace Decimal

/-- The digits of the coefficient without zeros at the end, and the exponent that belongs to them.
Zero keeps its one digit. -/
def digits (d : Decimal) : List Char × Int :=
  let all := (Nat.toDigits 10 d.coefficient).reverse
  let zeros := if d.coefficient = 0 then 0 else (all.takeWhile (· == '0')).length
  ((all.drop zeros).reverse, d.exponent + zeros)

/-- Digits times a power of ten, in positional notation. -/
def positionalText (showsPoint : Bool) (digits : List Char) (exponent : Int) : List Char :=
  if 0 ≤ exponent then
    digits ++ List.replicate exponent.toNat '0' ++ (if showsPoint then ['.', '0'] else [])
  else
    let places := (-exponent).toNat
    let padded := List.replicate (places + 1 - digits.length) '0' ++ digits
    padded.take (padded.length - places) ++ '.' :: padded.drop (padded.length - places)

/-- Digits with the exponent of the leading one, in scientific notation; the exponent always has a
sign. -/
def scientificText (digits : List Char) (leading : Int) : List Char :=
  let fraction := match digits.drop 1 with
    | [] => []
    | rest => '.' :: rest
  let sign := if leading < 0 then '-' else '+'
  digits.take 1 ++ fraction ++ 'e' :: sign :: Nat.toDigits 10 leading.natAbs

end Decimal

namespace Layout

def writeDecimal (l : Layout) (d : Decimal) : List Char :=
  let (digits, exponent) := d.digits
  let leading := exponent + digits.length - 1
  if l.positional leading then Decimal.positionalText l.showsPoint digits exponent
  else Decimal.scientificText digits leading

/-- Write a double with the fewest digits that read back as the same double. -/
def write (l : Layout) (x : Float) : List Char :=
  match BinaryValue.ofFloat x with
  | .finite negative significand exponent =>
    let text := l.writeDecimal (shortestDecimal l.tie significand exponent)
    if negative then '-' :: text else text
  | .infinite negative => (if negative then ['-'] else []) ++ l.infinity.toList
  | .undefined => l.undefined.toList

end Layout

/-- Numbers in the report of a solve: always positional, whole numbers without a point, and a tie
between two last digits goes to the larger. -/
def plainLayout : Layout where
  tie := .away
  positional := fun _ ↦ true
  showsPoint := false
  infinity := "inf"
  undefined := "NaN"

/-- A double as the report of a solve writes it. -/
def plainNumber (x : Float) : String := String.ofList (plainLayout.write x)

/-! ## A fixed number of decimals -/

/-- A quotient rounded to `places` decimals, halves to even, with the sign in front whatever the
digits. -/
def fixedText (places : Nat) (negative : Bool) (numerator denominator : Nat) : String :=
  let scaled := roundDiv .even (numerator * Nat.pow 10 places) denominator
  let text := Decimal.positionalText false (Nat.toDigits 10 scaled) (-places)
  String.ofList (if negative then '-' :: text else text)

/-- A double rounded to `places` decimals, by its exact value. -/
def fixedFloat (places : Nat) (x : Float) : String :=
  match BinaryValue.ofFloat x with
  | .finite negative significand exponent =>
    let (up, down) := powerRatio 2 exponent
    fixedText places negative (significand * up) down
  | .infinite negative => if negative then "-inf" else "inf"
  | .undefined => "NaN"

end LinearProgramming
