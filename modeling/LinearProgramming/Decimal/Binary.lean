/-!
# The value of a floating-point number

A finite double is a whole number times a power of two. Everything exact that is said about
doubles here, how to round them and how to write them, is said about these two numbers, which are
read off the bits.
-/

namespace LinearProgramming

/-- What a double stands for. -/
inductive BinaryValue
  /-- `significand · 2 ^ exponent`, negated if `negative`. -/
  | finite (negative : Bool) (significand : Nat) (exponent : Int)
  | infinite (negative : Bool)
  | undefined
  deriving DecidableEq

namespace BinaryValue

/-- Read a double off its 64 bits: the sign, eleven bits of exponent, 52 bits of fraction. Exponent
zero has no leading one in front of the fraction, the largest exponent is no number. -/
def ofBits (bits : Nat) : BinaryValue :=
  let negative := bits / Nat.pow 2 63 % 2 == 1
  let exponent : Nat := bits / Nat.pow 2 52 % Nat.pow 2 11
  let fraction := bits % Nat.pow 2 52
  if exponent = 2047 then
    if fraction = 0 then infinite negative else undefined
  else if exponent = 0 then finite negative fraction (-1074)
  else finite negative (Nat.pow 2 52 + fraction) (exponent - 1075)

def ofFloat (x : Float) : BinaryValue := ofBits x.toBits.toNat

end BinaryValue

/-! ## Rounding quotients -/

/-- Which way to go from the middle between two neighbours. -/
inductive Tie
  /-- To the neighbour further from zero. -/
  | away
  /-- To the even neighbour. -/
  | even
  deriving DecidableEq

/-- The whole number nearest to a quotient. -/
def roundDiv (tie : Tie) (numerator denominator : Nat) : Nat :=
  let floor := numerator / denominator
  let rest := 2 * (numerator % denominator)
  let up := denominator < rest || (rest == denominator && (tie == .away || floor % 2 == 1))
  if up then floor + 1 else floor

/-- `base ^ exponent` as a quotient of two natural numbers. -/
def powerRatio (base : Nat) (exponent : Int) : Nat × Nat :=
  if 0 ≤ exponent then (base.pow exponent.toNat, 1) else (1, base.pow (-exponent).toNat)

/-- The whole number nearest to a double, halves away from zero; zero if there is none. -/
def BinaryValue.round : BinaryValue → Int
  | finite negative significand exponent =>
    let (up, down) := powerRatio 2 exponent
    let magnitude : Int := roundDiv .away (significand * up) down
    if negative then -magnitude else magnitude
  | _ => 0

end LinearProgramming
