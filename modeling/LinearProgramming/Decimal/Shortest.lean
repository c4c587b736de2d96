import LinearProgramming.Decimal.Binary

/-!
# The shortest decimal of a double

Many decimals round to one double. Of these the shortest is the one with the fewest digits, and
among several of that length the one nearest to the double.

The decimals that round to `m · 2 ^ q` are those between the midpoints to its two neighbours, the
midpoints included when `m` is even. The neighbour below is only half as far away where `m` is the
least significand of its exponent. All these are whole numbers of quarters of `2 ^ q`, so that
comparing them with a decimal is a comparison of natural numbers.

For each number of digits only the two decimals next to the double need to be looked at: if any
decimal of that length is in the interval, so is one of these.
-/

namespace LinearProgramming

/-- `coefficient · 10 ^ exponent`. -/
structure Decimal where
  coefficient : Nat
  exponent : Int
  deriving DecidableEq

/-- The numbers that round to a positive double, in quarters of its unit `2 ^ exponent`. -/
structure RoundingInterval where
  lower : Nat
  value : Nat
  upper : Nat
  exponent : Int
  /-- Whether the two ends belong to it. -/
  closed : Bool

namespace RoundingInterval

/-- The numbers that round to `significand · 2 ^ exponent`. -/
def of (significand : Nat) (exponent : Int) : RoundingInterval where
  lower := if significand = Nat.pow 2 52 ∧ -1074 < exponent then 4 * significand - 1
    else 4 * significand - 2
  value := 4 * significand
  upper := 4 * significand + 2
  exponent := exponent - 2
  closed := significand % 2 = 0

/-- `2 ^ exponent / 10 ^ grid` as a quotient of two natural numbers. -/
def scale (iv : RoundingInterval) (grid : Int) : Nat × Nat :=
  let (up, down) := powerRatio 2 iv.exponent
  let (tens, tenths) := powerRatio 10 grid
  (up * tenths, down * tens)

/-- Whether `c · 10 ^ grid` rounds to the double. -/
def contains (iv : RoundingInterval) (grid : Int) (c : Nat) : Bool :=
  let (up, down) := iv.scale grid
  if iv.closed then iv.lower * up ≤ c * down && c * down ≤ iv.upper * up
  else iv.lower * up < c * down && c * down < iv.upper * up

/-- The multiple of `10 ^ grid` that rounds to the double and is nearest to it, if any rounds to
it. A tie between two of them goes as `tie` says. -/
def nearest? (tie : Tie) (iv : RoundingInterval) (grid : Int) : Option Nat :=
  let (up, down) := iv.scale grid
  let below := iv.value * up / down
  let best := roundDiv tie (iv.value * up) down
  let other := if best = below then below + 1 else below
  if iv.contains grid best then some best
  else if iv.contains grid other then some other
  else none

/-- The coarsest grid, from `10 ^ grid` on in at most `digits` steps of ten, on which some decimal
rounds to the double, with the nearest such decimal. -/
def search (tie : Tie) (iv : RoundingInterval) : (digits : Nat) → (grid : Int) → Decimal
  | 0, grid => { coefficient := iv.value * (iv.scale grid).1 / (iv.scale grid).2, exponent := grid }
  | digits + 1, grid =>
    match iv.nearest? tie grid with
    | some c => { coefficient := c, exponent := grid }
    | none => search tie iv digits (grid - 1)

end RoundingInterval

/-- The number of digits of a natural number, of which zero has one. -/
def digitCount (n : Nat) : Nat := (Nat.toDigits 10 n).length

/-- The exponent of the leading digit of a positive quotient: the `e` with
`10 ^ e ≤ numerator / denominator < 10 ^ (e + 1)`. -/
def leadingExponent (numerator denominator : Nat) : Int :=
  if denominator ≤ numerator then digitCount (numerator / denominator) - 1
  else
    -- The least power of ten that is not below `denominator / numerator`.
    let reciprocal := (denominator + numerator - 1) / numerator
    Int.negOfNat (digitCount (reciprocal - 1))

/-- The shortest decimal that rounds to `significand · 2 ^ exponent`. Seventeen digits suffice. -/
def shortestDecimal (tie : Tie) (significand : Nat) (exponent : Int) : Decimal :=
  if significand = 0 then { coefficient := 0, exponent := 0 }
  else
    let (up, down) := powerRatio 2 exponent
    let leading := leadingExponent (significand * up) down
    (RoundingInterval.of significand exponent).search tie 17 leading

end LinearProgramming
