/-!
# Scalars

The simplex method is written once, over any type that offers the arithmetic it uses. `Scalar`
lists that arithmetic and assumes no law, so that one text serves two readings: over `Float` it is
what a program runs, with signed zeros, infinities and rounding; over `Rat` every operation is
exact, which is where optimality can be stated.

Comparison is decidable but need not be a linear order, and `==` need not be equality: with
floating point a NaN compares with nothing and the two zeros are equal.
-/

namespace LinearProgramming

/-- The arithmetic the solver computes with: operations and tests, no laws. -/
class Scalar (α : Type) extends Zero α, One α, Add α, Sub α, Mul α, Div α, Neg α, LT α, LE α,
    BEq α, OfScientific α where
  decidableLT : DecidableLT α
  decidableLE : DecidableLE α
  /-- The magnitude of a number. -/
  abs : α → α
  /-- Where a sum starts. It has to be neutral for addition from the left, which in floating point
  negative zero is and positive zero is not. -/
  emptySum : α
  /-- Whether a number is neither infinite nor undefined. -/
  isFinite : α → Bool

namespace Scalar

attribute [reducible, instance] decidableLT decidableLE

variable {α : Type} [Scalar α]

/-- The sum of a list, added up from the left. -/
def sum (xs : List α) : α := xs.foldl (· + ·) emptySum

/-- The sum of products of two lists, as far as both reach. -/
def dot (xs ys : List α) : α := sum (List.zipWith (· * ·) xs ys)

/-- A number within `tolerance` of zero becomes zero; any other is kept. -/
def snap (tolerance x : α) : α := if abs x ≤ tolerance then 0 else x

end Scalar

instance : Scalar Float where
  decidableLT := inferInstance
  decidableLE := inferInstance
  abs := Float.abs
  emptySum := -0.0
  isFinite := Float.isFinite

instance : Scalar Rat where
  zero := 0
  one := 1
  decidableLT := inferInstance
  decidableLE := inferInstance
  abs := Rat.abs
  emptySum := 0
  isFinite := fun _ ↦ true

end LinearProgramming
