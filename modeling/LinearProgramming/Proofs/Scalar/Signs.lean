import LinearProgramming.Proofs.Row

/-!
# Laws of signs

A problem can be written in several ways that differ in signs alone: a row with both sides negated,
an objective negated and its sense turned. That a solve takes the same course on all of them needs
only that negation undoes itself, and that magnitude and finiteness do not see it. Rounded numbers
satisfy these laws without exception, as rounding treats both signs alike.

Where rows are brought into a direction by multiplying them, a few more laws come in: a sign may
move from one factor to the other, a product with one is exact, and a number that is not zero is
below zero or its negation is.

## Prices that change sign

Prices within the tolerance of zero are reported as zero. So where all signs are turned a price
turns its sign too, unless it is that close to zero, when it is zero either way.
-/

namespace LinearProgramming

open Scalar

/-- The laws of negation that take nothing but signs into account. -/
class Scalar.LawfulNeg (α : Type) [Scalar α] : Prop where
  neg_neg (x : α) : - -x = x
  abs_neg (x : α) : Scalar.abs (-x) = Scalar.abs x
  isFinite_neg (x : α) : isFinite (-x) = isFinite x

/-- The laws by which a row can be negated, in a product and in a comparison with zero. -/
class Scalar.LawfulSign (α : Type) [Scalar α] : Prop extends LawfulNeg α where
  /-- A sign may move from one factor to the other. -/
  neg_mul_comm (x y : α) : -x * y = x * -y
  one_mul (x : α) : 1 * x = x
  /-- Of a number that is not zero and its negation one is below zero. -/
  neg_lt_zero_iff {x : α} : isFinite x → ¬x == 0 → (-x < 0 ↔ ¬x < 0)

namespace Scalar

section

variable {α : Type} [Scalar α]

section

variable [LawfulNeg α]

theorem map_neg_neg (xs : List α) : (xs.map (-·)).map (-·) = xs := by
  rw [List.map_map]
  exact (List.map_congr_left fun x _ ↦ LawfulNeg.neg_neg x).trans xs.map_id

theorem any_not_isFinite_map_neg (xs : List α) :
    (xs.map (-·)).any (!isFinite ·) = xs.any (!isFinite ·) := by
  rw [List.any_map]
  exact congrArg xs.any (funext fun x ↦ congrArg _ (LawfulNeg.isFinite_neg x))

/-- A price and the one reported where all signs are turned. -/
inductive Opposed (ε : α) : α → α → Prop
  /-- Within the tolerance both are zero. -/
  | within {x : α} (h : Scalar.abs x ≤ ε) : Opposed ε 0 0
  /-- Beyond it one is the negation of the other. -/
  | beyond {x : α} (h : ¬Scalar.abs x ≤ ε) : Opposed ε x (-x)

/-- **Rounding to zero does not see signs.** -/
theorem opposed_snap (ε x : α) : Opposed ε (snap ε x) (snap ε (-x)) := by
  rw [snap, snap, LawfulNeg.abs_neg]
  split_ifs with hx
  · exact .within hx
  · exact .beyond hx

end

section

variable [LawfulSign α]

theorem neg_one_mul (x : α) : -1 * x = -x := by
  rw [LawfulSign.neg_mul_comm, LawfulSign.one_mul]

end

end

/-- Over the rationals these are laws of rings and of their order. -/
instance : LawfulSign ℚ where
  neg_neg := neg_neg
  abs_neg x := by rw [Scalar.abs_eq, Scalar.abs_eq, abs_neg]
  isFinite_neg _ := rfl
  neg_mul_comm := neg_mul_comm
  one_mul := one_mul
  neg_lt_zero_iff {x} _ hne := by
    have hne' : x ≠ 0 := fun h ↦ hne (beq_iff_eq.mpr h)
    rw [neg_lt_zero, not_lt]
    exact ⟨le_of_lt, fun h ↦ lt_of_le_of_ne h hne'.symm⟩

end Scalar

end LinearProgramming
