import LinearProgramming.Proofs.Row

/-!
# Laws that keep units exact

A pivot writes the cells of its column as exact ones and zeros. That the other basic columns stay
exact too, whatever has been rounded elsewhere, rests on very little: subtracting a multiple of zero
changes nothing, zero divided by anything is zero, and a number less itself is zero. Finite numbers
satisfy these laws in floating point as well, if no difference is made between the two zeros, which
is how `==` sees them.

The comparisons of the pivot rules have to agree with this: zero is not above a tolerance and not
below its negation.
-/

namespace LinearProgramming

open Scalar

/-- The laws of `==` on finite numbers by which unit columns stay exact. -/
class Scalar.ExactUnits (α : Type) [Scalar α] : Prop where
  symm {x y : α} : x == y → y == x
  trans {x y z : α} : x == y → y == z → x == z
  refl {x : α} : isFinite x → x == x
  isFinite_of_beq {x y : α} : x == y → isFinite y → isFinite x
  isFinite_zero : isFinite (0 : α)
  isFinite_one : isFinite (1 : α)
  isFinite_neg {x : α} : isFinite x → isFinite (-x)
  /-- A multiple of zero is nothing. -/
  sub_mul_zero {x f z : α} : isFinite x → isFinite f → z == 0 → x - f * z == x
  zero_div {z p : α} : isFinite p → ¬p == 0 → z == 0 → z / p == 0
  /-- A number less itself is nothing. -/
  sub_mul_one {f u : α} : isFinite f → u == 1 → f - f * u == 0
  lt_trans {x y z : α} : x < y → y < z → x < z
  /-- A zero is within every tolerance. -/
  zero_le {z ε : α} : z == 0 → 0 ≤ ε → z ≤ ε
  not_lt_abs {z ε : α} : z == 0 → 0 ≤ ε → ¬ε < Scalar.abs z
  not_lt_neg {z ε : α} : z == 0 → 0 ≤ ε → ¬z < -ε

namespace Scalar.ExactUnits

variable {α : Type} [Scalar α] [ExactUnits α] {x y ε : α}

theorem zero_beq_zero : (0 : α) == 0 := refl isFinite_zero

theorem one_beq_one : (1 : α) == 1 := refl isFinite_one

theorem lt_of_transGen (h : Relation.TransGen (· < ·) x y) : x < y := by
  induction h with
  | single h => exact h
  | tail _ h ih => exact lt_trans ih h

end Scalar.ExactUnits

/-- Over the rationals these are laws of fields and of their order. -/
instance : ExactUnits ℚ where
  symm h := beq_iff_eq.mpr (beq_iff_eq.mp h).symm
  trans h h' := beq_iff_eq.mpr ((beq_iff_eq.mp h).trans (beq_iff_eq.mp h'))
  refl _ := beq_self_eq_true _
  isFinite_of_beq _ _ := rfl
  isFinite_zero := rfl
  isFinite_one := rfl
  isFinite_neg _ := rfl
  sub_mul_zero _ _ hz := by
    rw [beq_iff_eq.mp hz, mul_zero, sub_zero]
    exact beq_self_eq_true _
  zero_div _ _ hz := by
    rw [beq_iff_eq.mp hz, zero_div]
    exact beq_self_eq_true _
  sub_mul_one _ hu := by
    rw [beq_iff_eq.mp hu, mul_one, sub_self]
    exact beq_self_eq_true _
  lt_trans := lt_trans
  zero_le hz hε := (beq_iff_eq.mp hz).trans_le hε
  not_lt_abs hz hε := by
    rw [Scalar.abs_eq, beq_iff_eq.mp hz, abs_zero]
    exact not_lt.mpr hε
  not_lt_neg hz hε := by
    rw [beq_iff_eq.mp hz, not_lt]
    exact neg_nonpos.mpr hε

end LinearProgramming
