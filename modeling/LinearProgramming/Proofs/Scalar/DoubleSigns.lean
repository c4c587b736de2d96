import LinearProgramming.Proofs.Scalar.Double
import LinearProgramming.Proofs.Scalar.Signs

/-!
# Signs in double precision

Double precision satisfies the laws of signs without exception, for both zeros, the infinities and
the undefined number as well. What an operation does to signs is settled before its result is
rounded, and rounding does not look at them.
-/

open Float.Model Float.Model.UnpackedFloat

namespace LinearProgramming

namespace Double

/-! ## Unpacked numbers -/

theorem neg_neg_sign (s : Sign) : - -s = s := by
  cases s <;> rfl

theorem neg_mul_comm_sign (s s' : Sign) : -s * s' = s * -s' := by
  cases s <;> cases s' <;> rfl

theorem mul_comm_sign (s s' : Sign) : s * s' = s' * s := by
  cases s <;> cases s' <;> rfl

theorem neg_neg_unpacked (u : UnpackedFloat) : u.neg.neg = u := by
  cases u <;> simp [UnpackedFloat.neg, neg_neg_sign]

theorem abs_neg_unpacked (u : UnpackedFloat) : u.neg.abs = u.abs := by
  cases u <;> rfl

theorem isFinite_neg_unpacked (u : UnpackedFloat) : u.neg.isFinite = u.isFinite := by
  cases u <;> rfl

/-- A product is rounded by its magnitude, and its sign is that of both factors. -/
theorem neg_mul_comm_unpacked (f : Float.Model.Format) (u v : UnpackedFloat) :
    UnpackedFloat.mul f u.neg v = UnpackedFloat.mul f u v.neg := by
  cases u <;> cases v <;> simp [UnpackedFloat.mul, UnpackedFloat.neg, neg_mul_comm_sign]

theorem mul_comm_unpacked (f : Float.Model.Format) (u v : UnpackedFloat) :
    UnpackedFloat.mul f u v = UnpackedFloat.mul f v u := by
  cases u <;> cases v <;>
    simp [UnpackedFloat.mul, mul_comm_sign, Nat.mul_comm, Int.add_comm]

theorem neg_lt_zero_unpacked {u : UnpackedFloat} (hfinite : u.isFinite = true)
    (hne : ¬u.beq (.zero .positive) = true) :
    u.neg.lt (.zero .positive) = true ↔ ¬u.lt (.zero .positive) = true := by
  rcases u with _ | _ | _ | ⟨_ | _, m, e, hm⟩
  case zero => exact absurd rfl hne
  case finite.negative => exact iff_of_false Bool.false_ne_true fun h ↦ h rfl
  case finite.positive => exact iff_of_true rfl Bool.false_ne_true
  all_goals cases hfinite

theorem mul_one_unpacked {u : UnpackedFloat} (h : Fits u) :
    UnpackedFloat.mul .binary64 u (.finite .positive (2 ^ 52) (-52) (by decide)) = u := by
  have hsign : ∀ s : Sign, s * .positive = s := by
    intro s
    cases s <;> rfl
  rcases u with _ | _ | _ | ⟨s, m, e, hm⟩
  case finite => exact mul_finite_one h
  all_goals simp [UnpackedFloat.mul, hsign]

theorem lt_iff_unpack (x y : Float) : x < y ↔ x.toModel.unpack.lt y.toModel.unpack = true :=
  decide_eq_true_iff

end Double

open Double Scalar in
instance : LawfulSign Float where
  neg_neg x := by
    refine eq_of_unpack_eq ?_
    rw [unpack_neg, unpack_neg, neg_neg_unpacked]
  abs_neg x := by
    refine congrArg Float.ofModel (congrArg Float.Model.pack ?_)
    rw [unpack_neg, abs_neg_unpacked]
  isFinite_neg x := by
    change (-x).toModel.unpack.isFinite = x.toModel.unpack.isFinite
    rw [unpack_neg, isFinite_neg_unpacked]
  neg_mul_comm x y := by
    refine congrArg Float.ofModel (congrArg Float.Model.pack ?_)
    rw [unpack_neg, unpack_neg, neg_mul_comm_unpacked]
  one_mul x := by
    refine eq_of_unpack_eq (unpack_mul (fits_unpack _) ?_)
    rw [unpack_one, mul_comm_unpacked, mul_one_unpacked (fits_unpack _)]
  neg_lt_zero_iff {x} hfinite hne := by
    rw [lt_iff_unpack, lt_iff_unpack, unpack_zero, unpack_neg]
    exact neg_lt_zero_unpacked hfinite hne

end LinearProgramming
