import LinearProgramming.Decimal.Binary
import LinearProgramming.Proofs.Scalar.Magnitude

/-!
# What the bits of a double stand for

The value of a double is read off its bits, sign, exponent and fraction. It is the value that the
arithmetic of doubles unpacks them to.
-/

open Float.Model Float.Model.UnpackedFloat

namespace LinearProgramming

namespace BinaryValue

/-- What an unpacked number stands for. Zero is unpacked without an exponent; it has the least
one. -/
def ofUnpacked : UnpackedFloat → BinaryValue
  | .finite s m e _ => .finite (s == .negative) m e
  | .zero s => .finite (s == .negative) 0 (-1074)
  | .infinity s => .infinite (s == .negative)
  | .notANumber => .undefined

/-! ## Fields of the bits -/

private theorem toNat_unpackExponent (b : BitVec 64) :
    (@unpackExponent .binary64 b).toNat = b.toNat / 2 ^ 52 % 2 ^ 11 := by
  change (b.extractLsb 62 52).toNat = _
  rw [BitVec.extractLsb_toNat, Nat.shiftRight_eq_div_pow]

private theorem toNat_unpackMantissa (b : BitVec 64) :
    (@unpackMantissa .binary64 b).toNat = b.toNat % 2 ^ 52 := by
  change (b.extractLsb 51 0).toNat = _
  rw [BitVec.extractLsb_toNat, Nat.shiftRight_zero]

private theorem unpackSign_beq (b : BitVec 64) :
    (Sign.ofBitVec (@unpackSign .binary64 b) == .negative) = (b.toNat / 2 ^ 63 % 2 == 1) := by
  have hsign : (@unpackSign .binary64 b).toNat = b.toNat / 2 ^ 63 % 2 := by
    change (b.extractLsb 63 63).toNat = _
    rw [BitVec.extractLsb_toNat, Nat.shiftRight_eq_div_pow]
  have hbit : ∀ v : BitVec 1, (Sign.ofBitVec v == .negative) = (v.toNat == 1) := by decide
  rw [hbit, hsign]

/-- **The bits of a double** stand for what they are unpacked to. -/
theorem ofFloat_eq (x : Float) : ofFloat x = ofUnpacked x.toModel.unpack := by
  change ofBits x.toModel.toBits.toBitVec.toNat
    = ofUnpacked (UnpackedFloat.unpack .binary64 x.toModel.toBits.toBitVec)
  generalize x.toModel.toBits.toBitVec = b
  have hlast : @unpackExponent .binary64 b = -1#11 ↔ b.toNat / 2 ^ 52 % 2 ^ 11 = 2047 := by
    rw [← toNat_unpackExponent, ← BitVec.toNat_inj]
    rfl
  have hfirst : @unpackExponent .binary64 b = 0#11 ↔ b.toNat / 2 ^ 52 % 2 ^ 11 = 0 := by
    rw [← toNat_unpackExponent, ← BitVec.toNat_inj]
    rfl
  have hzero : @unpackMantissa .binary64 b = 0#52 ↔ b.toNat % 2 ^ 52 = 0 := by
    rw [← toNat_unpackMantissa, ← BitVec.toNat_inj]
    rfl
  rw [ofBits, UnpackedFloat.unpack]
  simp only [Nat.pow_eq, ← unpackSign_beq, ← hlast, ← hfirst, ← hzero, toNat_unpackExponent]
  split_ifs with hlargest hinfinite hleast hnone
  · rfl
  · rfl
  · change finite _ (b.toNat % 2 ^ 52) (-1074) = finite _ 0 (-1074)
    rw [hzero.mp hnone]
  · change finite _ (b.toNat % 2 ^ 52) (-1074) = finite _ (@unpackMantissa .binary64 b).toNat
      ((b.toNat / 2 ^ 52 % 2 ^ 11 : ℕ) - (1023 + 52) + 1)
    rw [toNat_unpackMantissa, hfirst.mp hleast]
    rfl
  · change finite _ (2 ^ 52 + b.toNat % 2 ^ 52) ((b.toNat / 2 ^ 52 % 2 ^ 11 : ℕ) - 1075)
      = finite _ (1#1 ++ @unpackMantissa .binary64 b).toNat
        ((b.toNat / 2 ^ 52 % 2 ^ 11 : ℕ) - (1023 + 52))
    rw [Double.toNat_implicit_append, toNat_unpackMantissa]
    rfl

/-! ## Finite doubles -/

variable {x : Float} {negative : Bool} {m : ℕ} {e : ℤ}

theorem exists_ofFloat_eq_finite (h : Scalar.isFinite x = true) :
    ∃ negative m e, ofFloat x = finite negative m e := by
  change x.toModel.unpack.isFinite = true at h
  rw [ofFloat_eq]
  cases hunpack : x.toModel.unpack with
  | infinity s | notANumber =>
    rw [hunpack] at h
    cases h
  | zero s => exact ⟨_, _, _, rfl⟩
  | finite s m e hm => exact ⟨_, _, _, rfl⟩

theorem lt_of_ofFloat (h : ofFloat x = finite negative m e) : m < 2 ^ 53 := by
  have hfits := Double.fits_unpack x.toModel
  rw [ofFloat_eq] at h
  cases hunpack : x.toModel.unpack with
  | infinity s | notANumber =>
    rw [hunpack] at h
    cases h
  | zero s =>
    rw [hunpack] at h
    cases h
    norm_num
  | finite s m e hm =>
    rw [hunpack] at h hfits
    cases h
    rcases hfits.bounds with hbounds | hbounds <;> omega

theorem unpack_abs (h : ofFloat x = finite negative m e) : (Scalar.abs x).toModel.unpack
    = if hm : 0 < m then .finite .positive m e hm else .zero .positive := by
  rw [ofFloat_eq] at h
  rw [Double.unpack_abs]
  cases hunpack : x.toModel.unpack with
  | infinity s | notANumber =>
    rw [hunpack] at h
    cases h
  | zero s =>
    rw [hunpack] at h
    cases h
    rfl
  | finite s m e hm =>
    rw [hunpack] at h
    cases h
    rw [dif_pos hm]
    rfl

theorem isFinite_of_ofFloat (h : ofFloat x = finite negative m e) : Scalar.isFinite x = true := by
  have habs := Double.isFinite_abs x.toModel.unpack
  rw [← Double.unpack_abs, unpack_abs h] at habs
  change x.toModel.unpack.isFinite = true
  rw [← habs]
  split_ifs <;> rfl

theorem size_unpack (h : ofFloat x = finite negative m e) :
    Double.size x.toModel.unpack = m * 2 ^ e := by
  rw [← Double.size_abs, ← Double.unpack_abs, unpack_abs h]
  split_ifs with hm
  · rfl
  · rw [Nat.eq_zero_of_not_pos hm, Nat.cast_zero, zero_mul]
    rfl

theorem eq_neg_abs (h : ofFloat x = finite negative m e) :
    x = if negative then -Scalar.abs x else Scalar.abs x := by
  refine Double.eq_of_unpack_eq ?_
  rw [ofFloat_eq] at h
  rw [apply_ite Float.toModel, apply_ite Float.Model.unpack, Double.unpack_neg, Double.unpack_abs]
  cases hunpack : x.toModel.unpack with
  | infinity s | notANumber =>
    rw [hunpack] at h
    cases h
  | zero s =>
    rw [hunpack] at h
    cases h
    cases s <;> rfl
  | finite s m e hm =>
    rw [hunpack] at h
    cases h
    cases s <;> rfl

end BinaryValue

end LinearProgramming
