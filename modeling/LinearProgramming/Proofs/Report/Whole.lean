import LinearProgramming.Proofs.Decimal.Binary
import LinearProgramming.Proofs.Decimal.Fixed
import LinearProgramming.Proofs.Scalar.DoubleSigns
import LinearProgramming.Proofs.Scalar.Nearest

/-!
# How a report shows a whole double

Up to `2 ^ 53` a whole double may have bits after the point, all of them zero, and from there on
every double is whole. Rounding leaves either alone, so what is left of a whole number is zero, and
the test for whole numbers never fails one of any size.

What is written for it is an integer of 64 bits, though. That is the number itself from `-2 ^ 63` up
to `2 ^ 63`, and beyond that the end of the range, with no sign that it stands for a number that may
be larger by hundreds of digits.
-/

open Float.Model Float.Model.UnpackedFloat

namespace LinearProgramming

/-! ## The number that a double stands for -/

namespace BinaryValue

/-- The number that a double stands for, if it is finite. -/
def value? : BinaryValue → Option ℚ
  | finite negative significand exponent =>
    some (if negative then -(significand * 2 ^ exponent) else significand * 2 ^ exponent)
  | _ => none

theorem exists_of_value? {b : BinaryValue} {r : ℚ} (h : b.value? = some r) :
    ∃ negative m e, b = finite negative m e ∧ |r| = m * 2 ^ e := by
  cases b with
  | infinite negative | undefined => cases h
  | finite negative m e =>
    refine ⟨negative, m, e, rfl, ?_⟩
    obtain rfl := Option.some.inj h
    have hnonneg : (0 : ℚ) ≤ m * 2 ^ e := by positivity
    cases negative with
    | false => exact abs_of_nonneg hnonneg
    | true => exact (abs_neg _).trans (abs_of_nonneg hnonneg)

/-- **A whole double is the whole number next to it.** -/
theorem round_eq {b : BinaryValue} {n : ℤ} (h : b.value? = some (n : ℚ)) : b.round = n := by
  obtain ⟨negative, m, e, rfl, habs⟩ := exists_of_value? h
  have hquotient : ((m * (powerRatio 2 e).1 : ℕ) : ℚ) / (powerRatio 2 e).2 = n.natAbs := by
    rw [Nat.cast_mul, mul_div_assoc, powerRatio_div, Nat.cast_ofNat, ← habs, Nat.cast_natAbs,
      Int.cast_abs]
  have hround : roundDiv .away (m * (powerRatio 2 e).1) (powerRatio 2 e).2 = n.natAbs :=
    roundDiv_eq (powerRatio_snd_pos two_pos e) hquotient
  have hvalue := Option.some.inj h
  have hnonneg : (0 : ℚ) ≤ m * 2 ^ e := by positivity
  rw [BinaryValue.round]
  dsimp only
  rw [hround]
  cases negative with
  | false =>
    have hn : (0 : ℚ) ≤ n := hvalue ▸ hnonneg
    rw [if_neg Bool.false_ne_true]
    exact Int.natAbs_of_nonneg (mod_cast hn)
  | true =>
    have hn : (n : ℚ) ≤ 0 := by
      rw [← hvalue, if_pos rfl]
      exact neg_nonpos.mpr hnonneg
    rw [if_pos rfl, Int.ofNat_natAbs_of_nonpos (mod_cast hn), neg_neg]

end BinaryValue

/-! ## Whole numbers as doubles -/

namespace Double

theorem round_of_holds {s : Sign} {m n : ℕ} {e k : ℤ} {hn : 0 < n} (hm : 0 < m)
    (hfits : Fits (.finite s n k hn)) (h : (RoundingInterval.of n k).Holds (m * 2 ^ e)) :
    UnpackedFloat.round .binary64 s m e = .finite s n k hn := by
  have hunit : (2 : ℚ) ^ (decreaseExponent m e (target m e)).2 ≠ 0 := by positivity
  have hdescribes : Describes
      (.ofMantissaAndAccuracy (decreaseExponent m e (target m e)).1 .exact)
      (m * 2 ^ e / 2 ^ (decreaseExponent m e (target m e)).2) := by
    rw [← decreaseExponent_eq m e (target m e), mul_div_cancel_right₀ _ hunit]
    exact describes_exact _
  rw [UnpackedFloat.round, targetExponent_eq_target]
  exact roundWithAccuracy_of_holds hfits (decreaseExponent_bits hm e) hdescribes h

theorem toFloat_eq_abs {x : Float} {negative : Bool} {m : ℕ} {e : ℤ}
    (h : BinaryValue.ofFloat x = .finite negative m e) {c : UInt64}
    (hc : (c.toNat : ℚ) = m * 2 ^ e) : c.toFloat = Scalar.abs x := by
  have hfits := fits_unpack (Scalar.abs x).toModel
  refine eq_of_unpack_eq ?_
  change (Float.Model.pack (normalize .binary64 (c.toNat : ℤ) 0 .positive)).unpack = _
  rw [BinaryValue.unpack_abs h] at hfits ⊢
  by_cases hm : 0 < m
  · rw [dif_pos hm] at hfits ⊢
    have hpos : 0 < c.toNat := by
      have hvalue : (0 : ℚ) < c.toNat := hc ▸ by positivity
      exact_mod_cast hvalue
    have hholds : (RoundingInterval.of m e).Holds (c.toNat * 2 ^ (0 : ℤ)) := by
      rw [zpow_zero, mul_one, hc]
      refine RoundingInterval.holds_of_abs_sub_lt hm ?_ fun _ ↦ ?_
      all_goals
        rw [sub_self, abs_zero]
        positivity
    have hround : normalize .binary64 (c.toNat : ℤ) 0 .positive = .finite .positive m e hm := by
      rw [UnpackedFloat.normalize, Int.compare_eq_gt.mpr (mod_cast hpos)]
      exact round_of_holds hpos hfits hholds
    rw [hround]
    exact unpack_pack hfits
  · have hzero : c.toNat = 0 := by
      rw [Nat.eq_zero_of_not_pos hm, Nat.cast_zero, zero_mul] at hc
      exact_mod_cast hc
    rw [dif_neg hm, hzero]
    exact unpack_pack (.zero _)

theorem ofNat_eq_abs {x : Float} {negative : Bool} {m : ℕ} {e : ℤ}
    (h : BinaryValue.ofFloat x = .finite negative m e) {c : ℕ} (hlt : c < 2 ^ 53)
    (hc : (c : ℚ) = m * 2 ^ e) : Float.ofNat c = Scalar.abs x := by
  have hbits : c.toUInt64.toNat = c := UInt64.toNat_ofNat_of_lt' (hlt.trans (by norm_num))
  have hone : Float.ofNat c = c.toUInt64.toFloat * 1 := dif_pos ⟨hlt, Nat.zero_le 22⟩
  have hsame : c.toUInt64.toFloat * 1 = c.toUInt64.toFloat := by
    refine eq_of_unpack_eq (unpack_mul (fits_unpack _) ?_)
    rw [unpack_one, mul_one_unpacked (fits_unpack _)]
  rw [hone, hsame]
  exact toFloat_eq_abs h (hbits.symm ▸ hc)

theorem abs_sub_self_lt {x : Float} (hx : Scalar.isFinite x = true) :
    Scalar.abs (x - x) < (1e-9 : Float) := by
  obtain ⟨s, hs⟩ := unpack_of_beq_zero (sub_self_beq_zero hx)
  rw [lt_iff_unpack, unpack_abs, hs, unpack_billionth]
  rfl

theorem size_lt_one {x : Float} (h : Scalar.abs x < (1e-9 : Float)) :
    size x.toModel.unpack < 1 := by
  have hbillionth : Within (2 ^ ((53 : ℕ) + (-82) : ℤ)) 1e-9 := by
    rw [Within, unpack_billionth]
    exact ⟨unpack_billionth ▸ fits_unpack _, rfl, mul_le_two_zpow (by norm_num) (-82)⟩
  have hle : Scalar.abs x ≤ (1e-9 : Float) := by
    obtain ⟨hx, hy, hkey⟩ := (lt_iff _ _).mp ((lt_iff_unpack _ _).mp h)
    exact decide_eq_true ((le_iff _ _).mpr ⟨hx, hy, hkey.le⟩)
  exact (within_of_abs_le hbillionth hle).size_le.trans_lt (by norm_num)

end Double

/-! ## Rounding leaves whole doubles alone -/

section

variable {v : Float} {n : ℤ}

theorem roundFloat_eq (h : (BinaryValue.ofFloat v).value? = some (n : ℚ)) : roundFloat v = v := by
  obtain ⟨negative, m, e, hv, habs⟩ := BinaryValue.exists_of_value? h
  rw [roundFloat, hv]
  dsimp only
  by_cases he : 0 ≤ e
  · rw [if_pos he]
  · have hmagnitude : (BinaryValue.finite false m e).round = |n| := by
      refine BinaryValue.round_eq (congrArg some ?_)
      rw [if_neg Bool.false_ne_true, ← habs, Int.cast_abs]
    have hcast : (n.natAbs : ℚ) = m * 2 ^ e := by rw [← habs, Nat.cast_natAbs, Int.cast_abs]
    have hlt : n.natAbs < 2 ^ 53 := by
      have hone : (2 : ℚ) ^ e ≤ 1 := zpow_le_one_of_nonpos₀ one_le_two (by omega)
      have hle : (n.natAbs : ℚ) ≤ m := by
        rw [hcast]
        exact mul_le_of_le_one_right (Nat.cast_nonneg m) hone
      exact (Nat.cast_le.mp hle).trans_lt (BinaryValue.lt_of_ofFloat hv)
    rw [if_neg he, hmagnitude, Int.natAbs_abs, Double.ofNat_eq_abs hv hlt hcast]
    exact (BinaryValue.eq_neg_abs hv).symm

theorem floatToInteger_eq (h : (BinaryValue.ofFloat v).value? = some (n : ℚ)) :
    floatToInteger v = limitToInt64 n := by
  have hround := BinaryValue.round_eq h
  obtain ⟨negative, m, e, hv, -⟩ := BinaryValue.exists_of_value? h
  rw [hv] at hround
  rw [floatToInteger, hv, ← hround]

theorem limitToInt64_eq_iff : limitToInt64 n = n ↔ -2 ^ 63 ≤ n ∧ n < 2 ^ 63 := by
  have hpow : Int.pow 2 63 = 2 ^ 63 := rfl
  rw [limitToInt64, hpow]
  omega

theorem limitToInt64_of_le (h : 2 ^ 63 ≤ n) : limitToInt64 n = 2 ^ 63 - 1 := by
  have hpow : Int.pow 2 63 = 2 ^ 63 := rfl
  rw [limitToInt64, hpow]
  omega

theorem limitToInt64_of_lt (h : n < -2 ^ 63) : limitToInt64 n = -2 ^ 63 := by
  have hpow : Int.pow 2 63 = 2 ^ 63 := rfl
  rw [limitToInt64, hpow]
  omega

end

/-! ## What a report shows -/

namespace Reportable

variable {v : Float} {n : ℤ}

/-- **A whole double is shown as a whole number** of 64 bits, the one next to it. -/
theorem text_of_value? (h : (BinaryValue.ofFloat v).value? = some (n : ℚ)) :
    text v = toString (limitToInt64 n) := by
  obtain ⟨negative, m, e, hv, habs⟩ := BinaryValue.exists_of_value? h
  rw [text]
  by_cases hsmall : Scalar.abs v < (nearness : Float)
  · have hone : |(n : ℚ)| < 1 := by
      rw [habs, ← BinaryValue.size_unpack hv]
      exact Double.size_lt_one hsmall
    have hzero : n = 0 := Int.abs_lt_one_iff.mp (mod_cast hone)
    rw [if_pos hsmall, hzero]
    rfl
  · have hround : (round v : Float) = v := roundFloat_eq h
    have hnear : isNear v (round v) = true := by
      rw [isNear, hround]
      exact decide_eq_true (Double.abs_sub_self_lt (BinaryValue.isFinite_of_ofFloat hv))
    rw [if_neg hsmall, if_pos hnear, hround]
    exact congrArg toString (floatToInteger_eq h)

/-- **Whole doubles in a report.** A whole double is shown by the digits of the number that it
stands for, and read back as that number, exactly if the number is an integer of 64 bits with a
sign. Larger ones are all shown as the largest such integer, and smaller ones as the smallest. -/
theorem text_eq_toString_iff_of_whole (h : (BinaryValue.ofFloat v).value? = some (n : ℚ)) :
    (text v = toString n ↔ -2 ^ 63 ≤ n ∧ n < 2 ^ 63)
    ∧ ((text v).toInt? = some n ↔ -2 ^ 63 ≤ n ∧ n < 2 ^ 63)
    ∧ (2 ^ 63 ≤ n → text v = "9223372036854775807")
    ∧ (n < -2 ^ 63 → text v = "-9223372036854775808") := by
  rw [text_of_value? h]
  refine ⟨?_, ?_, fun hle ↦ ?_, fun hlt ↦ ?_⟩
  · rw [← limitToInt64_eq_iff]
    exact ⟨eq_of_toString_eq, congrArg toString⟩
  · rw [← limitToInt64_eq_iff, Int.toString_eq_repr, Int.toInt?_repr, Option.some_inj]
  · rw [limitToInt64_of_le hle]
    rfl
  · rw [limitToInt64_of_lt hlt]
    rfl

/-- The least integer of 64 bits is still shown as it is. -/
theorem text_eq_toString_iff_of_whole_least :
    (BinaryValue.ofFloat (-9223372036854775808)).value? = some ((-2 ^ 63 : ℤ) : ℚ)
    ∧ text (-9223372036854775808 : Float) = toString (-2 ^ 63 : ℤ)
    ∧ (text (-9223372036854775808 : Float)).toInt? = some (-2 ^ 63) := by
  have hvalue : (BinaryValue.ofFloat (-9223372036854775808)).value? = some ((-2 ^ 63 : ℤ) : ℚ) := by
    decide +kernel
  obtain ⟨htext, hread, -, -⟩ := text_eq_toString_iff_of_whole hvalue
  exact ⟨hvalue, htext.mpr (by norm_num), hread.mpr (by norm_num)⟩

/-- Ten quintillions are a double, but not an integer of 64 bits. -/
theorem text_ne_toString_quintillions :
    (BinaryValue.ofFloat 1e19).value? = some ((10 ^ 19 : ℤ) : ℚ)
    ∧ text (1e19 : Float) = "9223372036854775807"
    ∧ text (1e19 : Float) ≠ toString (10 ^ 19 : ℤ)
    ∧ (text (1e19 : Float)).toInt? ≠ some (10 ^ 19) := by
  have htext : text (1e19 : Float) = "9223372036854775807" := by decide +kernel
  have hdigits : "9223372036854775807" = (2 ^ 63 - 1 : ℤ).repr := by decide +kernel
  refine ⟨by decide +kernel, htext, ?_, ?_⟩
  · rw [htext]
    decide +kernel
  · rw [htext, hdigits, Int.toInt?_repr]
    decide

end Reportable

end LinearProgramming
