import LinearProgramming.Proofs.Scalar.Double

/-!
# Rounding in double precision

Rounding to the nearest never passes a number that the format has: whatever such number bounds an
exact result bounds the rounded one as well. If the bound is within the range, the rounded result is
finite.

A number is rounded by shifting its mantissa to the right until no more than 53 bits are left, or
fewer at the least exponent. The bits that fall off are kept in mind as far as rounding asks for
them. A bound of the format is a whole number at the exponent at which this ends, and a mantissa
below a whole number is at most that number when it has been rounded.
-/

open Float.Model Float.Model.UnpackedFloat

namespace LinearProgramming

namespace Double

/-! ## Rounding a mantissa -/

/-- A mantissa that is at most `n`, the bits that have been dropped from it included. -/
def AtMost (em : ExtendedMantissa) (n : ℕ) : Prop :=
  em.mantissa < n ∨ em.mantissa = n ∧ em.roundBit = false ∧ em.stickyBit = false

theorem AtMost.roundedMantissa_le {em : ExtendedMantissa} {n : ℕ} (h : AtMost em n) :
    em.roundedMantissa ≤ n := by
  obtain ⟨m, r, s⟩ := em
  rcases h with hlt | ⟨rfl, rfl, rfl⟩
  · have hstep : ExtendedMantissa.roundedMantissa ⟨m, r, s⟩ ≤ m + 1 := by
      rw [ExtendedMantissa.roundedMantissa]
      cases r <;> cases s <;>
        simp only [ExtendedMantissa.accuracy, Accuracy.roundToNearestEven] <;> omega
    exact hstep.trans hlt
  · exact Nat.le_refl _

theorem le_roundedMantissa (em : ExtendedMantissa) : em.mantissa ≤ em.roundedMantissa := by
  obtain ⟨m, r, s⟩ := em
  rw [ExtendedMantissa.roundedMantissa]
  cases r <;> cases s <;>
    simp only [ExtendedMantissa.accuracy, Accuracy.roundToNearestEven] <;> omega

theorem AtMost.shiftRight {em : ExtendedMantissa} {n k : ℕ} (h : AtMost em (n * 2 ^ k)) :
    AtMost (em >>> k) n := by
  change AtMost (Nat.repeat ExtendedMantissa.shiftRightOne k em) n
  induction k generalizing n with
  | zero => simpa [Nat.repeat] using h
  | succ k ih =>
    have hhalf : AtMost (Nat.repeat ExtendedMantissa.shiftRightOne k em) (n * 2) :=
      ih (by rwa [mul_assoc, ← pow_succ'])
    rw [Nat.repeat]
    rcases hhalf with hlt | ⟨heq, hround, hsticky⟩
    · exact .inl (Nat.div_lt_of_lt_mul (by rwa [mul_comm]))
    · refine .inr ⟨?_, ?_, ?_⟩
      · simp [ExtendedMantissa.shiftRightOne, heq]
      · simp [ExtendedMantissa.shiftRightOne, heq]
      · simp [ExtendedMantissa.shiftRightOne, hround, hsticky]

theorem mantissa_shiftRight (em : ExtendedMantissa) (k : ℕ) :
    (em >>> k).mantissa = em.mantissa / 2 ^ k := by
  change (Nat.repeat ExtendedMantissa.shiftRightOne k em).mantissa = _
  induction k with
  | zero => simp [Nat.repeat]
  | succ k ih =>
    rw [Nat.repeat, ExtendedMantissa.shiftRightOne, ih, Nat.div_div_eq_div_mul, pow_succ]

theorem atMost_ofMantissaAndAccuracy {m n : ℕ} {acc : Accuracy} (hle : m ≤ n)
    (hacc : acc = .exact ∨ m < n) : AtMost (.ofMantissaAndAccuracy m acc) n := by
  rcases hacc with rfl | hlt
  · rcases hle.lt_or_eq with hlt | rfl
    · exact .inl hlt
    · exact .inr ⟨rfl, rfl, rfl⟩
  · refine .inl ?_
    rcases acc with _ | _ | _ | _ <;> exact hlt

theorem mantissa_ofMantissaAndAccuracy (m : ℕ) (acc : Accuracy) :
    (ExtendedMantissa.ofMantissaAndAccuracy m acc).mantissa = m := by
  rcases acc with _ | _ | _ | _ <;> rfl

/-! ## Rounding a number -/

/-- The magnitude of a finite number. -/
def size : UnpackedFloat → ℚ
  | .finite _ m e _ => m * 2 ^ e
  | _ => 0

/-- A finite number of the format whose magnitude is at most `r`. -/
structure Bounded (r : ℚ) (u : UnpackedFloat) : Prop where
  fits : Fits u
  isFinite : u.isFinite = true
  size_le : size u ≤ r

/-- A power of two that is well within the range of the format. -/
@[irreducible] def ceiling : ℚ := 2 ^ (1023 : ℤ)

/-- The bounds that rounding respects: numbers of the format up to the ceiling. -/
def IsBound (r : ℚ) : Prop :=
  ∃ n : ℕ, ∃ k : ℤ, n < 2 ^ 53 ∧ -1074 ≤ k ∧ r = n * 2 ^ k ∧ r ≤ ceiling

theorem two_zpow_le_mul {m n : ℕ} (h : 2 ^ n ≤ m) (e : ℤ) :
    (2 : ℚ) ^ ((n : ℤ) + e) ≤ m * 2 ^ e := by
  rw [zpow_add₀ two_ne_zero, zpow_natCast]
  exact mul_le_mul_of_nonneg_right (mod_cast h) (by positivity)

theorem mul_le_two_zpow {m n : ℕ} (h : m ≤ 2 ^ n) (e : ℤ) :
    (m : ℚ) * 2 ^ e ≤ 2 ^ ((n : ℤ) + e) := by
  rw [zpow_add₀ two_ne_zero, zpow_natCast]
  exact mul_le_mul_of_nonneg_right (mod_cast h) (by positivity)

theorem isBound_two_zpow {k : ℤ} (hk : 0 ≤ k) (hmax : k ≤ 1023) : IsBound (2 ^ k) := by
  refine ⟨1, k, by norm_num, by omega, by rw [Nat.cast_one, one_mul], ?_⟩
  rw [ceiling]
  exact zpow_le_zpow_right₀ one_le_two hmax

theorem isBound_mul_two_zpow {n : ℕ} {k : ℤ} (hn : n < 2 ^ 53) (hk : 0 ≤ k)
    (hmax : k + 53 ≤ 1023) : IsBound (n * 2 ^ k) := by
  refine ⟨n, k, hn, by omega, rfl, ?_⟩
  rw [ceiling]
  exact (mul_le_two_zpow hn.le k).trans (zpow_le_zpow_right₀ one_le_two (by omega))

theorem Bounded.zero {r : ℚ} (hr : 0 ≤ r) (s : Sign) : Bounded r (.zero s) := ⟨.zero s, rfl, hr⟩

/-- The exponent at which a number is rounded. -/
def target (m : ℕ) (e : ℤ) : ℤ := max ((m.log2 : ℤ) + e - 52) (-1074)

theorem targetExponent_eq_target (m : ℕ) (e : ℤ) :
    Format.binary64.targetExponent (totalExponent m e) = target m e := by
  change max ((m.log2 : ℤ) + 1 + e - 53) (-1074) = _
  rw [target]
  congr 1
  omega

theorem log2_lt_of_lt {m : ℕ} (hm : m < 2 ^ 53) : m.log2 < 53 := by
  by_cases hzero : m = 0
  · simp [hzero]
  · exact (Nat.log2_lt hzero).mpr hm

theorem shiftToTargetExponent_eq {m : ℕ} {e : ℤ} (acc : Accuracy) (he : e ≤ target m e) :
    shiftToTargetExponent .binary64 m e acc
      = (ExtendedMantissa.ofMantissaAndAccuracy m acc >>> (target m e - e).toNat, target m e) := by
  rw [shiftToTargetExponent, targetExponent_eq_target, shiftToExponent]
  exact Prod.ext rfl (by dsimp only; omega)

theorem shiftToTargetExponent_of_lt {m : ℕ} {e : ℤ} (hm : m < 2 ^ 53) (he : -1074 ≤ e) :
    shiftToTargetExponent .binary64 m e .exact = (⟨m, false, false⟩, e) := by
  have hlog := log2_lt_of_lt hm
  have hamount : (target m e - e).toNat = 0 := by
    rw [target]
    omega
  rw [shiftToTargetExponent, targetExponent_eq_target, shiftToExponent, hamount]
  exact Prod.ext rfl (add_zero e)

/-- A mantissa that has been rounded up to 54 bits loses the last of them, a zero. -/
theorem shiftToTargetExponent_two_pow {e : ℤ} (he : -1074 ≤ e) :
    shiftToTargetExponent .binary64 (2 ^ 53) e .exact = (⟨2 ^ 52, false, false⟩, e + 1) := by
  have hamount : (target (2 ^ 53) e - e).toNat = 1 := by
    rw [target, Nat.log2_two_pow]
    omega
  rw [shiftToTargetExponent, targetExponent_eq_target, shiftToExponent, hamount]
  rfl

theorem two_zpow_eq {e t : ℤ} (h : t ≤ e) : (2 : ℚ) ^ e = 2 ^ (e - t).toNat * 2 ^ t := by
  rw [← zpow_natCast, ← zpow_add₀ two_ne_zero]
  exact congrArg _ (by omega)

theorem shifted_bounds {m : ℕ} {e : ℤ} (he : 2 ^ 52 ≤ m ∨ e ≤ -1074) :
    e ≤ target m e ∧ m / 2 ^ (target m e - e).toNat < 2 ^ 53
      ∧ (2 ^ 52 ≤ m / 2 ^ (target m e - e).toNat ∨ target m e = -1074) := by
  have hge : e ≤ target m e := by
    rw [target]
    rcases he with hm | he
    · have hlog := (Nat.le_log2 (by omega)).mpr hm
      omega
    · exact le_max_of_le_right he
  refine ⟨hge, ?_, ?_⟩
  · have hlog : m.log2 + 1 ≤ (target m e - e).toNat + 53 := by
      rw [target] at hge ⊢
      omega
    rw [Nat.div_lt_iff_lt_mul (by positivity), mul_comm, ← pow_add]
    exact Nat.lt_log2_self.trans_le (Nat.pow_le_pow_right (by norm_num) hlog)
  · by_cases hmin : target m e = -1074
    · exact .inr hmin
    · have hlog : 52 + (target m e - e).toNat = m.log2 := by
        rw [target] at hge hmin ⊢
        omega
      have hm : m ≠ 0 := by
        rintro rfl
        simp at hlog
      rw [Nat.le_div_iff_mul_le (by positivity), ← pow_add, hlog]
      exact .inl (Nat.log2_self_le hm)

theorem target_le_of_mul_le {m n : ℕ} {e k : ℤ} (he : 2 ^ 52 ≤ m ∨ e ≤ -1074) (hn : n < 2 ^ 53)
    (hk : -1074 ≤ k) (hle : (m : ℚ) * 2 ^ e ≤ n * 2 ^ k) : target m e ≤ k := by
  rw [target]
  by_cases hm : m = 0
  · subst hm
    rw [Nat.log2_zero]
    omega
  · have hlow := two_zpow_le_mul (Nat.log2_self_le hm) e
    have hhigh : (n : ℚ) * 2 ^ k < 2 ^ (53 + k) := by
      rw [zpow_add₀ two_ne_zero]
      exact mul_lt_mul_of_pos_right (mod_cast hn) (by positivity)
    have hexp := (zpow_lt_zpow_iff_right₀ one_lt_two).mp ((hlow.trans hle).trans_lt hhigh)
    omega

theorem fits_of_rounded (s : Sign) {m : ℕ} {e : ℤ} (hm : 0 < m) (hlt : m < 2 ^ 53)
    (hmin : 2 ^ 52 ≤ m ∨ e = -1074) (hge : -1074 ≤ e) (hmax : (m : ℚ) * 2 ^ e ≤ ceiling) :
    Fits (.finite s m e hm) := by
  by_cases hle : 2 ^ 52 ≤ m
  · have hlow := two_zpow_le_mul hle e
    rw [ceiling] at hmax
    have hexp := (zpow_le_zpow_iff_right₀ one_lt_two).mp (hlow.trans hmax)
    exact .normal s hm hle hlt hge (by omega)
  · obtain rfl := hmin.resolve_left hle
    exact .subnormal s hm (not_le.mp hle)

private theorem bounded_of_rounded (s : Sign) {m : ℕ} {e t : ℤ} {acc : Accuracy}
    {em : ExtendedMantissa} {r : ℚ} (hr : r ≤ ceiling)
    (hfirst : shiftToTargetExponent .binary64 m e acc = (em, t)) (hleast : -1074 ≤ t)
    (hbits : em.roundedMantissa ≤ 2 ^ 53) (hmin : 2 ^ 52 ≤ em.roundedMantissa ∨ t = -1074)
    (hsize : (em.roundedMantissa : ℚ) * 2 ^ t ≤ r) :
    Bounded r (roundWithAccuracy .binary64 s m e acc) := by
  rw [roundWithAccuracy, hfirst]
  dsimp only
  rcases hbits.lt_or_eq with hbits | hbits
  · rw [shiftToTargetExponent_of_lt hbits hleast]
    dsimp only
    split_ifs with hzero
    · rw [hzero, Nat.cast_zero, zero_mul] at hsize
      exact .zero hsize s
    · exact ⟨fits_of_rounded s _ hbits hmin hleast (hsize.trans hr), rfl, hsize⟩
  · rw [hbits] at hsize
    have hnext : ((2 ^ 52 : ℕ) : ℚ) * 2 ^ (t + 1) ≤ r := by
      refine le_of_eq_of_le ?_ hsize
      rw [zpow_add₀ two_ne_zero]
      push_cast
      ring
    rw [hbits, shiftToTargetExponent_two_pow hleast]
    dsimp only
    rw [dif_neg (by norm_num)]
    exact ⟨fits_of_rounded s _ (by norm_num) (.inl le_rfl) (by omega) (hnext.trans hr), rfl, hnext⟩

/-- **Rounding respects bounds**, be the number that is rounded exact or the lower end of where the
exact number lies. -/
theorem bounded_roundWithAccuracy (s : Sign) {m : ℕ} {e : ℤ} {acc : Accuracy} {v r : ℚ}
    (hr : IsBound r) (he : 2 ^ 52 ≤ m ∨ e ≤ -1074) (hv : m * 2 ^ e ≤ v)
    (hacc : acc = .exact ∨ m * 2 ^ e < v) (hle : v ≤ r) :
    Bounded r (roundWithAccuracy .binary64 s m e acc) := by
  obtain ⟨n, k, hn, hk, rfl, hmax⟩ := hr
  obtain ⟨hge, hlt, hmin⟩ := shifted_bounds he
  -- The bound is a whole number at the exponent at which the number is rounded.
  set l := (k - target m e).toNat
  have hbound : (n : ℚ) * 2 ^ k = (n * 2 ^ l : ℕ) * 2 ^ target m e := by
    rw [two_zpow_eq (target_le_of_mul_le he hn hk (hv.trans hle))]
    push_cast
    ring
  set j := (target m e - e).toNat with hj
  have hunit : (2 : ℚ) ^ target m e = 2 ^ j * 2 ^ e := two_zpow_eq hge
  have hmantissa : m ≤ n * 2 ^ l * 2 ^ j ∧ (acc = .exact ∨ m < n * 2 ^ l * 2 ^ j) := by
    have hpos : (0 : ℚ) < 2 ^ e := by positivity
    rw [hbound, hunit, ← mul_assoc] at hle
    refine ⟨?_, hacc.imp_right fun hlt ↦ ?_⟩
    · exact_mod_cast le_of_mul_le_mul_right (hv.trans hle) hpos
    · exact_mod_cast lt_of_mul_lt_mul_right (hlt.trans_le hle) hpos.le
  set em := ExtendedMantissa.ofMantissaAndAccuracy m acc >>> j with hem
  have hshifted : em.mantissa = m / 2 ^ j := by
    rw [hem, mantissa_shiftRight, mantissa_ofMantissaAndAccuracy]
  have hrounded : em.roundedMantissa ≤ n * 2 ^ l :=
    (atMost_ofMantissaAndAccuracy hmantissa.1 hmantissa.2).shiftRight.roundedMantissa_le
  rw [← hshifted] at hlt hmin
  refine bounded_of_rounded s hmax (shiftToTargetExponent_eq acc hge) (le_max_right _ _)
    (AtMost.roundedMantissa_le (.inl hlt)) ?_ ?_
  · exact hmin.imp_left fun h ↦ h.trans (le_roundedMantissa em)
  · rw [hbound]
    exact mul_le_mul_of_nonneg_right (mod_cast hrounded) (by positivity)

theorem decreaseExponent_bits {m : ℕ} (hm : 0 < m) (e : ℤ) :
    2 ^ 52 ≤ (decreaseExponent m e (target m e)).1
      ∨ (decreaseExponent m e (target m e)).2 ≤ -1074 := by
  rw [decreaseExponent]
  dsimp only
  set k := (e - target m e).toNat with hk
  by_cases hmin : e - k ≤ -1074
  · exact .inr hmin
  · have hlog : 52 ≤ m.log2 + k := by
      rw [target] at hk
      omega
    have hpow : 2 ^ (m.log2 + k) ≤ m * 2 ^ k := by
      rw [pow_add]
      exact Nat.mul_le_mul_right _ (Nat.log2_self_le hm.ne')
    rw [Nat.shiftLeft_eq]
    exact .inl ((Nat.pow_le_pow_right (by norm_num) hlog).trans hpow)

theorem decreaseExponent_eq (m : ℕ) (e t : ℤ) :
    ((decreaseExponent m e t).1 : ℚ) * 2 ^ (decreaseExponent m e t).2 = m * 2 ^ e := by
  rw [decreaseExponent, Nat.shiftLeft_eq, zpow_sub₀ two_ne_zero, zpow_natCast]
  push_cast
  field_simp

theorem bounded_round (s : Sign) {m : ℕ} {e : ℤ} {r : ℚ} (hr : IsBound r) (hm : 0 < m)
    (hle : m * 2 ^ e ≤ r) : Bounded r (UnpackedFloat.round .binary64 s m e) := by
  rw [UnpackedFloat.round, targetExponent_eq_target]
  exact bounded_roundWithAccuracy s hr (decreaseExponent_bits hm e)
    (decreaseExponent_eq m e _).le (.inl rfl) hle

theorem bounded_normalize (s : Sign) {a e : ℤ} {r : ℚ} (hr : IsBound r)
    (hle : |(a : ℚ)| * 2 ^ e ≤ r) : Bounded r (normalize .binary64 a e s) := by
  rw [UnpackedFloat.normalize]
  rcases lt_trichotomy a 0 with ha | rfl | ha
  · have habs : |(a : ℚ)| = ((-a).toNat : ℚ) := by
      rw [abs_of_neg (mod_cast ha)]
      exact_mod_cast (Int.toNat_of_nonneg (by omega)).symm
    rw [Int.compare_eq_lt.mpr ha]
    exact bounded_round _ hr (by omega) (habs ▸ hle)
  · rw [Int.cast_zero, abs_zero, zero_mul] at hle
    exact .zero hle s
  · have habs : |(a : ℚ)| = (a.toNat : ℚ) := by
      rw [abs_of_pos (mod_cast ha)]
      exact_mod_cast (Int.toNat_of_nonneg ha.le).symm
    rw [Int.compare_eq_gt.mpr ha]
    exact bounded_round _ hr (by omega) (habs ▸ hle)

end Double

end LinearProgramming
