import LinearProgramming.Proofs.Scalar.Rounding

/-!
# Magnitudes in double precision

How large the result of an operation can be, by the magnitudes of its operands. The bounds are
rational numbers, and those that rounding respects are few bits times a power of two. There are
enough of them for the sums that an elimination forms: taking away a number within `2 ^ k` turns a
bound of `n` times `2 ^ k` into one of `n + 1` times that, with nothing added by rounding.

A comparison of doubles bounds a magnitude, from above or from below.
-/

open Float.Model Float.Model.UnpackedFloat

namespace LinearProgramming

namespace Double

/-! ## Arithmetic -/

theorem size_nonneg (u : UnpackedFloat) : 0 ≤ size u := by
  rcases u with _ | _ | _ | ⟨_, m, e, _⟩
  case finite => exact mul_nonneg (Nat.cast_nonneg m) (by positivity)
  all_goals exact le_rfl

theorem Bounded.nonneg {r : ℚ} {u : UnpackedFloat} (h : Bounded r u) : 0 ≤ r :=
  (size_nonneg u).trans h.size_le

theorem Bounded.mono {r r' : ℚ} {u : UnpackedFloat} (h : Bounded r u) (hle : r ≤ r') :
    Bounded r' u := ⟨h.fits, h.isFinite, h.size_le.trans hle⟩

theorem Bounded.neg {r : ℚ} {u : UnpackedFloat} (h : Bounded r u) : Bounded r u.neg := by
  obtain ⟨hfits, hfinite, hsize⟩ := h
  refine ⟨hfits.neg, ?_, ?_⟩ <;> rcases u with _ | _ | _ | _ <;> assumption

theorem decreaseExponent_mul {m : ℕ} {e t : ℤ} (h : t ≤ e) :
    ((decreaseExponent m e t).1 : ℚ) * 2 ^ t = m * 2 ^ e := by
  rw [decreaseExponent, Nat.shiftLeft_eq, two_zpow_eq h]
  push_cast
  ring

theorem abs_apply_sub_le (s s' : Sign) (m m' : ℕ) :
    |((s.apply m - s'.apply m' : ℤ) : ℚ)| ≤ m + m' := by
  have habs : ∀ (s : Sign) (m : ℕ), |((s.apply m : ℤ) : ℚ)| = m := by
    rintro (_ | _) m <;> simp [Sign.apply]
  rw [Int.cast_sub]
  exact (abs_sub _ _).trans_eq (by rw [habs, habs])

/-- **The difference** of two numbers is within the sum of their bounds. -/
theorem Bounded.sub {a b r : ℚ} {u v : UnpackedFloat} (hu : Bounded a u) (hv : Bounded b v)
    (hr : IsBound r) (hle : a + b ≤ r) : Bounded r (UnpackedFloat.sub .binary64 u v) := by
  have hnonneg : 0 ≤ r := (add_nonneg hu.nonneg hv.nonneg).trans hle
  rcases u with _ | _ | s | ⟨s, m, e, hm⟩
  case notANumber | infinity => cases hu.isFinite
  all_goals rcases v with _ | _ | s' | ⟨s', m', e', hm'⟩
  case zero.notANumber | zero.infinity | finite.notANumber | finite.infinity => cases hv.isFinite
  case zero.zero =>
    rw [UnpackedFloat.sub]
    split_ifs
    · exact .zero hnonneg _
    · exact .zero hnonneg _
  case zero.finite => exact hv.neg.mono ((le_add_of_nonneg_left hu.nonneg).trans hle)
  case finite.zero => exact hu.mono ((le_add_of_nonneg_right hv.nonneg).trans hle)
  case finite.finite =>
    have hcommon := mul_le_mul_of_nonneg_right (abs_apply_sub_le s s'
      (decreaseExponent m e (min e e')).1 (decreaseExponent m' e' (min e e')).1)
      (zpow_nonneg zero_le_two (min e e') : (0 : ℚ) ≤ 2 ^ min e e')
    rw [add_mul, decreaseExponent_mul (min_le_left ..), decreaseExponent_mul (min_le_right ..)]
      at hcommon
    exact bounded_normalize _ hr (hcommon.trans ((add_le_add hu.size_le hv.size_le).trans hle))

/-- **The product** of two numbers is within the product of their bounds. -/
theorem Bounded.mul {a b r : ℚ} {u v : UnpackedFloat} (hu : Bounded a u) (hv : Bounded b v)
    (hr : IsBound r) (hle : a * b ≤ r) : Bounded r (UnpackedFloat.mul .binary64 u v) := by
  have hnonneg : 0 ≤ r := (mul_nonneg hu.nonneg hv.nonneg).trans hle
  rcases u with _ | _ | s | ⟨s, m, e, hm⟩
  case notANumber | infinity => cases hu.isFinite
  all_goals rcases v with _ | _ | s' | ⟨s', m', e', hm'⟩
  case zero.notANumber | zero.infinity | finite.notANumber | finite.infinity => cases hv.isFinite
  case zero.zero | zero.finite | finite.zero => exact .zero hnonneg _
  case finite.finite =>
    have hsize : ((m * m' : ℕ) : ℚ) * 2 ^ (e + e') = m * 2 ^ e * (m' * 2 ^ e') := by
      rw [zpow_add₀ two_ne_zero]
      push_cast
      ring
    refine bounded_roundWithAccuracy (s * s') hr ?_ hsize.le (.inl rfl)
      ((mul_le_mul hu.size_le hv.size_le (size_nonneg _) hu.nonneg).trans hle)
    -- Either one of the mantissas has all its bits, or both exponents are the least one.
    rcases hu.fits.bounds with ⟨-, rfl⟩ | ⟨hle, -⟩
    · rcases hv.fits.bounds with ⟨-, rfl⟩ | ⟨hle', -⟩
      · exact .inr (by omega)
      · exact .inl (hle'.trans (Nat.le_mul_of_pos_left m' hm))
    · exact .inl (hle.trans (Nat.le_mul_of_pos_right m hm'))

theorem divCore_bits {m m' : ℕ} (e e' : ℤ) (hm : 0 < m) (hm' : 0 < m') :
    2 ^ 52 ≤ (divCore .binary64 m e m' e').1 ∨ (divCore .binary64 m e m' e').2.1 ≤ -1074 := by
  rw [divCore]
  dsimp only
  set t := min (e - e') (Format.binary64.targetExponent (totalExponent m e - totalExponent m' e'))
    with ht
  by_cases hmin : t ≤ -1074
  · exact .inr hmin
  · have hlog : 52 + (m'.log2 + 1) ≤ m.log2 + (e - e' - t).toNat := by
      change t = min (e - e') (max ((m.log2 : ℤ) + 1 + e - (m'.log2 + 1 + e') - 53) (-1074)) at ht
      omega
    refine .inl ((Nat.le_div_iff_mul_le hm').mpr ?_)
    calc 2 ^ 52 * m' ≤ 2 ^ 52 * 2 ^ (m'.log2 + 1) := Nat.mul_le_mul_left _ Nat.lt_log2_self.le
      _ = 2 ^ (52 + (m'.log2 + 1)) := (pow_add ..).symm
      _ ≤ 2 ^ (m.log2 + (e - e' - t).toNat) := Nat.pow_le_pow_right (by norm_num) hlog
      _ = 2 ^ m.log2 * 2 ^ (e - e' - t).toNat := pow_add ..
      _ ≤ m <<< (e - e' - t).toNat := by
        rw [Nat.shiftLeft_eq]
        exact Nat.mul_le_mul_right _ (Nat.log2_self_le hm.ne')

theorem mul_div_mul_eq_shiftLeft (m m' : ℕ) {e e' t : ℤ} (ht : t ≤ e - e') :
    (m : ℚ) * 2 ^ e / (m' * 2 ^ e') = (m <<< (e - e' - t).toNat : ℕ) / m' * 2 ^ t := by
  have hpow : (2 : ℚ) ^ e = 2 ^ (e - e' - t).toNat * 2 ^ t * 2 ^ e' := by
    rw [← two_zpow_eq ht, ← zpow_add₀ two_ne_zero, sub_add_cancel]
  rw [hpow, Nat.shiftLeft_eq]
  push_cast
  field_simp

/-- What is computed of a quotient is its lower end, and reported as exact only if it is. -/
theorem divCore_bounds {m m' : ℕ} (e e' : ℤ) (hm' : 0 < m') :
    let (q, t, acc) := divCore .binary64 m e m' e'
    (q : ℚ) * 2 ^ t ≤ m * 2 ^ e / (m' * 2 ^ e')
      ∧ (acc = .exact ∨ (q : ℚ) * 2 ^ t < m * 2 ^ e / (m' * 2 ^ e')) := by
  rw [divCore]
  dsimp only
  set t := min (e - e') (Format.binary64.targetExponent (totalExponent m e - totalExponent m' e'))
  have hquotient := mul_div_mul_eq_shiftLeft m m' (min_le_left ..: t ≤ e - e')
  set n := m <<< (e - e' - t).toNat
  have hpos : (0 : ℚ) < m' := mod_cast hm'
  have hpow : (0 : ℚ) < 2 ^ t := by positivity
  rw [hquotient, mul_le_mul_iff_left₀ hpow, mul_lt_mul_iff_left₀ hpow, le_div_iff₀ hpos,
    lt_div_iff₀ hpos, accuracyOfFraction]
  refine ⟨mod_cast Nat.div_mul_le_self n m', ?_⟩
  split_ifs with hrest
  · exact .inl rfl
  · have hlt : n / m' * m' < n := by
      have hdivision := Nat.div_add_mod n m'
      rw [mul_comm]
      omega
    exact .inr (mod_cast hlt)

/-- **The quotient** of two numbers is within the quotient of their bounds, one from above and one
from below. -/
theorem Bounded.div {a b r : ℚ} {u v : UnpackedFloat} (hu : Bounded a u) (hb : 0 < b)
    (hv : v.isFinite = true) (hsize : b ≤ size v) (hr : IsBound r) (hle : a / b ≤ r) :
    Bounded r (UnpackedFloat.div .binary64 u v) := by
  have hnonneg : 0 ≤ r := (div_nonneg hu.nonneg hb.le).trans hle
  rcases v with _ | _ | s' | ⟨s', m', e', hm'⟩
  case notANumber | infinity => cases hv
  case zero => exact absurd hsize (not_le.mpr hb)
  rcases u with _ | _ | s | ⟨s, m, e, hm⟩
  case notANumber | infinity => cases hu.isFinite
  case zero => exact .zero hnonneg _
  obtain ⟨hlow, hacc⟩ := divCore_bounds (m := m) e e' hm'
  exact bounded_roundWithAccuracy (s / s') hr (divCore_bits e e' hm hm') hlow hacc
    ((div_le_div₀ hu.nonneg hu.size_le hb hsize).trans hle)

/-! ## Comparing magnitudes -/

theorem le_iff (u v : UnpackedFloat) :
    u.le v = true ↔ u ≠ .notANumber ∧ v ≠ .notANumber ∧ key u ≤ key v := by
  have hsplit : u.le v = true ↔ u.lt v = true ∨ u.beq v = true := by
    rw [UnpackedFloat.le, UnpackedFloat.lt, UnpackedFloat.beq]
    rcases u.compare v with _ | _ | _ | _ <;> decide
  rw [hsplit, lt_iff, beq_iff, le_iff_lt_or_eq]
  tauto

theorem Fits.abs {u : UnpackedFloat} (h : Fits u) : Fits u.abs := by
  rcases h with _ | s | s | ⟨s, hm, hlt⟩ | ⟨s, hm, hle, hlt, hge, hmax⟩
  · exact .notANumber
  · exact .infinity _
  · exact .zero _
  · exact .subnormal _ hm hlt
  · exact .normal _ hm hle hlt hge hmax

theorem unpack_abs (x : Float) : (Scalar.abs x).toModel.unpack = x.toModel.unpack.abs :=
  unpack_pack (fits_unpack _).abs

@[simp] theorem size_abs (u : UnpackedFloat) : size u.abs = size u := by cases u <;> rfl

@[simp] theorem isFinite_abs (u : UnpackedFloat) : u.abs.isFinite = u.isFinite := by
  cases u <;> rfl

theorem zero_le_key_abs (u : UnpackedFloat) : key (.zero .positive) ≤ key u.abs := by
  rcases u with _ | _ | _ | _ <;> simp [UnpackedFloat.abs, key, Prod.Lex.toLex_le_toLex]

/-- A number with the larger exponent is the larger one, since it has all its bits. -/
private theorem mul_zpow_le {m m' : ℕ} {e e' : ℤ}
    (h : m < 2 ^ 52 ∧ e = -1074 ∨ 2 ^ 52 ≤ m ∧ m < 2 ^ 53 ∧ -1074 ≤ e ∧ e ≤ 971)
    (h' : m' < 2 ^ 52 ∧ e' = -1074 ∨ 2 ^ 52 ≤ m' ∧ m' < 2 ^ 53 ∧ -1074 ≤ e' ∧ e' ≤ 971)
    (hle : e < e' ∨ e = e' ∧ m ≤ m') : (m : ℚ) * 2 ^ e ≤ m' * 2 ^ e' := by
  rcases hle with hlt | ⟨rfl, hle⟩
  · have hm : (m : ℚ) ≤ 2 ^ 53 := by
      norm_cast
      omega
    have hm' : (2 : ℚ) ^ 52 ≤ m' := by
      norm_cast
      omega
    calc (m : ℚ) * 2 ^ e ≤ 2 ^ 53 * 2 ^ e := mul_le_mul_of_nonneg_right hm (by positivity)
      _ = 2 ^ 52 * 2 ^ (e + 1) := by
        rw [zpow_add_one₀ two_ne_zero]
        ring
      _ ≤ m' * 2 ^ e' := mul_le_mul hm' (zpow_le_zpow_right₀ one_le_two hlt) (by positivity)
        (by positivity)
  · exact mul_le_mul_of_nonneg_right (mod_cast hle) (by positivity)

theorem Bounded.of_key_le {u v : UnpackedFloat} {r : ℚ} (hu : Fits u) (hne : u ≠ .notANumber)
    (hpos : key (.zero .positive) ≤ key u) (hv : Bounded r v) (hle : key u ≤ key v) :
    Bounded r u := by
  rcases u with (_ | _) | _ | s | ⟨_ | _, m, e, hm⟩
  case notANumber => exact absurd rfl hne
  case infinity.negative | finite.negative => simp [key, Prod.Lex.toLex_le_toLex] at hpos
  case zero => exact .zero hv.nonneg s
  all_goals rcases v with (_ | _) | _ | s' | ⟨_ | _, m', e', hm'⟩
  case infinity.positive.finite.positive | finite.positive.zero | finite.positive.finite.negative |
      infinity.positive.finite.negative | infinity.positive.zero =>
    simp [key, Prod.Lex.toLex_le_toLex] at hle
  case finite.positive.finite.positive =>
    simp only [key, Prod.Lex.toLex_le_toLex, lt_self_iff_false, true_and, false_or,
      Nat.cast_le] at hle
    exact ⟨hu, rfl, (mul_zpow_le hu.bounds hv.fits.bounds hle).trans hv.size_le⟩
  all_goals cases hv.isFinite

/-! ## Doubles within a bound -/

/-- A double that is finite and whose magnitude is at most `r`. -/
def Within (r : ℚ) (x : Float) : Prop := Bounded r x.toModel.unpack

section Within

variable {a b r : ℚ} {x y ε : Float}

theorem Within.isFinite (h : Within r x) : Scalar.isFinite x = true := Bounded.isFinite h

theorem Within.mono (h : Within a x) (hle : a ≤ b) : Within b x := Bounded.mono h hle

theorem within_zero (hr : 0 ≤ r) : Within r 0 := .zero hr .positive

theorem within_one (hr : 1 ≤ r) : Within r 1 := by
  have hfits : Fits (1 : Float).toModel.unpack := fits_unpack _
  refine ⟨hfits, by rfl, le_of_eq_of_le ?_ hr⟩
  rw [unpack_one, size]
  norm_num

theorem Within.neg (h : Within r x) : Within r (-x) := by
  rw [Within, unpack_neg]
  exact Bounded.neg h

theorem Within.sub (hx : Within a x) (hy : Within b y) (hr : IsBound r) (hle : a + b ≤ r) :
    Within r (x - y) := by
  have h := Bounded.sub hx hy hr hle
  rwa [Within, unpack_sub h.fits rfl]

theorem Within.mul (hx : Within a x) (hy : Within b y) (hr : IsBound r) (hle : a * b ≤ r) :
    Within r (x * y) := by
  have h := Bounded.mul hx hy hr hle
  rwa [Within, unpack_mul h.fits rfl]

theorem Within.div (hx : Within a x) (hb : 0 < b) (hy : Scalar.isFinite y = true)
    (hsize : b ≤ size y.toModel.unpack) (hr : IsBound r) (hle : a / b ≤ r) : Within r (x / y) := by
  have h := Bounded.div hx hb hy hsize hr hle
  change Bounded r (Float.Model.pack (UnpackedFloat.div .binary64 _ _)).unpack
  rwa [unpack_pack h.fits]

theorem Within.of_beq (h : x == y) (hy : Within r y) : Within r x := by
  have hsize : size x.toModel.unpack = size y.toModel.unpack := by
    obtain ⟨-, -, heq | ⟨hx, hy⟩ | ⟨hx, hy⟩⟩ := (beq_iff_ne_notANumber_and_eq _ _).mp h
    · rw [heq]
    · rw [hx, hy]
      rfl
    · rw [hx, hy]
      rfl
  exact ⟨fits_unpack _, (isFinite_eq h).trans hy.isFinite, hsize.trans_le hy.size_le⟩

/-! A bound from a comparison, and one from below from another. -/

theorem within_of_abs_le (hy : Within r y) (h : Scalar.abs x ≤ y) : Within r x := by
  have hle : (Scalar.abs x).toModel.unpack.le y.toModel.unpack = true := of_decide_eq_true h
  rw [unpack_abs] at hle
  obtain ⟨hne, -, hkey⟩ := (le_iff _ _).mp hle
  obtain ⟨-, hfinite, hsize⟩ := Bounded.of_key_le (fits_unpack x.toModel).abs hne
    (zero_le_key_abs _) hy hkey
  refine ⟨fits_unpack x.toModel, ?_, (size_abs _).symm.trans_le hsize⟩
  rwa [isFinite_abs] at hfinite

theorem size_le_of_not_le (hε : y ≤ ε) (hpos : key (.zero .positive) ≤ key y.toModel.unpack)
    (hx : Scalar.isFinite x = true) (h : ¬x ≤ ε) :
    size y.toModel.unpack ≤ size x.toModel.unpack := by
  have hle : y.toModel.unpack.le ε.toModel.unpack = true := of_decide_eq_true hε
  obtain ⟨hy, hne, hkey⟩ := (le_iff _ _).mp hle
  have hlt : key ε.toModel.unpack < key x.toModel.unpack := by
    by_contra hnot
    exact h (decide_eq_true ((le_iff _ _).mpr ⟨ne_notANumber hx, hne, not_lt.mp hnot⟩))
  exact (Bounded.of_key_le (fits_unpack _) hy hpos ⟨fits_unpack _, hx, le_rfl⟩
    (hkey.trans hlt.le)).size_le

theorem size_le_of_lt_abs (hε : y ≤ ε) (hpos : key (.zero .positive) ≤ key y.toModel.unpack)
    (hx : Scalar.isFinite x = true) (h : ε < Scalar.abs x) :
    size y.toModel.unpack ≤ size x.toModel.unpack := by
  have hle : y.toModel.unpack.le ε.toModel.unpack = true := of_decide_eq_true hε
  have hlt : ε.toModel.unpack.lt (Scalar.abs x).toModel.unpack = true := of_decide_eq_true h
  rw [unpack_abs] at hlt
  obtain ⟨hy, -, hkey⟩ := (le_iff _ _).mp hle
  have hx' : x.toModel.unpack.abs.isFinite = true := (isFinite_abs _).trans hx
  exact (Bounded.of_key_le (fits_unpack _) hy hpos ⟨(fits_unpack _).abs, hx', (size_abs _).le⟩
    (hkey.trans ((lt_iff _ _).mp hlt).2.2.le)).size_le

end Within

/-! ## Room for a pivot

Two magnitudes with a known ratio. A quotient of the larger by the smaller, times the larger once
more, is still far from the end of the range. -/

/-- A magnitude that leaves room for what an elimination does with it. -/
def Moderate (x : Float) : Prop := Scalar.abs x ≤ 1e145

instance : DecidablePred Moderate := fun x ↦ inferInstanceAs (Decidable (Scalar.abs x ≤ 1e145))

theorem Moderate.within {x : Float} (h : Moderate x) : Within (2 ^ (482 : ℤ)) x := by
  have hbits : (1e145 : Float) = Float.ofBits 0x5E09A06D06E26112 := by decide +kernel
  have hunpack : (1e145 : Float).toModel.unpack
      = .finite .positive 7213264545145106 429 (by norm_num) := by
    rw [hbits]
    rfl
  have hbound : Within (2 ^ (482 : ℤ)) 1e145 := by
    rw [Within, hunpack]
    exact ⟨hunpack ▸ fits_unpack _, rfl, mul_le_two_zpow (n := 53) (by norm_num) 429⟩
  exact within_of_abs_le hbound h

theorem unpack_billionth : (1e-9 : Float).toModel.unpack
    = .finite .positive 4835703278458517 (-82) (by norm_num) := by rfl

private theorem two_zpow_le_size_billionth :
    2 ^ (-30 : ℤ) ≤ size (1e-9 : Float).toModel.unpack := by
  rw [unpack_billionth]
  exact two_zpow_le_mul (n := 52) (by norm_num) (-82)

private theorem zero_le_key_billionth :
    key (.zero .positive) ≤ key (1e-9 : Float).toModel.unpack := by
  rw [unpack_billionth]
  simp [key, Prod.Lex.toLex_le_toLex]

theorem zero_le_of_billionth_le {ε : Float} (hε : 1e-9 ≤ ε) : 0 ≤ ε := by
  have hle : (1e-9 : Float).toModel.unpack.le ε.toModel.unpack = true := of_decide_eq_true hε
  obtain ⟨-, hne, hkey⟩ := (le_iff _ _).mp hle
  refine decide_eq_true ((le_iff _ _).mpr ?_)
  rw [unpack_zero]
  exact ⟨nofun, hne, zero_le_key_billionth.trans hkey⟩

theorem le_size_of_not_le {x ε : Float} (hε : 1e-9 ≤ ε) (hx : Scalar.isFinite x = true)
    (h : ¬x ≤ ε) : 2 ^ (-30 : ℤ) ≤ size x.toModel.unpack :=
  two_zpow_le_size_billionth.trans (size_le_of_not_le hε zero_le_key_billionth hx h)

theorem le_size_of_lt_abs {x ε : Float} (hε : 1e-9 ≤ ε) (hx : Scalar.isFinite x = true)
    (h : ε < Scalar.abs x) : 2 ^ (-30 : ℤ) ≤ size x.toModel.unpack :=
  two_zpow_le_size_billionth.trans (size_le_of_lt_abs hε zero_le_key_billionth hx h)

end Double

end LinearProgramming
