import LinearProgramming.Proofs.Decimal.Shortest
import LinearProgramming.Proofs.Scalar.Magnitude

/-!
# Rounding to the nearest double

A number is rounded to the double that is nearest to it, to the even one of two that are. What is
kept of the bits that fall off when a mantissa is shifted is just what that takes: whether there was
anything, and on which side of the middle. So what rounds to a double by the midpoints to its
neighbours is rounded to it, and a decimal that does is read as that double.
-/

open Float.Model Float.Model.UnpackedFloat

namespace LinearProgramming

namespace Double

/-! ## What is known of a number -/

/-- What the residual bits of a mantissa say about the number that it is the lower end of. -/
def Describes (em : ExtendedMantissa) (v : ℚ) : Prop :=
  match em.roundBit, em.stickyBit with
  | false, false => v = em.mantissa
  | false, true => em.mantissa < v ∧ v < em.mantissa + 1 / 2
  | true, false => v = em.mantissa + 1 / 2
  | true, true => em.mantissa + 1 / 2 < v ∧ v < em.mantissa + 1

theorem Describes.bounds {em : ExtendedMantissa} {v : ℚ} (h : Describes em v) :
    em.mantissa ≤ v ∧ v < em.mantissa + 1 := by
  obtain ⟨m, r, s⟩ := em
  cases r <;> cases s <;> simp only [Describes] at h ⊢ <;> constructor <;> linarith

theorem Describes.shiftRightOne {em : ExtendedMantissa} {v : ℚ} (h : Describes em v) :
    Describes em.shiftRightOne (v / 2) := by
  obtain ⟨m, r, s⟩ := em
  have hm : (m : ℚ) = 2 * (m / 2 : ℕ) + (m % 2 : ℕ) := mod_cast (Nat.div_add_mod m 2).symm
  rcases Nat.mod_two_eq_zero_or_one m with hbit | hbit <;> rw [hbit] at hm <;> push_cast at hm <;>
    cases r <;> cases s <;>
    simp only [Describes, ExtendedMantissa.shiftRightOne, hbit] at h ⊢ <;>
    simp <;> grind

theorem Describes.shiftRight {em : ExtendedMantissa} {v : ℚ} (h : Describes em v) (k : ℕ) :
    Describes (em >>> k) (v / 2 ^ k) := by
  change Describes (Nat.repeat ExtendedMantissa.shiftRightOne k em) _
  induction k with
  | zero => simpa [Nat.repeat] using h
  | succ k ih =>
    rw [Nat.repeat, pow_succ, ← div_div]
    exact ih.shiftRightOne

/-- **A mantissa is rounded to the nearest whole number**, to the even one of two. -/
theorem Describes.roundedMantissa_eq {em : ExtendedMantissa} {v : ℚ} {n : ℕ} (h : Describes em v)
    (hle : |v - n| ≤ 1 / 2) (hodd : n % 2 = 1 → |v - n| < 1 / 2) : em.roundedMantissa = n := by
  have hsame : ∀ {a b : ℕ}, (a : ℚ) < b + 1 → (b : ℚ) < a + 1 → a = b := by
    intro a b hab hba
    have hab' : a < b + 1 := mod_cast hab
    have hba' : b < a + 1 := mod_cast hba
    omega
  obtain ⟨m, r, s⟩ := em
  obtain ⟨hlow, hhigh⟩ := abs_le.mp hle
  rw [ExtendedMantissa.roundedMantissa]
  cases r <;> cases s <;> simp only [Describes] at h
  case false.false =>
    change m = n
    exact hsame (by linarith) (by linarith)
  case false.true =>
    change m = n
    exact hsame (by linarith [h.1]) (by linarith [h.2])
  case true.true =>
    change m + 1 = n
    exact hsame (by push_cast; linarith [h.1]) (by push_cast; linarith [h.2])
  case true.false =>
    -- In the middle between two whole numbers, of which one is even.
    have hmiddle : n = m ∨ n = m + 1 := by
      have hlt : n < m + 2 := by
        have : (n : ℚ) < m + 2 := by linarith
        exact_mod_cast this
      have hgt : m < n + 1 := by
        have : (m : ℚ) < n + 1 := by linarith
        exact_mod_cast this
      omega
    have heven : n % 2 = 0 := by
      by_contra hne
      have hlt := hodd (by omega)
      rcases hmiddle with rfl | rfl
      · rw [h, add_sub_cancel_left, abs_of_pos (by norm_num)] at hlt
        exact lt_irrefl _ hlt
      · rw [h, Nat.cast_add_one, add_sub_add_left_eq_sub, abs_of_neg (by norm_num)] at hlt
        norm_num at hlt
    change m + m % 2 = n
    omega

theorem describes_exact (m : ℕ) : Describes (.ofMantissaAndAccuracy m .exact) m := rfl

theorem describes_quotient (n : ℕ) {d : ℕ} (hd : 0 < d) :
    Describes (.ofMantissaAndAccuracy (n / d) (accuracyOfFraction (n % d) d)) (n / d) := by
  have hd' : (0 : ℚ) < d := mod_cast hd
  have hrest : ((n % d : ℕ) : ℚ) < d := mod_cast Nat.mod_lt n hd
  rw [cast_div_eq_add n hd, accuracyOfFraction]
  generalize n / d = q at *
  generalize n % d = r at *
  split_ifs with hzero
  · rw [hzero, Nat.cast_zero, zero_div, add_zero]
    exact describes_exact q
  · have hpos : (0 : ℚ) < r / d := div_pos (mod_cast Nat.pos_of_ne_zero hzero) hd'
    have hone : (r : ℚ) / d < 1 := (div_lt_one hd').mpr hrest
    rcases lt_trichotomy (2 * r) d with hlt | heq | hgt
    · have hhalf : (r : ℚ) / d < 1 / 2 := by
        rw [div_lt_div_iff₀ hd' two_pos]
        exact_mod_cast (by omega : r * 2 < 1 * d)
      rw [Nat.compare_eq_lt.mpr hlt]
      change (q : ℚ) < q + r / d ∧ q + r / d < (q : ℚ) + 1 / 2
      constructor <;> linarith
    · have hhalf : (r : ℚ) / d = 1 / 2 := by
        rw [div_eq_div_iff hd'.ne' two_ne_zero]
        exact_mod_cast (by omega : r * 2 = 1 * d)
      rw [Nat.compare_eq_eq.mpr heq]
      change q + r / d = (q : ℚ) + 1 / 2
      rw [hhalf]
    · have hhalf : 1 / 2 < (r : ℚ) / d := by
        rw [div_lt_div_iff₀ two_pos hd']
        exact_mod_cast (by omega : 1 * d < r * 2)
      rw [Nat.compare_eq_gt.mpr hgt]
      change (q : ℚ) + 1 / 2 < q + r / d ∧ q + r / d < (q : ℚ) + 1
      constructor <;> linarith

theorem describes_divCore (m : ℕ) {m' : ℕ} (e e' : ℤ) (hm' : 0 < m') :
    let (q, t, acc) := divCore .binary64 m e m' e'
    Describes (.ofMantissaAndAccuracy q acc) (m * 2 ^ e / (m' * 2 ^ e') / 2 ^ t) := by
  rw [divCore]
  dsimp only
  set t := min (e - e') (Format.binary64.targetExponent (totalExponent m e - totalExponent m' e'))
  rw [mul_div_mul_eq_shiftLeft m m' (min_le_left ..: t ≤ e - e'),
    mul_div_cancel_right₀ _ (zpow_ne_zero _ two_ne_zero)]
  exact describes_quotient _ hm'

/-! ## Rounding a number -/

theorem roundWithAccuracy_of_rounded {s : Sign} {m n : ℕ} {e k t : ℤ} {acc : Accuracy}
    {em : ExtendedMantissa} (hn : 0 < n)
    (hfirst : shiftToTargetExponent .binary64 m e acc = (em, t))
    (hsecond : shiftToTargetExponent .binary64 em.roundedMantissa t .exact
      = (⟨n, false, false⟩, k)) :
    roundWithAccuracy .binary64 s m e acc = .finite s n k hn := by
  simp only [roundWithAccuracy, hfirst, hsecond, dif_neg hn.ne']

theorem abs_div_sub_eq (v n : ℚ) (t : ℤ) : |v / 2 ^ t - n| = |v - n * 2 ^ t| / 2 ^ t := by
  have hunit : (0 : ℚ) < 2 ^ t := by positivity
  rw [← abs_of_pos hunit, ← abs_div, abs_of_pos hunit, sub_div, mul_div_cancel_right₀ _ hunit.ne']

section

variable {s : Sign} {n : ℕ} {k t : ℤ} {v : ℚ} {hn : 0 < n}

/-- A number with more than 53 bits to a unit smaller than that of the double it rounds to is just
below a power of two. -/
theorem eq_two_pow_of_holds (hfits : Fits (.finite s n k hn)) (h : (RoundingInterval.of n k).Holds v)
    (ht : -1074 ≤ t) (htk : t < k) (hv : v < 2 ^ 53 * 2 ^ t) : n = 2 ^ 52 ∧ k = t + 1 := by
  have hnormal : 2 ^ 52 ≤ n := by rcases hfits.bounds with hbounds | hbounds <;> omega
  have hunit : (0 : ℚ) < 2 ^ k := by positivity
  have hhalf : (2 : ℚ) ^ t * 2 ≤ 2 ^ k := by
    rw [← zpow_add_one₀ two_ne_zero]
    exact zpow_le_zpow_right₀ one_le_two htk
  obtain rfl : n = 2 ^ 52 := by
    have hle : (n : ℚ) * 2 ^ k < (2 ^ 52 + 1) * 2 ^ k := by
      linarith [(abs_le.mp (h.abs_sub_le hn)).1]
    have hlt : (n : ℚ) < 2 ^ 52 + 1 := lt_of_mul_lt_mul_right hle hunit.le
    have hlt' : n < 2 ^ 52 + 1 := mod_cast hlt
    omega
  refine ⟨rfl, ?_⟩
  have hquarter := h.sub_le (ht.trans_lt htk)
  push_cast at hquarter
  by_contra hne
  have hfourth : (2 : ℚ) ^ t * 4 ≤ 2 ^ k := by
    rw [show (4 : ℚ) = 2 ^ (2 : ℤ) by norm_num, ← zpow_add₀ two_ne_zero]
    exact zpow_le_zpow_right₀ one_le_two (by omega)
  linarith

/-- To a unit greater than that of the double it rounds to, a number has less than 53 bits. -/
theorem lt_of_holds (hfits : Fits (.finite s n k hn)) (h : (RoundingInterval.of n k).Holds v)
    (hkt : k < t) : v < 2 ^ 52 * 2 ^ t := by
  have hunit : (0 : ℚ) < 2 ^ k := by positivity
  have hdouble : (2 : ℚ) ^ k * 2 ≤ 2 ^ t := by
    rw [← zpow_add_one₀ two_ne_zero]
    exact zpow_le_zpow_right₀ one_le_two hkt
  have hbits : n < 2 ^ 53 := by rcases hfits.bounds with hbounds | hbounds <;> omega
  have hle : (n : ℚ) * 2 ^ k ≤ (2 ^ 53 - 1) * 2 ^ k := by
    refine mul_le_mul_of_nonneg_right ?_ hunit.le
    rw [le_sub_iff_add_le]
    exact_mod_cast hbits
  linarith [(abs_le.mp (h.abs_sub_le hn)).2]

/-- **What rounds to a double is rounded to it.** -/
theorem roundWithAccuracy_of_holds {m : ℕ} {e : ℤ} {acc : Accuracy}
    (hfits : Fits (.finite s n k hn)) (he : 2 ^ 52 ≤ m ∨ e ≤ -1074)
    (hv : Describes (.ofMantissaAndAccuracy m acc) (v / 2 ^ e))
    (h : (RoundingInterval.of n k).Holds v) :
    roundWithAccuracy .binary64 s m e acc = .finite s n k hn := by
  obtain ⟨hge, hlt, hmin⟩ := shifted_bounds he
  have hfirst := shiftToTargetExponent_eq acc hge
  have hleast : -1074 ≤ target m e := le_max_right _ _
  set t := target m e
  set em := ExtendedMantissa.ofMantissaAndAccuracy m acc >>> (t - e).toNat with hem
  have hdescribes : Describes em (v / 2 ^ t) := by
    have hshift := hv.shiftRight (t - e).toNat
    rwa [div_div, mul_comm, ← two_zpow_eq hge] at hshift
  have hunit : (0 : ℚ) < 2 ^ t := by positivity
  rw [← mantissa_ofMantissaAndAccuracy m acc, ← mantissa_shiftRight, ← hem] at hlt hmin
  rcases lt_trichotomy t k with htk | htk | hkt
  · have hupper : v < 2 ^ 53 * 2 ^ t := by
      have hbits : ((em.mantissa + 1 : ℕ) : ℚ) ≤ (2 ^ 53 : ℕ) := mod_cast hlt
      push_cast at hbits
      exact (div_lt_iff₀ hunit).mp (hdescribes.bounds.2.trans_le hbits)
    obtain ⟨rfl, rfl⟩ := eq_two_pow_of_holds hfits h hleast htk hupper
    -- It is rounded up to the power of two, whose unit is then the next one.
    have hrounded : em.roundedMantissa = 2 ^ 53 := by
      have hquarter := h.sub_le (hleast.trans_lt htk)
      rw [zpow_add_one₀ two_ne_zero] at hquarter
      push_cast at hquarter
      refine hdescribes.roundedMantissa_eq ?_ fun hodd ↦ absurd hodd (by norm_num)
      rw [abs_div_sub_eq, div_le_iff₀ hunit, abs_le]
      push_cast
      constructor <;> linarith
    refine roundWithAccuracy_of_rounded hn hfirst ?_
    rw [hrounded]
    exact shiftToTargetExponent_two_pow hleast
  · rw [htk] at hfirst hdescribes hunit hleast
    have hrounded : em.roundedMantissa = n := by
      refine hdescribes.roundedMantissa_eq ?_ fun hodd ↦ ?_
      · rw [abs_div_sub_eq, div_le_iff₀ hunit]
        linarith [h.abs_sub_le hn]
      · rw [abs_div_sub_eq, div_lt_iff₀ hunit]
        linarith [h.abs_sub_lt hn hodd]
    have hbits : n < 2 ^ 53 := by rcases hfits.bounds with hbounds | hbounds <;> omega
    refine roundWithAccuracy_of_rounded hn hfirst ?_
    rw [hrounded]
    exact shiftToTargetExponent_of_lt hbits hleast
  · have hge' : -1074 ≤ k := by rcases hfits.bounds with hbounds | hbounds <;> omega
    have hlower : 2 ^ 52 * 2 ^ t ≤ v := by
      have hbits : ((2 ^ 52 : ℕ) : ℚ) ≤ em.mantissa := mod_cast hmin.resolve_right (by omega)
      push_cast at hbits
      exact (le_div_iff₀ hunit).mp (hbits.trans hdescribes.bounds.1)
    exact absurd (lt_of_holds hfits h hkt) hlower.not_gt

end

/-! ## Decimals -/

theorem two_zpow_le_of_holds {s : Sign} {n : ℕ} {k : ℤ} {v : ℚ} {hn : 0 < n}
    (hfits : Fits (.finite s n k hn)) (h : (RoundingInterval.of n k).Holds v) :
    2 ^ (-1075 : ℤ) ≤ v ∧ v ≤ 2 ^ (1024 : ℤ) := by
  obtain ⟨hnear, hnear'⟩ := abs_le.mp (h.abs_sub_le hn)
  have hunit : (0 : ℚ) < 2 ^ k := by positivity
  constructor
  · have hleast : (2 : ℚ) ^ (-1075 : ℤ) ≤ 2 ^ (k - 1) :=
      zpow_le_zpow_right₀ one_le_two (by rcases hfits.bounds with hbounds | hbounds <;> omega)
    have hone : 1 * (2 : ℚ) ^ k ≤ n * 2 ^ k :=
      mul_le_mul_of_nonneg_right (mod_cast hn) hunit.le
    refine hleast.trans ?_
    rw [zpow_sub_one₀ two_ne_zero]
    linarith
  · have hmost : (2 : ℚ) ^ ((53 : ℕ) + k) ≤ 2 ^ (1024 : ℤ) :=
      zpow_le_zpow_right₀ one_le_two (by rcases hfits.bounds with hbounds | hbounds <;> omega)
    have hbits : ((n + 1 : ℕ) : ℚ) * 2 ^ k ≤ 2 ^ ((53 : ℕ) + k) :=
      mul_le_two_zpow (by rcases hfits.bounds with hbounds | hbounds <;> omega) k
    refine le_trans ?_ hmost
    push_cast at hbits ⊢
    linarith

/-- A power of ten is further from one than the same power of two. -/
theorem two_zpow_le_ten_zpow {k : ℤ} (hk : 0 ≤ k) : (2 : ℚ) ^ k ≤ 10 ^ k :=
  zpow_le_zpow_left₀ hk zero_le_two (by norm_num)

theorem ten_zpow_le_two_zpow {k : ℤ} (hk : k ≤ 0) : (10 : ℚ) ^ k ≤ 2 ^ k := by
  have hneg := two_zpow_le_ten_zpow (Int.neg_nonneg_of_nonpos hk)
  rwa [zpow_neg, zpow_neg, inv_le_inv₀ (by positivity) (by positivity)] at hneg

/-- **A decimal that rounds to a double is read as it.** -/
theorem ofScientific_of_holds {c n : ℕ} {grid k : ℤ} {hn : 0 < n}
    (hfits : Fits (.finite .positive n k hn))
    (h : (RoundingInterval.of n k).Holds (c * 10 ^ grid)) :
    UnpackedFloat.ofScientific .binary64 c grid = .finite .positive n k hn := by
  obtain ⟨hlow, hhigh⟩ := two_zpow_le_of_holds hfits h
  have hc : c ≠ 0 := by
    rintro rfl
    rw [Nat.cast_zero, zero_mul] at hlow
    exact absurd hlow (not_le.mpr (by positivity))
  have hlarge : ¬grid > 2 ^ 11 := by
    intro hgrid
    have hpow : (2 : ℚ) ^ (1024 : ℤ) < 10 ^ grid :=
      (zpow_lt_zpow_right₀ one_lt_two (by omega)).trans_le (two_zpow_le_ten_zpow (by omega))
    have hone : 1 * (10 : ℚ) ^ grid ≤ c * 10 ^ grid :=
      mul_le_mul_of_nonneg_right (mod_cast Nat.pos_of_ne_zero hc) (by positivity)
    rw [one_mul] at hone
    exact absurd (hone.trans hhigh) (not_le.mpr hpow)
  have hsmall : ¬grid < -(2 ^ 11 + (c.log2 : ℤ)) := by
    intro hgrid
    have hpow : (c : ℚ) * 2 ^ grid ≤ 2 ^ ((c.log2 + 1 : ℕ) + grid) :=
      mul_le_two_zpow Nat.lt_log2_self.le grid
    have hten : (c : ℚ) * 10 ^ grid ≤ c * 2 ^ grid :=
      mul_le_mul_of_nonneg_left (ten_zpow_le_two_zpow (by omega)) (Nat.cast_nonneg c)
    have hexp := (zpow_le_zpow_iff_right₀ one_lt_two).mp (hlow.trans (hten.trans hpow))
    omega
  rw [UnpackedFloat.ofScientific, dif_neg hc, if_neg hlarge, if_neg hsmall]
  split_ifs with hgrid
  · change roundWithAccuracy .binary64 .positive (c <<< 53 * 10 ^ grid.toNat) (-53 + 0) .exact = _
    have hvalue : ((c <<< 53 * 10 ^ grid.toNat : ℕ) : ℚ) = c * 10 ^ grid / 2 ^ (-53 + 0 : ℤ) := by
      rw [Nat.shiftLeft_eq, add_zero, zpow_neg, div_inv_eq_mul,
        ← Int.toNat_of_nonneg hgrid, Int.toNat_natCast, zpow_natCast]
      push_cast
      ring
    refine roundWithAccuracy_of_holds hfits (.inl ?_) (hvalue ▸ describes_exact _) h
    have hpow : 0 < 10 ^ grid.toNat := Nat.pow_pos (by decide)
    calc 2 ^ 52 ≤ 1 * 2 ^ 53 := by norm_num
      _ ≤ c * 2 ^ 53 := Nat.mul_le_mul_right _ (Nat.pos_of_ne_zero hc)
      _ = c <<< 53 := (Nat.shiftLeft_eq c 53).symm
      _ ≤ c <<< 53 * 10 ^ grid.toNat := Nat.le_mul_of_pos_right _ hpow
  · have hten : 0 < 10 ^ (-grid).toNat := Nat.pow_pos (by decide)
    have hdescribes := describes_divCore c 0 0 hten
    have hbits := divCore_bits 0 0 (Nat.pos_of_ne_zero hc) hten
    rw [UnpackedFloat.div]
    generalize divCore .binary64 c 0 (10 ^ (-grid).toNat) 0 = quotient at *
    obtain ⟨q, t, acc⟩ := quotient
    refine roundWithAccuracy_of_holds hfits hbits ?_ h
    have hvalue : (c : ℚ) * 10 ^ grid
        = c * 2 ^ (0 : ℤ) / ((10 ^ (-grid).toNat : ℕ) * 2 ^ (0 : ℤ)) := by
      rw [zpow_zero, mul_one, mul_one, Nat.cast_pow, ← zpow_natCast, Int.toNat_of_nonneg (by omega),
        zpow_neg, Nat.cast_ofNat, div_inv_eq_mul]
    rw [hvalue]
    exact hdescribes

end Double

end LinearProgramming
