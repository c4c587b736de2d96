import LinearProgramming.Decimal.Shortest
import Mathlib.Data.Rat.Cast.Order
import Mathlib.Algebra.Order.Field.Power
import Mathlib.Tactic.FieldSimp
import Mathlib.Tactic.Linarith
import Mathlib.Tactic.Positivity
import Mathlib.Tactic.Ring
import Mathlib.Tactic.SplitIfs

/-!
# The shortest decimal rounds to its double

The search for the shortest decimal goes from coarse grids to fine ones and stops at the first grid
on which some decimal rounds to the double. That it stops at all is a matter of the seventeenth
grid: a step of it is less than half of the way from the double to the next one, so that whichever
decimal is nearest is near enough.
-/

namespace LinearProgramming

def Decimal.value (d : Decimal) : ℚ := d.coefficient * 10 ^ d.exponent

/-! ## Quotients -/

theorem powerRatio_snd_pos {base : ℕ} (hbase : 0 < base) (e : ℤ) : 0 < (powerRatio base e).2 := by
  rw [powerRatio]
  split_ifs
  · exact Nat.one_pos
  · exact Nat.pow_pos hbase

theorem powerRatio_fst_pos {base : ℕ} (hbase : 0 < base) (e : ℤ) : 0 < (powerRatio base e).1 := by
  rw [powerRatio]
  split_ifs
  · exact Nat.pow_pos hbase
  · exact Nat.one_pos

theorem powerRatio_div (base : ℕ) (e : ℤ) :
    ((powerRatio base e).1 : ℚ) / (powerRatio base e).2 = base ^ e := by
  rw [powerRatio]
  split_ifs with he
  · obtain ⟨n, rfl⟩ := Int.eq_ofNat_of_zero_le he
    simp
  · obtain ⟨n, hn⟩ := Int.eq_ofNat_of_zero_le (show 0 ≤ -e by omega)
    obtain rfl : e = -n := by omega
    simp

theorem cast_div_eq_add (n : ℕ) {d : ℕ} (hd : 0 < d) :
    (n : ℚ) / d = (n / d : ℕ) + (n % d : ℕ) / d := by
  have hd' : (d : ℚ) ≠ 0 := mod_cast hd.ne'
  have hsum : (n : ℚ) = d * (n / d : ℕ) + (n % d : ℕ) := mod_cast (Nat.div_add_mod n d).symm
  rw [hsum, add_div, mul_div_cancel_left₀ _ hd']

theorem abs_roundDiv_sub_le (tie : Tie) (n : ℕ) {d : ℕ} (hd : 0 < d) :
    |(roundDiv tie n d : ℚ) - n / d| ≤ 1 / 2 := by
  have hd' : (0 : ℚ) < d := mod_cast hd
  have hlt := Nat.mod_lt n hd
  rw [cast_div_eq_add n hd, roundDiv]
  split_ifs with hup
  · have hhalf : d ≤ 2 * (n % d) := by
      simp only [Bool.or_eq_true, Bool.and_eq_true, decide_eq_true_eq, beq_iff_eq] at hup
      omega
    have hhalf' : 1 / 2 ≤ ((n % d : ℕ) : ℚ) / d := by
      rw [div_le_div_iff₀ two_pos hd']
      exact_mod_cast (by omega : 1 * d ≤ n % d * 2)
    have hone : ((n % d : ℕ) : ℚ) / d ≤ 1 := by
      rw [div_le_one hd']
      exact_mod_cast hlt.le
    push_cast
    rw [abs_le]
    constructor <;> linarith
  · have hhalf : 2 * (n % d) ≤ d := by
      simp only [Bool.or_eq_true, decide_eq_true_eq, not_or] at hup
      omega
    have hhalf' : ((n % d : ℕ) : ℚ) / d ≤ 1 / 2 := by
      rw [div_le_div_iff₀ hd' two_pos]
      exact_mod_cast (by omega : n % d * 2 ≤ 1 * d)
    have hnonneg : (0 : ℚ) ≤ (n % d : ℕ) / d := by positivity
    rw [abs_le]
    constructor <;> linarith

theorem roundDiv_eq {tie : Tie} {n d k : ℕ} (hd : 0 < d) (h : (n : ℚ) / d = k) :
    roundDiv tie n d = k := by
  have hround := abs_le.mp (abs_roundDiv_sub_le tie n hd)
  rw [h] at hround
  have hlt : roundDiv tie n d < k + 1 := by
    exact_mod_cast (by linarith : (roundDiv tie n d : ℚ) < k + 1)
  have hgt : k < roundDiv tie n d + 1 := by
    exact_mod_cast (by linarith : (k : ℚ) < roundDiv tie n d + 1)
  omega

/-! ## What rounds to a double -/

namespace RoundingInterval

/-- Whether a number rounds to the double. -/
def Holds (iv : RoundingInterval) (v : ℚ) : Prop :=
  if iv.closed then iv.lower * 2 ^ iv.exponent ≤ v ∧ v ≤ iv.upper * 2 ^ iv.exponent
  else iv.lower * 2 ^ iv.exponent < v ∧ v < iv.upper * 2 ^ iv.exponent

theorem scale_snd_pos (iv : RoundingInterval) (grid : ℤ) : 0 < (iv.scale grid).2 :=
  Nat.mul_pos (powerRatio_snd_pos two_pos _) (powerRatio_fst_pos (by decide) _)

theorem scale_div (iv : RoundingInterval) (grid : ℤ) :
    ((iv.scale grid).1 : ℚ) / (iv.scale grid).2 = 2 ^ iv.exponent / 10 ^ grid := by
  rw [scale]
  dsimp only
  push_cast
  rw [mul_div_mul_comm, powerRatio_div, ← inv_div, powerRatio_div]
  push_cast
  rw [← div_eq_mul_inv]

theorem mul_scale_le_iff (iv : RoundingInterval) (grid : ℤ) (n c : ℕ) :
    (n * (iv.scale grid).1 ≤ c * (iv.scale grid).2
      ↔ (n : ℚ) * 2 ^ iv.exponent ≤ c * 10 ^ grid)
    ∧ (c * (iv.scale grid).2 ≤ n * (iv.scale grid).1
      ↔ (c : ℚ) * 10 ^ grid ≤ n * 2 ^ iv.exponent) := by
  have hdown : (0 : ℚ) < (iv.scale grid).2 := mod_cast iv.scale_snd_pos grid
  have hten : (0 : ℚ) < 10 ^ grid := by positivity
  have hunit : (2 : ℚ) ^ iv.exponent = (iv.scale grid).1 / (iv.scale grid).2 * 10 ^ grid := by
    rw [scale_div, div_mul_cancel₀ _ hten.ne']
  rw [hunit, ← mul_assoc, mul_le_mul_iff_left₀ hten, mul_le_mul_iff_left₀ hten, ← mul_div_assoc,
    div_le_iff₀ hdown, le_div_iff₀ hdown]
  constructor <;> exact_mod_cast Iff.rfl

/-- **A comparison of natural numbers** says whether a decimal rounds to the double. -/
theorem contains_iff (iv : RoundingInterval) (grid : ℤ) (c : ℕ) :
    iv.contains grid c = true ↔ iv.Holds (c * 10 ^ grid) := by
  have hle := fun n ↦ iv.mul_scale_le_iff grid n c
  rw [contains, Holds]
  dsimp only
  split_ifs
  · rw [Bool.and_eq_true, decide_eq_true_iff, decide_eq_true_iff, (hle _).1, (hle _).2]
  · rw [Bool.and_eq_true, decide_eq_true_iff, decide_eq_true_iff, ← not_le, ← not_le, (hle _).2,
      (hle _).1, not_le, not_le]

theorem holds_of_nearest? {iv : RoundingInterval} {tie : Tie} {grid : ℤ} {c : ℕ}
    (h : iv.nearest? tie grid = some c) : iv.Holds (c * 10 ^ grid) := by
  rw [← contains_iff]
  rw [nearest?] at h
  dsimp only at h
  split_ifs at h with hbest _ habove hbelow
  · exact Option.some.inj h ▸ hbest
  · exact Option.some.inj h ▸ habove
  · exact Option.some.inj h ▸ hbelow

theorem isSome_nearest? {iv : RoundingInterval} {tie : Tie} {grid : ℤ}
    (h : iv.Holds (roundDiv tie (iv.value * (iv.scale grid).1) (iv.scale grid).2 * 10 ^ grid)) :
    (iv.nearest? tie grid).isSome = true := by
  rw [nearest?]
  dsimp only
  rw [if_pos ((iv.contains_iff grid _).mpr h)]
  rfl

/-- **The search ends** on a decimal that rounds to the double if there is one on any of its
grids. -/
theorem holds_search {iv : RoundingInterval} {tie : Tie} {digits : ℕ} {grid : ℤ} {k : ℕ}
    (hk : k < digits) (h : (iv.nearest? tie (grid - k)).isSome = true) :
    iv.Holds (iv.search tie digits grid).value := by
  induction digits generalizing grid k with
  | zero => cases hk
  | succ digits ih =>
    rw [search]
    cases hnearest : iv.nearest? tie grid with
    | some c => exact holds_of_nearest? hnearest
    | none =>
      cases k with
      | zero =>
        rw [Nat.cast_zero, sub_zero, hnearest] at h
        cases h
      | succ k =>
        refine ih (Nat.lt_of_succ_lt_succ hk) ?_
        rw [show grid - 1 - k = grid - (k + 1 : ℕ) by push_cast; ring]
        exact h

end RoundingInterval

/-! ## The leading digit -/

theorem ten_pow_digitCount_le {n : ℕ} (hn : 0 < n) : 10 ^ (digitCount n - 1) ≤ n := by
  by_contra hlt
  rcases Nat.eq_zero_or_pos (digitCount n - 1) with hzero | hpos
  · rw [hzero] at hlt
    omega
  · have hle := (Nat.length_toDigits_le_iff (by decide) hpos).mpr (not_le.mp hlt)
    change digitCount n ≤ digitCount n - 1 at hle
    omega

theorem lt_ten_pow_digitCount (n : ℕ) : n < 10 ^ digitCount n :=
  (Nat.length_toDigits_le_iff (by decide) Nat.length_toDigits_pos).mp le_rfl

theorem ten_zpow_leadingExponent_le {n d : ℕ} (hn : 0 < n) (hd : 0 < d) :
    (10 : ℚ) ^ leadingExponent n d ≤ n / d := by
  have hd' : (0 : ℚ) < d := mod_cast hd
  rw [leadingExponent]
  split_ifs with hle
  · have hpow := ten_pow_digitCount_le (Nat.div_pos hle hd)
    have hcount : 1 ≤ digitCount (n / d) := Nat.length_toDigits_pos
    rw [le_div_iff₀ hd', show (digitCount (n / d) : ℤ) - 1 = (digitCount (n / d) - 1 : ℕ) by omega,
      zpow_natCast]
    exact_mod_cast (Nat.mul_le_mul_right d hpow).trans (Nat.div_mul_le_self n d)
  · have hceil : d ≤ ((d + n - 1) / n) * n := by
      have := Nat.lt_div_mul_add (a := d + n - 1) hn
      omega
    have hpow := lt_ten_pow_digitCount ((d + n - 1) / n - 1)
    rw [Int.negOfNat_eq, zpow_neg, Int.ofNat_eq_natCast, zpow_natCast,
      inv_le_comm₀ (by positivity) (by positivity), inv_div, div_le_iff₀ (mod_cast hn)]
    exact_mod_cast hceil.trans (Nat.mul_le_mul_right n (by omega))

/-! ## Seventeen digits -/

namespace RoundingInterval

variable {m : ℕ} {e : ℤ} {v : ℚ}

theorem upper_mul (m : ℕ) (e : ℤ) :
    ((of m e).upper : ℚ) * 2 ^ (of m e).exponent = m * 2 ^ e + 2 ^ e / 2 := by
  rw [of, zpow_sub₀ two_ne_zero]
  push_cast
  ring

/-- The lower end, which is closer where the double below has a smaller exponent. -/
theorem lower_mul (hm : 0 < m) (e : ℤ) : ((of m e).lower : ℚ) * 2 ^ (of m e).exponent
    = m * 2 ^ e - 2 ^ e / if m = 2 ^ 52 ∧ -1074 < e then 4 else 2 := by
  rw [of, zpow_sub₀ two_ne_zero, Nat.pow_eq]
  dsimp only
  split_ifs
  · rw [Nat.cast_sub (by omega)]
    push_cast
    ring
  · rw [Nat.cast_sub (by omega)]
    push_cast
    ring

/-- What is closer to a double than a half of its unit rounds to it, if at the least significand of
an exponent it is closer than a quarter. -/
theorem holds_of_abs_sub_lt (hm : 0 < m) (hv : |v - m * 2 ^ e| < 2 ^ e / 2)
    (hleast : m = 2 ^ 52 → |v - m * 2 ^ e| < 2 ^ e / 4) : (of m e).Holds v := by
  have hlower : ((of m e).lower : ℚ) * 2 ^ (of m e).exponent < v := by
    rw [lower_mul hm]
    split_ifs with hcloser
    · linarith [(abs_lt.mp (hleast hcloser.1)).1]
    · linarith [(abs_lt.mp hv).1]
  have hupper : v < (of m e).upper * 2 ^ (of m e).exponent := by
    rw [upper_mul]
    linarith [(abs_lt.mp hv).2]
  rw [Holds]
  split_ifs
  · exact ⟨hlower.le, hupper.le⟩
  · exact ⟨hlower, hupper⟩

theorem Holds.le {iv : RoundingInterval} (h : iv.Holds v) :
    iv.lower * 2 ^ iv.exponent ≤ v ∧ v ≤ iv.upper * 2 ^ iv.exponent := by
  rw [Holds] at h
  split_ifs at h
  · exact h
  · exact ⟨h.1.le, h.2.le⟩

theorem Holds.abs_sub_le (hm : 0 < m) (h : (of m e).Holds v) : |v - m * 2 ^ e| ≤ 2 ^ e / 2 := by
  have hunit : (0 : ℚ) < 2 ^ e := by positivity
  obtain ⟨hlower, hupper⟩ := h.le
  rw [upper_mul] at hupper
  rw [lower_mul hm] at hlower
  rw [abs_le]
  refine ⟨?_, by linarith⟩
  split_ifs at hlower <;> linarith

theorem Holds.abs_sub_lt (hm : 0 < m) (hodd : m % 2 = 1) (h : (of m e).Holds v) :
    |v - m * 2 ^ e| < 2 ^ e / 2 := by
  have hunit : (0 : ℚ) < 2 ^ e := by positivity
  have hopen : ¬(of m e).closed = true := by simp [of, hodd]
  rw [Holds, if_neg hopen, upper_mul, lower_mul hm] at h
  obtain ⟨hlower, hupper⟩ := h
  rw [abs_lt]
  refine ⟨?_, by linarith⟩
  split_ifs at hlower <;> linarith

theorem Holds.sub_le (h : (of (2 ^ 52) e).Holds v) (he : -1074 < e) :
    (2 ^ 52 : ℕ) * 2 ^ e - 2 ^ e / 4 ≤ v := by
  have hlower := h.le.1
  rwa [lower_mul (by norm_num), if_pos ⟨rfl, he⟩] at hlower

end RoundingInterval

open RoundingInterval in
/-- **The shortest decimal of a double rounds to it.** -/
theorem holds_shortestDecimal (tie : Tie) {m : ℕ} {e : ℤ} (hm : 0 < m) (hlt : m < 2 ^ 53) :
    (RoundingInterval.of m e).Holds (shortestDecimal tie m e).value := by
  rw [shortestDecimal, if_neg hm.ne']
  dsimp only
  set grid := leadingExponent (m * (powerRatio 2 e).1) (powerRatio 2 e).2 with hgrid
  have hgrid_le : (10 : ℚ) ^ grid ≤ m * 2 ^ e := by
    have hle := ten_zpow_leadingExponent_le
      (Nat.mul_pos hm (powerRatio_fst_pos two_pos e)) (powerRatio_snd_pos two_pos e)
    rw [← hgrid, Nat.cast_mul, mul_div_assoc, powerRatio_div] at hle
    exact_mod_cast hle
  refine holds_search (k := 16) (by decide) (isSome_nearest? ?_)
  set iv := RoundingInterval.of m e with hiv
  set step : ℚ := 10 ^ (grid - (16 : ℕ)) with hstep
  set best := roundDiv tie (iv.value * (iv.scale (grid - (16 : ℕ))).1)
    (iv.scale (grid - (16 : ℕ))).2
  have hpos : 0 < step := by positivity
  have hunit : (0 : ℚ) < 2 ^ e := by positivity
  have hfine : step * 10 ^ 16 ≤ m * 2 ^ e := by
    rw [hstep, ← zpow_natCast, ← zpow_add₀ (by norm_num), sub_add_cancel]
    exact hgrid_le
  have hvalue : ((iv.value * (iv.scale (grid - (16 : ℕ))).1 : ℕ) : ℚ)
      / (iv.scale (grid - (16 : ℕ))).2 * step = m * 2 ^ e := by
    rw [Nat.cast_mul, mul_div_assoc, scale_div, ← hstep, mul_assoc, div_mul_cancel₀ _ hpos.ne',
      hiv, RoundingInterval.of, zpow_sub₀ two_ne_zero]
    push_cast
    ring
  have hnear : |best * step - m * 2 ^ e| ≤ step / 2 := by
    rw [← hvalue, ← sub_mul, abs_mul, abs_of_pos hpos]
    have hrounded := abs_roundDiv_sub_le tie (iv.value * (iv.scale (grid - (16 : ℕ))).1)
      (iv.scale_snd_pos (grid - (16 : ℕ)))
    exact (mul_le_mul_of_nonneg_right hrounded hpos.le).trans_eq (by ring)
  -- A double has no more than 53 bits, and `2 ^ 53` steps are less than `10 ^ 16`.
  have hbits : (m : ℚ) * 2 ^ e < 2 ^ 53 * 2 ^ e := mul_lt_mul_of_pos_right (mod_cast hlt) hunit
  refine holds_of_abs_sub_lt hm (hnear.trans_lt ?_) fun hleast ↦ hnear.trans_lt ?_
  · linarith
  · rw [hleast] at hfine
    push_cast at hfine
    linarith

end LinearProgramming
