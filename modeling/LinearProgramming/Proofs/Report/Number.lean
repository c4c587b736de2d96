import Mathlib.Data.Int.ConditionallyCompleteOrder
import Mathlib.Data.Sign.Basic
import LinearProgramming.Proofs.Decimal.Fixed
import LinearProgramming.Proofs.Row

/-!
# How a report shows a rational

Over exact rationals the three forms of a number in a report are told apart by what lies within one
in a billion of it: a whole number, a fraction with a denominator up to a thousand, or neither.

Nothing in the search for a fraction cancels anything. That what it finds is in lowest terms is
because it goes through the denominators upwards, and because two different fractions with such
denominators are at least one in a million apart, so that only one of them can be near enough. Over
the right denominator the numerator is found by rounding: the residue is multiplied by the
denominator, and stays far below a half.
-/

namespace LinearProgramming

/-! ## Fractions with small denominators -/

/-- **Fractions with small denominators lie apart**, so at most one is near. -/
theorem eq_of_near {v r r' : ℚ} (hr : r.den ≤ 1000) (hr' : r'.den ≤ 1000)
    (h : |v - r| < 1 / 10 ^ 9) (h' : |v - r'| < 1 / 10 ^ 9) : r = r' := by
  by_contra hne
  have hd : (0 : ℚ) < r.den := mod_cast r.den_pos
  have hd' : (0 : ℚ) < r'.den := mod_cast r'.den_pos
  -- Over the product of the denominators the difference is a whole number, and not zero.
  have hcross : r.num * r'.den - r'.num * r.den ≠ 0 :=
    sub_ne_zero.mpr fun heq ↦ hne (Rat.eq_iff_mul_eq_mul.mpr heq)
  have hwhole : (r - r') * (r.den * r'.den) = (r.num * r'.den - r'.num * r.den : ℤ) := by
    push_cast
    rw [← Rat.mul_den_eq_num r, ← Rat.mul_den_eq_num r']
    ring
  have hone : 1 ≤ |r - r'| * (r.den * r'.den) := by
    have habs := congrArg abs hwhole
    rw [abs_mul, abs_of_pos (mul_pos hd hd')] at habs
    rw [habs]
    exact_mod_cast Int.one_le_abs hcross
  have hapart : |r - r'| < 2 / 10 ^ 9 := by
    have htriangle := abs_sub_le r v r'
    rw [abs_sub_comm r v] at htriangle
    linarith
  have hproduct : (r.den : ℚ) * r'.den ≤ 1000 * 1000 := by
    exact_mod_cast Nat.mul_le_mul hr hr'
  have hsmall := mul_le_mul hapart.le hproduct (mul_pos hd hd').le (by norm_num)
  norm_num at hsmall
  linarith

theorem den_div_dvd (p : ℤ) (q : ℕ) : (p / q : ℚ).den ∣ q := by
  have hdvd := Rat.den_dvd p q
  rw [Rat.divInt_eq_div] at hdvd
  exact_mod_cast hdvd

theorem sign_num_eq {v r : ℚ} (h : |v - r| < |r|) : SignType.sign r.num = SignType.sign v := by
  rcases lt_trichotomy r 0 with hneg | rfl | hpos
  · rw [abs_of_neg hneg, abs_lt] at h
    have hv : v < 0 := by linarith
    rw [sign_neg (Rat.num_neg.mpr hneg), sign_neg hv]
  · rw [abs_zero] at h
    exact absurd h (abs_nonneg _).not_gt
  · rw [abs_of_pos hpos, abs_lt] at h
    have hv : 0 < v := by linarith
    rw [sign_pos (Rat.num_pos.mpr hpos), sign_pos hv]

theorem le_abs_of_den_le {r : ℚ} (hne : r ≠ 0) (hle : r.den ≤ 1000) : 1 / 1000 ≤ |r| := by
  have hnum : 1 ≤ r.num.natAbs := Int.natAbs_pos.mpr (Rat.num_ne_zero.mpr hne)
  rw [← natAbs_num_div_den]
  exact div_le_div₀ (Nat.cast_nonneg _) (mod_cast hnum) (mod_cast r.den_pos) (mod_cast hle)

theorem exists_of_findSome?_range' {β : Type} {f : ℕ → Option β} {first count : ℕ} {b : β}
    (h : (List.range' first count).findSome? f = some b) :
    ∃ q, first ≤ q ∧ q < first + count ∧ f q = some b ∧ ∀ k, first ≤ k → k < q → f k = none := by
  induction count generalizing first with
  | zero => cases h
  | succ count ih =>
    rw [List.range'_succ, List.findSome?_cons] at h
    split at h
    · rename_i hfirst
      exact ⟨first, le_rfl, by omega, hfirst.trans h, by omega⟩
    · rename_i hfirst
      obtain ⟨q, hle, hlt, hq, hleast⟩ := ih h
      refine ⟨q, by omega, by omega, hq, fun k hk hkq ↦ ?_⟩
      rcases hk.eq_or_lt with rfl | hk
      · exact hfirst
      · exact hleast k hk hkq

namespace Reportable

variable {v : ℚ}

/-! ## Rounding -/

theorem nearness_eq : (nearness : ℚ) = 1 / 10 ^ 9 := by decide +kernel

theorem isNear_iff (x y : ℚ) : isNear x y = true ↔ |x - y| < 1 / 10 ^ 9 := by
  rw [isNear, decide_eq_true_iff, Scalar.abs_eq, nearness_eq]

theorem ofNat_eq (q : ℕ) : (ofNat q : ℚ) = q := by
  change Rat.ofScientific q false 0 = q
  rw [Rat.ofScientific_false_def, pow_zero, mul_one]

theorem round_eq (x : ℚ) : (round x : ℚ) = roundRat x := rfl

theorem toInteger_roundRat {x : ℚ} (hx : |x| ≤ 2 ^ 53 * 1000) :
    toInteger (roundRat x : ℚ) = roundRat x := by
  have hlimit : limitToInt64 (roundRat x) = roundRat x := by
    refine limitToInt64_eq ?_
    have hround := abs_le.mp (abs_roundRat_sub_le x)
    have hbound := abs_le.mp hx
    have hlt : |(roundRat x : ℚ)| < 2 ^ 63 := by
      rw [abs_lt]
      constructor <;> linarith
    exact_mod_cast hlt
  change limitToInt64 (roundRat (roundRat x : ℚ)) = roundRat x
  rw [roundRat_intCast, hlimit]

theorem abs_mul_natCast_le (hv : |v| < 2 ^ 53) {q : ℕ} (hq : q ≤ 1000) :
    |v * q| ≤ 2 ^ 53 * 1000 := by
  rw [abs_mul, Nat.abs_cast]
  exact mul_le_mul hv.le (mod_cast hq) (Nat.cast_nonneg q) (by norm_num)

/-- Next to a fraction, its numerator is the nearest whole number over its denominator. -/
theorem roundRat_mul {p : ℤ} {q : ℕ} (hq : 0 < q) (hle : q ≤ 1000)
    (hnear : |v - p / q| < 1 / 10 ^ 9) : roundRat (v * q) = p := by
  have hq' : (0 : ℚ) < q := mod_cast hq
  have hle' : (q : ℚ) ≤ 1000 := mod_cast hle
  refine roundRat_eq ?_
  have hscaled : v * q - p = (v - p / q) * q := by
    rw [sub_mul, div_mul_cancel₀ _ hq'.ne']
  rw [hscaled, abs_mul, abs_of_pos hq']
  calc |v - p / q| * q ≤ 1 / 10 ^ 9 * 1000 :=
        mul_le_mul hnear.le hle' hq'.le (by norm_num)
    _ < 1 / 2 := by norm_num

/-! ## The search for a fraction -/

/-- **Over one denominator** the fraction that is found is the one that is near. -/
theorem fractionOver?_eq_some_iff (hv : |v| < 2 ^ 53) {q : ℕ} (hq : 0 < q) (hle : q ≤ 1000)
    {p : ℤ} {k : ℕ} :
    fractionOver? v q = some (p, k) ↔ k = q ∧ |v - p / q| < 1 / 10 ^ 9 := by
  have hinteger := toInteger_roundRat (abs_mul_natCast_le hv hle)
  simp only [fractionOver?, ofNat_eq, isNear_iff, round_eq, hinteger]
  rw [abs_sub_comm]
  constructor
  · intro h
    split_ifs at h with hnear
    cases h
    exact ⟨rfl, hnear⟩
  · rintro ⟨rfl, hnear⟩
    rw [roundRat_mul hq hle hnear, if_pos hnear]

/-- **The fraction that is near** is found, in lowest terms. -/
theorem fraction?_eq_some (hv : |v| < 2 ^ 53) {r : ℚ} (htwo : 2 ≤ r.den) (hle : r.den ≤ 1000)
    (hnear : |v - r| < 1 / 10 ^ 9) : fraction? v = some (r.num, r.den) := by
  have hfits : fractionOver? v r.den = some (r.num, r.den) :=
    (fractionOver?_eq_some_iff hv r.den_pos hle).mpr ⟨rfl, by rwa [Rat.num_div_den]⟩
  have hfound : ∃ a, fraction? v = some a := by
    refine Option.isSome_iff_exists.mp (List.findSome?_isSome_iff.mpr ⟨r.den, ?_, ?_⟩)
    · rw [List.mem_range'_1, maxDenominator]
      omega
    · rw [hfits, Option.isSome_some]
  obtain ⟨⟨p, k⟩, hfound⟩ := hfound
  obtain ⟨q, hfirst, hlast, hq, hleast⟩ := exists_of_findSome?_range' hfound
  rw [maxDenominator] at hlast
  obtain ⟨rfl, hnear'⟩ := (fractionOver?_eq_some_iff hv (by omega) (by omega)).mp hq
  have hdvd := den_div_dvd p k
  have heq : (p / k : ℚ) = r :=
    eq_of_near ((Nat.le_of_dvd (by omega) hdvd).trans (by omega)) hle hnear' hnear
  rw [heq] at hdvd
  -- No smaller denominator would have been passed over, and the least one divides every other.
  have hden : k = r.den := by
    refine Nat.le_antisymm (Nat.not_lt.mp fun hlt ↦ ?_) (Nat.le_of_dvd (by omega) hdvd)
    rw [hleast r.den htwo hlt] at hfits
    cases hfits
  have hnum : p = r.num := by
    have hk : (k : ℚ) ≠ 0 := by
      exact_mod_cast (by omega : k ≠ 0)
    have hcast : (p : ℚ) = r.num := by
      rw [← Rat.mul_den_eq_num r, ← hden, ← heq, div_mul_cancel₀ _ hk]
    exact_mod_cast hcast
  rw [hfound, hnum, hden]

theorem exists_of_fraction? (hv : |v| < 2 ^ 53) {p : ℤ} {q : ℕ} (h : fraction? v = some (p, q)) :
    2 ≤ q ∧ q ≤ 1000 ∧ |v - p / q| < 1 / 10 ^ 9 := by
  obtain ⟨k, hfirst, hlast, hk, -⟩ := exists_of_findSome?_range' h
  rw [maxDenominator] at hlast
  obtain ⟨rfl, hnear⟩ := (fractionOver?_eq_some_iff hv (by omega) (by omega)).mp hk
  exact ⟨hfirst, by omega, hnear⟩

/-! ## Three forms -/

theorem text_of_near (hv : |v| < 2 ^ 53) {n : ℤ} (hnear : |v - n| < 1 / 10 ^ 9) :
    text v = toString n := by
  rw [text, Scalar.abs_eq, nearness_eq]
  by_cases hzero : |v| < 1 / 10 ^ 9
  · have hone : |(n : ℚ)| < 1 := by
      have htriangle := abs_sub_le (n : ℚ) v 0
      rw [sub_zero, sub_zero, abs_sub_comm] at htriangle
      norm_num at hnear hzero
      linarith
    have hn : n = 0 := Int.abs_lt_one_iff.mp (mod_cast hone)
    rw [if_pos hzero, hn]
    rfl
  · have hround : roundRat v = n := roundRat_eq (hnear.trans (by norm_num))
    have hinteger : toInteger (roundRat v : ℚ) = roundRat v :=
      toInteger_roundRat (hv.le.trans (by norm_num))
    have hisNear : isNear v (round v) = true := by
      rwa [isNear_iff, round_eq, hround]
    rw [if_neg hzero, if_pos hisNear, round_eq, hinteger, hround]

theorem text_of_far (hfar : ∀ n : ℤ, ¬|v - n| < 1 / 10 ^ 9) :
    (∀ {p : ℤ} {q : ℕ}, fraction? v = some (p, q) → text v = s!"{p}/{q}")
      ∧ (fraction? v = none → text v = fourDecimals v) := by
  have hzero : ¬|v| < 1 / 10 ^ 9 := by
    have h := hfar 0
    rwa [Int.cast_zero, sub_zero] at h
  have hround : ¬isNear v (round v) = true := by
    rw [isNear_iff]
    exact hfar (roundRat v)
  constructor
  · intro p q h
    rw [text, Scalar.abs_eq, nearness_eq, if_neg hzero, if_neg hround, h]
  · intro h
    rw [text, Scalar.abs_eq, nearness_eq, if_neg hzero, if_neg hround, h]

theorem two_le_den (hfar : ∀ n : ℤ, ¬|v - n| < 1 / 10 ^ 9) {r : ℚ}
    (hnear : |v - r| < 1 / 10 ^ 9) : 2 ≤ r.den := by
  by_contra hlt
  have hone : r.den = 1 := by
    have hpos := r.den_pos
    omega
  rw [← Rat.den_eq_one_iff r |>.mp hone] at hnear
  exact hfar _ hnear

/-- **Three forms.** A number is shown as a whole number, as a fraction, or to four decimals,
according to what is near. -/
theorem text_cases (hv : |v| < 2 ^ 53) :
    (∃ n : ℤ, |v - n| < 1 / 10 ^ 9 ∧ text v = toString n)
    ∨ (∀ n : ℤ, ¬|v - n| < 1 / 10 ^ 9) ∧
      ((∃ r : ℚ, 2 ≤ r.den ∧ r.den ≤ 1000 ∧ |v - r| < 1 / 10 ^ 9
          ∧ text v = s!"{r.num}/{r.den}")
        ∨ (∀ r : ℚ, r.den ≤ 1000 → ¬|v - r| < 1 / 10 ^ 9) ∧ text v = fourDecimals v) := by
  by_cases hwhole : ∃ n : ℤ, |v - n| < 1 / 10 ^ 9
  · obtain ⟨n, hnear⟩ := hwhole
    exact .inl ⟨n, hnear, text_of_near hv hnear⟩
  · have hfar : ∀ n : ℤ, ¬|v - n| < 1 / 10 ^ 9 := not_exists.mp hwhole
    refine .inr ⟨hfar, ?_⟩
    by_cases hsmall : ∃ r : ℚ, r.den ≤ 1000 ∧ |v - r| < 1 / 10 ^ 9
    · obtain ⟨r, hle, hnear⟩ := hsmall
      have htwo := two_le_den hfar hnear
      exact .inl ⟨r, htwo, hle, hnear, (text_of_far hfar).1 (fraction?_eq_some hv htwo hle hnear)⟩
    · have hnone : fraction? v = none := by
        refine Option.eq_none_iff_forall_ne_some.mpr ?_
        rintro ⟨p, q⟩ hfound
        obtain ⟨htwo, hle, hnear⟩ := exists_of_fraction? hv hfound
        exact hsmall ⟨p / q, (Nat.le_of_dvd (by omega) (den_div_dvd p q)).trans hle, hnear⟩
      exact .inr ⟨fun r hle hnear ↦ hsmall ⟨r, hle, hnear⟩, (text_of_far hfar).2 hnone⟩

/-! ### Telling the forms apart -/

theorem isRounded_fourDecimals (v : ℚ) : IsRounded 4 v (fourDecimals v) :=
  isRounded_fixedText (by norm_num) v

theorem slash_notMem_toString (n : ℤ) : '/' ∉ (toString n).toList := by
  intro hmem
  rcases isDigit_or_eq_of_mem_toString hmem with h | h <;> cases h

theorem point_notMem_toString (n : ℤ) : '.' ∉ (toString n).toList := by
  intro hmem
  rcases isDigit_or_eq_of_mem_toString hmem with h | h <;> cases h

theorem toList_fraction (p : ℤ) (q : ℕ) :
    (s!"{p}/{q}").toList = (toString p).toList ++ '/' :: (toString (q : ℤ)).toList := by
  rw [String.toList_append, String.toList_append, List.append_assoc]
  rfl

theorem fraction_inj {p m : ℤ} {q k : ℕ} (h : s!"{p}/{q}" = s!"{m}/{k}") :
    p = m ∧ q = k := by
  have hlist := congrArg String.toList h
  rw [toList_fraction, toList_fraction, List.append_cons_inj_of_notMem (slash_notMem_toString p)
    (slash_notMem_toString q)] at hlist
  obtain ⟨hp, -, hq⟩ := hlist
  exact ⟨eq_of_toString_eq (String.toList_inj.mp hp),
    Nat.cast_injective (eq_of_toString_eq (String.toList_inj.mp hq))⟩

theorem text_eq_toString_iff (hv : |v| < 2 ^ 53) (n : ℤ) :
    text v = toString n ↔ |v - n| < 1 / 10 ^ 9 := by
  refine ⟨fun h ↦ ?_, text_of_near hv⟩
  rcases text_cases hv with ⟨m, hnear, htext⟩ | ⟨-, ⟨r, -, -, -, htext⟩ | ⟨-, htext⟩⟩
  · have hnm : n = m := eq_of_toString_eq (h.symm.trans htext)
    rwa [hnm]
  · have hslash : '/' ∈ (toString n).toList := by
      rw [← h, htext, toList_fraction]
      simp
    exact absurd hslash (slash_notMem_toString n)
  · have hpoint : '.' ∈ (toString n).toList := by
      rw [← h, htext]
      exact (isRounded_fourDecimals v).point_mem
    exact absurd hpoint (point_notMem_toString n)

theorem exists_of_text_eq_fraction (hv : |v| < 2 ^ 53) {p : ℤ} {q : ℕ} (h : text v = s!"{p}/{q}") :
    ∃ r : ℚ, 2 ≤ r.den ∧ r.den ≤ 1000 ∧ |v - r| < 1 / 10 ^ 9 ∧ p = r.num ∧ q = r.den := by
  have hslash : '/' ∈ (text v).toList := by
    rw [h, toList_fraction]
    simp
  rcases text_cases hv with ⟨m, -, htext⟩ | ⟨-, ⟨r, htwo, hle, hnear, htext⟩ | ⟨-, htext⟩⟩
  · rw [htext] at hslash
    exact absurd hslash (slash_notMem_toString m)
  · exact ⟨r, htwo, hle, hnear, fraction_inj (h.symm.trans htext)⟩
  · rw [htext] at hslash
    exact absurd hslash (isRounded_fourDecimals v).slash_notMem

/-- **What a report shows.** A rational below two to the fifty-third is shown as a whole number
exactly if that is within one in a billion of it. Otherwise it is shown as a fraction exactly if
some fraction with a denominator from two to a thousand is. The fraction shown is then the only
rational with a denominator up to a thousand that is as near, it is in lowest terms, and it has the
sign of the number. In all other cases the number is rounded to four decimals. -/
theorem text_of_abs_lt (v : ℚ) (hv : |v| < 2 ^ 53) :
    (∀ n : ℤ, text v = toString n ↔ |v - n| < 1 / 10 ^ 9)
    ∧ ((∀ n : ℤ, ¬|v - n| < 1 / 10 ^ 9) →
      ((∃ (p : ℤ) (q : ℕ), text v = s!"{p}/{q}")
        ↔ ∃ (p : ℤ) (q : ℕ), 2 ≤ q ∧ q ≤ 1000 ∧ |v - p / q| < 1 / 10 ^ 9)
      ∧ (∀ (p : ℤ) (q : ℕ), text v = s!"{p}/{q}" → 2 ≤ q ∧ q ≤ 1000 ∧ |v - p / q| < 1 / 10 ^ 9
        ∧ (∀ r : ℚ, r.den ≤ 1000 → |v - r| < 1 / 10 ^ 9 → r = p / q)
        ∧ p.natAbs.Coprime q ∧ SignType.sign p = SignType.sign v)
      ∧ ((∀ (p : ℤ) (q : ℕ), 2 ≤ q → q ≤ 1000 → ¬|v - p / q| < 1 / 10 ^ 9) →
        text v = fourDecimals v ∧ IsRounded 4 v (text v))) := by
  refine ⟨text_eq_toString_iff hv, fun hfar ↦ ⟨⟨?_, ?_⟩, ?_, ?_⟩⟩
  · rintro ⟨p, q, h⟩
    obtain ⟨r, htwo, hle, hnear, -, -⟩ := exists_of_text_eq_fraction hv h
    exact ⟨r.num, r.den, htwo, hle, by rwa [Rat.num_div_den]⟩
  · rintro ⟨p, q, htwo, hle, hnear⟩
    have hden : (p / q : ℚ).den ≤ 1000 := (Nat.le_of_dvd (by omega) (den_div_dvd p q)).trans hle
    exact ⟨(p / q : ℚ).num, (p / q : ℚ).den,
      (text_of_far hfar).1 (fraction?_eq_some hv (two_le_den hfar hnear) hden hnear)⟩
  · intro p q h
    obtain ⟨r, htwo, hle, hnear, rfl, rfl⟩ := exists_of_text_eq_fraction hv h
    have hne : r ≠ 0 := by
      rintro rfl
      norm_num at htwo
    have hcloser : |v - r| < |r| :=
      hnear.trans_le (le_trans (by norm_num) (le_abs_of_den_le hne hle))
    rw [Rat.num_div_den]
    exact ⟨htwo, hle, hnear, fun r' hle' hnear' ↦ eq_of_near hle' hle hnear' hnear, r.reduced,
      sign_num_eq hcloser⟩
  · intro hnone
    have htext : text v = fourDecimals v := by
      rcases text_cases hv with ⟨n, hnear, -⟩ | ⟨-, ⟨r, htwo, hle, hnear, -⟩ | ⟨-, htext⟩⟩
      · exact absurd hnear (hfar n)
      · exact absurd (by rwa [Rat.num_div_den]) (hnone r.num r.den htwo hle)
      · exact htext
    exact ⟨htext, htext ▸ isRounded_fourDecimals v⟩

/-- A little off a whole number, a little off a negative fraction, and far from every fraction. -/
theorem text_of_abs_lt_residues :
    |(5 - 1 / 10 ^ 10 : ℚ)| < 2 ^ 53 ∧ text (5 - 1 / 10 ^ 10 : ℚ) = "5"
    ∧ |(-333333333 / 10 ^ 9 : ℚ)| < 2 ^ 53 ∧ text (-333333333 / 10 ^ 9 : ℚ) = "-1/3"
    ∧ (∀ r : ℚ, r.den ≤ 1000 → |(-333333333 / 10 ^ 9 : ℚ) - r| < 1 / 10 ^ 9 → r = -1 / 3)
    ∧ |(314159265 / 10 ^ 8 : ℚ)| < 2 ^ 53 ∧ text (314159265 / 10 ^ 8 : ℚ) = "3.1416"
    ∧ ∀ n : ℤ, ¬|(314159265 / 10 ^ 8 : ℚ) - n| < 1 / 10 ^ 9 := by
  have hfive : |(5 - 1 / 10 ^ 10 : ℚ)| < 2 ^ 53 := by decide +kernel
  have hthird : |(-333333333 / 10 ^ 9 : ℚ)| < 2 ^ 53 := by decide +kernel
  have hpi : |(314159265 / 10 ^ 8 : ℚ)| < 2 ^ 53 := by decide +kernel
  have hshown : text (-333333333 / 10 ^ 9 : ℚ) = "-1/3" := by decide +kernel
  have hdecimal : text (314159265 / 10 ^ 8 : ℚ) = "3.1416" := by decide +kernel
  -- A text with a slash is no whole number, so no whole number is near.
  have hfar : ∀ n : ℤ, ¬|(-333333333 / 10 ^ 9 : ℚ) - n| < 1 / 10 ^ 9 := by
    intro n hnear
    have h := ((text_of_abs_lt _ hthird).1 n).mpr hnear
    rw [hshown] at h
    exact slash_notMem_toString n (h ▸ (by decide))
  obtain ⟨-, -, -, honly, -, -⟩ :=
    ((text_of_abs_lt _ hthird).2 hfar).2.1 (-1) 3 (hshown.trans (by decide +kernel))
  refine ⟨hfive, ((text_of_abs_lt _ hfive).1 5).mpr (by decide +kernel), hthird, hshown,
    fun r hle hnear ↦ ?_, hpi, hdecimal, fun n hnear ↦ ?_⟩
  · have heq := honly r hle hnear
    norm_num at heq ⊢
    exact heq
  · have h := ((text_of_abs_lt _ hpi).1 n).mpr hnear
    rw [hdecimal] at h
    exact point_notMem_toString n (h ▸ (by decide))

end Reportable

end LinearProgramming
