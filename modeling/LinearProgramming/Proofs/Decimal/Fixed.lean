import LinearProgramming.Proofs.Decimal.Shortest
import LinearProgramming.Proofs.Decimal.Text
import LinearProgramming.Report.Number

/-!
# Numbers rounded to so many places

The nearest whole number to a rational is within a half of it, and a whole number that is nearer
than a half is the nearest one. A text with a fixed number of decimals is the nearest whole number
of the smallest unit that it can show, so it is within half of that unit.

Such a text always has a point. Digits alone, with a sign or without, never do.
-/

namespace LinearProgramming

/-! ## Whole numbers -/

theorem natAbs_num_div_den (x : ℚ) : (x.num.natAbs : ℚ) / x.den = |x| := by
  rw [Nat.cast_natAbs, Int.cast_abs]
  conv_rhs => rw [← Rat.num_div_den x]
  rw [abs_div, Nat.abs_cast]

theorem abs_roundRat_sub_le (x : ℚ) : |(roundRat x : ℚ) - x| ≤ 1 / 2 := by
  have hround := abs_roundDiv_sub_le .away x.num.natAbs x.den_pos
  rw [natAbs_num_div_den] at hround
  rw [roundRat]
  by_cases hneg : x.num < 0
  · rw [abs_of_neg (Rat.num_neg.mp hneg), ← abs_neg, neg_sub', neg_neg] at hround
    rw [if_pos hneg]
    push_cast
    exact hround
  · rw [abs_of_nonneg (Rat.num_nonneg.mp (not_lt.mp hneg))] at hround
    rw [if_neg hneg]
    exact hround

theorem roundRat_eq {x : ℚ} {n : ℤ} (h : |x - n| < 1 / 2) : roundRat x = n := by
  have hround := abs_le.mp (abs_roundRat_sub_le x)
  have hnear := abs_lt.mp h
  have hlt : roundRat x < n + 1 := by exact_mod_cast (by linarith : (roundRat x : ℚ) < n + 1)
  have hgt : n < roundRat x + 1 := by exact_mod_cast (by linarith : (n : ℚ) < roundRat x + 1)
  omega

@[simp] theorem roundRat_intCast (n : ℤ) : roundRat n = n := roundRat_eq (by simp)

theorem limitToInt64_eq {n : ℤ} (h : |n| < 2 ^ 63) : limitToInt64 n = n := by
  have hlimits := abs_lt.mp h
  have hpow : Int.pow 2 63 = 2 ^ 63 := rfl
  rw [limitToInt64, hpow]
  omega

/-! ## Decimals -/

theorem ofDigitChars_replicate (k : ℕ) (digits : List Char) :
    Nat.ofDigitChars 10 (List.replicate k '0' ++ digits) 0 = Nat.ofDigitChars 10 digits 0 := by
  induction k with
  | zero => rfl
  | succ k ih => exact ih

/-- That a text is a number rounded to so many decimals: its sign, digits, a point and as many more
digits, which are a whole number of the last unit within half of it. -/
def IsRounded (places : ℕ) (v : ℚ) (text : String) : Prop :=
  ∃ whole fraction : List Char,
    text.toList = (if v < 0 then ['-'] else []) ++ whole ++ '.' :: fraction
    ∧ whole ≠ [] ∧ fraction.length = places ∧ (∀ c ∈ whole ++ fraction, c.isDigit = true)
    ∧ |(Nat.ofDigitChars 10 (whole ++ fraction) 0 : ℚ) / 10 ^ places - abs v| ≤ 1 / 2 / 10 ^ places

theorem exists_positionalText {places : ℕ} (hplaces : 0 < places) {digits : List Char}
    (hdigits : ∀ c ∈ digits, c.isDigit = true) : ∃ whole fraction : List Char,
    Decimal.positionalText false digits (-places) = whole ++ '.' :: fraction
    ∧ whole ≠ [] ∧ fraction.length = places ∧ (∀ c ∈ whole ++ fraction, c.isDigit = true)
    ∧ Nat.ofDigitChars 10 (whole ++ fraction) 0 = Nat.ofDigitChars 10 digits 0 := by
  set padded := List.replicate (places + 1 - digits.length) '0' ++ digits with hpadded
  have hlength : places + 1 ≤ padded.length := by
    rw [hpadded, List.length_append, List.length_replicate]
    omega
  have hneg : ¬(0 : ℤ) ≤ -places := by omega
  have hcount : (-(-(places : ℤ))).toNat = places := by omega
  refine ⟨padded.take (padded.length - places), padded.drop (padded.length - places), ?_, ?_, ?_,
    ?_, ?_⟩
  · rw [Decimal.positionalText, if_neg hneg, hcount]
  · refine List.ne_nil_of_length_pos ?_
    rw [List.length_take]
    omega
  · rw [List.length_drop]
    omega
  · rw [List.take_append_drop]
    intro c hc
    rcases List.mem_append.mp hc with hc | hc
    · rw [List.eq_of_mem_replicate hc]
      rfl
    · exact hdigits c hc
  · rw [List.take_append_drop, hpadded, ofDigitChars_replicate]

/-- **A fixed number of decimals** is the number rounded to so many. -/
theorem isRounded_fixedText {places : ℕ} (hplaces : 0 < places) (v : ℚ) :
    IsRounded places v (fixedText places (v.num < 0) v.num.natAbs v.den) := by
  set scaled := roundDiv .even (v.num.natAbs * Nat.pow 10 places) v.den with hscaled
  have hall : ∀ c ∈ Nat.toDigits 10 scaled, c.isDigit = true :=
    fun c hc ↦ Nat.isDigit_of_mem_toDigits (by norm_num) (by norm_num) hc
  obtain ⟨whole, fraction, htext, hwhole, hfraction, hdigits, hvalue⟩ :=
    exists_positionalText hplaces hall
  refine ⟨whole, fraction, ?_, hwhole, hfraction, hdigits, ?_⟩
  · have hsign : (decide (v.num < 0)) = decide (v < 0) := by simp
    rw [fixedText, ← hscaled, htext, String.toList_ofList, hsign]
    by_cases hneg : v < 0 <;> simp [hneg]
  · have hpow : (0 : ℚ) < 10 ^ places := by positivity
    have hround := abs_roundDiv_sub_le .even (v.num.natAbs * Nat.pow 10 places) v.den_pos
    rw [← hscaled] at hround
    have heq : ((v.num.natAbs * Nat.pow 10 places : ℕ) : ℚ) / v.den = |v| * 10 ^ places := by
      rw [← natAbs_num_div_den, div_mul_eq_mul_div]
      exact congrArg (· / _) (mod_cast rfl)
    rw [heq] at hround
    rw [hvalue, Nat.ofDigitChars_ten_toDigits]
    have hunit : (scaled : ℚ) / 10 ^ places - |v| = (scaled - |v| * 10 ^ places) / 10 ^ places := by
      field_simp
    rw [hunit, abs_div, abs_of_pos hpow]
    exact div_le_div_of_nonneg_right hround hpow.le

/-! ## The characters of each form -/

theorem isDigit_of_mem_repr {k : ℕ} {c : Char} (h : c ∈ k.repr.toList) : c.isDigit = true := by
  rw [Nat.toList_repr] at h
  exact Nat.isDigit_of_mem_toDigits (by norm_num) (by norm_num) h

theorem isDigit_or_eq_of_mem_toString {n : ℤ} {c : Char} (h : c ∈ (toString n).toList) :
    c.isDigit = true ∨ c = '-' := by
  rw [Int.toString_eq_repr, Int.repr_eq_if] at h
  split_ifs at h
  · exact .inl (isDigit_of_mem_repr h)
  · rw [String.toList_append] at h
    rcases List.mem_append.mp h with h | h
    · exact .inr (List.mem_singleton.mp h)
    · exact .inl (isDigit_of_mem_repr h)

theorem eq_of_repr_eq {k l : ℕ} (h : k.repr = l.repr) : k = l := by
  have hdigits := congrArg String.toList h
  rw [Nat.toList_repr, Nat.toList_repr] at hdigits
  calc k = Nat.ofDigitChars 10 (Nat.toDigits 10 k) 0 := Nat.ofDigitChars_ten_toDigits.symm
    _ = Nat.ofDigitChars 10 (Nat.toDigits 10 l) 0 := by rw [hdigits]
    _ = l := Nat.ofDigitChars_ten_toDigits

/-- An integer is told by its text: the digits tell its magnitude, and no digit is a sign. -/
theorem eq_of_toString_eq {m n : ℤ} (h : toString m = toString n) : m = n := by
  have hsign : ∀ {k l : ℕ}, "-" ++ k.repr ≠ l.repr := by
    intro k l heq
    have hmem : '-' ∈ ("-" ++ k.repr).toList := by simp
    cases isDigit_of_mem_repr (heq ▸ hmem)
  rw [Int.toString_eq_repr, Int.toString_eq_repr, Int.repr_eq_if, Int.repr_eq_if] at h
  split_ifs at h with hm hn hn
  · have := eq_of_repr_eq h
    omega
  · exact absurd h.symm hsign
  · exact absurd h hsign
  · have := eq_of_repr_eq (String.append_right_inj _ |>.mp h)
    omega

theorem IsRounded.point_mem {places : ℕ} {v : ℚ} {text : String} (h : IsRounded places v text) :
    '.' ∈ text.toList := by
  obtain ⟨whole, fraction, htext, -⟩ := h
  simp [htext]

theorem IsRounded.slash_notMem {places : ℕ} {v : ℚ} {text : String} (h : IsRounded places v text) :
    '/' ∉ text.toList := by
  obtain ⟨whole, fraction, htext, -, -, hdigits, -⟩ := h
  have hslash : '/' ∉ whole ++ fraction := fun hmem ↦ by cases hdigits _ hmem
  rw [List.mem_append, not_or] at hslash
  rw [htext]
  split_ifs <;> simp [hslash]

end LinearProgramming
