import LinearProgramming.Proofs.Decimal.Shortest
import LinearProgramming.Proofs.Json.Numerals

/-!
# The parts of a number

A number that is not whole has digits in front of its point, digits behind it, and an exponent, of
which one of the last two may be missing. The text of a decimal is taken apart into these, and
together they have the value of the decimal, be it written with a point among its digits or with a
power of ten behind them.
-/

namespace LinearProgramming

namespace Json

/-! ## Digits -/

theorem digitsValue_append (xs ys : List Char) :
    digitsValue (xs ++ ys) = digitsValue xs * 10 ^ ys.length + digitsValue ys := by
  simp only [digitsValue_eq_ofDigitChars]
  rw [Nat.ofDigitChars_append, Nat.ofDigitChars_eq_ofDigitChars_zero, Nat.mul_comm]

theorem digitsValue_replicate_zero (n : ℕ) : digitsValue (List.replicate n '0') = 0 := by
  rw [digitsValue_eq_ofDigitChars, Nat.ofDigitChars_replicate_zero, Nat.mul_zero]

theorem isDigit_of_mem_replicate_zero {n : ℕ} {c : Char} (hc : c ∈ List.replicate n '0') :
    c.isDigit = true := by
  rw [List.eq_of_mem_replicate hc]
  rfl

theorem WholeDigits.isDigit_of_mem {digits : List Char} (h : WholeDigits digits) {c : Char}
    (hc : c ∈ digits) : c.isDigit = true := by
  obtain rfl | ⟨⟨-, hdigits⟩, -⟩ := h
  · rw [List.mem_singleton.mp hc]
    rfl
  · exact hdigits c hc

/-! ## The parts of a number -/

/-- The value of an exponent, which is zero if there is none. -/
def exponentValue : Option (Bool × List Char) → ℤ
  | none => 0
  | some (negative, digits) => if negative then -digitsValue digits else digitsValue digits

theorem exponentValue_toDigits (e : ℤ) :
    exponentValue (some (decide (e < 0), Nat.toDigits 10 e.natAbs)) = e := by
  rw [exponentValue, digitsValue_toDigits]
  split_ifs with hneg
  · have hneg' := of_decide_eq_true hneg
    omega
  · have hnonneg := of_decide_eq_false (Bool.not_eq_true _ ▸ hneg)
    omega

/-- A number without its sign: the digits in front of the point, those behind it, and the
exponent. -/
structure Parts where
  whole : List Char
  fraction : Option (List Char)
  exponent : Option (Bool × List Char)

namespace Parts

/-- The text of the exponent. It always has a sign. -/
def exponentText (p : Parts) : List Char :=
  p.exponent.elim [] fun e ↦ 'e' :: (if e.1 then '-' else '+') :: e.2

def text (p : Parts) : List Char :=
  p.whole ++ (p.fraction.elim [] ('.' :: ·) ++ p.exponentText)

/-- All the digits of a number together. -/
def significand (p : Parts) : ℕ := digitsValue (p.whole ++ p.fraction.getD [])

/-- The power of ten that belongs to the last of its digits. -/
def scale (p : Parts) : ℤ := exponentValue p.exponent - (p.fraction.getD []).length

def value (p : Parts) : ℚ := p.significand * 10 ^ p.scale

/-- Whether the parts make up a number, and not a whole one. -/
structure WellFormed (p : Parts) : Prop where
  whole : WholeDigits p.whole
  fraction : ∀ digits ∈ p.fraction, Digits digits
  exponent : ∀ e ∈ p.exponent, Digits e.2
  isDecimal : (p.fraction.isNone && p.exponent.isNone) = false

variable {p : Parts}

theorem head?_exponentText (p : Parts) : ∀ c ∈ p.exponentText.head?, c = 'e' := by
  rw [exponentText]
  rintro c hc
  cases hexponent : p.exponent with
  | none =>
    rw [hexponent] at hc
    cases hc
  | some e =>
    rw [hexponent] at hc
    cases hc
    rfl

theorem WellFormed.readExponent?_text (h : p.WellFormed) :
    readExponent? p.exponentText = .ok (p.exponent, []) := by
  have hdigits := h.exponent
  rw [exponentText]
  cases hexponent : p.exponent with
  | none => rfl
  | some e =>
    obtain ⟨negative, digits⟩ := e
    have hread := (hdigits (negative, digits) hexponent).readDigits
    rw [Option.elim_some, readExponent?, if_pos (.inl rfl)]
    cases negative <;> simp [hread]

theorem WellFormed.readFraction?_text (h : p.WellFormed) :
    readFraction? (p.fraction.elim [] ('.' :: ·) ++ p.exponentText)
      = .ok (p.fraction, p.exponentText) := by
  have hhead := p.head?_exponentText
  have hdigits := h.fraction
  cases hfraction : p.fraction with
  | none =>
    rw [Option.elim_none, List.nil_append, readFraction?]
    rintro rest hrest
    cases hhead '.' (by rw [hrest]; rfl)
  | some digits =>
    have hnext : NoDigit p.exponentText := fun c hc ↦ by
      rw [hhead c hc]
      rfl
    rw [Option.elim_some, List.cons_append, readFraction?,
      readDigits_append (hdigits digits hfraction).readDigits hnext]
    rfl

/-- **The parts of a number** are found in its text. -/
theorem WellFormed.readNumeral_text [NumberReading] (h : p.WellFormed) (negative : Bool) :
    readNumeral negative p.text
      = (numeralOf negative p.whole p.fraction p.exponent).map (·, []) := by
  have hnext : NoDigit (p.fraction.elim [] ('.' :: ·) ++ p.exponentText) := by
    cases p.fraction with
    | none =>
      intro c hc
      rw [p.head?_exponentText c hc]
      rfl
    | some digits => exact noDigit_cons rfl _
  rw [text, readNumeral, readWholeDigits_append h.whole.readWholeDigits hnext]
  dsimp only
  rw [List.nil_append, h.readFraction?_text]
  dsimp only
  rw [h.readExponent?_text]
  dsimp only
  cases numeralOf negative p.whole p.fraction p.exponent <;> rfl

end Parts

/-! ## The text of a decimal -/

theorem exists_toDigits_eq (d : Decimal) : ∃ zeros : ℕ,
    Nat.toDigits 10 d.coefficient = d.digits.1 ++ List.replicate zeros '0'
      ∧ d.digits.2 = d.exponent + zeros ∧ (d.coefficient = 0 → zeros = 0) := by
  rw [Decimal.digits]
  dsimp only
  split_ifs with hzero
  · exact ⟨0, by simp, by simp, fun _ ↦ rfl⟩
  · set all := (Nat.toDigits 10 d.coefficient).reverse with hall
    have htake : all.take (all.takeWhile (· == '0')).length = all.takeWhile (· == '0') :=
      (List.prefix_iff_eq_take.mp (List.takeWhile_prefix _)).symm
    have hzeros : all.takeWhile (· == '0')
        = List.replicate (all.takeWhile (· == '0')).length '0' := by
      refine List.eq_replicate_iff.mpr ⟨rfl, fun c hc ↦ ?_⟩
      have hc' := List.mem_takeWhile_imp hc
      exact beq_iff_eq.mp hc'
    refine ⟨(all.takeWhile (· == '0')).length, ?_, rfl, fun h ↦ absurd h hzero⟩
    rw [← List.reverse_replicate, ← hzeros, ← htake, ← List.reverse_append, List.length_take_of_le
      (List.takeWhile_prefix _).length_le, List.take_append_drop, hall, List.reverse_reverse]

theorem wholeDigits_digits (d : Decimal) : WholeDigits d.digits.1 := by
  obtain ⟨zeros, hdigits, -, hzero⟩ := exists_toDigits_eq d
  rcases wholeDigits_toDigits d.coefficient with hall | ⟨⟨-, hall⟩, hhead⟩
  · have hcoefficient : d.coefficient = 0 := by
      rw [← digitsValue_toDigits d.coefficient, hall]
      rfl
    rw [hzero hcoefficient, List.replicate_zero, List.append_nil] at hdigits
    exact .inl (hdigits.symm.trans hall)
  · have hne : d.digits.1 ≠ [] := by
      intro hnil
      rw [hnil, List.nil_append] at hdigits
      cases zeros with
      | zero => exact Nat.toDigits_ne_nil hdigits
      | succ zeros =>
        rw [hdigits] at hhead
        exact hhead rfl
    refine .inr ⟨⟨hne, fun c hc ↦ hall c ?_⟩, ?_⟩
    · rw [hdigits]
      exact List.mem_append_left _ hc
    · rwa [hdigits, List.head?_append_of_ne_nil _ hne] at hhead

theorem exponent_digits_of_zero {d : Decimal} (hd : d.coefficient = 0 → d.exponent = 0)
    (h : d.digits.1 = ['0']) : d.digits.2 = 0 := by
  obtain ⟨zeros, hdigits, hexponent, hzero⟩ := exists_toDigits_eq d
  have hcoefficient : d.coefficient = 0 := by
    rw [← digitsValue_toDigits d.coefficient, hdigits, h, digitsValue_append,
      digitsValue_replicate_zero]
    exact Nat.zero_mul _
  rw [hexponent, hd hcoefficient, hzero hcoefficient]
  rfl

theorem digitsValue_digits (d : Decimal) :
    (digitsValue d.digits.1 : ℚ) * 10 ^ d.digits.2 = d.value := by
  obtain ⟨zeros, hdigits, hexponent, -⟩ := exists_toDigits_eq d
  have hvalue := digitsValue_toDigits d.coefficient
  rw [hdigits, digitsValue_append, digitsValue_replicate_zero, List.length_replicate,
    add_zero] at hvalue
  rw [Decimal.value, ← hvalue, hexponent, zpow_add₀ (by norm_num), zpow_natCast]
  push_cast
  ring

variable {digits : List Char}

theorem WholeDigits.append_zeros (h : WholeDigits digits) {e : ℕ} (hzero : digits = ['0'] → e = 0) :
    WholeDigits (digits ++ List.replicate e '0') := by
  rcases h with h | ⟨⟨hne, hdigits⟩, hhead⟩
  · rw [hzero h, List.replicate_zero, List.append_nil]
    exact .inl h
  · refine .inr ⟨⟨by simp [hne], fun c hc ↦ ?_⟩, ?_⟩
    · rcases List.mem_append.mp hc with hc | hc
      · exact hdigits c hc
      · exact isDigit_of_mem_replicate_zero hc
    · rwa [List.head?_append_of_ne_nil _ hne]

theorem exists_parts_of_nonneg (hdigits : WholeDigits digits) {e : ℕ}
    (hzero : digits = ['0'] → e = 0) : ∃ p : Parts, p.WellFormed
      ∧ p.text = Decimal.positionalText true digits e ∧ p.value = digitsValue digits * 10 ^ e := by
  refine ⟨⟨digits ++ List.replicate e '0', some ['0'], none⟩,
    ⟨hdigits.append_zeros hzero, ?_, fun _ h ↦ (by cases h), rfl⟩, ?_, ?_⟩
  · rintro _ ⟨⟩
    exact ⟨List.cons_ne_nil _ _, List.forall_mem_singleton.mpr rfl⟩
  · simp [Parts.text, Parts.exponentText, Decimal.positionalText]
  · have hsignificand : digitsValue (digits ++ List.replicate e '0' ++ ['0'])
        = digitsValue digits * 10 ^ e * 10 := by
      rw [digitsValue_append, digitsValue_append, digitsValue_replicate_zero, List.length_replicate]
      rfl
    change (digitsValue (digits ++ List.replicate e '0' ++ ['0']) : ℚ) * 10 ^ (0 - 1 : ℤ) = _
    rw [hsignificand, zero_sub, zpow_neg_one]
    push_cast
    field_simp

theorem WholeDigits.take_padded (h : WholeDigits digits) {places : ℕ} (hplaces : 0 < places)
    {padded : List Char}
    (hpadded : padded = List.replicate (places + 1 - digits.length) '0' ++ digits) :
    WholeDigits (padded.take (padded.length - places)) := by
  have hlength : padded.length = places + 1 - digits.length + digits.length := by
    rw [hpadded, List.length_append, List.length_replicate]
  rcases le_or_gt digits.length places with hshort | hlong
  · obtain ⟨zeros, hzeros⟩ := Nat.exists_eq_add_one.mpr
      (show 0 < places + 1 - digits.length by omega)
    rw [show padded.length - places = 1 by omega, hpadded, hzeros]
    exact .inl rfl
  · rw [show places + 1 - digits.length = 0 by omega, List.replicate_zero,
      List.nil_append] at hpadded
    subst hpadded
    rcases h with rfl | ⟨⟨hne, hdigits⟩, hhead⟩
    · rw [List.length_singleton] at hlong
      omega
    · refine .inr ⟨⟨?_, fun c hc ↦ hdigits c (List.mem_of_mem_take hc)⟩, ?_⟩
      · rw [← List.length_pos_iff, List.length_take]
        omega
      · rwa [List.head?_take, if_neg (by omega)]

theorem exists_parts_of_neg (hdigits : WholeDigits digits) {places : ℕ} (hplaces : 0 < places) :
    ∃ p : Parts, p.WellFormed ∧ p.text = Decimal.positionalText true digits (-places)
      ∧ p.value = digitsValue digits * 10 ^ (-places : ℤ) := by
  set padded := List.replicate (places + 1 - digits.length) '0' ++ digits with hpadded
  have hlength : padded.length = places + 1 - digits.length + digits.length := by
    rw [hpadded, List.length_append, List.length_replicate]
  have hall : ∀ c ∈ padded, c.isDigit = true := by
    intro c hc
    rcases List.mem_append.mp hc with hc | hc
    · exact isDigit_of_mem_replicate_zero hc
    · exact hdigits.isDigit_of_mem hc
  have hrest : (padded.drop (padded.length - places)).length = places := by
    rw [List.length_drop]
    omega
  refine ⟨⟨padded.take (padded.length - places), some (padded.drop (padded.length - places)), none⟩,
    ⟨hdigits.take_padded hplaces hpadded, ?_, fun _ h ↦ (by cases h), rfl⟩, ?_, ?_⟩
  · rintro _ ⟨⟩
    refine ⟨?_, fun c hc ↦ hall c (List.mem_of_mem_drop hc)⟩
    rw [← List.length_pos_iff, hrest]
    exact hplaces
  · rw [Decimal.positionalText, if_neg (by omega), neg_neg, Int.toNat_natCast]
    dsimp only
    rw [← hpadded]
    simp [Parts.text, Parts.exponentText]
  · change (digitsValue (padded.take (padded.length - places)
      ++ padded.drop (padded.length - places)) : ℚ)
        * 10 ^ (0 - (padded.drop (padded.length - places)).length : ℤ) = _
    rw [List.take_append_drop, hrest, zero_sub, hpadded, digitsValue_append,
      digitsValue_replicate_zero, Nat.zero_mul, Nat.zero_add]

theorem exists_parts_scientificText (hdigits : WholeDigits digits) (leading : ℤ) :
    ∃ p : Parts, p.WellFormed ∧ p.text = Decimal.scientificText digits leading
      ∧ p.value = digitsValue digits * 10 ^ (leading + 1 - digits.length) := by
  obtain ⟨d, rest, rfl, hd⟩ := hdigits.exists_cons
  have hwhole : WholeDigits [d] := by
    rcases hdigits with hzero | ⟨-, hhead⟩
    · obtain ⟨rfl, -⟩ := List.cons.inj hzero
      exact .inl rfl
    · exact .inr ⟨⟨List.cons_ne_nil _ _, List.forall_mem_singleton.mpr hd⟩, hhead⟩
  have hexponent : Digits (Nat.toDigits 10 leading.natAbs) :=
    ⟨Nat.toDigits_ne_nil, fun c hc ↦ Nat.isDigit_of_mem_toDigits (by decide) (by decide) hc⟩
  cases rest with
  | nil =>
    refine ⟨⟨[d], none, some (decide (leading < 0), Nat.toDigits 10 leading.natAbs)⟩,
      ⟨hwhole, fun _ h ↦ (by cases h), fun _ h ↦ Option.some.inj h ▸ hexponent, rfl⟩, ?_, ?_⟩
    · simp [Parts.text, Parts.exponentText, Decimal.scientificText]
    · simp [Parts.value, Parts.significand, Parts.scale, exponentValue_toDigits]
  | cons c rest =>
    have hrest : Digits (c :: rest) :=
      ⟨List.cons_ne_nil _ _, fun c hc ↦ hdigits.isDigit_of_mem (List.mem_cons_of_mem _ hc)⟩
    refine ⟨⟨[d], some (c :: rest), some (decide (leading < 0), Nat.toDigits 10 leading.natAbs)⟩,
      ⟨hwhole, fun _ h ↦ Option.some.inj h ▸ hrest, fun _ h ↦ Option.some.inj h ▸ hexponent, rfl⟩,
      ?_, ?_⟩
    · simp [Parts.text, Parts.exponentText, Decimal.scientificText]
    · simp [Parts.value, Parts.significand, Parts.scale, exponentValue_toDigits]

/-- **A decimal is written in parts** that have its value. -/
theorem exists_parts_writeDecimal {l : Layout} (hl : l.showsPoint = true) {d : Decimal}
    (hd : d.coefficient = 0 → d.exponent = 0) :
    ∃ p : Parts, p.WellFormed ∧ p.text = l.writeDecimal d ∧ p.value = d.value := by
  have hdigits := wholeDigits_digits d
  rw [← digitsValue_digits d, Layout.writeDecimal]
  dsimp only
  split_ifs with hpositional
  · rw [hl]
    rcases le_or_gt 0 d.digits.2 with hnonneg | hneg
    · obtain ⟨e, he⟩ := Int.eq_ofNat_of_zero_le hnonneg
      rw [he, zpow_natCast]
      exact exists_parts_of_nonneg hdigits fun hzero ↦ by
        exact_mod_cast he.symm.trans (exponent_digits_of_zero hd hzero)
    · obtain ⟨places, hplaces⟩ := Int.eq_ofNat_of_zero_le (show 0 ≤ -d.digits.2 by omega)
      obtain he : d.digits.2 = -places := by omega
      rw [he]
      exact exists_parts_of_neg hdigits (by omega)
  · obtain ⟨p, hp, htext, hvalue⟩ := exists_parts_scientificText hdigits
      (d.digits.2 + d.digits.1.length - 1)
    refine ⟨p, hp, htext, hvalue.trans ?_⟩
    rw [sub_add_cancel, add_sub_cancel_right]

end Json

end LinearProgramming
