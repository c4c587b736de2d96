import LinearProgramming.Json.Reader
import LinearProgramming.Proofs.Decimal.Text
import LinearProgramming.Proofs.Json.Skip
import Mathlib.Data.List.TakeWhile

/-!
# Numbers are read up to where they end

A number has no closing mark, so what is read of it could depend on what stands behind it. It does
not where that ends the value. A number that makes up a whole text is therefore read as the same
number wherever it stands in a document.

Which double the digits become is left to the way of reading. A double is said to read back if what
is written for it is read as that double.
-/

namespace LinearProgramming

namespace Json

/-! ## Digits -/

theorem takeWhile_append {cs rest : List Char} (hrest : NoDigit rest) :
    (cs ++ rest).takeWhile (·.isDigit) = cs.takeWhile (·.isDigit) := by
  induction cs with
  | nil =>
    cases rest with
    | nil => rfl
    | cons c rest => exact List.takeWhile_cons_of_neg (Bool.eq_false_iff.mp (hrest c rfl))
  | cons c cs ih => rw [List.cons_append, List.takeWhile_cons, List.takeWhile_cons, ih]

theorem dropWhile_append {cs rest : List Char} (hrest : NoDigit rest) :
    (cs ++ rest).dropWhile (·.isDigit) = cs.dropWhile (·.isDigit) ++ rest := by
  induction cs with
  | nil => exact dropWhile_digits nofun hrest
  | cons c cs ih =>
    rw [List.cons_append, List.dropWhile_cons, List.dropWhile_cons, ih]
    split_ifs <;> rfl

theorem any_head?_append {cs rest : List Char} (hrest : NoDigit rest) :
    (cs ++ rest).head?.any (·.isDigit) = cs.head?.any (·.isDigit) := by
  cases cs with
  | nil =>
    rw [List.nil_append, List.head?_nil, Option.any_none, Option.any_eq_false]
    exact hrest
  | cons c cs => rfl

/-! ## The parts of a number -/

section

variable {cs left rest : List Char}

theorem readWholeDigits_append {whole : List Char} (h : readWholeDigits cs = .ok (whole, left))
    (hrest : NoDigit rest) : readWholeDigits (cs ++ rest) = .ok (whole, left ++ rest) := by
  cases cs with
  | nil => cases h
  | cons c cs =>
    rw [readWholeDigits] at h
    rw [List.cons_append, readWholeDigits, any_head?_append hrest]
    split_ifs at h ⊢ with hdigit hzero hnext
    · obtain ⟨rfl, rfl⟩ := Prod.mk.inj (Except.ok.inj h)
      rfl
    · obtain ⟨rfl, rfl⟩ := Prod.mk.inj (Except.ok.inj h)
      rw [← List.cons_append, takeWhile_append hrest, dropWhile_append hrest]

theorem readDigits_append {digits : List Char} (h : readDigits cs = .ok (digits, left))
    (hrest : NoDigit rest) : readDigits (cs ++ rest) = .ok (digits, left ++ rest) := by
  cases cs with
  | nil => cases h
  | cons c cs =>
    rw [readDigits] at h
    rw [List.cons_append, readDigits]
    split_ifs at h ⊢ with hdigit
    obtain ⟨rfl, rfl⟩ := Prod.mk.inj (Except.ok.inj h)
    rw [← List.cons_append, takeWhile_append hrest, dropWhile_append hrest]

theorem readFraction?_append {fraction : Option (List Char)}
    (h : readFraction? cs = .ok (fraction, left)) (hrest : Ends rest) :
    readFraction? (cs ++ rest) = .ok (fraction, left ++ rest) := by
  by_cases hpoint : ∃ digits, cs = '.' :: digits
  · obtain ⟨cs, rfl⟩ := hpoint
    rw [readFraction?] at h
    rw [List.cons_append, readFraction?]
    split at h
    case h_1 => cases h
    case h_2 hdigits =>
      cases h
      rw [readDigits_append hdigits hrest.noDigit]
  · have hnone : readFraction? cs = .ok (none, cs) := by
      rw [readFraction?]
      exact fun digits heq ↦ hpoint ⟨digits, heq⟩
    cases hnone.symm.trans h
    rw [readFraction?]
    rintro tail htail
    cases cs with
    | nil =>
      rw [List.nil_append] at htail
      exact (hrest.ne (htail ▸ rfl : '.' ∈ rest.head?)).1 rfl
    | cons c cs =>
      cases htail
      exact hpoint ⟨cs, rfl⟩

theorem readExponent?_append {exponent : Option (Bool × List Char)}
    (h : readExponent? cs = .ok (exponent, left)) (hrest : Ends rest) :
    readExponent? (cs ++ rest) = .ok (exponent, left ++ rest) := by
  cases cs with
  | nil =>
    cases h
    cases rest with
    | nil => rfl
    | cons c rest =>
      obtain ⟨-, hlower, hupper⟩ := hrest.ne (show c ∈ (c :: rest).head? from rfl)
      rw [List.nil_append, readExponent?, if_neg (not_or.mpr ⟨hlower, hupper⟩)]
  | cons c cs =>
    rw [readExponent?] at h
    rw [List.cons_append, readExponent?]
    split_ifs at h ⊢ with hletter
    -- Behind its letter the exponent has at least one character, so the sign is looked for in it
    -- and not in what follows.
    · cases cs with
      | nil => cases h
      | cons d cs =>
        simp only [List.cons_append, List.head?_cons, List.drop_one, List.tail_cons] at h ⊢
        split_ifs at h ⊢
        · split at h
          case h_1 => cases h
          case h_2 hdigits =>
            cases h
            rw [readDigits_append hdigits hrest.noDigit]
            rfl
        · split at h
          case h_1 => cases h
          case h_2 hdigits =>
            cases h
            rw [← List.cons_append, readDigits_append hdigits hrest.noDigit]
            rfl
    · cases h
      rfl

variable [NumberReading]

theorem readNumeral_append {negative : Bool} {n : Numeral}
    (h : readNumeral negative cs = .ok (n, left)) (hrest : Ends rest) :
    readNumeral negative (cs ++ rest) = .ok (n, left ++ rest) := by
  rw [readNumeral] at h
  split at h
  case h_1 => cases h
  case h_2 whole cs hwhole =>
    split at h
    case h_1 => cases h
    case h_2 fraction cs hfraction =>
      split at h
      case h_1 => cases h
      case h_2 exponent cs hexponent =>
        split at h
        case h_1 => cases h
        case h_2 n hnumeral =>
          cases h
          rw [readNumeral, readWholeDigits_append hwhole hrest.noDigit]
          simp only [readFraction?_append hfraction hrest, readExponent?_append hexponent hrest,
            hnumeral]

end

/-! ## Numbers in a document -/

section

variable [NumberReading] {expected : String} {b cs rest : List Char}

theorem readNumber_minus (hb : Blank b) :
    readNumber expected (b ++ '-' :: cs) = readNumeral true cs := by
  rw [readNumber, skipBlanks_append hb, skipBlanks_cons (by decide)]
  rfl

theorem readNumber_digit {c : Char} (hb : Blank b) (hc : c.isDigit = true) :
    readNumber expected (b ++ c :: cs) = readNumeral false (c :: cs) := by
  rw [readNumber, skipBlanks_append hb, skipBlanks_cons (isBlank_of_isDigit hc)]
  split <;> rename_i heq <;> cases heq
  case h_2 => cases hc
  case h_3 => exact if_pos hc

theorem exists_cons_of_readNumber {c : Char} {n : Numeral} (hc : isBlank c = false)
    (h : readNumber expected (c :: cs) = .ok (n, rest)) : c = '-' ∨ c.isDigit = true := by
  rw [readNumber, skipBlanks_cons hc] at h
  split at h <;> rename_i heq <;> cases heq
  case h_2 => exact .inl rfl
  case h_3 =>
    split_ifs at h with hdigit
    exact .inr hdigit

/-- A number that makes up a whole text is the same number in front of anything that ends it. -/
theorem readNumber_append {n : Numeral} (hcs : Starts cs)
    (h : readNumber expected cs = .ok (n, [])) (hb : Blank b) (hrest : Ends rest) :
    readNumber expected (b ++ (cs ++ rest)) = .ok (n, rest) := by
  obtain ⟨c, cs, rfl, hc, -⟩ := hcs
  rcases exists_cons_of_readNumber hc h with rfl | hdigit
  · have hnumeral := h
    rw [← List.nil_append ('-' :: cs), readNumber_minus blank_nil] at hnumeral
    rw [List.cons_append, readNumber_minus hb]
    exact readNumeral_append hnumeral hrest
  · have hnumeral := h
    rw [← List.nil_append (c :: cs), readNumber_digit blank_nil hdigit] at hnumeral
    rw [List.cons_append, readNumber_digit hb hdigit, ← List.cons_append]
    exact readNumeral_append hnumeral hrest

/-! ## Doubles -/

/-- Whether what is written for a double is read as that double. -/
def ReadsBack (x : Float) : Prop := readFloat (numberText x) = .ok (x, [])

instance (x : Float) : Decidable (ReadsBack x) :=
  match h : readFloat (numberText x) with
  | .ok (y, rest) => decidable_of_iff (y = x ∧ rest = []) (by rw [ReadsBack, h]; simp)
  | .error _ => isFalse (by rw [ReadsBack, h]; nofun)

end

/-- Quick reading rounds twice, which is once too often for some doubles, like `2 ^ -43`. -/
example : numberText 1.1368683772161603e-13 = "1.1368683772161603e-13".toList
    ∧ ¬ReadsBack 1.1368683772161603e-13 := by decide +kernel

theorem isBlank_of_mem_numberText {x : Float} {c : Char} (hc : c ∈ numberText x) :
    isBlank c = false := by
  rw [Bool.eq_false_iff]
  intro hblank
  have hforeign : ∀ c, isBlank c = true → Decimal.Foreign c ∧ c ∉ "null".toList
      ∧ c ∉ numberLayout.infinity.toList ∧ c ∉ numberLayout.undefined.toList := by
    intro c hc
    simp only [isBlank, Bool.or_eq_true, decide_eq_true_eq] at hc
    rcases hc with ((rfl | rfl) | rfl) | rfl <;>
      exact ⟨⟨rfl, by decide⟩, by decide, by decide, by decide⟩
  obtain ⟨hforeign, hnull, hinfinity, hundefined⟩ := hforeign c hblank
  rw [numberText] at hc
  split_ifs at hc
  · exact hforeign.notMem_write hinfinity hundefined x hc
  · exact hnull hc

theorem ReadsBack.exists_cons [NumberReading] {x : Float} (h : ReadsBack x) :
    ∃ c cs, numberText x = c :: cs ∧ isBlank c = false ∧ (c = '-' ∨ c.isDigit = true) := by
  have hblank := fun c ↦ isBlank_of_mem_numberText (x := x) (c := c)
  rw [ReadsBack, readFloat, Reader.map] at h
  cases htext : numberText x with
  | nil =>
    rw [htext] at h
    cases h
  | cons c cs =>
    have hc : isBlank c = false := hblank c (htext ▸ List.mem_cons_self)
    refine ⟨c, cs, rfl, hc, ?_⟩
    cases hnumber : readNumber "f64" (c :: cs) with
    | error fault =>
      rw [htext, hnumber] at h
      cases h
    | ok read => exact exists_cons_of_readNumber hc hnumber

theorem ReadsBack.starts [NumberReading] {x : Float} (h : ReadsBack x) :
    Starts (numberText x) := by
  obtain ⟨c, cs, htext, hc, hsign⟩ := h.exists_cons
  refine ⟨c, cs, htext, hc, ?_⟩
  rcases hsign with rfl | hdigit
  · decide
  · rintro rfl
    cases hdigit

theorem ReadsBack.head?_ne [NumberReading] {x : Float} (h : ReadsBack x) :
    (numberText x).head? ≠ some 'n' := by
  obtain ⟨c, cs, htext, -, hsign⟩ := h.exists_cons
  rw [htext]
  rintro ⟨⟩
  rcases hsign with hsign | hdigit
  · cases hsign
  · cases hdigit

theorem ReadsBack.readFloat_append [NumberReading] {x : Float} (h : ReadsBack x)
    {b rest : List Char} (hb : Blank b) (hrest : Ends rest) :
    readFloat (b ++ (numberText x ++ rest)) = .ok (x, rest) := by
  have hstarts := h.starts
  rw [ReadsBack, readFloat, Reader.map] at h
  rw [readFloat, Reader.map]
  cases hnumber : readNumber "f64" (numberText x) with
  | error fault =>
    rw [hnumber] at h
    cases h
  | ok read =>
    obtain ⟨n, left⟩ := read
    rw [hnumber] at h
    obtain ⟨hx, rfl⟩ := Prod.mk.inj (Except.ok.inj h)
    rw [readNumber_append hstarts hnumber hb hrest]
    exact congrArg (fun x ↦ Except.ok (x, rest)) hx

/-! ## Counts -/

theorem head?_toDigits {n : ℕ} (hn : 0 < n) : (Nat.toDigits 10 n).head? ≠ some '0' := by
  induction n using Nat.strongRecOn with
  | ind n ih =>
    have hdigit : ∀ d < 10, 0 < d → [Nat.digitChar d].head? ≠ some '0' := by decide
    rw [Nat.toDigits_eq_if (by decide)]
    split_ifs with hlt
    · exact hdigit n hlt hn
    · rw [List.head?_append_of_ne_nil _ Nat.toDigits_ne_nil]
      exact ih (n / 10) (Nat.div_lt_self hn (by decide)) (by omega)

theorem wholeDigits_toDigits (n : ℕ) : WholeDigits (Nat.toDigits 10 n) := by
  rcases Nat.eq_zero_or_pos n with rfl | hn
  · exact .inl rfl
  · exact .inr ⟨⟨Nat.toDigits_ne_nil, fun c hc ↦
      Nat.isDigit_of_mem_toDigits (by decide) (by decide) hc⟩, head?_toDigits hn⟩

theorem Digits.readDigits {digits : List Char} (h : Digits digits) :
    Json.readDigits digits = .ok (digits, []) := by
  obtain ⟨hne, hdigits⟩ := h
  obtain ⟨d, digits, rfl⟩ := List.exists_cons_of_ne_nil hne
  rw [Json.readDigits, if_pos (hdigits d List.mem_cons_self), List.takeWhile_eq_self_iff.mpr hdigits,
    List.dropWhile_eq_nil_iff.mpr hdigits]

theorem WholeDigits.readWholeDigits {whole : List Char} (h : WholeDigits whole) :
    Json.readWholeDigits whole = .ok (whole, []) := by
  obtain rfl | ⟨⟨hne, hdigits⟩, hzero⟩ := h
  · rfl
  · obtain ⟨d, digits, rfl⟩ := List.exists_cons_of_ne_nil hne
    have hd : d ≠ '0' := fun h ↦ hzero (congrArg some h)
    rw [Json.readWholeDigits, hdigits d List.mem_cons_self, if_neg (by decide), if_neg hd,
      List.takeWhile_eq_self_iff.mpr hdigits, List.dropWhile_eq_nil_iff.mpr hdigits]

theorem digitsValue_eq_ofDigitChars (digits : List Char) :
    digitsValue digits = Nat.ofDigitChars 10 digits 0 := by
  rw [Nat.ofDigitChars_eq_foldl, digitsValue]
  simp only [digitValue, Nat.mul_comm]

theorem digitsValue_toDigits (n : ℕ) : digitsValue (Nat.toDigits 10 n) = n := by
  rw [digitsValue_eq_ofDigitChars, Nat.ofDigitChars_ten_toDigits]

theorem readCount_append [NumberReading] {n : ℕ} (hn : n < 2 ^ 64) {b rest : List Char}
    (hb : Blank b) (hrest : Ends rest) :
    readCount (b ++ (Nat.toDigits 10 n ++ rest)) = .ok (n, rest) := by
  obtain ⟨d, digits, hdigits, hd⟩ := (wholeDigits_toDigits n).exists_cons
  have hnumber : readNumber "usize" (Nat.toDigits 10 n) = .ok (.natural n, []) := by
    have hfits : digitsValue (Nat.toDigits 10 n) < Nat.pow 2 64 := by
      rw [digitsValue_toDigits]
      exact hn
    rw [hdigits, ← List.nil_append (d :: digits), readNumber_digit blank_nil hd, ← hdigits,
      readNumeral, (wholeDigits_toDigits n).readWholeDigits]
    simp only [readFraction?, readExponent?, numeralOf, hfits]
    rw [digitsValue_toDigits]
    rfl
  rw [readCount, readNumber_append (hdigits ▸ starts_of_isDigit hd digits) hnumber hb hrest]

end Json

end LinearProgramming
