import LinearProgramming.Json.Basic
import LinearProgramming.Proofs.Json.Grammar

/-!
# Strings in JSON

Both loops over the characters of a string, the one that reads it and the one that passes over it,
reach the closing quote of any string that the grammar allows. What is written for a string is one
of its spellings, whatever characters are in it.
-/

namespace LinearProgramming

namespace Json

/-! ## Escapes -/

theorem readExactly_append (word cs : List Char) : readExactly word (word ++ cs) = .ok cs := by
  induction word with
  | nil => rw [List.nil_append, readExactly]
  | cons w word ih => rw [List.cons_append, readExactly, if_pos rfl, ih]

theorem four_le_byteCount (a b c d : Char) : 4 ≤ byteCount [a, b, c, d] := by
  have := a.utf8Size_pos
  have := b.utf8Size_pos
  have := c.utf8Size_pos
  have := d.utf8Size_pos
  simp only [byteCount, List.foldl_cons, List.foldl_nil]
  omega

theorem readCodeUnit_append {n : ℕ} {digits : List Char} (h : CodeUnit n digits)
    (cs : List Char) : readCodeUnit (digits ++ cs) = .ok (n, cs) := by
  obtain ⟨ha, hb, hc, hd⟩ := h
  simp only [readCodeUnit, List.cons_append, List.nil_append, List.take_succ_cons, List.take_zero,
    ha, hb, hc, hd]
  rw [if_neg (Nat.not_lt.mpr (four_le_byteCount _ _ _ _))]

theorem ne_of_simpleEscape? {letter c : Char} (h : simpleEscape? letter = some c) :
    letter ≠ 'u' := by
  rintro rfl
  cases h

theorem readEscape_append {c : Char} {text : List Char} (h : Escape c text) (cs : List Char) :
    readEscape (text ++ cs) = .ok (c, cs) := by
  cases h with
  | letter h =>
    rw [List.cons_append, readEscape, if_neg (ne_of_simpleEscape? h), h, List.nil_append]
  | unit h hn =>
    rw [List.cons_append, readEscape, if_pos rfl, readUnicodeEscape, readCodeUnit_append h]
    dsimp only
    rw [if_neg (by omega), if_neg (by omega)]
  | @pair high low digits digits' h hhigh h' hlow =>
    rw [List.cons_append, readEscape, if_pos rfl, readUnicodeEscape, List.append_assoc,
      readCodeUnit_append h]
    dsimp only
    rw [if_neg (by omega), if_pos hhigh, readLowSurrogate]
    have hmark : readExactly ['\\', 'u'] ('\\' :: 'u' :: (digits' ++ cs)) = .ok (digits' ++ cs) :=
      readExactly_append ['\\', 'u'] _
    rw [List.cons_append, List.cons_append, hmark]
    dsimp only
    rw [readCodeUnit_append h']
    dsimp only
    rw [if_pos hlow]

/-! ## Reading -/

theorem readCharsWithin_append {chars body : List Char} (h : Spelled chars body) {budget : ℕ}
    (hbudget : body.length < budget) (cs : List Char) :
    readCharsWithin budget (body ++ '"' :: cs) = .ok (chars, cs) := by
  induction h generalizing budget with
  | nil =>
    obtain ⟨budget, rfl⟩ := Nat.exists_eq_add_one.mpr (Nat.zero_lt_of_lt hbudget)
    rw [List.nil_append, readCharsWithin, if_pos rfl]
  | plain hquote hbackslash hcontrol _ ih =>
    obtain ⟨budget, rfl⟩ := Nat.exists_eq_add_one.mpr (Nat.zero_lt_of_lt hbudget)
    rw [List.cons_append, readCharsWithin, if_neg hquote, if_neg hbackslash,
      if_neg (Nat.not_lt.mpr hcontrol), ih (Nat.lt_of_succ_lt_succ hbudget)]
  | @escape c text chars body hc _ ih =>
    obtain ⟨budget, rfl⟩ := Nat.exists_eq_add_one.mpr (Nat.zero_lt_of_lt hbudget)
    rw [List.cons_append, readCharsWithin, if_neg (by decide), if_pos rfl, List.append_assoc,
      readEscape_append hc]
    dsimp only
    rw [ih (by simp only [List.length_cons, List.length_append] at hbudget; omega)]

theorem readChars_append {s : String} {body : List Char} (h : Spelled s.toList body)
    (cs : List Char) : readChars (body ++ '"' :: cs) = .ok (s, cs) := by
  rw [readChars, readCharsWithin_append h (by simp)]
  dsimp only
  rw [String.ofList_toList]

/-! ## Passing over -/

theorem skipCharsWithin_append {body : List Char} (h : Unread body) {budget : ℕ}
    (hbudget : body.length < budget) (cs : List Char) :
    skipCharsWithin budget (body ++ '"' :: cs) = .ok cs := by
  induction h generalizing budget with
  | nil =>
    obtain ⟨budget, rfl⟩ := Nat.exists_eq_add_one.mpr (Nat.zero_lt_of_lt hbudget)
    rw [List.nil_append, skipCharsWithin, if_pos rfl]
  | plain hquote hbackslash hcontrol _ ih =>
    obtain ⟨budget, rfl⟩ := Nat.exists_eq_add_one.mpr (Nat.zero_lt_of_lt hbudget)
    rw [List.cons_append, skipCharsWithin, if_neg hquote, if_neg hbackslash,
      if_neg (Nat.not_lt.mpr hcontrol), ih (Nat.lt_of_succ_lt_succ hbudget)]
  | @letter letter body hletter _ ih =>
    obtain ⟨budget, rfl⟩ := Nat.exists_eq_add_one.mpr (Nat.zero_lt_of_lt hbudget)
    obtain ⟨c, hc⟩ := Option.isSome_iff_exists.mp hletter
    rw [List.cons_append, List.cons_append, skipCharsWithin, if_neg (by decide), if_pos rfl,
      skipEscape, if_neg (ne_of_simpleEscape? hc), if_pos hletter]
    dsimp only
    rw [ih (by simp only [List.length_cons] at hbudget; omega)]
  | @unit n digits body hdigits _ ih =>
    obtain ⟨budget, rfl⟩ := Nat.exists_eq_add_one.mpr (Nat.zero_lt_of_lt hbudget)
    rw [List.cons_append, List.cons_append, skipCharsWithin, if_neg (by decide), if_pos rfl,
      skipEscape, if_pos rfl, List.append_assoc, readCodeUnit_append hdigits]
    dsimp only
    rw [ih (by simp only [List.length_cons, List.length_append] at hbudget; omega)]

theorem skipChars_append {body : List Char} (h : Unread body) (cs : List Char) :
    skipChars (body ++ '"' :: cs) = .ok cs := by
  rw [skipChars, skipCharsWithin_append h (by simp)]

/-! ## Writing -/

theorem hexValue?_hexDigit : ∀ n < 16, hexValue? (hexDigit n) = some n := by
  decide

theorem Spelled.escapeChar {chars cs : List Char} (h : Spelled chars cs) (c : Char) :
    Spelled (c :: chars) (Json.escapeChar c ++ cs) := by
  have hletter : ∀ {letter c : Char}, simpleEscape? letter = some c →
      Spelled (c :: chars) (['\\', letter] ++ cs) := fun hc ↦ .escape (.letter hc) h
  rw [Json.escapeChar]
  split_ifs with hquote hbackslash hnewline hreturn htab hbackspace hformfeed hcontrol
  · subst hquote
    exact hletter rfl
  · subst hbackslash
    exact hletter rfl
  · subst hnewline
    exact hletter rfl
  · subst hreturn
    exact hletter rfl
  · subst htab
    exact hletter rfl
  · have hc : c = Char.ofNat 8 := by rw [← hbackspace, Char.ofNat_toNat]
    exact hc ▸ hletter rfl
  · have hc : c = Char.ofNat 12 := by rw [← hformfeed, Char.ofNat_toNat]
    exact hc ▸ hletter rfl
  -- A control character is below 32, so that two of the four digits are zero.
  · have hdigits := CodeUnit.intro (hexValue?_hexDigit 0 (by decide))
      (hexValue?_hexDigit 0 (by decide)) (hexValue?_hexDigit (c.toNat / 16) (by omega))
      (hexValue?_hexDigit (c.toNat % 16) (by omega))
    have hn : ((0 * 16 + 0) * 16 + c.toNat / 16) * 16 + c.toNat % 16 = c.toNat := by omega
    rw [hn] at hdigits
    have hescape := Escape.unit hdigits (.inl (by omega))
    rw [Char.ofNat_toNat] at hescape
    exact .escape hescape h
  · exact .plain hquote hbackslash (Nat.le_of_not_lt hcontrol) h

theorem spelled_flatMap_escapeChar (chars : List Char) :
    Spelled chars (chars.flatMap Json.escapeChar) := by
  induction chars with
  | nil => exact .nil
  | cons c chars ih => exact ih.escapeChar c

theorem literal_stringText (s : String) : Literal s (stringText s) :=
  ⟨s.toList.flatMap Json.escapeChar, spelled_flatMap_escapeChar s.toList, rfl⟩

end Json

end LinearProgramming
