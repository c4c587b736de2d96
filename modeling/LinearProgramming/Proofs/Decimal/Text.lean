import LinearProgramming.Decimal.Layout
import Mathlib.Tactic.NormNum
import Mathlib.Tactic.SplitIfs

/-!
# The characters of a decimal

The text of a decimal is made of digits and four marks. The words for what is not finite have other
letters in them, and blanks are neither.
-/

namespace LinearProgramming

namespace Decimal

variable {digits : List Char} {c : Char}

/-- Whether a character has no place in the text of a decimal. -/
def Foreign (c : Char) : Prop := c.isDigit = false ∧ c ∉ ['.', 'e', '+', '-']

theorem Foreign.notMem_toDigits (hc : Foreign c) (n : ℕ) : c ∉ Nat.toDigits 10 n := by
  intro hmem
  cases (Nat.isDigit_of_mem_toDigits (by norm_num) (by norm_num) hmem).symm.trans hc.1

theorem Foreign.notMem_digits (hc : Foreign c) (d : Decimal) : c ∉ d.digits.1 := by
  rw [Decimal.digits]
  intro hmem
  exact hc.notMem_toDigits _
    (List.mem_reverse.mp (List.mem_of_mem_drop (List.mem_reverse.mp hmem)))

theorem Foreign.ne_zero (hc : Foreign c) : c ≠ '0' := by
  rintro rfl
  cases hc.1

theorem Foreign.notMem_positionalText (hc : Foreign c) (h : c ∉ digits) (showsPoint : Bool)
    (exponent : ℤ) : c ∉ positionalText showsPoint digits exponent := by
  have hzero := hc.ne_zero
  have hpoint : c ≠ '.' := fun heq ↦ hc.2 (by simp [heq])
  rw [positionalText]
  split_ifs
  · simp [h, hzero, hpoint]
  · simp [h, hzero]
  · have hpadded : c ∉ List.replicate ((-exponent).toNat + 1 - digits.length) '0' ++ digits := by
      simp [h, hzero]
    intro hmem
    rcases List.mem_append.mp hmem with hmem | hmem
    · exact hpadded (List.mem_of_mem_take hmem)
    · rcases List.mem_cons.mp hmem with hmem | hmem
      · exact hpoint hmem
      · exact hpadded (List.mem_of_mem_drop hmem)

theorem Foreign.notMem_scientificText (hc : Foreign c) (h : c ∉ digits) (leading : ℤ) :
    c ∉ scientificText digits leading := by
  have hexponent := hc.notMem_toDigits leading.natAbs
  have hfirst : c ∉ digits.take 1 := fun hmem ↦ h (List.mem_of_mem_take hmem)
  have hrest : c ∉ digits.drop 1 := fun hmem ↦ h (List.mem_of_mem_drop hmem)
  obtain ⟨hpoint, hletter, hplus, hminus⟩ : c ≠ '.' ∧ c ≠ 'e' ∧ c ≠ '+' ∧ c ≠ '-' := by
    simpa using hc.2
  have hsign : c ≠ if leading < 0 then '-' else '+' := by split_ifs <;> assumption
  rw [scientificText]
  cases hdigits : digits.drop 1 with
  | nil => simp [hfirst, hletter, hsign, hexponent]
  | cons d rest =>
    rw [hdigits] at hrest
    simp only [List.mem_append, List.mem_cons, not_or] at hrest ⊢
    exact ⟨⟨hfirst, hpoint, hrest⟩, hletter, hsign, hexponent⟩

end Decimal

theorem Decimal.Foreign.notMem_write {c : Char} (hc : Foreign c) {l : Layout}
    (hinfinity : c ∉ l.infinity.toList) (hundefined : c ∉ l.undefined.toList) (x : Float) :
    c ∉ l.write x := by
  have hminus : c ≠ '-' := fun heq ↦ hc.2 (by simp [heq])
  rw [Layout.write]
  cases BinaryValue.ofFloat x with
  | finite negative significand exponent =>
    have hdecimal : ∀ d : Decimal, c ∉ l.writeDecimal d := by
      intro d
      have hdigits := hc.notMem_digits d
      rw [Layout.writeDecimal]
      dsimp only
      split_ifs
      · exact hc.notMem_positionalText hdigits _ _
      · exact hc.notMem_scientificText hdigits _
    have htext := hdecimal (shortestDecimal l.tie significand exponent)
    cases negative with
    | false => exact htext
    | true => exact List.not_mem_cons_of_ne_of_not_mem hminus htext
  | infinite negative =>
    cases negative with
    | false => exact hinfinity
    | true => exact List.not_mem_cons_of_ne_of_not_mem hminus hinfinity
  | undefined => exact hundefined

end LinearProgramming
