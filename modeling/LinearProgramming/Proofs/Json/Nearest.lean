import LinearProgramming.Proofs.Decimal.Binary
import LinearProgramming.Proofs.Json.Parts
import LinearProgramming.Proofs.Scalar.Nearest

/-!
# Reading to the nearest double

What is written for a double has just the digits that tell it from its neighbours. Whoever reads
them to the nearest double, with one rounding, gets the double back: all finite doubles read back,
negative zero and those without a leading bit among them. Reading that rounds on the way does not
have this property.
-/

open Float.Model

namespace LinearProgramming

namespace Json

/-- Numbers are read as the double that is nearest to them, of two the one with an even significand.
What is too large for every double is a fault. -/
abbrev NumberReading.nearest : NumberReading where
  magnitude whole fraction exponent :=
    let p : Parts := ⟨whole, some fraction, exponent⟩
    let x := Float.ofModel (.ofScientific p.significand p.scale)
    if x.isFinite then .ok x else .error .malformed

theorem Parts.magnitude_nearest (p : Parts) {x : Float}
    (hx : Float.ofModel (.ofScientific p.significand p.scale) = x) (hfinite : x.isFinite = true) :
    NumberReading.nearest.magnitude p.whole (p.fraction.getD []) p.exponent = .ok x := by
  subst hx
  exact if_pos hfinite

theorem Parts.WellFormed.readFloat_text [NumberReading] {p : Parts} (h : p.WellFormed) {x : Float}
    (hx : NumberReading.magnitude p.whole (p.fraction.getD []) p.exponent = .ok x)
    (negative : Bool) : readFloat (if negative then '-' :: p.text else p.text)
      = .ok (if negative then -x else x, []) := by
  have hnumeral : readNumeral negative p.text
      = .ok (.decimal (if negative then -x else x), []) := by
    rw [h.readNumeral_text, numeralOf]
    simp only [h.isDecimal, Bool.false_and, hx]
    rfl
  cases negative with
  | true =>
    rw [if_pos rfl, readFloat, Reader.map, ← List.nil_append ('-' :: p.text),
      readNumber_minus blank_nil, hnumeral]
  | false =>
    obtain ⟨d, rest, hwhole, hd⟩ := h.whole.exists_cons
    have htext : ∃ rest, p.text = d :: rest := ⟨_, by rw [text, hwhole]; rfl⟩
    obtain ⟨rest, htext⟩ := htext
    rw [htext] at hnumeral ⊢
    rw [if_neg Bool.false_ne_true, readFloat, Reader.map, ← List.nil_append (d :: rest),
      readNumber_digit blank_nil hd, hnumeral]

section

variable {x : Float} {negative : Bool} {m : ℕ} {e : ℤ} {tie : Tie}

theorem ofScientific_eq_abs (h : BinaryValue.ofFloat x = .finite negative m e) {c : ℕ} {grid : ℤ}
    (hvalue : (c : ℚ) * 10 ^ grid = (shortestDecimal tie m e).value) :
    Float.ofModel (.ofScientific c grid) = Scalar.abs x := by
  have hfits := Double.fits_unpack (Scalar.abs x).toModel
  refine Double.eq_of_unpack_eq ?_
  change (Float.Model.pack (UnpackedFloat.ofScientific .binary64 c grid)).unpack = _
  rw [BinaryValue.unpack_abs h] at hfits ⊢
  by_cases hm : 0 < m
  · rw [dif_pos hm] at hfits ⊢
    have hholds := holds_shortestDecimal tie (e := e) hm (BinaryValue.lt_of_ofFloat h)
    rw [← hvalue] at hholds
    rw [Double.ofScientific_of_holds hfits hholds]
    exact Double.unpack_pack hfits
  · have hc : c = 0 := by
      rw [shortestDecimal, if_pos (Nat.eq_zero_of_not_pos hm), Decimal.value, Nat.cast_zero,
        zero_mul] at hvalue
      exact_mod_cast (mul_eq_zero.mp hvalue).resolve_right (zpow_ne_zero _ (by norm_num))
    rw [dif_neg hm, UnpackedFloat.ofScientific, dif_pos hc]
    exact Double.unpack_pack (.zero _)

theorem exponent_shortestDecimal (h : BinaryValue.ofFloat x = .finite negative m e)
    (hzero : (shortestDecimal tie m e).coefficient = 0) :
    (shortestDecimal tie m e).exponent = 0 := by
  rcases Nat.eq_zero_or_pos m with rfl | hm
  · rw [shortestDecimal, if_pos rfl]
  · have hnear := (holds_shortestDecimal tie (e := e) hm (BinaryValue.lt_of_ofFloat h)).abs_sub_le hm
    have hunit : (0 : ℚ) < 2 ^ e := by positivity
    have hone : 1 * (2 : ℚ) ^ e ≤ m * 2 ^ e := mul_le_mul_of_nonneg_right (mod_cast hm) hunit.le
    rw [Decimal.value, hzero, Nat.cast_zero, zero_mul, zero_sub, abs_neg,
      abs_of_pos (by positivity)] at hnear
    linarith

end

/-- **Reading to the nearest double undoes writing** for every finite double. -/
theorem readsBack_nearest {x : Float} (h : Scalar.isFinite x = true) :
    @ReadsBack .nearest x := by
  obtain ⟨negative, m, e, hx⟩ := BinaryValue.exists_ofFloat_eq_finite h
  obtain ⟨p, hp, htext, hvalue⟩ := exists_parts_writeDecimal (l := numberLayout) rfl
    (exponent_shortestDecimal hx)
  have hfinite : (Scalar.abs x).isFinite = true := by
    change (Scalar.abs x).toModel.unpack.isFinite = true
    rw [Double.unpack_abs, Double.isFinite_abs]
    exact h
  have habs := p.magnitude_nearest (ofScientific_eq_abs hx hvalue) hfinite
  have hread := @Parts.WellFormed.readFloat_text .nearest p hp _ habs negative
  rw [← BinaryValue.eq_neg_abs hx] at hread
  have hwrite : numberText x = if negative then '-' :: p.text else p.text := by
    rw [numberText, if_pos (show x.isFinite = true from h), Layout.write, hx, htext]
  change @readFloat .nearest (numberText x) = .ok (x, [])
  rw [hwrite]
  exact hread

/-- No two finite doubles are written alike. -/
theorem numberText_injOn : Set.InjOn numberText {x | Scalar.isFinite x = true} := by
  intro x hx y hy htext
  have hread : @readFloat .nearest (numberText x) = .ok (x, []) := readsBack_nearest hx
  rw [htext, readsBack_nearest hy] at hread
  exact (Prod.mk.inj (Except.ok.inj hread)).1.symm

end Json

end LinearProgramming
