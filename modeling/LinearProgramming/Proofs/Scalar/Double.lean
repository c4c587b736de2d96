import Mathlib
import LinearProgramming.Proofs.Scalar.Units

/-!
# Units in double precision

Double precision satisfies the laws of exact units, the sign of zero apart. Each of them is read off
the unpacked numbers: what an operation does to zeros, to one and to two equal numbers is settled
before anything is rounded. The exception is the product with one, which is rounded, and there all
the bits that rounding drops are zero.

A result is packed and unpacked again before the next operation sees it. That loses nothing of a
number which the format has room for, and these are just the numbers that unpacking gives.

The lemmas about the model of floats that this starts from are in Batteries. They come with the
whole of Mathlib and with no part of it.
-/

open Float.Model Float.Model.UnpackedFloat

namespace LinearProgramming

namespace Double

/-! ## Packing -/

/-- The unpacked numbers that the format has room for. -/
inductive Fits : UnpackedFloat → Prop
  | notANumber : Fits .notANumber
  | infinity (s : Sign) : Fits (.infinity s)
  | zero (s : Sign) : Fits (.zero s)
  /-- Fewer than 53 bits, at the least exponent. -/
  | subnormal (s : Sign) {m : ℕ} (hm : 0 < m) (hlt : m < 2 ^ 52) : Fits (.finite s m (-1074) hm)
  | normal (s : Sign) {m : ℕ} {e : ℤ} (hm : 0 < m) (hle : 2 ^ 52 ≤ m) (hlt : m < 2 ^ 53)
      (hge : -1074 ≤ e) (hmax : e ≤ 971) : Fits (.finite s m e hm)

theorem toNat_implicit_append (m : BitVec 52) : (1#1 ++ m).toNat = 2 ^ 52 + m.toNat := by
  rw [BitVec.toNat_append, ← Nat.shiftLeft_add_eq_or_of_lt m.isLt]
  simp [Nat.shiftLeft_eq]

private theorem unpack_packComponents (s : Sign) (e : BitVec 11) (m : BitVec 52) :
    UnpackedFloat.unpack .binary64 (packComponents .binary64 s e m)
      = if e = -1#11 then if m = 0#52 then .infinity s else .notANumber
        else if e = 0#11 then
          if h : m = 0#52 then .zero s
          else .finite s m.toNat ((e.toNat : ℤ) - 1075 + 1)
            (by simpa [BitVec.toNat_pos, BitVec.pos_iff_ne_zero])
        else .finite s (1#1 ++ m).toNat ((e.toNat : ℤ) - 1075)
          (by rw [toNat_implicit_append]; omega) := by
  simp only [UnpackedFloat.unpack, unpackMantissa_packComponents, unpackExponent_packComponents,
    unpackSign_packComponents, Sign.ofBitVec_toBitVec]
  rfl

private theorem pack_subnormal (s : Sign) {m : ℕ} (hm : 0 < m) (hlt : m < 2 ^ 52) :
    UnpackedFloat.pack .binary64 (.finite s m (-1074) hm)
      = packComponents .binary64 s 0#11 (BitVec.ofNat 52 m) := by
  refine if_neg ?_
  change ¬m.log2 + 1 = 53
  have := (Nat.log2_lt hm.ne').mpr hlt
  omega

private theorem pack_normal (s : Sign) {m : ℕ} {e : ℤ} (hm : 0 < m) (hle : 2 ^ 52 ≤ m)
    (hlt : m < 2 ^ 53) (hge : -1074 ≤ e) (hmax : e ≤ 971) :
    UnpackedFloat.pack .binary64 (.finite s m e hm)
      = packComponents .binary64 s (BitVec.ofNat 11 (e + 1075).toNat) (BitVec.ofNat 52 m) := by
  have hlog : m.log2 + 1 = 53 := by
    have hlt' := (Nat.log2_lt hm.ne').mpr hlt
    have hle' := (Nat.le_log2 hm.ne').mpr hle
    omega
  have hbias : (e + 1023 + 52).toNat = (e + 1075).toNat := by omega
  change (if 2 ^ 11 ≤ (e + 1023 + 52).toNat + 1 then _
    else if m.log2 + 1 = 53 then packComponents .binary64 s
      (BitVec.ofNat 11 (e + 1023 + 52).toNat) (BitVec.ofNat 52 m) else _) = _
  rw [if_neg (by omega), if_pos hlog, hbias]

/-- **Packing loses nothing** of a number that fits. -/
theorem unpack_pack {u : UnpackedFloat} (h : Fits u) : (Float.Model.pack u).unpack = u := by
  change UnpackedFloat.unpack .binary64 (UnpackedFloat.pack .binary64 u) = u
  cases h with
  | notANumber => exact (unpack_packComponents ..).trans rfl
  | infinity s => exact (unpack_packComponents ..).trans rfl
  | zero s => exact (unpack_packComponents ..).trans rfl
  | @subnormal s m hm hlt =>
    have hmod : (BitVec.ofNat 52 m).toNat = m := by
      rw [BitVec.toNat_ofNat, Nat.mod_eq_of_lt hlt]
    have hne : BitVec.ofNat 52 m ≠ 0#52 := by
      intro h
      rw [h] at hmod
      exact hm.ne hmod
    rw [pack_subnormal s hm hlt, unpack_packComponents, if_neg (by decide), if_pos rfl,
      dif_neg hne]
    simp only [hmod]
    rfl
  | @normal s m e hm hle hlt hge hmax =>
    have hexp : (BitVec.ofNat 11 (e + 1075).toNat).toNat = (e + 1075).toNat := by
      rw [BitVec.toNat_ofNat, Nat.mod_eq_of_lt (by omega)]
    have hmod : (1#1 ++ BitVec.ofNat 52 m).toNat = m := by
      rw [toNat_implicit_append, BitVec.toNat_ofNat]
      omega
    have hne : ∀ k : BitVec 11, k.toNat = 0 ∨ k.toNat = 2047 →
        BitVec.ofNat 11 (e + 1075).toNat ≠ k := by
      rintro k hk rfl
      rw [hexp] at hk
      omega
    rw [pack_normal s hm hle hlt hge hmax, unpack_packComponents, if_neg (hne _ (.inr rfl)),
      if_neg (hne _ (.inl rfl))]
    simp only [hmod, hexp]
    congr 1
    omega

theorem fits_unpack (x : Float.Model) : Fits x.unpack := by
  have hm := (@unpackMantissa .binary64 x.toBits.toBitVec).isLt
  have he := (@unpackExponent .binary64 x.toBits.toBitVec).isLt
  rw [Float.Model.unpack, UnpackedFloat.unpack]
  dsimp only
  split_ifs with hlast hzero hfirst hzero
  · exact .infinity _
  · exact .notANumber
  · exact .zero _
  · have hleast : ((@unpackExponent .binary64 x.toBits.toBitVec).toNat : ℤ)
        - (((Format.binary64.exponentBias : ℕ) : ℤ) + (52 : ℕ)) + 1 = -1074 := by
      rw [hfirst]
      rfl
    simp only [hleast]
    exact .subnormal _ _ hm
  · have hne : ∀ k : BitVec 11,
        @unpackExponent .binary64 x.toBits.toBitVec ≠ k →
          (@unpackExponent .binary64 x.toBits.toBitVec).toNat ≠ k.toNat :=
      fun k hk h ↦ hk (BitVec.eq_of_toNat_eq h)
    have hlast' := hne _ hlast
    have hfirst' := hne _ hfirst
    have hbias : ((Format.binary64.exponentBias : ℕ) : ℤ) = 1023 := rfl
    change _ ≠ 2047 at hlast'
    change _ ≠ 0 at hfirst'
    change _ < 2048 at he
    change _ < 2 ^ 52 at hm
    refine .normal _ _ ?_ ?_ ?_ ?_
    · rw [toNat_implicit_append]
      exact Nat.le_add_right ..
    · rw [toNat_implicit_append]
      omega
    · rw [hbias]
      push_cast
      omega
    · rw [hbias]
      push_cast
      omega

private theorem packComponents_parts (b : BitVec 64) :
    packComponents .binary64 (Sign.ofBitVec (@unpackSign .binary64 b))
      (@unpackExponent .binary64 b) (@unpackMantissa .binary64 b) = b := by
  have hsign : ∀ v : BitVec 1, (Sign.ofBitVec v).toBitVec = v := by decide
  rw [packComponents, hsign]
  simp only [unpackSign, unpackExponent, unpackMantissa, BitVec.extractLsb]
  ext i hi
  grind

theorem Fits.bounds {s : Sign} {m : ℕ} {e : ℤ} {hm : 0 < m} (h : Fits (.finite s m e hm)) :
    m < 2 ^ 52 ∧ e = -1074 ∨ 2 ^ 52 ≤ m ∧ m < 2 ^ 53 ∧ -1074 ≤ e ∧ e ≤ 971 := by
  cases h with
  | subnormal _ _ hlt => exact .inl ⟨hlt, rfl⟩
  | normal _ _ hle hlt hge hmax => exact .inr ⟨hle, hlt, hge, hmax⟩

/-- **Unpacking loses nothing.** Of the words for no number only one is in use. -/
theorem pack_unpack (x : Float.Model) : Float.Model.pack x.unpack = x := by
  obtain ⟨bits, hvalid⟩ := x
  suffices h : UnpackedFloat.pack .binary64 (UnpackedFloat.unpack .binary64 bits.toBitVec)
      = bits.toBitVec by
    simp only [Float.Model.pack, Float.Model.unpack, h]
  have hfits := fits_unpack ⟨bits, hvalid⟩
  have hparts := packComponents_parts bits.toBitVec
  rw [Float.Model.unpack, UnpackedFloat.unpack] at hfits
  rw [UnpackedFloat.unpack]
  dsimp only at hfits ⊢
  split_ifs at hfits ⊢ with hlast hzero hfirst hzero
  · rwa [hlast, hzero] at hparts
  · exact (hvalid.eq_packedNaN hlast hzero).symm
  · rwa [hfirst, hzero] at hparts
  · have hleast : ((@unpackExponent .binary64 bits.toBitVec).toNat : ℤ)
        - (((Format.binary64.exponentBias : ℕ) : ℤ) + (52 : ℕ)) + 1 = -1074 := by
      rw [hfirst]
      rfl
    simp only [hleast]
    rw [pack_subnormal _ _ (@unpackMantissa .binary64 bits.toBitVec).isLt]
    rw [hfirst] at hparts
    simpa using hparts
  · have hle : 2 ^ 52 ≤ (1#1 ++ @unpackMantissa .binary64 bits.toBitVec).toNat := by
      rw [toNat_implicit_append]
      exact Nat.le_add_right ..
    obtain ⟨-, hlt, hge, hmax⟩ := hfits.bounds.resolve_left fun h ↦ absurd h.1 (not_lt.mpr hle)
    have hexp : ((@unpackExponent .binary64 bits.toBitVec).toNat
        - (((Format.binary64.exponentBias : ℕ) : ℤ) + (52 : ℕ)) + 1075).toNat
          = (@unpackExponent .binary64 bits.toBitVec).toNat := by
      change (_ - ((1023 : ℤ) + 52) + 1075).toNat = _
      omega
    have hmantissa : BitVec.ofNat 52 (1#1 ++ @unpackMantissa .binary64 bits.toBitVec).toNat
        = @unpackMantissa .binary64 bits.toBitVec := by
      refine BitVec.eq_of_toNat_eq ?_
      rw [BitVec.toNat_ofNat, toNat_implicit_append, Nat.add_mod_left]
      exact Nat.mod_eq_of_lt (BitVec.isLt _)
    rw [pack_normal _ _ hle hlt hge hmax, hmantissa]
    simpa only [hexp, BitVec.ofNat_toNat, BitVec.setWidth_eq] using hparts

theorem eq_of_unpack_eq {x y : Float} (h : x.toModel.unpack = y.toModel.unpack) : x = y := by
  obtain ⟨x⟩ := x
  obtain ⟨y⟩ := y
  have hmodel : x = y := by rw [← pack_unpack x, h, pack_unpack]
  rw [hmodel]

/-! ## Comparing -/

/-- Where a number stands in the order; the two zeros stand at one place. -/
def key : UnpackedFloat → ℤ ×ₗ ℤ ×ₗ ℤ
  | .notANumber => toLex (0, toLex (0, 0))
  | .infinity .negative => toLex (-2, toLex (0, 0))
  | .finite .negative m e _ => toLex (-1, toLex (-e, -m))
  | .zero _ => toLex (0, toLex (0, 0))
  | .finite .positive m e _ => toLex (1, toLex (e, m))
  | .infinity .positive => toLex (2, toLex (0, 0))

private theorem compare_sign (s s' : Sign) : compare s s'
    = match s, s' with
      | .negative, .positive => .lt
      | .positive, .negative => .gt
      | _, _ => .eq := by
  cases s <;> cases s' <;> rfl

theorem lt_iff (u v : UnpackedFloat) :
    u.lt v = true ↔ u ≠ .notANumber ∧ v ≠ .notANumber ∧ key u < key v := by
  rcases u with (_ | _) | _ | _ | ⟨_ | _, m, e, _⟩ <;>
    rcases v with (_ | _) | _ | _ | ⟨_ | _, m', e', _⟩ <;>
    simp [UnpackedFloat.lt, UnpackedFloat.compare, key, compare_sign, Prod.Lex.toLex_lt_toLex,
      Ordering.then_eq_lt, Ordering.then_eq_gt, compare_lt_iff_lt, compare_gt_iff_gt]

theorem beq_iff (u v : UnpackedFloat) :
    u.beq v = true ↔ u ≠ .notANumber ∧ v ≠ .notANumber ∧ key u = key v := by
  rcases u with (_ | _) | _ | _ | ⟨_ | _, m, e, _⟩ <;>
    rcases v with (_ | _) | _ | _ | ⟨_ | _, m', e', _⟩ <;>
    simp [UnpackedFloat.beq, UnpackedFloat.compare, key, compare_sign, Ordering.then_eq_eq]

theorem exists_eq_zero {u : UnpackedFloat} {s : Sign} (h : u.beq (.zero s) = true) :
    ∃ s', u = .zero s' := by
  obtain ⟨-, -, heq | ⟨heq, -⟩ | ⟨heq, -⟩⟩ := (beq_iff_ne_notANumber_and_eq _ _).mp h
  · exact ⟨s, heq⟩
  · exact ⟨.positive, heq⟩
  · exact ⟨.negative, heq⟩

theorem eq_one_of_beq {u : UnpackedFloat}
    (h : u.beq (.finite .positive (2 ^ 52) (-52) (by decide)) = true) :
    u = .finite .positive (2 ^ 52) (-52) (by decide) := by
  obtain ⟨-, -, heq | ⟨-, hzero⟩ | ⟨-, hzero⟩⟩ := (beq_iff_ne_notANumber_and_eq _ _).mp h
  · exact heq
  · cases hzero
  · cases hzero

theorem isFinite_eq {u v : UnpackedFloat} (h : u.beq v = true) : u.isFinite = v.isFinite := by
  obtain ⟨-, -, rfl | ⟨rfl, rfl⟩ | ⟨rfl, rfl⟩⟩ := (beq_iff_ne_notANumber_and_eq _ _).mp h
  · rfl
  · rfl
  · rfl

/-- What a number says by being at least zero; the sign of the zero plays no part. -/
theorem of_zero_le {v : UnpackedFloat} {s : Sign} (h : UnpackedFloat.le (.zero s) v = true)
    (s' : Sign) : UnpackedFloat.le (.zero s') v = true ∧ ¬UnpackedFloat.lt v (.zero s') = true
      ∧ ¬UnpackedFloat.lt (.zero s') v.neg = true := by
  rcases v with (_ | _) | _ | _ | ⟨_ | _, m, e, _⟩
  case infinity.negative | notANumber | finite.negative => cases h
  all_goals exact ⟨rfl, Bool.false_ne_true, Bool.false_ne_true⟩

/-! ## Arithmetic -/

theorem unpack_sub {x y : Float} {u : UnpackedFloat} (hu : Fits u)
    (h : UnpackedFloat.sub .binary64 x.toModel.unpack y.toModel.unpack = u) :
    (x - y).toModel.unpack = u := by
  change (Float.Model.pack (UnpackedFloat.sub .binary64 _ _)).unpack = u
  rw [h, unpack_pack hu]

theorem unpack_mul {x y : Float} {u : UnpackedFloat} (hu : Fits u)
    (h : UnpackedFloat.mul .binary64 x.toModel.unpack y.toModel.unpack = u) :
    (x * y).toModel.unpack = u := by
  change (Float.Model.pack (UnpackedFloat.mul .binary64 _ _)).unpack = u
  rw [h, unpack_pack hu]

theorem Fits.neg {u : UnpackedFloat} (h : Fits u) : Fits u.neg := by
  rcases h with _ | s | s | ⟨s, hm, hlt⟩ | ⟨s, hm, hle, hlt, hge, hmax⟩
  · exact .notANumber
  · exact .infinity _
  · exact .zero _
  · exact .subnormal _ hm hlt
  · exact .normal _ hm hle hlt hge hmax

theorem unpack_neg (x : Float) : (-x).toModel.unpack = x.toModel.unpack.neg :=
  unpack_pack (fits_unpack _).neg

theorem shiftRight_exact (m k : ℕ) :
    (⟨m * 2 ^ k, false, false⟩ : ExtendedMantissa) >>> k = ⟨m, false, false⟩ := by
  change Nat.repeat ExtendedMantissa.shiftRightOne k _ = _
  induction k generalizing m with
  | zero => simp [Nat.repeat]
  | succ k ih =>
    rw [Nat.repeat, pow_succ', ← mul_assoc, ih]
    simp [ExtendedMantissa.shiftRightOne]

private theorem targetExponent_eq {s : Sign} {m : ℕ} {e : ℤ} {hm : 0 < m}
    (h : Fits (.finite s m e hm)) :
    Format.binary64.targetExponent (totalExponent m e) = e := by
  change max ((m.log2 : ℤ) + 1 + e - 53) (-1074) = e
  rcases h with _ | _ | _ | ⟨-, -, hlt⟩ | ⟨-, -, hle, hlt, hge, -⟩
  · have := (Nat.log2_lt hm.ne').mpr hlt
    omega
  · have hlt' := (Nat.log2_lt hm.ne').mpr hlt
    have hle' := (Nat.le_log2 hm.ne').mpr hle
    omega

/-- **A product with one is exact.** -/
theorem mul_finite_one {s : Sign} {m : ℕ} {e : ℤ} {hm : 0 < m} (h : Fits (.finite s m e hm)) :
    UnpackedFloat.mul .binary64 (.finite s m e hm) (.finite .positive (2 ^ 52) (-52) (by decide))
      = .finite s m e hm := by
  have htotal : totalExponent (m * 2 ^ 52) (e + -52) = totalExponent m e := by
    have hlog : (m * 2 ^ 52).log2 = m.log2 + 52 := by
      refine (Nat.log2_eq_iff (by positivity)).mpr ⟨?_, ?_⟩
      · rw [pow_add]
        exact Nat.mul_le_mul_right _ (Nat.log2_self_le hm.ne')
      · rw [show m.log2 + 52 + 1 = (m.log2 + 1) + 52 by omega, pow_add]
        exact Nat.mul_lt_mul_of_pos_right Nat.lt_log2_self (by positivity)
    rw [totalExponent, totalExponent, hlog]
    omega
  have hfirst : shiftToTargetExponent .binary64 (m * 2 ^ 52) (e + -52) .exact
      = (⟨m, false, false⟩, e) := by
    have hamount : (e - (e + -52)).toNat = 52 := by omega
    rw [shiftToTargetExponent, htotal, targetExponent_eq h, shiftToExponent, hamount]
    exact Prod.ext (shiftRight_exact m 52) (by dsimp only; omega)
  have hsecond : shiftToTargetExponent .binary64 m e .exact = (⟨m, false, false⟩, e) := by
    have hamount : (e - e).toNat = 0 := by omega
    rw [shiftToTargetExponent, targetExponent_eq h, shiftToExponent, hamount]
    exact Prod.ext rfl (by dsimp only; omega)
  have hsign : s * Sign.positive = s := by cases s <;> rfl
  change roundWithAccuracy .binary64 (s * .positive) (m * 2 ^ 52) (e + -52) .exact = _
  have hround : (⟨m, false, false⟩ : ExtendedMantissa).roundedMantissa = m := rfl
  simp only [roundWithAccuracy, hfirst, hround, hsecond, hsign, dif_neg hm.ne']

/-! ## The laws -/

theorem unpack_zero : (0 : Float).toModel.unpack = .zero .positive := by rfl

theorem unpack_one :
    (1 : Float).toModel.unpack = .finite .positive (2 ^ 52) (-52) (by decide) := by rfl

theorem unpack_of_beq_zero {x : Float} (h : x == 0) : ∃ s, x.toModel.unpack = .zero s := by
  change x.toModel.unpack.beq (0 : Float).toModel.unpack = true at h
  rw [unpack_zero] at h
  exact exists_eq_zero h

theorem unpack_of_beq_one {x : Float} (h : x == 1) :
    x.toModel.unpack = .finite .positive (2 ^ 52) (-52) (by decide) := by
  change x.toModel.unpack.beq (1 : Float).toModel.unpack = true at h
  rw [unpack_one] at h
  exact eq_one_of_beq h

theorem beq_of_unpack_eq {x y : Float} (hx : x.toModel.unpack ≠ .notANumber)
    (h : x.toModel.unpack = y.toModel.unpack) : x == y := by
  change x.toModel.unpack.beq y.toModel.unpack = true
  rw [← h, beq_iff]
  exact ⟨hx, hx, rfl⟩

theorem beq_zero_of_unpack {x : Float} {s : Sign} (h : x.toModel.unpack = .zero s) : x == 0 := by
  change x.toModel.unpack.beq (0 : Float).toModel.unpack = true
  rw [h, unpack_zero]
  rfl

theorem ne_notANumber {u : UnpackedFloat} (h : u.isFinite = true) : u ≠ .notANumber := by
  rintro rfl
  cases h

theorem mul_beq_zero {x z : Float} (hx : x.isFinite) (hz : z == 0) : x * z == 0 := by
  obtain ⟨s, hs⟩ := unpack_of_beq_zero hz
  change x.toModel.unpack.isFinite = true at hx
  have hmul : ∃ s', UnpackedFloat.mul .binary64 x.toModel.unpack z.toModel.unpack = .zero s' := by
    rw [hs]
    rcases hu : x.toModel.unpack with s' | _ | s' | ⟨s', m, e, hm⟩
    case zero | finite => exact ⟨_, rfl⟩
    all_goals rw [hu] at hx; cases hx
  obtain ⟨s', hs'⟩ := hmul
  exact beq_zero_of_unpack (unpack_mul (.zero s') hs')

theorem sub_beq_self {x z : Float} (hx : x.isFinite) (hz : z == 0) : x - z == x := by
  obtain ⟨s, hs⟩ := unpack_of_beq_zero hz
  change x.toModel.unpack.isFinite = true at hx
  rcases hu : x.toModel.unpack with s' | _ | s' | ⟨s', m, e, hm⟩
  case zero =>
    have hsub : ∃ t, UnpackedFloat.sub .binary64 x.toModel.unpack z.toModel.unpack = .zero t := by
      rw [hu, hs]
      cases s <;> cases s' <;> exact ⟨_, rfl⟩
    obtain ⟨t, ht⟩ := hsub
    change (x - z).toModel.unpack.beq x.toModel.unpack = true
    rw [unpack_sub (.zero t) ht, hu]
    rfl
  case finite =>
    have hsub : UnpackedFloat.sub .binary64 x.toModel.unpack z.toModel.unpack
        = x.toModel.unpack := by
      rw [hu, hs]
      rfl
    have hsame := unpack_sub (fits_unpack x.toModel) hsub
    exact beq_of_unpack_eq (hsame ▸ ne_notANumber hx) hsame
  all_goals rw [hu] at hx; cases hx

theorem div_beq_zero {p z : Float} (hp : p.isFinite) (hne : ¬p == 0) (hz : z == 0) :
    z / p == 0 := by
  obtain ⟨s, hs⟩ := unpack_of_beq_zero hz
  change p.toModel.unpack.isFinite = true at hp
  rcases hu : p.toModel.unpack with s' | _ | s' | ⟨s', m, e, hm⟩
  case zero => exact absurd (beq_zero_of_unpack hu) hne
  case finite =>
    have hdiv : UnpackedFloat.div .binary64 z.toModel.unpack p.toModel.unpack
        = .zero (s / s') := by
      rw [hs, hu]
      rfl
    refine beq_zero_of_unpack (s := s / s') ?_
    change (Float.Model.pack (UnpackedFloat.div .binary64 _ _)).unpack = _
    rw [hdiv, unpack_pack (.zero _)]
  all_goals rw [hu] at hp; cases hp

theorem sub_self_beq_zero {x : Float} (hx : x.isFinite) : x - x == 0 := by
  change x.toModel.unpack.isFinite = true at hx
  have hsub : UnpackedFloat.sub .binary64 x.toModel.unpack x.toModel.unpack = .zero .positive := by
    rcases hx' : x.toModel.unpack with s | _ | s | ⟨s, m, e, hm⟩
    case zero => cases s <;> rfl
    case finite =>
      simp only [UnpackedFloat.sub, Int.sub_self, UnpackedFloat.normalize]
      rfl
    all_goals rw [hx'] at hx; cases hx
  exact beq_zero_of_unpack (unpack_sub (.zero _) hsub)

theorem sub_mul_beq_zero {x u : Float} (hx : x.isFinite) (hu : u == 1) : x - x * u == 0 := by
  have hone := unpack_of_beq_one hu
  have hfits := fits_unpack x.toModel
  have hsame : x * u = x := by
    change x.toModel.unpack.isFinite = true at hx
    refine eq_of_unpack_eq (unpack_mul hfits ?_)
    rw [hone]
    rcases hx' : x.toModel.unpack with s | _ | s | ⟨s, m, e, hm⟩
    case zero => cases s <;> rfl
    case finite => exact mul_finite_one (hx' ▸ hfits)
    all_goals rw [hx'] at hx; cases hx
  rw [hsame]
  exact sub_self_beq_zero hx

end Double

open Double Scalar in
instance : ExactUnits Float where
  symm {x y} h := by
    obtain ⟨hx, hy, hkey⟩ := (beq_iff _ _).mp h
    exact (beq_iff _ _).mpr ⟨hy, hx, hkey.symm⟩
  trans {x y z} h h' := by
    obtain ⟨hx, -, hkey⟩ := (beq_iff _ _).mp h
    obtain ⟨-, hz, hkey'⟩ := (beq_iff _ _).mp h'
    exact (beq_iff _ _).mpr ⟨hx, hz, hkey.trans hkey'⟩
  refl {x} h := beq_of_unpack_eq (ne_notANumber h) rfl
  isFinite_of_beq {x y} h h' := (isFinite_eq h).trans h'
  isFinite_zero := by rfl
  isFinite_one := by rfl
  isFinite_neg {x} h := by
    change (-x).toModel.unpack.isFinite = true
    change x.toModel.unpack.isFinite = true at h
    rw [unpack_neg]
    revert h
    cases x.toModel.unpack <;> exact id
  sub_mul_zero hx hf hz := sub_beq_self hx (mul_beq_zero hf hz)
  zero_div := div_beq_zero
  sub_mul_one := sub_mul_beq_zero
  lt_trans {x y z} h h' := by
    obtain ⟨hx, -, hkey⟩ := (lt_iff _ _).mp (of_decide_eq_true h)
    obtain ⟨-, hz, hkey'⟩ := (lt_iff _ _).mp (of_decide_eq_true h')
    exact decide_eq_true ((lt_iff _ _).mpr ⟨hx, hz, hkey.trans hkey'⟩)
  zero_le {z ε} hz hε := by
    obtain ⟨s, hs⟩ := unpack_of_beq_zero hz
    refine decide_eq_true ?_
    change z.toModel.unpack.le ε.toModel.unpack = true
    rw [hs]
    exact (of_zero_le (of_decide_eq_true hε) s).1
  not_lt_abs {z ε} hz hε hlt := by
    obtain ⟨s, hs⟩ := unpack_of_beq_zero hz
    have habs : (Scalar.abs z).toModel.unpack = .zero .positive := by
      change (Float.Model.pack z.toModel.unpack.abs).unpack = _
      rw [hs]
      exact unpack_pack (.zero _)
    have hlt' : ε.toModel.unpack.lt (Scalar.abs z).toModel.unpack = true := of_decide_eq_true hlt
    rw [habs] at hlt'
    exact (of_zero_le (of_decide_eq_true hε) _).2.1 hlt'
  not_lt_neg {z ε} hz hε hlt := by
    obtain ⟨s, hs⟩ := unpack_of_beq_zero hz
    have hlt' : z.toModel.unpack.lt (-ε).toModel.unpack = true := of_decide_eq_true hlt
    rw [hs, unpack_neg] at hlt'
    exact (of_zero_le (of_decide_eq_true hε) s).2.2 hlt'

end LinearProgramming
