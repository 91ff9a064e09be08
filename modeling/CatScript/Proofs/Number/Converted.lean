import Mathlib
import CatScript.Model.Arithmetic
import CatScript.Proofs.Number.ReadBack

/-!
# Integers as floats

An operation that leaves the integers goes on with the floats nearest to its operands, and a float
that equals zero would then divide nothing.  No integer but zero becomes such a float.  A conversion
rounds a significand of at least 53 bits, and what it leaves still fills 53 bits (`IsNormal`): this
is kept by rounding, by a product with one, and on the way into the bits of a float and out of them.
The top theorem is `Integer64.toFloat_eq_zero_iff`.
-/

set_option autoImplicit false

namespace CatScript

open Float.Model (Format UnpackedFloat pack totalExponent)
open Float.Model.UnpackedFloat

namespace Binary64

/-- A finite value whose significand fills its 53 bits, with an exponent within bounds. -/
def IsNormal (lo hi : Int) (u : UnpackedFloat) : Prop :=
  ∃ sign significand exponent, ∃ hpos, u = .finite sign significand exponent hpos ∧
    (2 ^ 52 ≤ significand ∧ significand < 2 ^ 53) ∧ lo ≤ exponent ∧ exponent ≤ hi

variable {lo hi lo' hi' exponent : Int} {significand : Nat} {u : UnpackedFloat} {x : Float}

/-- What is normal within some exponents is normal within wider ones. -/
theorem IsNormal.mono (h : IsNormal lo hi u) (hlo : lo' ≤ lo) (hhi : hi ≤ hi') :
    IsNormal lo' hi' u := by
  obtain ⟨sign, m, e, hpos, hu, hbounds, hle, hle'⟩ := h
  exact ⟨sign, m, e, hpos, hu, hbounds, hlo.trans hle, hle'.trans hhi⟩

/-! ## Rounding -/

/-- A shift to the right halves the mantissa so many times. -/
theorem mantissa_shiftRight (m : ExtendedMantissa) (k : Nat) :
    (m >>> k).mantissa = m.mantissa / 2 ^ k := by
  show (k.repeat ExtendedMantissa.shiftRightOne m).mantissa = _
  induction k with
  | zero => simp [Nat.repeat]
  | succ k ih =>
    show (k.repeat ExtendedMantissa.shiftRightOne m).mantissa / 2 = _
    rw [ih, Nat.div_div_eq_div_mul, Nat.pow_succ]

/-- Rounding changes the last place at most. -/
theorem roundedMantissa_bounds (m : ExtendedMantissa) :
    m.mantissa ≤ m.roundedMantissa ∧ m.roundedMantissa ≤ m.mantissa + 1 := by
  obtain ⟨mantissa, round, sticky⟩ := m
  cases round <;> cases sticky <;>
    simp [ExtendedMantissa.roundedMantissa, ExtendedMantissa.accuracy, Accuracy.roundToNearestEven]
  omega

/-- The exponent of a rounded value leaves 53 bits of the significand, but is no smaller than that
of the least float. -/
theorem targetExponent_eq (significand : Nat) (exponent : Int) :
    Format.binary64.targetExponent (totalExponent significand exponent) =
      max (significand.log2 - 52 + exponent) (-1074) := by
  have hmin : Format.binary64.minExponent = -1074 := rfl
  have hbits : Format.binary64.mantissaBits = 53 := rfl
  unfold Format.targetExponent totalExponent
  rw [hmin, hbits]
  omega

/-- A significand of 53 bits or more is cut to 53 bits. -/
theorem shiftToTargetExponent_eq (hm : 2 ^ 52 ≤ significand) (he : -1074 ≤ exponent) :
    (shiftToTargetExponent Format.binary64 significand exponent .exact).1.mantissa =
        significand / 2 ^ (significand.log2 - 52) ∧
      (shiftToTargetExponent Format.binary64 significand exponent .exact).2 =
        exponent + (significand.log2 - 52 : Nat) := by
  have hlog : 52 ≤ significand.log2 := (Nat.le_log2 (by omega)).2 hm
  have htarget : Format.binary64.targetExponent (totalExponent significand exponent) =
      exponent + (significand.log2 - 52 : Nat) := by
    rw [targetExponent_eq]
    omega
  have hshift : (exponent + (significand.log2 - 52 : Nat) - exponent).toNat =
      significand.log2 - 52 := by omega
  unfold shiftToTargetExponent shiftToExponent
  simp only [htarget, hshift, mantissa_shiftRight]
  exact ⟨rfl, trivial⟩

/-- A significand of at least 53 bits has 53 of them in front of the point once it is shifted. -/
theorem div_two_pow_bounds (hm : 2 ^ 52 ≤ significand) :
    2 ^ 52 ≤ significand / 2 ^ (significand.log2 - 52) ∧
      significand / 2 ^ (significand.log2 - 52) < 2 ^ 53 := by
  have hpos : significand ≠ 0 := by omega
  have hlog : 52 ≤ significand.log2 := (Nat.le_log2 hpos).2 hm
  have hk : 0 < 2 ^ (significand.log2 - 52) := Nat.two_pow_pos _
  constructor
  · rw [Nat.le_div_iff_mul_le hk, ← Nat.pow_add, Nat.add_sub_cancel' hlog]
    exact Nat.log2_self_le hpos
  · rw [Nat.div_lt_iff_lt_mul hk, ← Nat.pow_add,
      show 53 + (significand.log2 - 52) = significand.log2 + 1 by omega]
    exact Nat.lt_log2_self

/-- A significand of 53 bits or more is rounded to a normal value. -/
theorem isNormal_roundWithAccuracy (sign : Sign) (hm : 2 ^ 52 ≤ significand)
    (he : -1074 ≤ exponent) :
    IsNormal exponent (exponent + (significand.log2 - 51))
      (roundWithAccuracy Format.binary64 sign significand exponent .exact) := by
  obtain ⟨hmantissa, hexponent⟩ := shiftToTargetExponent_eq hm he
  have hcut := div_two_pow_bounds hm
  generalize hfirst : shiftToTargetExponent Format.binary64 significand exponent .exact = first at *
  obtain ⟨m, e⟩ := first
  dsimp only at hmantissa hexponent
  -- Rounding up may carry into a 54th bit, which a second cut takes away again.
  have hrounded := roundedMantissa_bounds m
  have hm' : 2 ^ 52 ≤ m.roundedMantissa := by omega
  obtain ⟨hmantissa', hexponent'⟩ := shiftToTargetExponent_eq hm' (show -1074 ≤ e by omega)
  have hbounds := div_two_pow_bounds hm'
  have hcarry : m.roundedMantissa.log2 < 54 := (Nat.log2_lt (by omega)).2 (by omega)
  have hlog : 52 ≤ significand.log2 := (Nat.le_log2 (by omega)).2 hm
  unfold roundWithAccuracy
  simp only [hfirst]
  rw [dif_neg (by omega)]
  exact ⟨_, _, _, _, rfl, by rwa [hmantissa'], by omega, by omega⟩

/-- A whole number of at most 53 bits becomes a normal value. -/
theorem isNormal_round (sign : Sign) {n : Nat} (hpos : n ≠ 0) (hmax : n < 2 ^ 53) :
    IsNormal (-52) 1 (UnpackedFloat.round Format.binary64 sign n 0) := by
  have hlog : n.log2 < 53 := (Nat.log2_lt hpos).2 hmax
  have htarget : Format.binary64.targetExponent (totalExponent n 0) = n.log2 - 52 := by
    rw [targetExponent_eq]
    omega
  have hshift : (0 - ((n.log2 : Int) - 52)).toNat = 52 - n.log2 := by omega
  have hlogShift : (n <<< (52 - n.log2)).log2 = 52 := by
    rw [Nat.shiftLeft_eq, log2_mul_two_pow hpos]
    omega
  have hle : 2 ^ 52 ≤ n <<< (52 - n.log2) := by
    have hne : n <<< (52 - n.log2) ≠ 0 := by
      intro hzero
      rw [hzero] at hlogShift
      exact absurd hlogShift (by decide)
    exact (Nat.le_log2 hne).1 (Nat.le_of_eq hlogShift.symm)
  unfold UnpackedFloat.round decreaseExponent
  simp only [htarget, hshift]
  have hnormal := isNormal_roundWithAccuracy sign hle
    (show -1074 ≤ 0 - ((52 - n.log2 : Nat) : Int) by omega)
  rw [hlogShift] at hnormal
  exact hnormal.mono (by omega) (by omega)

/-! ## Bits -/

/-- The bits of a normal value are those of a normal value. -/
theorem IsNormal.unpack_pack (h : IsNormal lo hi u) (hlo : -1074 ≤ lo) (hhi : hi ≤ 971) :
    IsNormal lo hi (pack u).unpack := by
  obtain ⟨sign, m, e, hpos, rfl, ⟨hle, hlt⟩, he, hmax⟩ := h
  have hlog : m.log2 = 52 := (Nat.log2_eq_iff (by omega)).2 ⟨hle, hlt⟩
  have hpack : UnpackedFloat.pack Format.binary64 (.finite sign m e hpos) =
      packComponents Format.binary64 sign (BitVec.ofNat 11 (e + 1023 + 52).toNat)
        (BitVec.ofNat 52 m) := by
    unfold UnpackedFloat.pack
    show (if 2 ^ 11 ≤ (e + 1023 + 52).toNat + 1 then _ else if m.log2 + 1 = 53 then _ else _) = _
    rw [if_neg (by omega), if_pos (by omega)]
    rfl
  have hbits : (BitVec.ofNat 11 (e + 1023 + 52).toNat).toNat = (e + 1023 + 52).toNat :=
    Nat.mod_eq_of_lt (by omega)
  -- Neither of the two exponents that a normal value does not have.
  have hones : BitVec.ofNat 11 (e + 1023 + 52).toNat ≠ -1#11 := by
    intro h
    have h' : (e + 1023 + 52).toNat = 2047 := hbits.symm.trans (congrArg BitVec.toNat h)
    omega
  have hzero : BitVec.ofNat 11 (e + 1023 + 52).toNat ≠ 0#11 := by
    intro h
    have h' : (e + 1023 + 52).toNat = 0 := hbits.symm.trans (congrArg BitVec.toNat h)
    omega
  have hleading : (1#1 ++ BitVec.ofNat 52 m).toNat = 2 ^ 52 + m % 2 ^ 52 := by
    rw [BitVec.toNat_append, Nat.shiftLeft_eq, Nat.mul_comm,
      ← Nat.two_pow_add_eq_or_of_lt (BitVec.isLt _), BitVec.toNat_ofNat]
    rfl
  show IsNormal lo hi (UnpackedFloat.unpack Format.binary64 (UnpackedFloat.pack Format.binary64 _))
  rw [hpack]
  unfold UnpackedFloat.unpack
  simp only [unpackMantissa_packComponents, unpackExponent_packComponents]
  rw [if_neg hones, if_neg hzero]
  refine ⟨_, _, _, _, rfl, ?_, ?_⟩
  · rw [hleading]
    omega
  · rw [hbits]
    show lo ≤ ((e + 1023 + 52).toNat : Int) - (1023 + 52) ∧
      ((e + 1023 + 52).toNat : Int) - (1023 + 52) ≤ hi
    omega

/-- The float one has the leading bit alone. -/
theorem unpack_one :
    (Float.ofBits 0x3FF0000000000000).toModel.unpack =
      .finite .positive (2 ^ 52) (-52) (by decide) :=
  rfl

/-- The float zero is a positive zero. -/
theorem unpack_zero : (0.0 : Float).toModel.unpack = .zero .positive := rfl

/-- A normal float does not equal zero. -/
theorem IsNormal.ne_zero (h : IsNormal lo hi x.toModel.unpack) : (x == 0.0) = false := by
  obtain ⟨sign, m, e, hpos, hx, -⟩ := h
  show UnpackedFloat.beq x.toModel.unpack (0.0 : Float).toModel.unpack = false
  rw [hx, unpack_zero]
  cases sign <;> rfl

/-- The opposite of a normal float is normal, with the same exponents. -/
theorem IsNormal.neg (h : IsNormal lo hi x.toModel.unpack) (hlo : -1074 ≤ lo) (hhi : hi ≤ 971) :
    IsNormal lo hi (-x).toModel.unpack := by
  obtain ⟨sign, m, e, hpos, hx, hbounds⟩ := h
  have hneg : IsNormal lo hi x.toModel.unpack.neg := by
    rw [hx]
    exact ⟨_, _, _, _, rfl, hbounds⟩
  exact hneg.unpack_pack hlo hhi

/-! ## Conversions -/

/-- A small integer that is not zero converts to a normal float. -/
theorem isNormal_ofUInt64 {n : Nat} (hpos : n ≠ 0) (hmax : n < 2 ^ 53) :
    IsNormal (-52) 1 n.toUInt64.toFloat.toModel.unpack := by
  have hn : n.toUInt64.toNat = n := Nat.mod_eq_of_lt (by omega)
  have hround : UnpackedFloat.ofUInt64 Format.binary64 n.toUInt64 =
      UnpackedFloat.round Format.binary64 .positive n 0 := by
    unfold UnpackedFloat.ofUInt64 UnpackedFloat.ofNat UnpackedFloat.ofInt UnpackedFloat.normalize
    rw [hn, Int.compare_eq_gt.2 (by omega)]
    rfl
  unfold UInt64.toFloat Float.Model.ofUInt64
  rw [hround]
  exact (isNormal_round .positive hpos hmax).unpack_pack (by decide) (by decide)

/-- A product with one stays normal. -/
theorem IsNormal.mul_one (h : IsNormal (-52) 1 x.toModel.unpack) :
    IsNormal (-1074) 971 (x * Float.ofBits 0x3FF0000000000000).toModel.unpack := by
  obtain ⟨sign, m, e, hpos, hx, ⟨hle, hlt⟩, hlo, hhi⟩ := h
  have hlog : (m * 2 ^ 52).log2 = 104 := by
    rw [log2_mul_two_pow (by omega), (Nat.log2_eq_iff (by omega)).2 ⟨hle, hlt⟩]
  have hmul : UnpackedFloat.mul Format.binary64 x.toModel.unpack
      (Float.ofBits 0x3FF0000000000000).toModel.unpack =
        roundWithAccuracy Format.binary64 (sign * .positive) (m * 2 ^ 52) (e + -52) .exact := by
    rw [hx, unpack_one]
    rfl
  have hround := isNormal_roundWithAccuracy (sign * .positive)
    (show 2 ^ 52 ≤ m * 2 ^ 52 by omega) (show -1074 ≤ e + -52 by omega)
  rw [hlog, ← hmul] at hround
  exact (hround.mono (by omega) (by omega)).unpack_pack (by decide) (by decide)

/-- A natural number of at most 64 bits becomes a normal float, unless it is zero. -/
theorem isNormal_ofNat {n : Nat} (hpos : n ≠ 0) (hmax : n ≤ 2 ^ 63) :
    IsNormal (-1074) 971 (Float.ofNat n).toModel.unpack := by
  show IsNormal (-1074) 971 (Float.ofScientific n false 0).toModel.unpack
  unfold Float.ofScientific
  split
  next h => exact (isNormal_ofUInt64 hpos h.1).mul_one
  next h =>
    -- Such a number has more bits than a float keeps, and is rounded as a significand.
    have hshift : n <<< Format.binary64.mantissaBits * 10 ^ Int.toNat 0 = n * 2 ^ 53 := by
      rw [Nat.shiftLeft_eq]
      exact Nat.mul_one _
    have hlog : (n * 2 ^ 53).log2 < 117 := (Nat.log2_lt (by omega)).2 (by omega)
    have hround : UnpackedFloat.ofScientific Format.binary64 n 0 =
        roundWithAccuracy Format.binary64 (.positive * .positive) (n * 2 ^ 53) (-53 + 0)
          .exact := by
      unfold UnpackedFloat.ofScientific
      rw [dif_neg hpos, if_neg (by decide), if_neg (by simp), if_pos (by decide), ← hshift]
      rfl
    have hnormal := isNormal_roundWithAccuracy (.positive * .positive)
      (show 2 ^ 52 ≤ n * 2 ^ 53 by omega) (show -1074 ≤ (-53 + 0 : Int) by decide)
    rw [← hround] at hnormal
    exact (hnormal.mono (by decide) (by omega)).unpack_pack (by decide) (by decide)

end Binary64

namespace Integer64

/-- The float nearest to an integer equals zero only if the integer does. -/
theorem toFloat_eq_zero_iff (i : Int64) : (toFloat i == 0.0) = true ↔ i.toInt = 0 := by
  constructor
  · intro h
    by_contra hzero
    have hle := i.minValue_le_toInt
    have hle' := i.toInt_le
    have hmin : Int64.minValue.toInt = -2 ^ 63 := by decide
    have hmax : Int64.maxValue.toInt = 2 ^ 63 - 1 := by decide
    have hne : (toFloat i == 0.0) = false := by
      unfold toFloat
      cases hi : i.toInt with
      | ofNat n =>
        rw [hi, Int.ofNat_eq_natCast] at hle' hzero
        exact (Binary64.isNormal_ofNat (by omega) (by omega)).ne_zero
      | negSucc n =>
        rw [hi, Int.negSucc_eq] at hle
        have hnormal := Binary64.isNormal_ofNat (n := n + 1) (by omega) (by omega)
        exact (hnormal.neg (by decide) (by decide)).ne_zero
    rw [h] at hne
    exact absurd hne (by decide)
  · intro h
    rw [toFloat, h]
    decide

/-- The opposite of the float of the least integer is `2 ^ 63`. -/
theorem neg_toFloat_minValue : -toFloat Int64.minValue = Float.ofNat (2 ^ 63) := by
  decide +kernel

end Integer64

end CatScript
