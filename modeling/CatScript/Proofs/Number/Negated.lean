import Mathlib
import CatScript.Proofs.Number.ReadBack

/-!
# Floats behind a minus

The opposite of a finite float has the same magnitude and the other sign, be it a zero, a subnormal
number or a normal one: whatever an unpacked float is packed into, only the first bit depends on its
sign (`Binary64.pack_neg`).  Hence a finite float is the opposite of its opposite
(`Binary64.neg_neg`).
-/

set_option autoImplicit false

namespace CatScript.Binary64

open Float.Model (Format UnpackedFloat pack)
open Float.Model.UnpackedFloat

variable {x : Float}

/-- The bits of a float are a sign, an exponent and the rest of a significand. -/
def HasBits (x : Float) (sign : Sign) (exponent : BitVec 11) (significand : BitVec 52) : Prop :=
  x.toModel.toBits.toBitVec = packComponents Format.binary64 sign exponent significand

/-- A bit vector in front of another one counts as shifted over it. -/
theorem toNat_append_eq {v w : Nat} (a : BitVec v) (b : BitVec w) :
    (a ++ b).toNat = a.toNat * 2 ^ w + b.toNat := by
  rw [BitVec.toNat_append, Nat.shiftLeft_eq, Nat.mul_comm,
    Nat.two_pow_add_eq_or_of_lt (BitVec.isLt b)]

/-- The magnitude of a float is its bits but for the sign. -/
theorem HasBits.parts {sign : Sign} {exponent : BitVec 11} {significand : BitVec 52}
    (h : HasBits x sign exponent significand) :
    magnitude x = exponent.toNat * 2 ^ 52 + significand.toNat ∧
      isNegative x = (sign == .negative) := by
  have hexponent := BitVec.isLt exponent
  have hsignificand := BitVec.isLt significand
  have hbits : x.toBits.toNat =
      (sign.toBitVec.toNat * 2 ^ 11 + exponent.toNat) * 2 ^ 52 + significand.toNat := by
    rw [← toNat_append_eq, ← toNat_append_eq]
    exact congrArg BitVec.toNat h
  unfold magnitude isNegative
  rw [show signBit = 2 ^ 63 by rfl, hbits]
  cases sign with
  | positive =>
    rw [show Sign.positive.toBitVec.toNat = 0 by rfl]
    exact ⟨by omega, decide_eq_false (by omega)⟩
  | negative =>
    rw [show Sign.negative.toBitVec.toNat = 1 by rfl]
    exact ⟨by omega, decide_eq_true (by omega)⟩

/-- Every float has bits. -/
theorem exists_hasBits (x : Float) :
    ∃ sign exponent significand, HasBits x sign exponent significand :=
  ⟨_, _, _, (@packComponents_unpackSign_unpackExponent_unpackMantissa Format.binary64
    x.toModel.toBits.toBitVec).symm⟩

/-- A float is finite unless its exponent is all ones. -/
theorem HasBits.isFinite_iff {sign : Sign} {exponent : BitVec 11} {significand : BitVec 52}
    (h : HasBits x sign exponent significand) : x.isFinite = true ↔ exponent ≠ -1#11 := by
  have hexponent : @unpackExponent Format.binary64 x.toModel.toBits.toBitVec = exponent := by
    rw [h, unpackExponent_packComponents]
  show (UnpackedFloat.unpack Format.binary64 x.toModel.toBits.toBitVec).isFinite = true ↔ _
  unfold UnpackedFloat.unpack
  rw [hexponent]
  dsimp only
  split
  next hones =>
    refine iff_of_false ?_ (not_not_intro hones)
    split <;> simp [UnpackedFloat.isFinite]
  next hones =>
    refine iff_of_true ?_ hones
    split
    · split <;> rfl
    · rfl

/-- A finite float is one whose magnitude lies below that of infinity. -/
theorem isFinite_iff (x : Float) : x.isFinite = true ↔ magnitude x < infinity := by
  obtain ⟨sign, exponent, significand, h⟩ := exists_hasBits x
  have hexponent := BitVec.isLt exponent
  have hsignificand := BitVec.isLt significand
  have hones : exponent = -1#11 ↔ exponent.toNat = 2047 := by
    rw [BitVec.toNat_eq]
    rfl
  rw [h.isFinite_iff, h.parts.1, ne_eq, hones, show infinity = 2047 * 2 ^ 52 by rfl]
  omega

/-- Whatever an unpacked float is packed into, only the sign of it depends on its sign. -/
theorem pack_neg {u : UnpackedFloat} (hu : u ≠ .notANumber) :
    ∃ sign exponent significand,
      UnpackedFloat.pack Format.binary64 u =
        packComponents Format.binary64 sign exponent significand ∧
      UnpackedFloat.pack Format.binary64 u.neg =
        packComponents Format.binary64 (-sign) exponent significand := by
  cases u with
  | notANumber => exact absurd rfl hu
  | infinity sign => exact ⟨sign, _, _, rfl, rfl⟩
  | zero sign => exact ⟨sign, _, _, rfl, rfl⟩
  | finite sign m e hpos =>
    simp only [UnpackedFloat.neg, UnpackedFloat.pack]
    split
    · exact ⟨sign, _, _, rfl, rfl⟩
    · split
      · exact ⟨sign, _, _, rfl, rfl⟩
      · exact ⟨sign, _, _, rfl, rfl⟩

/-- A finite float and its opposite have the same bits but for the sign. -/
theorem exists_hasBits_neg (h : x.isFinite = true) :
    ∃ sign exponent significand,
      HasBits x sign exponent significand ∧ HasBits (-x) (-sign) exponent significand := by
  have hu : x.toModel.unpack ≠ .notANumber := by
    intro hnan
    have : x.toModel.unpack.isFinite = true := h
    simp [hnan, UnpackedFloat.isFinite] at this
  obtain ⟨sign, exponent, significand, hbits, hneg⟩ := pack_neg hu
  exact ⟨sign, exponent, significand,
    (pack_unpack_of_valid x.toModel.valid).symm.trans hbits, hneg⟩

/-- The opposite of a finite float has the same magnitude and the other sign. -/
theorem neg_parts (h : x.isFinite = true) :
    magnitude (-x) = magnitude x ∧ isNegative (-x) = !isNegative x := by
  obtain ⟨sign, exponent, significand, hbits, hneg⟩ := exists_hasBits_neg h
  refine ⟨hneg.parts.1.trans hbits.parts.1.symm, ?_⟩
  rw [hneg.parts.2, hbits.parts.2]
  cases sign <;> rfl

/-- A finite float is the opposite of its opposite. -/
theorem neg_neg (h : x.isFinite = true) : -(-x) = x := by
  obtain ⟨hmagnitude, hsign⟩ := neg_parts h
  have hneg : (-x).isFinite = true := by
    rw [isFinite_iff, hmagnitude]
    exact (isFinite_iff x).1 h
  obtain ⟨hmagnitude', hsign'⟩ := neg_parts hneg
  rw [← ofParts_magnitude (-(-x)), hmagnitude', hsign', hmagnitude, hsign, Bool.not_not,
    ofParts_magnitude]

end CatScript.Binary64
