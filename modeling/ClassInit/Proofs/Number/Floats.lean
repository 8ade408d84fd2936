import Mathlib
import ClassInit.Proofs.Number.Documents

/-!
# Finite floating-point numbers

A finite number has a decimal, and the number is what a document with that decimal is read as
(`Number.toFloat?_documentDecimal?`, `Number.toFloat32?_documentDecimal?`). What a decimal is read
as is always finite.
-/

set_option autoImplicit false

namespace ClassInit.Number

open Float.Model (Format UnpackedFloat)
open Float.Model.UnpackedFloat (unpack pack unpackExponent isNaNBits)

/-! ## Exponent fields -/

section

variable {spec : Format} {b : BitVec spec.numBits}

/-- The exponent field of a word. -/
def exponentField (spec : Format) (bits : ℕ) : ℕ :=
  bits / 2 ^ spec.mantissaBitsWithoutImplicit % 2 ^ spec.exponentBits

theorem toNat_unpackExponent (b : BitVec spec.numBits) :
    (unpackExponent b).toNat = exponentField spec b.toNat := by
  rw [UnpackedFloat.unpackExponent_def, BitVec.extractLsb'_toNat, Nat.shiftRight_eq_div_pow,
    exponentField]

/-- The exponent field is full if all its bits are set. -/
theorem exponentField_eq_top_iff :
    exponentField spec b.toNat = Nat.pow 2 spec.exponentBits - 1 ↔
      unpackExponent b = -BitVec.ofNat spec.exponentBits 1 := by
  rw [← toNat_unpackExponent, ← BitVec.toNat_inj, BitVec.neg_one_eq_allOnes, BitVec.toNat_allOnes,
    Nat.pow_eq]

theorem isFinite_unpack_iff :
    (unpack spec b).isFinite = true ↔
      exponentField spec b.toNat ≠ Nat.pow 2 spec.exponentBits - 1 := by
  rw [ne_eq, exponentField_eq_top_iff, unpack]
  split
  next top => exact iff_of_false (by split <;> exact Bool.false_ne_true) (not_not_intro top)
  next finite =>
    refine iff_of_true ?_ finite
    split
    next => split <;> rfl
    next => rfl

/-- A word whose exponent field is not full is packed again as it was. -/
theorem pack_unpack_of_field (wide : 2 ≤ spec.exponentBits)
    (field : exponentField spec b.toNat ≠ Nat.pow 2 spec.exponentBits - 1) :
    pack spec (unpack spec b) = b := by
  have number : ¬isNaNBits b = true := by
    rw [isNaNBits, decide_eq_true_iff, ← exponentField_eq_top_iff]
    exact fun nan => field nan.1
  rw [UnpackedFloat.pack_unpack b wide, if_neg number]

end

/-! ## Decimals of finite numbers -/

/-- A word whose exponent field is not full has a decimal. -/
theorem exists_documentDecimal? {f : BinaryFormat} (l : Layout) {bits : ℕ}
    (finite : bits / 2 ^ f.fractionBits % 2 ^ f.exponentBits ≠ f.topField) :
    ∃ d, documentDecimal? f l bits = some d := by
  unfold documentDecimal? BinaryFormat.decode
  dsimp only
  rw [Nat.pow_eq, Nat.pow_eq, if_neg finite]
  split
  next => exact ⟨_, rfl⟩
  next other =>
    split at other
    next => exact absurd rfl (other _ _)
    next => exact absurd rfl (other _ _)

theorem toFloat?_documentDecimal? {x : Float} (finite : x.isFinite = true) (l : Layout) :
    ∃ d, documentDecimal? .double l x.toBits.toNat = some d ∧ d.toFloat? = some x := by
  obtain ⟨d, written⟩ := exists_documentDecimal? (f := .double) l (isFinite_unpack_iff.mp finite)
  have bits := bits?_documentDecimal? BinaryFormat.isReached_double l x.toBits.toNat_lt written
  refine ⟨d, written, ?_⟩
  rw [Decimal.toFloat?, bits, Option.map_some]
  show some (Float.ofBits (UInt64.ofNat x.toBits.toNat)) = _
  rw [UInt64.ofNat_toNat, Float.ofBits_toBits]

theorem toFloat32?_documentDecimal? {x : Float32} (finite : x.isFinite = true) (l : Layout) :
    ∃ d, documentDecimal? .single l x.toBits.toNat = some d ∧ d.toFloat32? = some x := by
  obtain ⟨d, written⟩ := exists_documentDecimal? (f := .single) l (isFinite_unpack_iff.mp finite)
  have bits := bits?_documentDecimal? BinaryFormat.isReached_single l x.toBits.toNat_lt written
  refine ⟨d, written, ?_⟩
  rw [Decimal.toFloat32?, bits, Option.map_some]
  show some (Float32.ofBits (UInt32.ofNat x.toBits.toNat)) = _
  rw [UInt32.ofNat_toNat, Float32.ofBits_toBits]

/-! ## What decimals are read as -/

namespace Decimal

variable {f : BinaryFormat} {d : Decimal} {bits : ℕ}

theorem magnitudeBits?_lt (wide : 0 < f.topField) (read : d.magnitudeBits? f = some bits) :
    bits < f.topField * 2 ^ f.fractionBits := by
  unfold magnitudeBits? at read
  dsimp only at read
  split at read
  next =>
    cases read
    exact Nat.mul_pos wide (Nat.two_pow_pos _)
  next =>
    split at read
    next => cases read
    next =>
      unfold BinaryFormat.nearestBits? at read
      dsimp only at read
      split at read
      next small =>
        cases read
        exact small
      next => cases read

theorem bits?_spec (wide : 0 < f.topField) (read : d.bits? f = some bits) :
    bits < 2 * f.signWeight ∧ bits / 2 ^ f.fractionBits % 2 ^ f.exponentBits ≠ f.topField := by
  obtain ⟨magnitude, reads, rfl⟩ := Option.map_eq_some_iff.mp read
  have small := magnitudeBits?_lt wide reads
  have field : magnitude / 2 ^ f.fractionBits < f.topField :=
    Nat.div_lt_of_lt_mul (by rw [mul_comm]; exact small)
  have fits : magnitude / 2 ^ f.fractionBits < 2 ^ f.exponentBits :=
    Nat.lt_of_lt_of_le field (Nat.sub_le _ _)
  have weight : f.signWeight = 2 ^ f.exponentBits * 2 ^ f.fractionBits := by
    rw [mul_comm]
    exact Nat.pow_add 2 _ _
  have less : magnitude < f.signWeight := by
    rw [weight]
    exact Nat.lt_of_lt_of_le small (Nat.mul_le_mul_right _ (Nat.sub_le _ _))
  split
  · refine ⟨by omega, ?_⟩
    rw [weight, Nat.add_mul_div_right _ _ (Nat.two_pow_pos _), Nat.add_mod_right,
      Nat.mod_eq_of_lt fits]
    exact field.ne
  · refine ⟨by omega, ?_⟩
    rw [Nat.mod_eq_of_lt fits]
    exact field.ne

theorem isFinite_of_toFloat? {x : Float} (read : d.toFloat? = some x) : x.isFinite = true := by
  obtain ⟨bits, reads, rfl⟩ := Option.map_eq_some_iff.mp read
  obtain ⟨small, field⟩ := bits?_spec (by decide) reads
  have word : bits.toUInt64.toBitVec.toNat = bits := Nat.mod_eq_of_lt small
  have field : exponentField .binary64 bits.toUInt64.toBitVec.toNat ≠ 2047 := by rwa [word]
  show (unpack .binary64 (pack .binary64 (unpack .binary64 bits.toUInt64.toBitVec))).isFinite = true
  rw [pack_unpack_of_field (by decide) field]
  exact isFinite_unpack_iff.mpr field

theorem isFinite_of_toFloat32? {x : Float32} (read : d.toFloat32? = some x) :
    x.isFinite = true := by
  obtain ⟨bits, reads, rfl⟩ := Option.map_eq_some_iff.mp read
  obtain ⟨small, field⟩ := bits?_spec (by decide) reads
  have word : bits.toUInt32.toBitVec.toNat = bits := Nat.mod_eq_of_lt small
  have field : exponentField .binary32 bits.toUInt32.toBitVec.toNat ≠ 255 := by rwa [word]
  show (unpack .binary32 (pack .binary32 (unpack .binary32 bits.toUInt32.toBitVec))).isFinite = true
  rw [pack_unpack_of_field (by decide) field]
  exact isFinite_unpack_iff.mpr field

end Decimal

end ClassInit.Number
