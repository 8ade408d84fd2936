import ClassInit.Proofs.Number.Nearest

/-!
# Floating-point numbers in documents

The decimal that stands for a finite number in a document is read as the bit pattern of the number
(`Number.bits?_documentDecimal?`), with either format and with every layout.
-/

set_option autoImplicit false

namespace ClassInit.Number

/-! ## Layouts -/

namespace Decimal

/-- The number that a written decimal denotes, without its sign. -/
def magnitude (d : Decimal) : ℚ := d.digits * 10 ^ (d.exponent.getD 0 - d.places)

end Decimal

namespace Layout

variable (l : Layout) (negative : Bool) {d : DecimalValue}

/-- A layout moves the point and keeps the number. -/
theorem magnitude_write (d : DecimalValue) : (l.write negative d).magnitude = d.value := by
  have digits : 0 < (Nat.toDigits 10 d.digits).length := Nat.length_toDigits_pos
  have ten : (10 : ℚ) ≠ 0 := by norm_num
  unfold write
  dsimp only
  generalize (Nat.toDigits 10 d.digits).length = count at *
  split
  next =>
    split
    next small =>
      show (d.digits : ℚ) * 10 ^ ((0 : ℤ) - ((-d.exponent).toNat : ℕ)) = d.value
      rw [show (0 : ℤ) - ((-d.exponent).toNat : ℕ) = d.exponent by omega]
      rfl
    next large =>
      show ((d.digits * Nat.pow 10 (d.exponent.toNat + 1) : ℕ) : ℚ) * 10 ^ ((0 : ℤ) - (1 : ℕ)) =
        d.value
      rw [Nat.cast_mul, Nat.pow_eq, Nat.cast_pow, Nat.cast_ofNat, mul_assoc, ← zpow_natCast,
        ← zpow_add₀ ten,
        show ((d.exponent.toNat + 1 : ℕ) : ℤ) + (0 - (1 : ℕ)) = d.exponent by omega]
      rfl
  next =>
    split
    next single =>
      show ((d.digits * 10 : ℕ) : ℚ) * 10 ^ ((count : ℤ) + d.exponent - 1 - (1 : ℕ)) = d.value
      rw [Nat.cast_mul, Nat.cast_ofNat, mul_assoc, ← zpow_one_add₀ ten,
        show 1 + ((count : ℤ) + d.exponent - 1 - (1 : ℕ)) = d.exponent by omega]
      rfl
    next =>
      show (d.digits : ℚ) * 10 ^ ((count : ℤ) + d.exponent - 1 - (count - 1 : ℕ)) = d.value
      rw [show (count : ℤ) + d.exponent - 1 - (count - 1 : ℕ) = d.exponent by omega]
      rfl

theorem negative_write (d : DecimalValue) : (l.write negative d).negative = negative := by
  unfold write
  dsimp only
  split
  next => split <;> rfl
  next => split <;> rfl

end Layout

/-! ## Reading within reach -/

namespace BinaryFormat

/-- The numbers of the format have at most sixteen digits and lie within the reach of decimals. -/
structure IsReached (f : BinaryFormat) : Prop where
  digits : 2 ^ (f.fractionBits + 1) ≤ 10 ^ 16
  least : 2 ^ (1 - f.minExponent).toNat ≤ 10 ^ 401
  greatest : 2 ^ (f.fractionBits + 1 + f.minExponent + f.topField).toNat ≤ 10 ^ 400

theorem isReached_single : single.IsReached := ⟨by decide, by decide +kernel, by decide +kernel⟩

theorem isReached_double : double.IsReached := ⟨by decide, by decide +kernel, by decide +kernel⟩

variable {f : BinaryFormat} {x : Scaled}

theorem exponent_lt (holds : f.Holds x) (finite : f.encode x < f.topField * 2 ^ f.fractionBits) :
    x.exponent < f.minExponent + f.topField := by
  have least := holds.least
  by_cases full : 2 ^ f.fractionBits ≤ x.significand
  · have encoded :
        f.encode x = (x.exponent - f.minExponent).toNat * 2 ^ f.fractionBits + x.significand :=
      encode_of_full full holds.fits holds.least
    have field : (x.exponent - f.minExponent).toNat < f.topField := by
      refine Nat.lt_of_mul_lt_mul_right (a := 2 ^ f.fractionBits) ?_
      omega
    omega
  · have same := holds.full (Nat.lt_of_not_le full)
    have wide : 0 < f.topField := by
      by_contra narrow
      rw [Nat.eq_zero_of_not_pos narrow, Nat.zero_mul] at finite
      exact absurd finite (Nat.not_lt_zero _)
    omega

theorem covers_pos (holds : f.Holds x) {v : ℚ} (covers : f.Covers x v) :
    2 ^ (x.exponent - 1) ≤ v := by
  have one : (1 : ℚ) ≤ x.significand := by exact_mod_cast holds.positive
  have reach := reachBelow_le f x
  have place : (0 : ℚ) < 2 ^ x.exponent := by positivity
  rw [zpow_sub_one₀ two_ne_zero]
  nlinarith [covers.low]

/-- What rounds to a number of the format is within the reach of decimals. -/
theorem within_reach (reached : f.IsReached) (holds : f.Holds x)
    (finite : f.encode x < f.topField * 2 ^ f.fractionBits) {v : ℚ} (covers : f.Covers x v) :
    10 ^ (-401 : ℤ) ≤ v ∧ v < 10 ^ (400 : ℤ) := by
  have two : (1 : ℚ) ≤ 2 := by norm_num
  have place : (0 : ℚ) < 2 ^ x.exponent := by positivity
  constructor
  · calc (10 : ℚ) ^ (-401 : ℤ) ≤ 2 ^ (-((1 - f.minExponent).toNat : ℤ)) := by
          have least : (2 : ℚ) ^ (1 - f.minExponent).toNat ≤ 10 ^ 401 := by
            exact_mod_cast reached.least
          rw [zpow_neg, zpow_neg, zpow_natCast]
          exact inv_anti₀ (by positivity) least
      _ ≤ 2 ^ (x.exponent - 1) := zpow_le_zpow_right₀ two (by have least := holds.least; omega)
      _ ≤ v := covers_pos holds covers
  · have fits : (x.significand : ℚ) + 1 ≤ 2 ^ (f.fractionBits + 1) := by exact_mod_cast holds.fits
    have small := exponent_lt holds finite
    calc v ≤ (x.significand + 1 / 2) * 2 ^ x.exponent := covers.high
      _ < 2 ^ (f.fractionBits + 1) * 2 ^ x.exponent := mul_lt_mul_of_pos_right (by linarith) place
      _ = 2 ^ (((f.fractionBits + 1 : ℕ) : ℤ) + x.exponent) := by
        rw [zpow_add₀ two_ne_zero, zpow_natCast]
      _ ≤ 2 ^ ((f.fractionBits + 1 + f.minExponent + f.topField).toNat : ℤ) :=
          zpow_le_zpow_right₀ two (by push_cast; omega)
      _ ≤ 10 ^ (400 : ℤ) := by
          rw [zpow_natCast]
          exact_mod_cast reached.greatest

end BinaryFormat

/-- A decimal that lies in the interval of a number is read as its bit pattern. -/
theorem Decimal.magnitudeBits?_of_covers {f : BinaryFormat} (reached : f.IsReached) {x : Scaled}
    (holds : f.Holds x) (finite : f.encode x < f.topField * 2 ^ f.fractionBits) {d : Decimal}
    (covers : f.Covers x d.magnitude) :
    d.magnitudeBits? f = some (f.encode x) := by
  obtain ⟨least, most⟩ := BinaryFormat.within_reach reached holds finite covers
  have ten : (1 : ℚ) < 10 := by norm_num
  have positive : 0 < d.magnitude := lt_of_lt_of_le (by positivity) least
  have nearest := BinaryFormat.nearestBits?_of_covers holds
    (Ratio.den_ofDecimal d.digits (d.exponent.getD 0 - d.places))
      (by rw [Ratio.value_ofDecimal]; exact covers) finite
  unfold magnitude at positive least most
  unfold magnitudeBits?
  dsimp only
  generalize d.exponent.getD 0 - (d.places : ℤ) = exponent at *
  have power : (0 : ℚ) < 10 ^ exponent := by positivity
  have digits : 0 < d.digits := by
    have digits := (mul_pos_iff_of_pos_right power).mp positive
    exact_mod_cast digits
  have count : 0 < (Nat.toDigits 10 d.digits).length := Nat.length_toDigits_pos
  have low := Ratio.pow_length_toDigits_le digits
  have high := Ratio.lt_pow_length_toDigits d.digits
  generalize (Nat.toDigits 10 d.digits).length = k at *
  have low : (10 : ℚ) ^ (exponent + k - 1) ≤ d.digits * 10 ^ exponent := by
    rw [show exponent + k - 1 =
      (k - 1 : ℕ) + exponent by omega, zpow_add₀ (by norm_num), zpow_natCast]
    exact mul_le_mul_of_nonneg_right (by exact_mod_cast low) power.le
  have high : d.digits * (10 : ℚ) ^ exponent < 10 ^ (exponent + k) := by
    rw [add_comm exponent, zpow_add₀ (by norm_num), zpow_natCast]
    exact mul_lt_mul_of_pos_right (by exact_mod_cast high) power
  have above : -401 < exponent + k := (zpow_lt_zpow_iff_right₀ ten).mp (lt_of_le_of_lt least high)
  have below : exponent + k - 1 < 400 := (zpow_lt_zpow_iff_right₀ ten).mp (lt_of_le_of_lt low most)
  rw [if_neg (not_or.mpr ⟨digits.ne', by unfold reach; omega⟩), if_neg (by unfold reach; omega),
    nearest]

/-! ## Bit patterns -/

namespace BinaryFormat

/-- A bit pattern in its parts: the sign, the exponent field and the fraction. -/
theorem bits_eq (f : BinaryFormat) (bits : ℕ) :
    bits = bits / f.signWeight * f.signWeight + (bits / 2 ^ f.fractionBits % 2 ^ f.exponentBits) *
      2 ^ f.fractionBits +
      bits % 2 ^ f.fractionBits := by
  have weight : f.signWeight = 2 ^ f.fractionBits * 2 ^ f.exponentBits := Nat.pow_add 2 _ _
  have fraction := Nat.div_add_mod' bits (2 ^ f.fractionBits)
  have field := Nat.div_add_mod' (bits / 2 ^ f.fractionBits) (2 ^ f.exponentBits)
  rw [Nat.div_div_eq_div_mul, ← weight] at field
  rw [weight, ← mul_assoc, mul_right_comm, ← Nat.add_mul, ← weight, field, fraction]

theorem decode_finite {f : BinaryFormat} {bits : ℕ} {negative : Bool} {x : Scaled}
    (small : bits < 2 * f.signWeight) (decoded : f.decode bits = .finite negative x) :
    bits = (if negative then f.encode x + f.signWeight else f.encode x) ∧
      f.encode x < f.topField * 2 ^ f.fractionBits ∧ (x.significand ≠ 0 → f.Holds x) := by
  -- The three parts of the pattern are the only thing about it that is used.
  have parts := f.bits_eq bits
  have fraction : bits % 2 ^ f.fractionBits < 2 ^ f.fractionBits := Nat.mod_lt _ (Nat.two_pow_pos _)
  have field : bits / 2 ^ f.fractionBits % 2 ^ f.exponentBits < 2 ^ f.exponentBits :=
    Nat.mod_lt _ (Nat.two_pow_pos _)
  have sign : bits / f.signWeight < 2 := Nat.div_lt_of_lt_mul (by rw [mul_comm]; exact small)
  unfold decode at decoded
  dsimp only at decoded
  rw [Nat.pow_eq, Nat.pow_eq] at decoded
  have double : 2 ^ (f.fractionBits + 1) = 2 ^ f.fractionBits + 2 ^ f.fractionBits := by
    rw [pow_succ, mul_two]
  generalize bits % 2 ^ f.fractionBits = low at *
  generalize bits / 2 ^ f.fractionBits % 2 ^ f.exponentBits = high at *
  generalize bits / f.signWeight = s at *
  have top : f.topField = 2 ^ f.exponentBits - 1 := rfl
  -- The exponent field at the top is no number; at zero the number is subnormal; else it has a
  -- hidden bit.
  split at decoded
  next => split at decoded <;> cases decoded
  next notTop =>
    have signed : bits = if (s % 2 == 1) = true then high * 2 ^ f.fractionBits + low + f.signWeight
        else high * 2 ^ f.fractionBits + low := by
      obtain rfl | rfl : s = 0 ∨ s = 1 := by omega
      · rw [if_neg (by decide)]
        omega
      · rw [if_pos (by decide)]
        omega
    have finite : high * 2 ^ f.fractionBits + low < f.topField * 2 ^ f.fractionBits := by
      have less : high + 1 ≤ f.topField := by omega
      have bound := Nat.mul_le_mul_right (2 ^ f.fractionBits) less
      rw [Nat.add_mul, one_mul] at bound
      omega
    split at decoded
    next zero =>
      cases decoded
      subst zero
      rw [zero_mul, zero_add] at finite signed
      rw [encode_of_small fraction]
      exact ⟨signed, finite, fun positive =>
        ⟨Nat.pos_of_ne_zero positive, by dsimp only; omega, le_refl _, fun _ => rfl⟩⟩
    next normal =>
      cases decoded
      have least : f.minExponent ≤ f.minExponent + high - 1 := by omega
      have encoded : f.encode ⟨2 ^ f.fractionBits + low, f.minExponent + high - 1⟩ =
          high * 2 ^ f.fractionBits + low := by
        rw [encode_of_full (Nat.le_add_right _ _) (by omega) least,
          show (f.minExponent + high - 1 - f.minExponent).toNat =
            high - 1 by omega, ← add_assoc, ← Nat.succ_mul,
          Nat.succ_eq_add_one, Nat.sub_add_cancel (by omega)]
      rw [encoded]
      exact ⟨signed, finite, fun _ =>
        ⟨by dsimp only; omega, by dsimp only; omega, least, fun less => by
        dsimp only at less
        omega⟩⟩

end BinaryFormat

/-- The decimal of a number in a document is read as the bit pattern of the number. -/
theorem bits?_documentDecimal? {f : BinaryFormat} (reached : f.IsReached) (l : Layout) {bits : ℕ}
    (small : bits < 2 * f.signWeight) {d : Decimal} (written : documentDecimal? f l bits = some d) :
    d.bits? f = some bits := by
  unfold documentDecimal? at written
  split at written
  next negative x decoded =>
    cases written
    obtain ⟨same, finite, holds⟩ := BinaryFormat.decode_finite small decoded
    unfold Layout.writeBinary
    split
    next zero =>
      have blank : f.encode x = 0 := if_pos zero
      rw [blank] at same
      rw [same]
      rfl
    next positive =>
      have covers := BinaryFormat.shortest_covered (holds positive) reached.digits .even
      rw [← Layout.magnitude_write l negative] at covers
      rw [Decimal.bits?, Decimal.magnitudeBits?_of_covers reached (holds positive) finite covers,
        Layout.negative_write, same]
      rfl
  next => cases written

end ClassInit.Number
