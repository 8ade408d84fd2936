import ClassInit.Proofs.Number.Shortest

/-!
# Rounding to a format

A fraction in the rounding interval of a number is rounded to the bit pattern of the number
(`BinaryFormat.nearestBits?_of_covers`). Just below a power of two the rounding carries into the
next exponent.
-/

set_option autoImplicit false

namespace ClassInit.Number.BinaryFormat

variable {f : BinaryFormat} {x : Scaled} {r : Ratio}

/-! ## Significands -/

theorem reachBelow_le (f : BinaryFormat) (x : Scaled) : f.reachBelow x ≤ 1 / 2 := by
  unfold reachBelow
  split <;> norm_num

/-- Rounding to the last place of the number gives its significand. -/
theorem round_of_covers (den : 0 < r.den) (covers : f.Covers x r.value) :
    (r.unscaled x.exponent).round = x.significand := by
  have place : (0 : ℚ) < 2 ^ x.exponent := by positivity
  have reach := reachBelow_le f x
  refine Ratio.round_eq_of_value (Ratio.den_unscaled den _) ?_ ?_ ?_
  · rw [Ratio.value_unscaled, le_div_iff₀ place]
    exact le_trans (mul_le_mul_of_nonneg_right (by linarith) place.le) covers.low
  · rw [Ratio.value_unscaled, div_le_iff₀ place]
    exact covers.high
  · rw [Ratio.value_unscaled, div_eq_iff place.ne', div_eq_iff place.ne']
    rintro (low | high)
    · refine covers.tie (.inl (le_antisymm ?_ covers.low))
      rw [low]
      exact mul_le_mul_of_nonneg_right (by linarith) place.le
    · exact covers.tie (.inr high)

/-- Where rounding takes place at the exponent of the number, it gives the number. -/
theorem nearest_of_place (den : 0 < r.den) (covers : f.Covers x r.value)
    (place : max (r.log2 - f.fractionBits) f.minExponent = x.exponent) : f.nearest r = x := by
  rw [nearest, place, round_of_covers den covers]

theorem pow_fractionBits (f : BinaryFormat) (e : ℤ) :
    (2 : ℚ) ^ ((f.fractionBits : ℤ) + e) = 2 ^ f.fractionBits * 2 ^ e := by
  rw [zpow_add₀ two_ne_zero, zpow_natCast]

/-- A fraction that reaches the power of two of the number has the exponent of the number. -/
theorem nearest_of_reached (holds : f.Holds x) (den : 0 < r.den) (covers : f.Covers x r.value)
    (above : 2 ^ f.fractionBits * 2 ^ x.exponent ≤ r.value) : f.nearest r = x := by
  have place : (0 : ℚ) < 2 ^ x.exponent := by positivity
  rw [← pow_fractionBits] at above
  have below : r.value < 2 ^ ((f.fractionBits : ℤ) + x.exponent + 1) := by
    have fits : (x.significand : ℚ) + 1 ≤ 2 ^ f.fractionBits * 2 := by
      rw [← pow_succ]
      exact_mod_cast holds.fits
    rw [zpow_add_one₀ two_ne_zero, pow_fractionBits]
    nlinarith [covers.high]
  refine nearest_of_place den covers ?_
  rw [Ratio.log2_eq den above below, add_sub_cancel_left]
  exact max_eq_left holds.least

/-- Just below a power of two the rounding has a smaller exponent and carries. -/
theorem nearest_of_narrow (den : 0 < r.den) (covers : f.Covers x r.value) (narrow : f.IsNarrow x)
    (below : r.value < 2 ^ f.fractionBits * 2 ^ x.exponent) :
    f.nearest r = ⟨2 ^ (f.fractionBits + 1), x.exponent - 1⟩ := by
  have place : (0 : ℚ) < 2 ^ x.exponent := by positivity
  have full : (x.significand : ℚ) = 2 ^ f.fractionBits := by exact_mod_cast narrow.1
  have one : (1 : ℚ) ≤ 2 ^ f.fractionBits := one_le_pow₀ (by norm_num)
  have low := covers.low
  rw [reachBelow, if_pos narrow, full] at low
  have half : (2 : ℚ) ^ (x.exponent - 1) = 2 ^ x.exponent / 2 := by
    rw [zpow_sub_one₀ two_ne_zero, div_eq_mul_inv]
  have log2 : r.log2 = f.fractionBits + x.exponent - 1 := by
    refine Ratio.log2_eq den ?_ ?_
    · rw [zpow_sub_one₀ two_ne_zero, pow_fractionBits]
      nlinarith
    · rw [sub_add_cancel, pow_fractionBits]
      exact below
  have exponent : max (r.log2 - f.fractionBits) f.minExponent = x.exponent - 1 := by
    have least := narrow.2
    omega
  have significand : (r.unscaled (x.exponent - 1)).round = 2 ^ (f.fractionBits + 1) := by
    have place : (0 : ℚ) < 2 ^ x.exponent / 2 := half_pos place
    refine Ratio.round_eq_of_value (Ratio.den_unscaled den _) ?_ ?_ fun _ => ?_
    · rw [Ratio.value_unscaled, half, le_div_iff₀ place, Nat.cast_pow, Nat.cast_ofNat, pow_succ]
      linarith
    · rw [Ratio.value_unscaled, half, div_le_iff₀ place, Nat.cast_pow, Nat.cast_ofNat, pow_succ]
      nlinarith
    · rw [Nat.pow_succ, Nat.mul_mod_left]
  rw [nearest, exponent, significand]

/-- The rounding does not go below the least exponent. -/
theorem nearest_of_least (holds : f.Holds x) (den : 0 < r.den) (covers : f.Covers x r.value)
    (wide : ¬f.IsNarrow x) (below : r.value < 2 ^ f.fractionBits * 2 ^ x.exponent) :
    f.nearest r = x := by
  have place : (0 : ℚ) < 2 ^ x.exponent := by positivity
  have reach := reachBelow_le f x
  have low := covers.low
  have one : (1 : ℚ) ≤ x.significand := by exact_mod_cast holds.positive
  have positive : 0 < r.value := lt_of_lt_of_le (mul_pos (by linarith) place) low
  have least : x.exponent = f.minExponent := by
    by_contra more
    have greater : f.minExponent < x.exponent := lt_of_le_of_ne holds.least (Ne.symm more)
    have full : 2 ^ f.fractionBits ≤ x.significand := Nat.le_of_not_lt (more ∘ holds.full)
    have fuller : 2 ^ f.fractionBits + 1 ≤ x.significand :=
      Nat.lt_of_le_of_ne full fun same => wide ⟨same.symm, greater⟩
    have fuller : (2 : ℚ) ^ f.fractionBits + 1 ≤ x.significand := by exact_mod_cast fuller
    nlinarith
  have log2 : r.log2 < f.fractionBits + x.exponent := by
    have spec := Ratio.log2_spec ((Ratio.value_pos_iff den).mp positive) den
    rw [← pow_fractionBits] at below
    exact (zpow_lt_zpow_iff_right₀ one_lt_two).mp (lt_of_le_of_lt spec.1 below)
  exact nearest_of_place den covers (by omega)

/-- A fraction that is covered by a number is rounded to it, or to the same number with a
significand that is full and a smaller exponent. -/
theorem nearest_of_covers (holds : f.Holds x) (den : 0 < r.den) (covers : f.Covers x r.value) :
    f.nearest r = x ∨ f.IsNarrow x ∧ f.nearest r = ⟨2 ^ (f.fractionBits + 1), x.exponent - 1⟩ := by
  rcases le_or_gt (2 ^ f.fractionBits * 2 ^ x.exponent) r.value with above | below
  · exact .inl (nearest_of_reached holds den covers above)
  · by_cases narrow : f.IsNarrow x
    · exact .inr ⟨narrow, nearest_of_narrow den covers narrow below⟩
    · exact .inl (nearest_of_least holds den covers narrow below)

/-! ## Bit patterns -/

theorem encode_of_full {m : ℕ} {e : ℤ} (full : 2 ^ f.fractionBits ≤ m)
    (fits : m < 2 ^ (f.fractionBits + 1)) (least : f.minExponent ≤ e) :
    f.encode ⟨m, e⟩ = (e - f.minExponent).toNat * 2 ^ f.fractionBits + m := by
  have positive : m ≠ 0 := by
    have power : 0 < 2 ^ f.fractionBits := Nat.two_pow_pos _
    omega
  have log2 : m.log2 = f.fractionBits := (Nat.log2_eq_iff positive).mpr ⟨full, fits⟩
  have place : max (e + (m.log2 : ℤ) - f.fractionBits) f.minExponent = e := by omega
  unfold encode
  dsimp only
  rw [if_neg positive, place, if_pos (le_refl e), sub_self, Int.toNat_zero, Nat.pow_eq, pow_zero,
    mul_one, if_neg]
  · rfl
  · exact Nat.not_lt.mpr full

theorem encode_of_small {m : ℕ} (small : m < 2 ^ f.fractionBits) :
    f.encode ⟨m, f.minExponent⟩ = m := by
  unfold encode
  dsimp only
  split
  next zero => exact zero.symm
  next positive =>
    have log2 : m.log2 < f.fractionBits := (Nat.log2_lt positive).mpr small
    have place : max (f.minExponent + (m.log2 : ℤ) - f.fractionBits) f.minExponent =
      f.minExponent := by omega
    rw [place, if_pos (le_refl _), sub_self, Int.toNat_zero, Nat.pow_eq, pow_zero, mul_one]
    exact if_pos small

/-- A significand that is too long by one bit carries into the exponent. -/
theorem encode_carry {e : ℤ} (least : f.minExponent < e) :
    f.encode ⟨2 ^ (f.fractionBits + 1), e - 1⟩ = f.encode ⟨2 ^ f.fractionBits, e⟩ := by
  have place : max (e - 1 + ((2 ^ (f.fractionBits + 1) : ℕ).log2 : ℤ) - f.fractionBits)
      f.minExponent = e := by
    rw [Nat.log2_two_pow]
    omega
  have aligned : (if e ≤ e - 1 then 2 ^ (f.fractionBits + 1) * Nat.pow 2 (e - 1 - e).toNat
      else 2 ^ (f.fractionBits + 1) / Nat.pow 2 (e - (e - 1)).toNat) = 2 ^ f.fractionBits := by
    rw [if_neg (by omega), sub_sub_cancel, Int.toNat_one, Nat.pow_eq, pow_one, Nat.pow_succ,
      Nat.mul_div_cancel _ (by decide)]
  rw [encode_of_full (Nat.le_refl _) (Nat.pow_lt_pow_right (by decide) (Nat.lt_succ_self _))
    least.le]
  unfold encode
  dsimp only
  rw [if_neg (Nat.two_pow_pos _).ne', place, aligned]
  exact if_neg (Nat.lt_irrefl _)

/-- The bit pattern that a covered fraction is rounded to. -/
theorem nearestBits?_of_covers (holds : f.Holds x) (den : 0 < r.den) (covers : f.Covers x r.value)
    (finite : f.encode x < f.topField * 2 ^ f.fractionBits) :
    f.nearestBits? r = some (f.encode x) := by
  have same : f.encode (f.nearest r) = f.encode x := by
    rcases nearest_of_covers holds den covers with exact | ⟨narrow, carried⟩
    · rw [exact]
    · rw [carried, encode_carry narrow.2]
      exact congrArg (fun m => f.encode ⟨m, x.exponent⟩) narrow.1.symm
  unfold nearestBits?
  dsimp only
  rw [same]
  exact if_pos finite

end ClassInit.Number.BinaryFormat
