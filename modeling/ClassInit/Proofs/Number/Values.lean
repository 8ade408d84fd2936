import Mathlib.Algebra.Order.Field.Power
import Mathlib.Algebra.Order.Field.Rat
import Mathlib.Data.Nat.Cast.Order.Field
import Mathlib.Tactic.FieldSimp
import Mathlib.Tactic.Linarith
import Mathlib.Tactic.Positivity
import Mathlib.Tactic.Ring
import ClassInit.Number.Rounding

/-!
# Values of fractions

What the operations on fractions compute, as statements about rational numbers: comparisons, the
whole part, the nearest natural number, and the powers of two and of ten that a fraction lies
between.
-/

set_option autoImplicit false

namespace ClassInit.Number.Ratio

/-- The rational number that a fraction denotes. -/
def value (r : Ratio) : ℚ := r.num / r.den

/-! ## Powers and comparisons -/

/-- A power with an exponent that is not negative, as a rational number. -/
theorem natCast_pow_toNat {b : ℕ} (e : ℤ) (nonneg : 0 ≤ e) :
    ((Nat.pow b e.toNat : ℕ) : ℚ) = (b : ℚ) ^ e := by
  rw [Nat.pow_eq, Nat.cast_pow, ← zpow_natCast, Int.toNat_of_nonneg nonneg]

/-- A whole number times a power is a fraction over one or over the power. -/
theorem value_powers (b n : ℕ) (e : ℤ) :
    (if 0 ≤ e then Ratio.mk (n * Nat.pow b e.toNat) 1 else ⟨n, Nat.pow b (-e).toNat⟩).value =
      n * (b : ℚ) ^ e := by
  unfold value
  split
  next nonneg => rw [Nat.cast_mul, natCast_pow_toNat e nonneg, Nat.cast_one, div_one]
  next negative => rw [natCast_pow_toNat (-e) (by omega), zpow_neg, div_inv_eq_mul]

theorem den_powers {b : ℕ} (pos : 0 < b) (n : ℕ) (e : ℤ) :
    0 < (if 0 ≤ e then Ratio.mk (n * Nat.pow b e.toNat) 1 else ⟨n, Nat.pow b (-e).toNat⟩).den := by
  split
  next => exact Nat.one_pos
  next => exact Nat.pow_pos pos

/-- The value of a binary fraction. -/
theorem value_ofBinary (n : ℕ) (e : ℤ) : (ofBinary n e).value = n * 2 ^ e := value_powers 2 n e

/-- The value of a decimal fraction. -/
theorem value_ofDecimal (n : ℕ) (e : ℤ) : (ofDecimal n e).value = n * 10 ^ e := value_powers 10 n e

theorem den_ofBinary (n : ℕ) (e : ℤ) : 0 < (ofBinary n e).den := den_powers Nat.two_pos n e

theorem den_ofDecimal (n : ℕ) (e : ℤ) : 0 < (ofDecimal n e).den := den_powers (by decide) n e

section

variable {a b : Ratio} (ha : 0 < a.den) (hb : 0 < b.den)

include ha hb

/-- Ratios are compared by their values. -/
theorem le_iff : a.le b = true ↔ a.value ≤ b.value := by
  have da : (0 : ℚ) < a.den := Nat.cast_pos.mpr ha
  have db : (0 : ℚ) < b.den := Nat.cast_pos.mpr hb
  rw [le, decide_eq_true_iff, value, value, div_le_div_iff₀ da db]
  exact_mod_cast Iff.rfl

theorem lt_iff : a.lt b = true ↔ a.value < b.value := by
  have da : (0 : ℚ) < a.den := Nat.cast_pos.mpr ha
  have db : (0 : ℚ) < b.den := Nat.cast_pos.mpr hb
  rw [lt, decide_eq_true_iff, value, value, div_lt_div_iff₀ da db]
  exact_mod_cast Iff.rfl

end

/-- A ratio is positive if its numerator is. -/
theorem value_pos_iff {a : Ratio} (ha : 0 < a.den) : 0 < a.value ↔ 0 < a.num := by
  have da : (0 : ℚ) < a.den := Nat.cast_pos.mpr ha
  rw [value, div_pos_iff_of_pos_right da, Nat.cast_pos]

/-- The whole part of a quotient of fractions. -/
theorem quotient_spec {a b : Ratio} (ha : 0 < a.den) (hb : 0 < b.den) (pos : 0 < b.value) :
    a.quotient b * b.value ≤ a.value ∧ a.value < (a.quotient b + 1) * b.value := by
  have da : (0 : ℚ) < a.den := Nat.cast_pos.mpr ha
  have db : (0 : ℚ) < b.den := Nat.cast_pos.mpr hb
  have nb : 0 < b.num := (value_pos_iff hb).mp pos
  have below : a.quotient b * (a.den * b.num) ≤ a.num * b.den := Nat.div_mul_le_self _ _
  have above : a.num * b.den < (a.quotient b + 1) * (a.den * b.num) :=
    Nat.lt_mul_of_div_lt (Nat.lt_succ_self _) (Nat.mul_pos ha nb)
  have below : (a.quotient b * (a.den * b.num) : ℚ) ≤ a.num * b.den := by exact_mod_cast below
  have above : (a.num * b.den : ℚ) < (a.quotient b + 1) * (a.den * b.num) := by exact_mod_cast above
  rw [value, value, mul_div_assoc', mul_div_assoc', div_le_div_iff₀ db da, div_lt_div_iff₀ da db]
  exact ⟨by linarith, by linarith⟩

/-! ## The nearest natural number -/

/-- A number that is as near as any is the nearest one if, at half a unit away, it is even. -/
theorem round_eq {r : Ratio} {n : ℕ} (low : 2 * n * r.den ≤ 2 * r.num + r.den)
    (high : 2 * r.num ≤ 2 * n * r.den + r.den)
    (tie : 2 * n * r.den = 2 * r.num + r.den ∨ 2 * r.num = 2 * n * r.den + r.den → n % 2 = 0)
    (pos : 0 < r.den) :
    r.round = n := by
  have whole := Nat.div_add_mod r.num r.den
  have left := Nat.mod_lt r.num pos
  unfold round
  dsimp only
  generalize r.num / r.den = below at *
  generalize r.num % r.den = rest at *
  generalize r.den = d at *
  -- The number is the one below the fraction or the one above it.
  have least : below ≤ n := by
    by_contra less
    have bound : d * (n + 1) ≤ d * below := Nat.mul_le_mul_left _ (by omega)
    nlinarith
  have most : n ≤ below + 1 := by
    by_contra more
    have bound : d * (below + 2) ≤ d * n := Nat.mul_le_mul_left _ (by omega)
    nlinarith
  obtain rfl | rfl : n = below ∨ n = below + 1 := by omega
  · refine if_pos ?_
    have high : 2 * rest ≤ d := by linarith
    rcases Nat.lt_or_eq_of_le high with less | half
    · exact .inl less
    · exact .inr ⟨half, tie (.inr (by linarith))⟩
  · have low : d ≤ 2 * rest := by linarith
    refine if_neg ?_
    rintro (less | ⟨half, even⟩)
    · omega
    · have even' := tie (.inl (by linarith))
      omega

/-- A ratio is rounded to the nearest natural number, and to an even one half way between two. -/
theorem round_eq_of_value {r : Ratio} {n : ℕ} (pos : 0 < r.den) (low : n - 1 / 2 ≤ r.value)
    (high : r.value ≤ n + 1 / 2) (tie : r.value = n - 1 / 2 ∨ r.value = n + 1 / 2 → n % 2 = 0) :
    r.round = n := by
  have den : (0 : ℚ) < r.den := Nat.cast_pos.mpr pos
  rw [value, le_div_iff₀ den] at low
  rw [value, div_le_iff₀ den] at high
  rw [value, div_eq_iff (ne_of_gt den), div_eq_iff (ne_of_gt den)] at tie
  refine round_eq ?_ ?_ ?_ pos
  · have low : (2 * n * r.den : ℚ) ≤ 2 * r.num + r.den := by linarith
    exact_mod_cast low
  · have high : (2 * r.num : ℚ) ≤ 2 * n * r.den + r.den := by linarith
    exact_mod_cast high
  · rintro (same | same)
    · have same : (2 * n * r.den : ℚ) = 2 * r.num + r.den := by exact_mod_cast same
      exact tie (.inl (by linarith))
    · have same : (2 * r.num : ℚ) = 2 * n * r.den + r.den := by exact_mod_cast same
      exact tie (.inr (by linarith))

/-! ## Powers of two -/

/-- The power of two at or below a ratio. -/
theorem log2_spec {r : Ratio} (num : 0 < r.num) (den : 0 < r.den) :
    (2 : ℚ) ^ r.log2 ≤ r.value ∧ r.value < 2 ^ (r.log2 + 1) := by
  have dn : (0 : ℚ) < r.den := Nat.cast_pos.mpr den
  have numLow : (2 : ℚ) ^ (r.num.log2 : ℤ) ≤ r.num := by exact_mod_cast Nat.log2_self_le (by omega)
  have numHigh : (r.num : ℚ) < 2 ^ ((r.num.log2 : ℤ) + 1) := by exact_mod_cast Nat.lt_log2_self
  have denLow : (2 : ℚ) ^ (r.den.log2 : ℤ) ≤ r.den := by exact_mod_cast Nat.log2_self_le (by omega)
  have denHigh : (r.den : ℚ) < 2 ^ ((r.den.log2 : ℤ) + 1) := by exact_mod_cast Nat.lt_log2_self
  have two : (2 : ℚ) ≠ 0 := two_ne_zero
  unfold log2
  dsimp only
  generalize (r.num.log2 : ℤ) = a at *
  generalize (r.den.log2 : ℤ) = b at *
  -- The quotient of the powers is off by one at most.
  have most : r.value < 2 ^ (a - b + 1) := by
    rw [value, div_lt_iff₀ dn]
    calc (r.num : ℚ) < 2 ^ (a + 1) := numHigh
      _ = 2 ^ (a - b + 1) * 2 ^ b := by rw [← zpow_add₀ two]; congr 1; omega
      _ ≤ 2 ^ (a - b + 1) * r.den := by gcongr
  have least : 2 ^ (a - b - 1) ≤ r.value := by
    rw [value, le_div_iff₀ dn]
    calc (2 : ℚ) ^ (a - b - 1) * r.den ≤ 2 ^ (a - b - 1) * 2 ^ (b + 1) := by gcongr
      _ = 2 ^ a := by rw [← zpow_add₀ two]; congr 1; omega
      _ ≤ r.num := numLow
  have compares := le_iff (den_ofBinary 1 (a - b)) den
  rw [value_ofBinary, Nat.cast_one, one_mul] at compares
  split
  next reached => exact ⟨compares.mp reached, most⟩
  next notReached =>
    rw [Int.sub_add_cancel]
    exact ⟨least, not_le.mp (notReached ∘ compares.mpr)⟩

/-- The exponent of the power of two is determined by the powers around the fraction. -/
theorem log2_eq {r : Ratio} {e : ℤ} (den : 0 < r.den) (low : 2 ^ e ≤ r.value)
    (high : r.value < 2 ^ (e + 1)) : r.log2 = e := by
  have pos : 0 < r.num := (value_pos_iff den).mp (lt_of_lt_of_le (by positivity) low)
  obtain ⟨least, most⟩ := log2_spec pos den
  have one : (1 : ℚ) < 2 := by norm_num
  have upper : r.log2 < e + 1 := (zpow_lt_zpow_iff_right₀ one).mp (lt_of_le_of_lt least high)
  have lower : e < r.log2 + 1 := (zpow_lt_zpow_iff_right₀ one).mp (lt_of_le_of_lt low most)
  omega

/-- Scaling divides the value by a power of two. -/
theorem value_unscaled (r : Ratio) (e : ℤ) : (r.unscaled e).value = r.value / 2 ^ e := by
  unfold unscaled value
  split
  next nonneg =>
    rw [Nat.cast_mul, natCast_pow_toNat e nonneg, Nat.cast_ofNat, div_div]
  next negative =>
    rw [Nat.cast_mul, natCast_pow_toNat (-e) (by omega), Nat.cast_ofNat, zpow_neg, ← div_eq_mul_inv,
      div_right_comm]

theorem den_unscaled {r : Ratio} (den : 0 < r.den) (e : ℤ) : 0 < (r.unscaled e).den := by
  unfold unscaled
  split
  next => exact Nat.mul_pos den (Nat.pow_pos (by decide))
  next => exact den

/-! ## Powers of ten -/

/-- A number with so many digits is at least the power of ten one below. -/
theorem pow_length_toDigits_le {n : ℕ} (pos : 0 < n) :
    10 ^ ((Nat.toDigits 10 n).length - 1) ≤ n := by
  rcases Nat.eq_zero_or_pos ((Nat.toDigits 10 n).length - 1) with none | some
  · rw [none]
    exact pos
  · have longer : ¬(Nat.toDigits 10 n).length ≤ (Nat.toDigits 10 n).length - 1 := by omega
    rw [Nat.length_toDigits_le_iff (by decide) some] at longer
    exact Nat.le_of_not_lt longer

theorem lt_pow_length_toDigits (n : ℕ) : n < 10 ^ (Nat.toDigits 10 n).length :=
  (Nat.length_toDigits_le_iff (by decide) Nat.length_toDigits_pos).mp (Nat.le_refl _)

/-- The digits of a fraction start at its magnitude. -/
theorem pow_magnitude_le {r : Ratio} (num : 0 < r.num) (den : 0 < r.den) :
    10 ^ (r.magnitude - 1) ≤ r.value := by
  have nn : (0 : ℚ) < r.num := Nat.cast_pos.mpr num
  have dn : (0 : ℚ) < r.den := Nat.cast_pos.mpr den
  unfold magnitude
  split
  next whole =>
    have digits : 0 < (Nat.toDigits 10 (r.num / r.den)).length := Nat.length_toDigits_pos
    have least := pow_length_toDigits_le (Nat.div_pos whole den)
    generalize (Nat.toDigits 10 (r.num / r.den)).length = k at *
    rw [show (k : ℤ) - 1 = (k - 1 : ℕ) by omega, zpow_natCast]
    calc (10 : ℚ) ^ (k - 1) ≤ (r.num / r.den : ℕ) := by exact_mod_cast least
      _ ≤ r.value := Nat.cast_div_le
  next part =>
    have digits : 0 < (Nat.toDigits 10 (r.den / r.num)).length := Nat.length_toDigits_pos
    have most := lt_pow_length_toDigits (r.den / r.num)
    dsimp only
    generalize (Nat.toDigits 10 (r.den / r.num)).length = k at *
    split
    next exact =>
      have exact : (r.num * 10 ^ (k - 1) : ℚ) = r.den := by exact_mod_cast exact
      rw [value, ← exact, show 2 - (k : ℤ) - 1 =
        -(k - 1 : ℕ) by omega, zpow_neg, zpow_natCast, div_mul_cancel_left₀ nn.ne']
    next =>
      have more : r.den < 10 ^ k * r.num := (Nat.div_lt_iff_lt_mul num).mp most
      have more : (r.den : ℚ) < 10 ^ k * r.num := by exact_mod_cast more
      rw [value, show 1 - (k : ℤ) - 1 =
        -(k : ℕ) by omega, zpow_neg, zpow_natCast, inv_le_iff_one_le_mul₀ (by positivity),
        div_mul_eq_mul_div, le_div_iff₀ dn]
      linarith

end ClassInit.Number.Ratio
