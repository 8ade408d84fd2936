import ClassInit.Number.Decimal
import ClassInit.Proofs.Number.Values

/-!
# Shortest decimals

The decimal that is found for a number of a format lies in the rounding interval of the number
(`BinaryFormat.shortest_covered`). The search ends with a grid that is finer than the interval, so
that one of the two neighbours of the number on it is a hit.
-/

set_option autoImplicit false

namespace ClassInit.Number

/-! ## Rounding intervals -/

/-- A positive number as the format holds it: with a full significand, or with the least
exponent. -/
structure BinaryFormat.Holds (f : BinaryFormat) (x : Scaled) : Prop where
  positive : 0 < x.significand
  fits : x.significand < 2 ^ (f.fractionBits + 1)
  least : f.minExponent ≤ x.exponent
  full : x.significand < 2 ^ f.fractionBits → x.exponent = f.minExponent

namespace Scaled

def value (x : Scaled) : ℚ := x.significand * 2 ^ x.exponent

end Scaled

namespace BinaryFormat

/-- Below the number its neighbour is only half as far away as above it. -/
def IsNarrow (f : BinaryFormat) (x : Scaled) : Prop :=
  x.significand = Nat.pow 2 f.fractionBits ∧ f.minExponent < x.exponent

instance (f : BinaryFormat) (x : Scaled) : Decidable (f.IsNarrow x) := by
  unfold IsNarrow
  infer_instance

/-- The distance of a number from the lower end of its interval, in units of its last place. -/
def reachBelow (f : BinaryFormat) (x : Scaled) : ℚ := if f.IsNarrow x then 1 / 4 else 1 / 2

/-- The reals that round to the number. The ends of the interval do so if the significand is
even. -/
structure Covers (f : BinaryFormat) (x : Scaled) (v : ℚ) : Prop where
  low : (x.significand - f.reachBelow x) * 2 ^ x.exponent ≤ v
  high : v ≤ (x.significand + 1 / 2) * 2 ^ x.exponent
  tie : v = (x.significand - f.reachBelow x) * 2 ^ x.exponent ∨
    v = (x.significand + 1 / 2) * 2 ^ x.exponent →
    x.significand % 2 = 0

variable {f : BinaryFormat} {x : Scaled}

theorem quarter (e : ℤ) : (2 : ℚ) ^ (e - 2) = 2 ^ e / 4 := by
  rw [zpow_sub₀ two_ne_zero]
  norm_num

theorem value_interval (f : BinaryFormat) (x : Scaled) : (f.interval x).value.value = x.value := by
  show (Ratio.ofBinary (4 * x.significand) (x.exponent - 2)).value = _
  rw [Ratio.value_ofBinary, quarter, Scaled.value]
  push_cast
  ring

theorem value_high (f : BinaryFormat) (x : Scaled) :
    (f.interval x).high.value = (x.significand + 1 / 2) * 2 ^ x.exponent := by
  show (Ratio.ofBinary (4 * x.significand + 2) (x.exponent - 2)).value = _
  rw [Ratio.value_ofBinary, quarter]
  push_cast
  ring

theorem value_low (positive : 0 < x.significand) :
    (f.interval x).low.value = (x.significand - f.reachBelow x) * 2 ^ x.exponent := by
  show (Ratio.ofBinary (if f.IsNarrow x then 4 * x.significand - 1 else 4 * x.significand - 2)
    (x.exponent - 2)).value = _
  rw [Ratio.value_ofBinary, quarter, reachBelow]
  split
  next =>
    rw [Nat.cast_sub (by omega)]
    push_cast
    ring
  next =>
    rw [Nat.cast_sub (by omega)]
    push_cast
    ring

theorem contains_iff {r : Ratio} (positive : 0 < x.significand) (den : 0 < r.den) :
    (f.interval x).contains r = true ↔ f.Covers x r.value := by
  have low : 0 < (f.interval x).low.den := Ratio.den_ofBinary _ _
  have high : 0 < (f.interval x).high.den := Ratio.den_ofBinary _ _
  have closed : (f.interval x).closed = (x.significand % 2 == 0) := rfl
  unfold RoundingInterval.contains
  rw [closed]
  split
  next even =>
    have even : x.significand % 2 = 0 := beq_iff_eq.mp even
    rw [Bool.and_eq_true, Ratio.le_iff low den, Ratio.le_iff den high, value_low positive,
      value_high]
    exact ⟨fun h => ⟨h.1, h.2, fun _ => even⟩, fun h => ⟨h.low, h.high⟩⟩
  next odd =>
    have odd : x.significand % 2 ≠ 0 := fun even => odd (beq_iff_eq.mpr even)
    rw [Bool.and_eq_true, Ratio.lt_iff low den, Ratio.lt_iff den high, value_low positive,
      value_high]
    constructor
    · rintro ⟨above, below⟩
      exact ⟨above.le, below.le, fun ends => absurd ends (not_or.mpr ⟨above.ne', below.ne⟩)⟩
    · intro h
      exact ⟨lt_of_le_of_ne h.low fun same => odd (h.tie (.inl same.symm)),
        lt_of_le_of_ne h.high fun same => odd (h.tie (.inr same))⟩

end BinaryFormat

/-! ## Grids -/

namespace RoundingInterval

/-- What a grid offers lies in the interval. -/
theorem contains_of_onGrid? {i : RoundingInterval} {tie : TieRule} {e : ℤ} {d : DecimalValue}
    (found : i.onGrid? tie e = some d) : i.contains (.ofDecimal d.digits d.exponent) = true := by
  unfold onGrid? at found
  dsimp only at found
  split at found
  next => cases found
  next lower _ =>
    cases found
    exact lower
  next _ upper =>
    cases found
    exact upper
  next lower upper =>
    split at found
    next =>
      cases found
      exact lower
    next =>
      split at found
      next =>
        cases found
        exact upper
      next =>
        split at found
        next =>
          cases found
          exact lower
        next =>
          cases found
          exact upper

/-- The search ends with a hit if some grid that it reaches has one. -/
theorem contains_search {i : RoundingInterval} {tie : TieRule} {n : ℕ} {magnitude : ℤ}
    (hit : ∃ k < n, i.onGrid? tie (magnitude - 1 - (k : ℕ)) ≠ none) :
    i.contains (.ofDecimal (i.search tie magnitude n).digits (i.search tie magnitude n).exponent) =
      true := by
  induction n generalizing magnitude with
  | zero =>
    obtain ⟨k, less, -⟩ := hit
    exact absurd less (Nat.not_lt_zero k)
  | succ n ih =>
    rw [search]
    cases found : i.onGrid? tie (magnitude - 1) with
    | some d => exact contains_of_onGrid? found
    | none =>
      obtain ⟨k, less, hit⟩ := hit
      cases k with
      | zero =>
        rw [Nat.cast_zero, sub_zero] at hit
        exact absurd found hit
      | succ k =>
        refine ih ⟨k, by omega, ?_⟩
        rw [Nat.cast_succ, show magnitude - 1 - ((k : ℤ) + 1) =
          magnitude - 1 - 1 - k by ring] at hit
        exact hit

/-- A grid that is finer than the interval has a hit: the number lies between two points of the
grid, and they cannot both lie outside. -/
theorem onGrid?_ne_none {f : BinaryFormat} {x : Scaled} (holds : 0 < x.significand) (tie : TieRule)
    {e : ℤ} (finer : (10 : ℚ) ^ e < (f.reachBelow x + 1 / 2) * 2 ^ x.exponent) :
    (f.interval x).onGrid? tie e ≠ none := by
  have ten : (0 : ℚ) < 10 ^ e := by positivity
  have two : (0 : ℚ) < 2 ^ x.exponent := by positivity
  have reach : 0 < f.reachBelow x := by
    unfold BinaryFormat.reachBelow
    split <;> norm_num
  have unit : (Ratio.ofDecimal 1 e).value = 10 ^ e := by
    rw [Ratio.value_ofDecimal, Nat.cast_one, one_mul]
  have between :=
    Ratio.quotient_spec (a := (f.interval x).value) (Ratio.den_ofBinary _ _)
      (Ratio.den_ofDecimal 1 e)
    (by rw [unit]; exact ten)
  rw [unit, BinaryFormat.value_interval, Scaled.value] at between
  intro missing
  unfold onGrid? at missing
  dsimp only at missing
  generalize (f.interval x).value.quotient (.ofDecimal 1 e) = below at *
  have lower := BinaryFormat.contains_iff (f := f) holds (Ratio.den_ofDecimal below e)
  have upper := BinaryFormat.contains_iff (f := f) holds (Ratio.den_ofDecimal (below + 1) e)
  rw [Ratio.value_ofDecimal] at lower upper
  rw [Nat.cast_succ] at upper
  obtain ⟨beneath, beyond⟩ := between
  split at missing
  next notLower notUpper =>
    -- The lower point is below the interval and the upper one above it, so that the interval fits
    -- between them.
    have notLower : ¬f.Covers x (below * 10 ^ e) := fun covers => by
      rw [lower.mpr covers] at notLower; cases notLower
    have notUpper : ¬f.Covers x ((below + 1) * 10 ^ e) := fun covers => by
      rw [upper.mpr covers] at notUpper
      cases notUpper
    have low : (below : ℚ) * 10 ^ e ≤ (x.significand - f.reachBelow x) * 2 ^ x.exponent := by
      by_contra! above
      refine notLower ⟨above.le, by nlinarith, ?_⟩
      rintro (same | same)
      · exact absurd same above.ne'
      · nlinarith
    have high : (x.significand + 1 / 2) * 2 ^ x.exponent ≤ ((below : ℚ) + 1) * 10 ^ e := by
      by_contra! less
      refine notUpper ⟨by nlinarith, less.le, ?_⟩
      rintro (same | same)
      · nlinarith
      · exact absurd same less.ne
    nlinarith
  next => cases missing
  next => cases missing
  next =>
    split at missing
    next => cases missing
    next =>
      split at missing
      next => cases missing
      next => split at missing <;> cases missing

end RoundingInterval

/-! ## Shortest decimals -/

namespace DecimalValue

def value (d : DecimalValue) : ℚ := d.digits * 10 ^ d.exponent

theorem value_strip (n : ℕ) (d : DecimalValue) : (d.strip n).value = d.value := by
  induction n generalizing d with
  | zero => rfl
  | succ n ih =>
    rw [strip]
    split
    next zeros =>
      have digits : ((d.digits / 10 : ℕ) : ℚ) * 10 = d.digits := by
        exact_mod_cast Nat.div_mul_cancel (Nat.dvd_of_mod_eq_zero zeros.1)
      rw [ih, value, value, ← digits, zpow_add_one₀ (by norm_num)]
      ring
    next => rfl

end DecimalValue

namespace BinaryFormat

/-- The shortest decimal of a number rounds to the number. -/
theorem shortest_covered {f : BinaryFormat} {x : Scaled} (holds : f.Holds x)
    (digits : 2 ^ (f.fractionBits + 1) ≤ 10 ^ 16) (tie : TieRule) :
    f.Covers x (f.shortest tie x).value := by
  have positive := holds.positive
  have two : (0 : ℚ) < 2 ^ x.exponent := by positivity
  have num : 0 < (f.interval x).value.num := by
    have value : 0 < (f.interval x).value.value := by
      rw [value_interval, Scaled.value]
      positivity
    exact (Ratio.value_pos_iff (Ratio.den_ofBinary _ _)).mp value
  have least := Ratio.pow_magnitude_le num (Ratio.den_ofBinary _ _)
  rw [value_interval, Scaled.value] at least
  obtain ⟨magnitude, defined⟩ : ∃ magnitude, magnitude = (f.interval x).value.magnitude := ⟨_, rfl⟩
  rw [← defined] at least
  -- Seventeen digits are more than the significand has.
  have split : (10 : ℚ) ^ (magnitude - 1) = 10 ^ 16 * 10 ^ (magnitude - 1 - (16 : ℕ)) := by
    rw [← zpow_natCast, ← zpow_add₀ (by norm_num)]
    congr 1
    push_cast
    ring
  have digits : ((2 : ℚ) ^ f.fractionBits) * 2 ≤ 10 ^ 16 := by
    rw [pow_succ] at digits
    exact_mod_cast digits
  have fits : (x.significand : ℚ) < 2 ^ f.fractionBits * 2 := by
    have fits := holds.fits
    rw [pow_succ] at fits
    exact_mod_cast fits
  have finer :
      (10 : ℚ) ^ (magnitude - 1 - (16 : ℕ)) < (f.reachBelow x + 1 / 2) * 2 ^ x.exponent := by
    rw [split] at least
    generalize (10 : ℚ) ^ (magnitude - 1 - (16 : ℕ)) = unit at *
    generalize (2 : ℚ) ^ x.exponent = place at *
    unfold reachBelow
    split
    next narrow =>
      have power : (x.significand : ℚ) = 2 ^ f.fractionBits := by exact_mod_cast narrow.1
      have half := mul_le_mul_of_nonneg_right digits two.le
      rw [power] at least
      linarith
    next =>
      have whole := mul_lt_mul_of_pos_right (lt_of_lt_of_le fits digits) two
      linarith
  have hit := RoundingInterval.onGrid?_ne_none positive tie finer
  have found := RoundingInterval.contains_search (n := 17) ⟨16, by decide, hit⟩
  rw [contains_iff positive (Ratio.den_ofDecimal _ _), Ratio.value_ofDecimal] at found
  rw [shortest, DecimalValue.value_strip, ← defined]
  exact found

end BinaryFormat

end ClassInit.Number
