import ClassInit.Number.Binary

/-!
Shortest decimals: the decimal with the fewest digits that rounds to a given binary number and,
among those, the nearest to it. A caller says what becomes of an exact tie. All arithmetic is on
natural numbers.
-/

set_option autoImplicit false

namespace ClassInit.Number

/-- A non-negative fraction. -/
structure Ratio where
  num : Nat
  den : Nat
deriving DecidableEq, Inhabited

namespace Ratio

/-- `n * 2 ^ e`. -/
def ofBinary (n : Nat) (e : Int) : Ratio :=
  if 0 ≤ e then ⟨n * Nat.pow 2 e.toNat, 1⟩ else ⟨n, Nat.pow 2 (-e).toNat⟩

/-- `n * 10 ^ e`. -/
def ofDecimal (n : Nat) (e : Int) : Ratio :=
  if 0 ≤ e then ⟨n * Nat.pow 10 e.toNat, 1⟩ else ⟨n, Nat.pow 10 (-e).toNat⟩

def le (a b : Ratio) : Bool := a.num * b.den ≤ b.num * a.den

def lt (a b : Ratio) : Bool := a.num * b.den < b.num * a.den

/-- The whole part of `a / b`. -/
def quotient (a b : Ratio) : Nat := (a.num * b.den) / (a.den * b.num)

end Ratio

/-- The interval of reals that round to a positive binary number, with the number itself. The ends
belong to it exactly if the significand is even. -/
structure RoundingInterval where
  value : Ratio
  low : Ratio
  high : Ratio
  closed : Bool

/-- The rounding interval of a positive number of a format. Below a power of two the neighbour is
only half as far away. -/
def BinaryFormat.interval (f : BinaryFormat) (x : Scaled) : RoundingInterval :=
  let m := x.significand
  let place := x.exponent - 2
  let narrow := m = Nat.pow 2 f.fractionBits ∧ f.minExponent < x.exponent
  { value := .ofBinary (4 * m) place
    low := .ofBinary (if narrow then 4 * m - 1 else 4 * m - 2) place
    high := .ofBinary (4 * m + 2) place
    closed := m % 2 == 0 }

def RoundingInterval.contains (i : RoundingInterval) (r : Ratio) : Bool :=
  if i.closed then i.low.le r && r.le i.high else i.low.lt r && r.lt i.high

/-- The number of decimal digits before the point of a positive fraction; zero or negative where the
fraction starts with zeros after the point. -/
def Ratio.magnitude (r : Ratio) : Int :=
  if r.den ≤ r.num then (Nat.toDigits 10 (r.num / r.den)).length
  else
    let zeros := (Nat.toDigits 10 (r.den / r.num)).length
    if r.num * Nat.pow 10 (zeros - 1) = r.den then 2 - (zeros : Int) else 1 - (zeros : Int)

/-- Which neighbour an exact tie goes to. -/
inductive TieRule where
  | up
  | even
deriving DecidableEq, Inhabited

/-- A positive decimal `digits * 10 ^ exponent`. -/
structure DecimalValue where
  digits : Nat
  exponent : Int
deriving DecidableEq, Inhabited

/-- The better of the two decimals on the grid `10 ^ exponent` around the number that lie in its
rounding interval. -/
def RoundingInterval.onGrid? (i : RoundingInterval) (tie : TieRule) (exponent : Int) :
    Option DecimalValue :=
  let below := i.value.quotient (.ofDecimal 1 exponent)
  let lower := Ratio.ofDecimal below exponent
  let upper := Ratio.ofDecimal (below + 1) exponent
  match i.contains lower, i.contains upper with
  | false, false => none
  | true, false => some ⟨below, exponent⟩
  | false, true => some ⟨below + 1, exponent⟩
  | true, true =>
    let middle := Ratio.ofDecimal (10 * below + 5) (exponent - 1)
    if i.value.lt middle then some ⟨below, exponent⟩
    else if middle.lt i.value then some ⟨below + 1, exponent⟩
    else if tie = .even ∧ below % 2 = 0 then some ⟨below, exponent⟩
    else some ⟨below + 1, exponent⟩

/-- The first grid with a hit, from one digit to as many as `count` allows. -/
def RoundingInterval.search (i : RoundingInterval) (tie : TieRule) (magnitude : Int) :
    Nat → DecimalValue
  | 0 => ⟨0, 0⟩
  | left + 1 =>
    match i.onGrid? tie (magnitude - 1) with
    | some d => d
    | none => search i tie (magnitude - 1) left

/-- Moves trailing zeros of the digits into the exponent. -/
def DecimalValue.strip : Nat → DecimalValue → DecimalValue
  | 0, d => d
  | n + 1, d =>
    if d.digits % 10 = 0 ∧ d.digits ≠ 0 then strip n ⟨d.digits / 10, d.exponent + 1⟩ else d

/-- The shortest decimal of a positive number of a format. Seventeen digits are enough for every
number of 64 bits. -/
def BinaryFormat.shortest (f : BinaryFormat) (tie : TieRule) (x : Scaled) : DecimalValue :=
  let i := f.interval x
  (i.search tie i.value.magnitude 17).strip 17

end ClassInit.Number
