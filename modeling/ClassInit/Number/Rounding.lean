import ClassInit.Number.Shortest

/-!
Rounding to a binary format: the nearest number to a non-negative fraction. Of two numbers that are
equally near, the one with the even significand is taken. All arithmetic is on natural numbers.
-/

set_option autoImplicit false

namespace ClassInit.Number

namespace Ratio

/-- The nearest natural number; a half goes to the even neighbour. -/
def round (r : Ratio) : Nat :=
  let below := r.num / r.den
  let left := r.num % r.den
  if 2 * left < r.den ∨ (2 * left = r.den ∧ below % 2 = 0) then below else below + 1

/-- The exponent of the greatest power of two that a positive fraction reaches. -/
def log2 (r : Ratio) : Int :=
  let e : Int := (r.num.log2 : Int) - r.den.log2
  if (ofBinary 1 e).le r then e else e - 1

/-- The fraction divided by `2 ^ e`. -/
def unscaled (r : Ratio) (e : Int) : Ratio :=
  if 0 ≤ e then ⟨r.num, r.den * Nat.pow 2 e.toNat⟩ else ⟨r.num * Nat.pow 2 (-e).toNat, r.den⟩

end Ratio

namespace BinaryFormat

/-- The nearest number of the format to a fraction, as if the format had no largest exponent. -/
def nearest (f : BinaryFormat) (r : Ratio) : Scaled :=
  let place : Int := max (r.log2 - f.fractionBits) f.minExponent
  ⟨(r.unscaled place).round, place⟩

/-- The bit pattern of the nearest number of the format to a fraction; none if it is not finite. -/
def nearestBits? (f : BinaryFormat) (r : Ratio) : Option Nat :=
  let bits := f.encode (f.nearest r)
  if bits < f.topField * Nat.pow 2 f.fractionBits then some bits else none

end BinaryFormat

end ClassInit.Number
