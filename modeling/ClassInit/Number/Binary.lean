/-!
Binary floating-point numbers as integers: a finite number is a signed significand times a power of
two, read from and written to its bit pattern. `remainder` works on that form, where it is exact.
-/

set_option autoImplicit false

namespace ClassInit.Number

/-- The field widths of a binary interchange format. -/
structure BinaryFormat where
  fractionBits : Nat
  exponentBits : Nat
deriving DecidableEq

namespace BinaryFormat

/-- The 32-bit format. -/
def single : BinaryFormat := ⟨23, 8⟩

/-- The 64-bit format. -/
def double : BinaryFormat := ⟨52, 11⟩

/-- The exponent of the last significand place of the smallest numbers. -/
def minExponent (f : BinaryFormat) : Int :=
  2 - (Nat.pow 2 (f.exponentBits - 1) : Int) - f.fractionBits

/-- The exponent field of infinities and of what is not a number. -/
def topField (f : BinaryFormat) : Nat := Nat.pow 2 f.exponentBits - 1

/-- The weight of the sign in a bit pattern. -/
def signWeight (f : BinaryFormat) : Nat := Nat.pow 2 (f.fractionBits + f.exponentBits)

end BinaryFormat

/-- A non-negative finite number `significand * 2 ^ exponent`. -/
structure Scaled where
  significand : Nat
  exponent : Int
deriving DecidableEq, Inhabited

/-- What a bit pattern stands for. -/
inductive Decoded where
  | finite (negative : Bool) (magnitude : Scaled)
  | infinite (negative : Bool)
  | nan
deriving DecidableEq, Inhabited

namespace BinaryFormat

/-- Reads a bit pattern. -/
def decode (f : BinaryFormat) (bits : Nat) : Decoded :=
  let negative := bits / f.signWeight % 2 == 1
  let field := bits / Nat.pow 2 f.fractionBits % Nat.pow 2 f.exponentBits
  let fraction := bits % Nat.pow 2 f.fractionBits
  if field = f.topField then
    if fraction = 0 then .infinite negative else .nan
  else if field = 0 then .finite negative ⟨fraction, f.minExponent⟩
  else .finite negative ⟨Nat.pow 2 f.fractionBits + fraction, f.minExponent + field - 1⟩

/-- The bit pattern of a non-negative number that the format holds exactly. -/
def encode (f : BinaryFormat) (x : Scaled) : Nat :=
  if x.significand = 0 then 0
  else
    let top : Int := x.exponent + x.significand.log2
    let place : Int := max (top - f.fractionBits) f.minExponent
    let aligned :=
      if place ≤ x.exponent then x.significand * Nat.pow 2 (x.exponent - place).toNat
      else x.significand / Nat.pow 2 (place - x.exponent).toNat
    if aligned < Nat.pow 2 f.fractionBits then aligned
    else (place - f.minExponent).toNat * Nat.pow 2 f.fractionBits + aligned

end BinaryFormat

/-- The remainder of a truncated division of two magnitudes. -/
def Scaled.remainder (x y : Scaled) : Scaled :=
  let place := min x.exponent y.exponent
  let whole (z : Scaled) : Nat := z.significand * Nat.pow 2 (z.exponent - place).toNat
  ⟨whole x % whole y, place⟩

/-- The bit pattern of the remainder of a truncated division, which has the sign of the dividend.
Nothing is left of a division by zero or of an infinity; a division by an infinity leaves the
dividend. -/
def remainderBits (f : BinaryFormat) (x y : Nat) : Option Nat :=
  match f.decode x, f.decode y with
  | .finite negative a, .finite _ b =>
    if b.significand = 0 then none
    else
      let r := f.encode (a.remainder b)
      some (if negative then r + f.signWeight else r)
  | .finite _ _, .infinite _ => some x
  | _, _ => none

/-- The floating-point remainder with the sign of the dividend. -/
def remainder64 (x y : Float) : Float :=
  match remainderBits .double x.toBits.toNat y.toBits.toNat with
  | some bits => Float.ofBits bits.toUInt64
  | none => Float.ofBits 0x7FF8000000000000

/-- The floating-point remainder with the sign of the dividend. -/
def remainder32 (x y : Float32) : Float32 :=
  match remainderBits .single x.toBits.toNat y.toBits.toNat with
  | some bits => Float32.ofBits bits.toUInt32
  | none => Float32.ofBits 0x7FC00000

end ClassInit.Number
