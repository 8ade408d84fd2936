import ClassInit.Number.Rounding

/-!
Written decimals: a sign, digits with a point among them, and an optional power of ten. A layout
says when a number is written positionally and when with a power of ten. Reading rounds a written
decimal once, to the nearest number of a binary format.
-/

set_option autoImplicit false

namespace ClassInit.Number

/-- A decimal as it is written: `digits` with the last `places` of them after the point, and the
power of ten if one is given. -/
structure Decimal where
  negative : Bool
  digits : Nat
  places : Nat
  exponent : Option Int
deriving DecidableEq, Inhabited

namespace Decimal

/-- Digits with a point before the last `places` of them; at least one digit stands before it. -/
def pointed (digits places : Nat) : List Char :=
  let cs := Nat.toDigits 10 digits
  if places = 0 then cs
  else
    let padded := List.replicate (places + 1 - cs.length) '0' ++ cs
    let whole := padded.length - places
    padded.take whole ++ '.' :: padded.drop whole

/-- The decimal numeral of an integer. -/
def integer (n : Int) : List Char :=
  if n < 0 then '-' :: Nat.toDigits 10 n.natAbs else Nat.toDigits 10 n.natAbs

/-- How a power of ten is written: the mark before it, and whether one that is not negative has a
plus sign. -/
structure ExponentStyle where
  mark : Char
  plus : Bool

/-- Concatenation marks a power of ten with a capital letter and writes no plus sign. -/
def ExponentStyle.concat : ExponentStyle := ⟨'E', false⟩

/-- Documents mark a power of ten with a small letter and write every sign. -/
def ExponentStyle.document : ExponentStyle := ⟨'e', true⟩

/-- The power of ten with its mark. -/
def ExponentStyle.chars (s : ExponentStyle) (e : Int) : List Char :=
  s.mark :: ((if s.plus ∧ 0 ≤ e then ['+'] else []) ++ integer e)

/-- The written form. -/
def chars (s : ExponentStyle) (d : Decimal) : List Char :=
  (if d.negative then ['-'] else []) ++ pointed d.digits d.places ++
    match d.exponent with
    | none => []
    | some e => s.chars e

/-- Above this power of ten no number of a format is finite, and below its inverse all are rounded
to zero. -/
def reach : Int := 400

/-- The bit pattern of the nearest number of a format to the decimal without its sign; none if it is
too large to be finite. -/
def magnitudeBits? (f : BinaryFormat) (d : Decimal) : Option Nat :=
  let exponent : Int := d.exponent.getD 0 - d.places
  let top : Int := exponent + (Nat.toDigits 10 d.digits).length
  if d.digits = 0 ∨ top < -reach then some 0
  else if reach < top then none
  else f.nearestBits? (.ofDecimal d.digits exponent)

/-- The bit pattern of the nearest number of a format; none if it is too large to be finite. -/
def bits? (f : BinaryFormat) (d : Decimal) : Option Nat :=
  (d.magnitudeBits? f).map fun bits => if d.negative then bits + f.signWeight else bits

/-- The nearest number of the 64-bit format; none if it is too large to be finite. -/
def toFloat? (d : Decimal) : Option Float :=
  (d.bits? .double).map fun bits => Float.ofBits bits.toUInt64

/-- The nearest number of the 32-bit format; none if it is too large to be finite. -/
def toFloat32? (d : Decimal) : Option Float32 :=
  (d.bits? .single).map fun bits => Float32.ofBits bits.toUInt32

/-- An integer as a decimal. -/
def ofInt (n : Int) : Decimal := ⟨n < 0, n.natAbs, 0, none⟩

end Decimal

/-- When a number is written positionally, by the number of digits before its point, and whether a
single digit before a power of ten still gets a point. -/
structure Layout where
  least : Int
  most : Int
  alwaysPointed : Bool

namespace Layout

/-- Concatenation writes magnitudes from `0.001` to below ten million positionally. -/
def concat : Layout := ⟨-2, 7, true⟩

/-- Documents write 32-bit numbers positionally from five zeros after the point to thirteen digits
before it. -/
def document32 : Layout := ⟨-5, 13, false⟩

/-- Documents write 64-bit numbers positionally from four zeros after the point to sixteen digits
before it. -/
def document64 : Layout := ⟨-4, 16, false⟩

/-- Lays out the shortest decimal of a number. -/
def write (l : Layout) (negative : Bool) (d : DecimalValue) : Decimal :=
  let count := (Nat.toDigits 10 d.digits).length
  let magnitude : Int := count + d.exponent
  if l.least ≤ magnitude ∧ magnitude ≤ l.most then
    if d.exponent < 0 then ⟨negative, d.digits, (-d.exponent).toNat, none⟩
    else ⟨negative, d.digits * Nat.pow 10 (d.exponent.toNat + 1), 1, none⟩
  else if count = 1 ∧ l.alwaysPointed then ⟨negative, d.digits * 10, 1, some (magnitude - 1)⟩
  else ⟨negative, d.digits, count - 1, some (magnitude - 1)⟩

/-- Lays out a finite number of a binary format; zero is written with one place. -/
def writeBinary (l : Layout) (f : BinaryFormat) (tie : TieRule) (negative : Bool) (x : Scaled) :
    Decimal :=
  if x.significand = 0 then ⟨negative, 0, 1, none⟩ else l.write negative (f.shortest tie x)

end Layout

/-- The text of a floating-point operand of a concatenation, from its bit pattern. -/
def concatText (f : BinaryFormat) (bits : Nat) : String :=
  match f.decode bits with
  | .nan => "NaN"
  | .infinite negative => if negative then "-Infinity" else "Infinity"
  | .finite negative x => String.ofList ((Layout.concat.writeBinary f .up negative x).chars .concat)

/-- The decimal of a floating-point number in a document, from its bit pattern; none for what no
document can hold. -/
def documentDecimal? (f : BinaryFormat) (l : Layout) (bits : Nat) : Option Decimal :=
  match f.decode bits with
  | .finite negative x => some (l.writeBinary f .even negative x)
  | _ => none

end ClassInit.Number
