/-!
UTF-16 code units. A character outside the Basic Multilingual Plane is two units, a high and a low
surrogate; a surrogate that stands alone denotes no character and reads as U+FFFD.
-/

set_option autoImplicit false

namespace ClassInit.Text

/-- The code units of one character. -/
def unitsOfChar (c : Char) : List UInt16 :=
  let n := c.toNat
  if n < 0x10000 then [n.toUInt16]
  else
    let m := n - 0x10000
    [(0xD800 + m / 0x400).toUInt16, (0xDC00 + m % 0x400).toUInt16]

/-- The code units of a text. -/
def utf16 (s : String) : List UInt16 := s.toList.flatMap unitsOfChar

/-- Whether a unit is one half of a pair. -/
def isSurrogate (u : UInt16) : Bool := 0xD800 ≤ u && u ≤ 0xDFFF

/-- The character that a code unit denotes when it stands alone. -/
def charOfUnit (u : UInt16) : Char :=
  if isSurrogate u then '\uFFFD' else Char.ofNat u.toNat

end ClassInit.Text
