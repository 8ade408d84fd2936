/-!
Literal encodings: which characters a string literal of the target can hold. A text that does not
survive its encoding cannot stay a literal and has to be built at run time.
-/

set_option autoImplicit false

namespace ClassInit

/-- A character policy for the string literals of the target. -/
inductive LiteralEncoding where
  /-- Narrow literals: printable ASCII, the controls that have a simple escape, and the Basic
  Multilingual Plane without the C1 controls and the noncharacters. -/
  | cpp
  /-- Printable ASCII with tab, line feed and carriage return. -/
  | ascii
deriving DecidableEq, Inhabited

namespace LiteralEncoding

/-- Whether a narrow literal can hold the character. The controls with a simple escape are those
from bell to carriage return; supplementary characters would need a surrogate pair. -/
def isNarrow (c : Char) : Bool :=
  let n := c.toNat
  if 0x07 ≤ n ∧ n ≤ 0x0D then true
  else if n ≤ 0x1F then false
  else if n ≤ 0x7E then true
  else if n ≤ 0x9F then false
  else if (0xFDD0 ≤ n ∧ n ≤ 0xFDEF) ∨ n = 0xFFFE ∨ n = 0xFFFF then false
  else n ≤ 0xFFFF

/-- Whether plain ASCII can hold the character. -/
def isPlain (c : Char) : Bool :=
  c == '\t' || c == '\n' || c == '\r' || (' ' ≤ c && c ≤ '~')

def admitsChar : LiteralEncoding → Char → Bool
  | cpp, c => isNarrow c
  | ascii, c => isPlain c

/-- Whether every character of the text can stand in a literal. -/
def admits (encoding : LiteralEncoding) (text : String) : Bool :=
  text.toList.all encoding.admitsChar

end LiteralEncoding

end ClassInit
