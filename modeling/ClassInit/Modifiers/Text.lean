import ClassInit.Modifiers
import ClassInit.Text.Blank
import ClassInit.Text.Hex

/-!
The text form of a modifier set: the names of its flags by rising bit, then the bits without a name
as one hexadecimal number, joined by bars. Reading allows blanks around a name and a number in any
place.
-/

set_option autoImplicit false

namespace ClassInit.Modifiers

/-- The written form of a set as the list of its parts. -/
def parts (s : Modifiers) : List (List Char) :=
  (Modifier.all.filter s.contains).map (·.name.toList) ++
    if s.unnamed == 0 then [] else ['0' :: 'x' :: Text.hexDigits s.unnamed.toNat]

/-- The written form of a set; the empty set is the empty text. -/
def text (s : Modifiers) : String :=
  String.ofList ([' ', '|', ' '].intercalate s.parts)

/-- The bits that a hexadecimal number gives; it may carry a plus sign and has to fit in 32 bits. -/
def bitsOfHex? (cs : List Char) : Option Modifiers := do
  let digits := match cs with
    | '+' :: rest => rest
    | _ => cs
  let n ← Text.hexNumber? digits
  if n < UInt32.size then some ⟨n.toUInt32⟩ else none

/-- The set that one part of the written form stands for. -/
def ofPart? (cs : List Char) : Option Modifiers :=
  match cs with
  | '0' :: 'x' :: digits => bitsOfHex? digits
  | _ => (Modifier.all.find? (·.name.toList == cs)).map of

/-- The set that a text denotes. A blank text is the empty set; an empty name between bars is
refused. -/
def ofText? (s : String) : Option Modifiers :=
  if s.toList.all Text.isBlank then some empty
  else ((s.toList.splitOn '|').map Text.trim).foldlM
    (fun set part => (ofPart? part).map set.union) empty

end ClassInit.Modifiers
