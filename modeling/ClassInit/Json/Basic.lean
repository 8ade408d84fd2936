import ClassInit.Number.Decimal

/-!
JSON values. A number keeps whether it was written as an integer; a binary floating-point number
stands for its shortest decimal. An object keeps its fields in their written order. A string whose
surrogates are not paired is no text, but a value may hold it where nobody reads it, and likewise
for what stands too deep in a document.
-/

set_option autoImplicit false

namespace ClassInit

/-- A JSON value as it is built or as it was read. -/
inductive Json where
  | null
  | bool (value : Bool)
  | int (value : Int)
  | decimal (value : Number.Decimal)
  /-- A number to be written as its shortest decimal, or as null if it is not finite. -/
  | float32 (value : Float32)
  /-- A number to be written as its shortest decimal, or as null if it is not finite. -/
  | float64 (value : Float)
  | str (value : String)
  | arr (items : List Json)
  | obj (fields : List (String × Json))
  /-- A string with an unpaired surrogate, an object with such a name, or an array or object that
  stands too deep in a document. It has no content to read, and it is written as null. -/
  | unreadable
deriving Inhabited

namespace Json

mutual

/-- The number of levels of a value; a value without parts has one. -/
def depth : Json → Nat
  | arr items => depthList items + 1
  | obj fields => depthFields fields + 1
  | _ => 1

/-- The greatest depth of the values. -/
def depthList : List Json → Nat
  | [] => 0
  | j :: js => max j.depth (depthList js)

/-- The greatest depth of the values of the fields. -/
def depthFields : List (String × Json) → Nat
  | [] => 0
  | (_, j) :: fs => max j.depth (depthFields fs)

end

/-- Null or the written value. -/
def ofOption {α : Type} (write : α → Json) : Option α → Json
  | none => null
  | some a => write a

def ofNat (n : Nat) : Json := int n

def ofUInt32 (n : UInt32) : Json := int n.toNat

/-- An object whose only field is named for a case. -/
def tagged (tag : String) (j : Json) : Json := obj [(tag, j)]

end Json

end ClassInit
