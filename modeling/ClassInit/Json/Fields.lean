import ClassInit.Json.Basic

/-!
Taking JSON values apart. A record is an object whose fields are asked for by name: a field that is
asked for may stand only once, and fields nobody asks for are ignored. A case of a variant type is
its name, or an object whose only field is named for it.
-/

set_option autoImplicit false

namespace ClassInit.Json

/-- The fields of an object. -/
def fields? : Json → Option (List (String × Json))
  | obj fields => some fields
  | _ => none

/-- The fields of a record that have a given name. -/
def named (fields : List (String × Json)) (name : String) : List Json :=
  (fields.filter (·.1 == name)).map (·.2)

/-- A field that has to be there. -/
def required {α : Type} (fields : List (String × Json)) (name : String) (read : Json → Option α) :
    Option α :=
  match named fields name with
  | [j] => read j
  | _ => none

/-- A field that may be missing, and then has a default. -/
def withDefault {α : Type} (fields : List (String × Json)) (name : String) (default : α)
    (read : Json → Option α) : Option α :=
  match named fields name with
  | [] => some default
  | [j] => read j
  | _ => none

/-- Null, or a value. -/
def nullable? {α : Type} (read : Json → Option α) : Json → Option (Option α)
  | null => some none
  | j => (read j).map some

/-- A field that may be missing or null. -/
def nullableField {α : Type} (fields : List (String × Json)) (name : String)
    (read : Json → Option α) : Option (Option α) :=
  withDefault fields name none (nullable? read)

/-- The name of a case with its data, if it has any. -/
def case? : Json → Option (String × Option Json)
  | str name => some (name, none)
  | obj [(name, j)] => some (name, some j)
  | _ => none

def bool? : Json → Option Bool
  | bool b => some b
  | _ => none

def string? : Json → Option String
  | str s => some s
  | _ => none

/-- The items of an array, each of them read. -/
def list? {α : Type} (read : Json → Option α) : Json → Option (List α)
  | arr items => items.mapM read
  | _ => none

/-- An integer within bounds, ends included. -/
def integer? (least most : Int) : Json → Option Int
  | int n => if least ≤ n ∧ n ≤ most then some n else none
  | _ => none

/-- A natural number below `2 ^ 32`. -/
def index? (j : Json) : Option Nat := (integer? 0 (UInt32.size - 1 : Nat) j).map Int.toNat

def uint32? (j : Json) : Option UInt32 := (index? j).map Nat.toUInt32

def uint16? (j : Json) : Option UInt16 :=
  (integer? 0 (UInt16.size - 1 : Nat) j).map fun n => n.toNat.toUInt16

def int8? (j : Json) : Option Int8 :=
  (integer? Int8.minValue.toInt Int8.maxValue.toInt j).map Int.toInt8

def int16? (j : Json) : Option Int16 :=
  (integer? Int16.minValue.toInt Int16.maxValue.toInt j).map Int.toInt16

def int32? (j : Json) : Option Int32 :=
  (integer? Int32.minValue.toInt Int32.maxValue.toInt j).map Int.toInt32

def int64? (j : Json) : Option Int64 :=
  (integer? Int64.minValue.toInt Int64.maxValue.toInt j).map Int.toInt64

/-- A number, rounded to the nearest of the 64-bit format. The reader of numerals is taken to round
correctly, so that a number that was written comes back. -/
def float64? : Json → Option Float
  | int n => (Number.Decimal.ofInt n).toFloat?
  | decimal d => d.toFloat?
  | float64 x => if x.isFinite then some x else none
  | _ => none

/-- A number, rounded to the nearest of the 32-bit format. A written number that is too large for it
is refused, but a number of the 64-bit format that is too large becomes an infinity. -/
def float32? : Json → Option Float32
  | int n => (Number.Decimal.ofInt n).toFloat32?
  | decimal d => d.toFloat32?
  | float32 x => if x.isFinite then some x else none
  | float64 x => if x.isFinite then some x.toFloat32 else none
  | _ => none

end ClassInit.Json
