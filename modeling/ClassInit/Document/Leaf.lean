import ClassInit.Json.Fields
import ClassInit.Modifiers.Text
import ClassInit.Tree.Decl

/-!
The leaves of documents: spans, modifiers, ids, types, operators, literals and constants as JSON
values. What `toJson` writes, `ofJson?` reads.
-/

set_option autoImplicit false

namespace ClassInit

open Json

/-! ## Cases without data -/

/-- Reads the name of a case, alone or with null as its data. -/
def Json.caseIn? {α : Type} (cases : List (String × α)) (j : Json) : Option α :=
  match j.case? with
  | some (name, none) | some (name, some .null) => cases.lookup name
  | _ => none

/-! ## Ids, spans and modifiers -/

/-- A node id is its number. -/
def NodeId.toJson (id : NodeId) : Json := ofUInt32 id.word

def NodeId.ofJson? (j : Json) : Option NodeId := (uint32? j).map NodeId.mk

def IdSupply.toJson (s : IdSupply) : Json := obj [("next", ofUInt32 s.next)]

def IdSupply.ofJson? (j : Json) : Option IdSupply := do
  let fs ← j.fields?
  return ⟨← required fs "next" uint32?⟩

/-- A handle is the index of its entry. -/
def TypeId.toJson (id : TypeId) : Json := ofNat id.index

def TypeId.ofJson? (j : Json) : Option TypeId := (index? j).map TypeId.mk

def VariableId.toJson (id : VariableId) : Json := ofNat id.index

def VariableId.ofJson? (j : Json) : Option VariableId := (index? j).map VariableId.mk

def MethodId.toJson (id : MethodId) : Json := ofNat id.index

def MethodId.ofJson? (j : Json) : Option MethodId := (index? j).map MethodId.mk

def Span.toJson (s : Span) : Json := obj [("start", ofUInt32 s.start), ("end", ofUInt32 s.stop)]

def Span.ofJson? (j : Json) : Option Span := do
  let fs ← j.fields?
  return ⟨← required fs "start" uint32?, ← required fs "end" uint32?⟩

/-- Modifiers are written as one text, with their names between bars. -/
def Modifiers.toJson (m : Modifiers) : Json := str m.text

def Modifiers.ofJson? (j : Json) : Option Modifiers := (string? j).bind Modifiers.ofText?

/-! ## Types -/

def TypeKind.all : List TypeKind := [.classType, .interfaceType, .enumType, .annotationType]

/-- The name of a kind in documents. -/
def TypeKind.tag : TypeKind → String
  | .classType => "class"
  | .interfaceType => "interface"
  | .enumType => "enum"
  | .annotationType => "annotation"

def TypeKind.toJson (k : TypeKind) : Json := str k.tag

def TypeKind.ofJson? : Json → Option TypeKind := caseIn? (TypeKind.all.map fun k => (k.tag, k))

def PrimitiveType.toJson (p : PrimitiveType) : Json := str p.keyword

def PrimitiveType.ofJson? : Json → Option PrimitiveType :=
  caseIn? (PrimitiveType.all.map fun p => (p.keyword, p))

def TypeName.toJson (n : TypeName) : Json :=
  obj [("name", str n.name), ("binding", ofOption TypeId.toJson n.binding)]

def TypeName.ofJson? (j : Json) : Option TypeName := do
  let fs ← j.fields?
  return ⟨← required fs "name" string?, ← nullableField fs "binding" TypeId.ofJson?⟩

/-- A type is tagged with its kind. -/
def TypeRef.toJson : TypeRef → Json
  | .primitive p => tagged "primitive" p.toJson
  | .declared n => tagged "declared" n.toJson
  | .array e => tagged "array" e.toJson
  | .null => str "null"

/-- Reads a type of at most the given number of levels. -/
def TypeRef.read : Nat → Json → Option TypeRef
  | 0, _ => none
  | fuel + 1, j =>
    match j.case? with
    | some ("primitive", some j) => (PrimitiveType.ofJson? j).map .primitive
    | some ("declared", some j) => (TypeName.ofJson? j).map .declared
    | some ("array", some j) => (TypeRef.read fuel j).map .array
    | some ("null", none) | some ("null", some .null) => some .null
    | _ => none

def TypeRef.ofJson? (j : Json) : Option TypeRef := TypeRef.read j.depth j

/-! ## Literals and constants -/

/-- A literal is written with its kind, which for a number tells the width too. -/
def Literal.toJson : Literal → Json
  | .boolean b => tagged "boolean" (bool b)
  | .char c => tagged "char" (ofNat c.toNat)
  | .null => str "null"
  | .int i => tagged "number" (tagged "int" (Json.int i.toInt))
  | .long l => tagged "number" (tagged "long" (Json.int l.toInt))
  | .float f => tagged "number" (tagged "float" (float32 f))
  | .double d => tagged "number" (tagged "double" (float64 d))
  | .string s => tagged "string" (str s)

/-- Reads the number of a literal. -/
def Literal.numberOfJson? (j : Json) : Option Literal :=
  match j.case? with
  | some ("int", some j) => (int32? j).map .int
  | some ("long", some j) => (int64? j).map .long
  | some ("float", some j) => (float32? j).map .float
  | some ("double", some j) => (float64? j).map .double
  | _ => none

def Literal.ofJson? (j : Json) : Option Literal :=
  match j.case? with
  | some ("boolean", some j) => (bool? j).map .boolean
  | some ("char", some j) => (uint16? j).map .char
  | some ("null", none) | some ("null", some .null) => some .null
  | some ("number", some j) => numberOfJson? j
  | some ("string", some j) => (string? j).map .string
  | _ => none

/-- The kind of a constant and its value. -/
def Constant.toJson (c : Constant) : Json :=
  let pair (kind : String) (value : Json) : Json := obj [("kind", str kind), ("value", value)]
  match c with
  | .boolean b => pair "boolean" (bool b)
  | .char c => pair "char" (ofNat c.toNat)
  | .byte b => pair "byte" (Json.int b.toInt)
  | .short s => pair "short" (Json.int s.toInt)
  | .int i => pair "int" (Json.int i.toInt)
  | .long l => pair "long" (Json.int l.toInt)
  | .float f => pair "float" (float32 f)
  | .double d => pair "double" (float64 d)
  | .string s => pair "string" (str s)

/-- Reads a constant; `float` and `double` say how their values are read. -/
def Constant.read (float : Json → Option Float32) (double : Json → Option Float) (j : Json) :
    Option Constant := do
  let fs ← j.fields?
  let kind ← required fs "kind" string?
  let value : (Json → Option Constant) → Option Constant := required fs "value"
  match kind with
  | "boolean" => value fun j => (bool? j).map .boolean
  | "char" => value fun j => (uint16? j).map .char
  | "byte" => value fun j => (int8? j).map .byte
  | "short" => value fun j => (int16? j).map .short
  | "int" => value fun j => (int32? j).map .int
  | "long" => value fun j => (int64? j).map .long
  | "float" => value fun j => (float j).map .float
  | "double" => value fun j => (double j).map .double
  | "string" => value fun j => (string? j).map .string
  | _ => none

def Constant.ofJson? : Json → Option Constant := Constant.read float32? float64?

/-! ## Operators -/

def UnaryOp.tags : List (String × UnaryOp) :=
  [("plus", .plus), ("minus", .minus), ("not", .not), ("complement", .complement),
   ("pre_increment", .preIncrement), ("pre_decrement", .preDecrement)]

def StepOp.tags : List (String × StepOp) := [("increment", .increment), ("decrement", .decrement)]

def BinaryOp.tags : List (String × BinaryOp) :=
  [("add", .add), ("sub", .sub), ("mul", .mul), ("div", .div), ("rem", .rem), ("shl", .shl),
   ("shr", .shr), ("u_shr", .ushr), ("lt", .lt), ("gt", .gt), ("le", .le), ("ge", .ge), ("eq", .eq),
   ("ne", .ne), ("bit_and", .bitAnd), ("bit_or", .bitOr), ("bit_xor", .bitXor), ("and", .and),
   ("or", .or)]

def AssignOp.tags : List (String × AssignOp) :=
  [("assign", .assign), ("add_assign", .add), ("sub_assign", .sub), ("mul_assign", .mul),
   ("div_assign", .div), ("rem_assign", .rem), ("shl_assign", .shl), ("shr_assign", .shr),
   ("u_shr_assign", .ushr), ("bit_and_assign", .bitAnd), ("bit_or_assign", .bitOr),
   ("bit_xor_assign", .bitXor)]

/-- The tag of a case in a table of tags. -/
def Json.tagIn {α : Type} [DecidableEq α] (cases : List (String × α)) (a : α) : Json :=
  str ((cases.find? fun c => decide (c.2 = a)).map (·.1) |>.getD "")

def UnaryOp.toJson (op : UnaryOp) : Json := tagIn tags op

def UnaryOp.ofJson? : Json → Option UnaryOp := caseIn? tags

def StepOp.toJson (op : StepOp) : Json := tagIn tags op

def StepOp.ofJson? : Json → Option StepOp := caseIn? tags

def BinaryOp.toJson (op : BinaryOp) : Json := tagIn tags op

def BinaryOp.ofJson? : Json → Option BinaryOp := caseIn? tags

def AssignOp.toJson (op : AssignOp) : Json := tagIn tags op

def AssignOp.ofJson? : Json → Option AssignOp := caseIn? tags

end ClassInit
