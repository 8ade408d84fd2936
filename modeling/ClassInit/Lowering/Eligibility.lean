import ClassInit.Lowering.Basic

/-!
What becomes of the initializer of a static field: it stays, it is folded to a literal, or it is
demoted to an assignment in the static routine. Only a literal that the target can spell may stay in
a declaration.
-/

set_option autoImplicit false

namespace ClassInit.Lowering

inductive Eligibility where
  /-- The initializer stays as it is written. -/
  | keep
  /-- The initializer is replaced by a literal of this value. -/
  | fold (value : Constant)
  /-- The initializer becomes an assignment. -/
  | demote
deriving Inhabited

/-- Whether a literal may stay in a declaration; only a string may not. -/
def spells (encoding : LiteralEncoding) : Literal → Bool
  | .string s => encoding.admits s
  | _ => true

/-- What becomes of the constant value of an initializer that is no literal. -/
def Eligibility.ofConstant (encoding : LiteralEncoding) : Option Constant → Eligibility
  | none => .demote
  | some (.string s) => if encoding.admits s then .fold (.string s) else .demote
  | some c => .fold c

/-- Classifies the initializer of a static field with the given handle. A literal is judged by
itself; the initializer of a primitive constant stays; any other constant expression is folded. -/
def classify (t : BindingTable) (encoding : LiteralEncoding) (initializer : Expr)
    (field : VariableId) : Except ResolveError Eligibility :=
  match initializer with
  | .literal _ v => .ok (if spells encoding v then .keep else .demote)
  | e => do
    if ← t.isPrimitiveConstant field then return .keep
    else return .ofConstant encoding (t.constantValue e)

/-- The value that a folded field of the given type has: converted if the type is primitive and the
conversion exists. -/
def foldedValue (value : Constant) (type : TypeRef) : Constant :=
  ((type.asPrimitive.bind value.convert)).getD value

/-- The literal that replaces a folded initializer; it records the type of the field. -/
def foldedLiteral (value : Constant) (type : TypeRef) : Numbered Expr :=
  Make.literalOfConstant (foldedValue value type) type

end ClassInit.Lowering
