import ClassInit.Document.Leaf

/-!
Expressions as JSON values: an object with the header and, under `kind`, the case of the expression.
Parts that may be missing have defaults when read and are always written.
-/

set_option autoImplicit false

namespace ClassInit

open Json

/-! ## Writing -/

/-- An expression with its header. -/
def ExprInfo.wrap (i : ExprInfo) (kind : Json) : Json :=
  obj [("id", i.id.toJson), ("span", i.span.toJson), ("ty", ofOption TypeRef.toJson i.type),
    ("kind", kind)]

mutual

def Expr.toJson : Expr → Json
  | .literal i v => i.wrap (tagged "literal" v.toJson)
  | .name i n b =>
    i.wrap (tagged "name" (obj [("identifier", str n), ("binding", ofOption VariableId.toJson b)]))
  | .this i => i.wrap (str "this")
  | .fieldAccess i t n b =>
    i.wrap (tagged "field_access"
      (obj [("target", t.toJson), ("name", str n), ("binding", ofOption VariableId.toJson b)]))
  | .unary i op e => i.wrap (tagged "unary" (obj [("op", op.toJson), ("operand", e.toJson)]))
  | .step i op e => i.wrap (tagged "postfix" (obj [("op", op.toJson), ("operand", e.toJson)]))
  | .binary i op l r =>
    i.wrap (tagged "binary" (obj [("op", op.toJson), ("lhs", l.toJson), ("rhs", r.toJson)]))
  | .conditional i c t e =>
    i.wrap (tagged "conditional"
      (obj [("condition", c.toJson), ("then_expr", t.toJson), ("else_expr", e.toJson)]))
  | .parenthesized i e => i.wrap (tagged "parenthesized" e.toJson)
  | .cast i t e => i.wrap (tagged "cast" (obj [("ty", t.toJson), ("expr", e.toJson)]))
  | .assignment i op l r =>
    i.wrap (tagged "assignment" (obj [("op", op.toJson), ("lhs", l.toJson), ("rhs", r.toJson)]))
  | .call i none n as b =>
    i.wrap (tagged "method_call"
      (obj [("receiver", null), ("name", str n), ("arguments", arr (Expr.toJsons as)),
        ("binding", ofOption MethodId.toJson b)]))
  | .call i (some r) n as b =>
    i.wrap (tagged "method_call"
      (obj [("receiver", r.toJson), ("name", str n), ("arguments", arr (Expr.toJsons as)),
        ("binding", ofOption MethodId.toJson b)]))
  | .new i t as b =>
    i.wrap (tagged "new"
      (obj [("ty", t.toJson), ("arguments", arr (Expr.toJsons as)),
        ("binding", ofOption MethodId.toJson b)]))

def Expr.toJsons : List Expr → List Json
  | [] => []
  | e :: es => e.toJson :: Expr.toJsons es

end

/-! ## Reading -/

/-- Reads the header of an expression from its fields. -/
def ExprInfo.ofFields? (fs : List (String × Json)) : Option ExprInfo := do
  let id ← withDefault fs "id" NodeId.unassigned NodeId.ofJson?
  let span ← withDefault fs "span" Span.dummy Span.ofJson?
  let type ← nullableField fs "ty" TypeRef.ofJson?
  return ⟨id, span, type⟩

/-- Reads the case of an expression; `read` reads its parts. -/
def Expr.readKind (read : Json → Option Expr) (i : ExprInfo) (j : Json) : Option Expr := do
  match j.case? with
  | some ("this", none) | some ("this", some .null) => some (.this i)
  | some (_, none) => none
  | none => none
  | some ("literal", some j) => (Literal.ofJson? j).map (.literal i)
  | some ("parenthesized", some j) => (read j).map (.parenthesized i)
  | some (tag, some j) =>
    let fs ← j.fields?
    match tag with
    | "name" =>
      return .name i (← required fs "identifier" string?)
        (← nullableField fs "binding" VariableId.ofJson?)
    | "field_access" =>
      return .fieldAccess i (← required fs "target" read) (← required fs "name" string?)
        (← nullableField fs "binding" VariableId.ofJson?)
    | "unary" =>
      return .unary i (← required fs "op" UnaryOp.ofJson?) (← required fs "operand" read)
    | "postfix" =>
      return .step i (← required fs "op" StepOp.ofJson?) (← required fs "operand" read)
    | "binary" =>
      return .binary i (← required fs "op" BinaryOp.ofJson?) (← required fs "lhs" read)
        (← required fs "rhs" read)
    | "conditional" =>
      return .conditional i (← required fs "condition" read) (← required fs "then_expr" read)
        (← required fs "else_expr" read)
    | "cast" =>
      return .cast i (← required fs "ty" TypeRef.ofJson?) (← required fs "expr" read)
    | "assignment" =>
      return .assignment i (← required fs "op" AssignOp.ofJson?) (← required fs "lhs" read)
        (← required fs "rhs" read)
    | "method_call" =>
      return .call i (← nullableField fs "receiver" read) (← required fs "name" string?)
        (← withDefault fs "arguments" [] (list? read))
        (← nullableField fs "binding" MethodId.ofJson?)
    | "new" =>
      return .new i (← required fs "ty" TypeName.ofJson?)
        (← withDefault fs "arguments" [] (list? read))
        (← nullableField fs "binding" MethodId.ofJson?)
    | _ => none

/-- Reads an expression of at most the given number of levels. -/
def Expr.read : Nat → Json → Option Expr
  | 0, _ => none
  | fuel + 1, j => do
    let fs ← j.fields?
    let i ← ExprInfo.ofFields? fs
    required fs "kind" (Expr.readKind (Expr.read fuel) i)

def Expr.ofJson? (j : Json) : Option Expr := Expr.read j.depth j

end ClassInit
