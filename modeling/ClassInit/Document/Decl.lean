import ClassInit.Document.Expr

/-!
Statements, declarations and compilation units as JSON values. Parts that may be missing have
defaults when read and are always written.
-/

set_option autoImplicit false

namespace ClassInit

open Json

/-! ## Parts without statements -/

def Parameter.toJson (p : Parameter) : Json :=
  obj [("name", str p.name), ("ty", p.type.toJson),
    ("binding", ofOption VariableId.toJson p.binding)]

def Parameter.ofJson? (j : Json) : Option Parameter := do
  let fs ← j.fields?
  return ⟨← required fs "name" string?, ← required fs "ty" TypeRef.ofJson?,
    ← nullableField fs "binding" VariableId.ofJson?⟩

def Fragment.toJson (f : Fragment) : Json :=
  obj [("span", f.span.toJson), ("name", str f.name),
    ("initializer", ofOption Expr.toJson f.initializer),
    ("binding", ofOption VariableId.toJson f.binding)]

def Fragment.ofJson? (j : Json) : Option Fragment := do
  let fs ← j.fields?
  return ⟨← withDefault fs "span" Span.dummy Span.ofJson?, ← required fs "name" string?,
    ← nullableField fs "initializer" Expr.ofJson?,
    ← nullableField fs "binding" VariableId.ofJson?⟩

def EnumConstant.toJson (c : EnumConstant) : Json :=
  obj [("name", str c.name), ("arguments", arr (Expr.toJsons c.arguments)), ("span", c.span.toJson)]

def EnumConstant.ofJson? (j : Json) : Option EnumConstant := do
  let fs ← j.fields?
  return ⟨← required fs "name" string?, ← withDefault fs "arguments" [] (list? Expr.ofJson?),
    ← withDefault fs "span" Span.dummy Span.ofJson?⟩

def FieldDecl.toJson (f : FieldDecl) : Json :=
  obj [("id", f.id.toJson), ("span", f.span.toJson), ("modifiers", f.modifiers.toJson),
    ("ty", f.type.toJson), ("fragments", arr (f.fragments.map Fragment.toJson))]

def FieldDecl.ofJson? (j : Json) : Option FieldDecl := do
  let fs ← j.fields?
  return ⟨← withDefault fs "id" NodeId.unassigned NodeId.ofJson?,
    ← withDefault fs "span" Span.dummy Span.ofJson?,
    ← withDefault fs "modifiers" Modifiers.empty Modifiers.ofJson?,
    ← required fs "ty" TypeRef.ofJson?, ← required fs "fragments" (list? Fragment.ofJson?)⟩

/-- Reads an id and a span from the fields of a node. -/
def NodeInfo.ofFields? (fs : List (String × Json)) : Option NodeInfo := do
  return ⟨← withDefault fs "id" NodeId.unassigned NodeId.ofJson?,
    ← withDefault fs "span" Span.dummy Span.ofJson?⟩

/-! ## Writing -/

/-- A statement with its header. -/
def NodeInfo.wrap (i : NodeInfo) (kind : Json) : Json :=
  obj [("id", i.id.toJson), ("span", i.span.toJson), ("kind", kind)]

/-- The fields of a block. -/
def NodeInfo.blockJson (i : NodeInfo) (statements : List Json) : Json :=
  obj [("id", i.id.toJson), ("span", i.span.toJson), ("statements", arr statements)]

/-- The arguments and the handle of a constructor call. -/
def constructorCallJson (arguments : List Expr) (binding : Option MethodId) : Json :=
  obj [("arguments", arr (Expr.toJsons arguments)), ("binding", ofOption MethodId.toJson binding)]

/-- A method whose body is already written. -/
def MethodHead.wrap (h : MethodHead) (body : Json) : Json :=
  obj [("id", h.id.toJson), ("span", h.span.toJson), ("name", str h.name),
    ("modifiers", h.modifiers.toJson), ("return_type", h.returnType.toJson),
    ("parameters", arr (h.parameters.map Parameter.toJson)),
    ("is_constructor", bool h.isConstructor), ("body", body),
    ("binding", ofOption MethodId.toJson h.binding), ("is_synthetic", bool h.isSynthetic)]

/-- A type whose members are already written. -/
def TypeHead.wrap (h : TypeHead) (members : List Json) : Json :=
  obj [("id", h.id.toJson), ("span", h.span.toJson), ("kind", h.kind.toJson), ("name", str h.name),
    ("modifiers", h.modifiers.toJson), ("extends", ofOption TypeName.toJson h.superclass),
    ("binding", ofOption TypeId.toJson h.binding),
    ("enum_constants", arr (h.enumConstants.map EnumConstant.toJson)), ("members", arr members)]

mutual

def Block.toJson : Block → Json
  | ⟨i, ss⟩ => i.blockJson (Stmt.toJsons ss)

def Stmt.toJson : Stmt → Json
  | .expression i e => i.wrap (tagged "expression" e.toJson)
  | .localVariable i m t fs =>
    i.wrap (tagged "local_variable"
      (obj
        [("modifiers", m.toJson), ("ty", t.toJson), ("fragments", arr (fs.map Fragment.toJson))]))
  | .block i b => i.wrap (tagged "block" b.toJson)
  | .ifElse i c t none =>
    i.wrap (tagged "if"
      (obj [("condition", c.toJson), ("then_branch", t.toJson), ("else_branch", null)]))
  | .ifElse i c t (some e) =>
    i.wrap (tagged "if"
      (obj [("condition", c.toJson), ("then_branch", t.toJson), ("else_branch", e.toJson)]))
  | .whileLoop i c b => i.wrap (tagged "while" (obj [("condition", c.toJson), ("body", b.toJson)]))
  | .forLoop i init c us b =>
    i.wrap (tagged "for"
      (obj [("init", arr (Stmt.toJsons init)), ("condition", ofOption Expr.toJson c),
        ("updates", arr (Expr.toJsons us)), ("body", b.toJson)]))
  | .tryCatch i b cs none =>
    i.wrap (tagged "try"
      (obj [("body", b.toJson), ("catches", arr (CatchClause.toJsons cs)), ("finally", null)]))
  | .tryCatch i b cs (some f) =>
    i.wrap (tagged "try"
      (obj [("body", b.toJson), ("catches", arr (CatchClause.toJsons cs)), ("finally", f.toJson)]))
  | .returnValue i e => i.wrap (tagged "return" (ofOption Expr.toJson e))
  | .throwValue i e => i.wrap (tagged "throw" e.toJson)
  | .superCall i as b => i.wrap (tagged "super_constructor_call" (constructorCallJson as b))
  | .thisCall i as b => i.wrap (tagged "constructor_call" (constructorCallJson as b))
  | .localType i d => i.wrap (tagged "type_declaration" d.toJson)
  | .empty i => i.wrap (str "empty")

def Stmt.toJsons : List Stmt → List Json
  | [] => []
  | s :: ss => s.toJson :: Stmt.toJsons ss

def CatchClause.toJsons : List CatchClause → List Json
  | [] => []
  | ⟨sp, x, b⟩ :: cs =>
    obj [("span", sp.toJson), ("exception", x.toJson), ("body", b.toJson)] :: CatchClause.toJsons cs

def Member.toJson : Member → Json
  | .type d => tagged "type" d.toJson
  | .method ⟨h, none⟩ => tagged "method" (h.wrap null)
  | .method ⟨h, some b⟩ => tagged "method" (h.wrap b.toJson)
  | .initializer ⟨i, s, b⟩ =>
    tagged "initializer"
      (obj [("id", i.id.toJson), ("span", i.span.toJson), ("is_static", bool s),
        ("body", b.toJson)])
  | .field f => tagged "field" f.toJson

def Member.toJsons : List Member → List Json
  | [] => []
  | m :: ms => m.toJson :: Member.toJsons ms

def TypeDecl.toJson : TypeDecl → Json
  | ⟨h, ms⟩ => h.wrap (Member.toJsons ms)

end

def MethodDecl.toJson (m : MethodDecl) : Json := m.head.wrap (ofOption Block.toJson m.body)

def CompilationUnit.toJson (u : CompilationUnit) : Json :=
  obj [("file_name", str u.fileName), ("package", ofOption str u.package),
    ("types", arr (u.types.map TypeDecl.toJson)), ("node_ids", u.supply.toJson)]

/-! ## Reading -/

section

variable (statement : Json → Option Stmt) (type : Json → Option TypeDecl)

/-- Reads a block; `statement` reads its statements. -/
def Block.readWith (j : Json) : Option Block := do
  let fs ← j.fields?
  return ⟨← NodeInfo.ofFields? fs, ← withDefault fs "statements" [] (list? statement)⟩

/-- Reads a catch clause. -/
def CatchClause.readWith (j : Json) : Option CatchClause := do
  let fs ← j.fields?
  return ⟨← withDefault fs "span" Span.dummy Span.ofJson?,
    ← required fs "exception" Parameter.ofJson?,
    ← required fs "body" (Block.readWith statement)⟩

/-- Reads the case of a statement. -/
def Stmt.readKind (i : NodeInfo) (j : Json) : Option Stmt := do
  match j.case? with
  | some ("empty", none) | some ("empty", some .null) => some (.empty i)
  | some (_, none) => none
  | none => none
  | some ("expression", some j) => (Expr.ofJson? j).map (.expression i)
  | some ("block", some j) => (Block.readWith statement j).map (.block i)
  | some ("return", some j) => (nullable? Expr.ofJson? j).map (.returnValue i)
  | some ("throw", some j) => (Expr.ofJson? j).map (.throwValue i)
  | some ("type_declaration", some j) => (type j).map (.localType i)
  | some (tag, some j) =>
    let fs ← j.fields?
    match tag with
    | "local_variable" =>
      return .localVariable i (← withDefault fs "modifiers" Modifiers.empty Modifiers.ofJson?)
        (← required fs "ty" TypeRef.ofJson?) (← required fs "fragments" (list? Fragment.ofJson?))
    | "if" =>
      return .ifElse i (← required fs "condition" Expr.ofJson?)
        (← required fs "then_branch" statement) (← nullableField fs "else_branch" statement)
    | "while" =>
      return .whileLoop i (← required fs "condition" Expr.ofJson?) (← required fs "body" statement)
    | "for" =>
      return .forLoop i (← withDefault fs "init" [] (list? statement))
        (← nullableField fs "condition" Expr.ofJson?)
        (← withDefault fs "updates" [] (list? Expr.ofJson?)) (← required fs "body" statement)
    | "try" =>
      return .tryCatch i (← required fs "body" (Block.readWith statement))
        (← withDefault fs "catches" [] (list? (CatchClause.readWith statement)))
        (← nullableField fs "finally" (Block.readWith statement))
    | "super_constructor_call" =>
      return .superCall i (← withDefault fs "arguments" [] (list? Expr.ofJson?))
        (← nullableField fs "binding" MethodId.ofJson?)
    | "constructor_call" =>
      return .thisCall i (← withDefault fs "arguments" [] (list? Expr.ofJson?))
        (← nullableField fs "binding" MethodId.ofJson?)
    | _ => none

/-- Reads a statement. -/
def Stmt.readWith (j : Json) : Option Stmt := do
  let fs ← j.fields?
  let i ← NodeInfo.ofFields? fs
  required fs "kind" (Stmt.readKind statement type i)

/-- Reads a method. -/
def MethodDecl.readWith (j : Json) : Option MethodDecl := do
  let fs ← j.fields?
  let head : MethodHead :=
    { id := ← withDefault fs "id" NodeId.unassigned NodeId.ofJson?
      span := ← withDefault fs "span" Span.dummy Span.ofJson?
      name := ← required fs "name" string?
      modifiers := ← withDefault fs "modifiers" Modifiers.empty Modifiers.ofJson?
      returnType := ← withDefault fs "return_type" TypeRef.void TypeRef.ofJson?
      parameters := ← withDefault fs "parameters" [] (list? Parameter.ofJson?)
      isConstructor := ← withDefault fs "is_constructor" false bool?
      binding := ← nullableField fs "binding" MethodId.ofJson?
      isSynthetic := ← withDefault fs "is_synthetic" false bool? }
  return ⟨head, ← nullableField fs "body" (Block.readWith statement)⟩

/-- Reads an initializer block. -/
def InitializerDecl.readWith (j : Json) : Option InitializerDecl := do
  let fs ← j.fields?
  return ⟨← NodeInfo.ofFields? fs, ← withDefault fs "is_static" false bool?,
    ← required fs "body" (Block.readWith statement)⟩

/-- Reads a member. -/
def Member.readWith (j : Json) : Option Member :=
  match j.case? with
  | some ("type", some j) => (type j).map .type
  | some ("method", some j) => (MethodDecl.readWith statement j).map .method
  | some ("initializer", some j) => (InitializerDecl.readWith statement j).map .initializer
  | some ("field", some j) => (FieldDecl.ofJson? j).map .field
  | _ => none

/-- Reads a type declaration. -/
def TypeDecl.readWith (j : Json) : Option TypeDecl := do
  let fs ← j.fields?
  let head : TypeHead :=
    { id := ← withDefault fs "id" NodeId.unassigned NodeId.ofJson?
      span := ← withDefault fs "span" Span.dummy Span.ofJson?
      kind := ← required fs "kind" TypeKind.ofJson?
      name := ← required fs "name" string?
      modifiers := ← withDefault fs "modifiers" Modifiers.empty Modifiers.ofJson?
      superclass := ← nullableField fs "extends" TypeName.ofJson?
      binding := ← nullableField fs "binding" TypeId.ofJson?
      enumConstants := ← withDefault fs "enum_constants" [] (list? EnumConstant.ofJson?) }
  return ⟨head, ← withDefault fs "members" [] (list? (Member.readWith statement type))⟩

end

mutual

/-- Reads a statement of at most the given number of levels. -/
def Stmt.read : Nat → Json → Option Stmt
  | 0, _ => none
  | fuel + 1, j => Stmt.readWith (Stmt.read fuel) (TypeDecl.read fuel) j

/-- Reads a type declaration of at most the given number of levels. -/
def TypeDecl.read : Nat → Json → Option TypeDecl
  | 0, _ => none
  | fuel + 1, j => TypeDecl.readWith (Stmt.read fuel) (TypeDecl.read fuel) j

end

def Stmt.ofJson? (j : Json) : Option Stmt := Stmt.read j.depth j

def TypeDecl.ofJson? (j : Json) : Option TypeDecl := TypeDecl.read j.depth j

def Block.ofJson? : Json → Option Block := Block.readWith Stmt.ofJson?

def Member.ofJson? : Json → Option Member := Member.readWith Stmt.ofJson? TypeDecl.ofJson?

def CompilationUnit.ofJson? (j : Json) : Option CompilationUnit := do
  let fs ← j.fields?
  return ⟨← required fs "file_name" string?, ← nullableField fs "package" string?,
    ← required fs "types" (list? TypeDecl.ofJson?),
    ← withDefault fs "node_ids" IdSupply.initial IdSupply.ofJson?⟩

end ClassInit
