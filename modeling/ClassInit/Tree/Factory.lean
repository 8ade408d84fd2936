import ClassInit.Tree.Decl

/-!
Making nodes. A made node takes a fresh id after its parts and has the dummy span, which marks it as
synthesized; names and calls are bound only where a handle is given.
-/

set_option autoImplicit false

namespace ClassInit.Make

/-! ## Expressions -/

/-- A header with a fresh id. -/
def exprInfo (type : Option TypeRef) : Numbered ExprInfo := do
  return ⟨← freshId, .dummy, type⟩

def name (identifier : String) (binding : Option VariableId) : Numbered Expr := do
  return .name (← exprInfo none) identifier binding

def literal (value : Literal) : Numbered Expr := do
  return .literal (← exprInfo none) value

/-- A literal for a constant, with a recorded type. -/
def literalOfConstant (value : Constant) (type : TypeRef) : Numbered Expr := do
  return .literal (← exprInfo (some type)) (.ofConstant value)

def int (value : Int32) : Numbered Expr := literal (.int value)

def string (value : String) : Numbered Expr := literal (.string value)

def this : Numbered Expr := do
  return .this (← exprInfo none)

def binary (lhs : Expr) (op : BinaryOp) (rhs : Expr) : Numbered Expr := do
  return .binary (← exprInfo none) op lhs rhs

def assignment (lhs rhs : Expr) : Numbered Expr := do
  return .assignment (← exprInfo none) .assign lhs rhs

def call (receiver : Option Expr) (name : String) (arguments : List Expr) : Numbered Expr := do
  return .call (← exprInfo none) receiver name arguments none

def newInstance (type : TypeName) (arguments : List Expr) : Numbered Expr := do
  return .new (← exprInfo none) type arguments none

/-- The expression as a made one, with a recorded type. -/
def typed (e : Expr) (type : TypeRef) : Numbered Expr := do
  return e.withInfo (← exprInfo (some type))

/-! ## Statements -/

/-- A header with a fresh id. -/
def nodeInfo : Numbered NodeInfo := do
  return ⟨← freshId, .dummy⟩

def expressionStatement (e : Expr) : Numbered Stmt := do
  return .expression (← nodeInfo) e

/-- An assignment of a value to a name. -/
def assignmentStatement (identifier : String) (binding : Option VariableId) (value : Expr) :
    Numbered Stmt := do
  let target ← name identifier binding
  let assign ← assignment target value
  expressionStatement assign

/-- A call of a superclass constructor without arguments. -/
def superCall (binding : MethodId) : Numbered Stmt := do
  return .superCall (← nodeInfo) [] (some binding)

/-- A call of a sibling constructor. -/
def thisCall (arguments : List Expr) : Numbered Stmt := do
  return .thisCall (← nodeInfo) arguments none

/-- A declarator without span and handle. -/
def fragment (name : String) (initializer : Option Expr) : Fragment :=
  ⟨.dummy, name, initializer, none⟩

def localVariable (type : TypeRef) (name : String) (initializer : Option Expr) : Numbered Stmt := do
  return .localVariable (← nodeInfo) .empty type [fragment name initializer]

def block (statements : List Stmt) : Numbered Block := do
  return ⟨← nodeInfo, statements⟩

/-! ## Declarations -/

def typeDecl (kind : TypeKind) (name : String) (modifiers : Modifiers) (members : List Member) :
    Numbered TypeDecl := do
  return ⟨⟨← freshId, .dummy, kind, name, modifiers, none, none, []⟩, members⟩

/-- A field with one declarator. -/
def field (modifiers : Modifiers) (type : TypeRef) (name : String) (initializer : Option Expr) :
    Numbered Member := do
  return .field ⟨← freshId, .dummy, modifiers, type, [fragment name initializer]⟩

def initializer (isStatic : Bool) (statements : List Stmt) : Numbered Member := do
  let body ← block statements
  return .initializer ⟨← nodeInfo, isStatic, body⟩

/-- A method or constructor as source text declares it. -/
def declaredMethod (name : String) (modifiers : Modifiers) (returnType : TypeRef)
    (isConstructor : Bool) (parameters : List Parameter) (statements : List Stmt) :
    Numbered MethodDecl := do
  let body ← block statements
  let id ← freshId
  return ⟨⟨id, .dummy, name, modifiers, returnType, parameters, isConstructor, none, false⟩,
    some body⟩

/-- A synthetic method or constructor without parameters. -/
def syntheticMethod (name : String) (modifiers : Modifiers) (returnType : TypeRef)
    (isConstructor : Bool) (binding : MethodId) (statements : List Stmt) : Numbered MethodDecl := do
  let body ← block statements
  let id ← freshId
  return ⟨⟨id, .dummy, name, modifiers, returnType, [], isConstructor, some binding, true⟩,
    some body⟩

end ClassInit.Make
