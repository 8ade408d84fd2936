import ClassInit.Binding.Declare

/-!
Resolving names: superclass clauses, and the names in initializers and bodies. A simple name means
the innermost local of that name or else a field of an enclosing type, searched from the innermost
type outwards; a dotted name means a field of the type before its last dot. Names that mean nothing
stay unbound.
-/

set_option autoImplicit false

namespace ClassInit.Binding

/-- A step of resolving. -/
abbrev Resolving := ExceptT ResolveError (StateM State)

/-! ## Looking names up -/

/-- The type that a qualifier means: by its qualified name, or else by its simple name. -/
def owner? (t : BindingTable) (qualifier : String) : Option TypeId :=
  match t.lookupType qualifier with
  | some id => some id
  | none => t.lookupSimpleType qualifier

/-- A dotted name split at its last dot. -/
def splitLast? (name : String) : Option (String × String) :=
  let reversed := name.toList.reverse
  let last := reversed.takeWhile (· ≠ '.')
  match reversed.drop last.length with
  | [] => none
  | _ :: qualifier => some (String.ofList qualifier.reverse, String.ofList last.reverse)

/-- The innermost local with a name. -/
def State.findLocal (s : State) (name : String) : Option VariableId :=
  s.localScopes.flatten.lookup name

/-- The field with a name of the innermost enclosing type that has one. -/
def State.findEnclosingField (s : State) (name : String) : Option VariableId :=
  s.typeScopes.findSome? (s.table.findField · name)

/-- What a name means at the current place. -/
def State.resolveName (s : State) (name : String) : Option VariableId :=
  match splitLast? name with
  | some (qualifier, field) => (owner? s.table qualifier).bind (s.table.findField · field)
  | none =>
    match s.findLocal name with
    | some v => some v
    | none => s.findEnclosingField name

/-- What a field access means: a field of the innermost type through `this`, or of the type that an
unbound name means. -/
def State.resolveMember (s : State) (target : Expr) (name : String) : Option VariableId :=
  match target.skipParens with
  | .this _ => s.typeScopes.head?.bind (s.table.findField · name)
  | .name _ qualifier none => (owner? s.table qualifier).bind (s.table.findField · name)
  | _ => none

/-- The type that a superclass clause means; an unknown name is a new external class. -/
def resolveSuperclass (name : String) : StateM State TypeId := fun s =>
  match s.table.lookupType name with
  | some id => (id, s)
  | none =>
    let bySimpleName := if name.toList.contains '.' then none else s.table.lookupSimpleType name
    match bySimpleName with
    | some id => (id, s)
    | none => enter (·.internClass name) s

/-! ## Scopes -/

/-- Adds a local to the innermost scope. -/
def pushLocal (name : String) (id : VariableId) : StateM State Unit :=
  modify fun s =>
    match s.localScopes with
    | [] => s
    | scope :: scopes => { s with localScopes := ((name, id) :: scope) :: scopes }

def openScope : StateM State Unit :=
  modify fun s => { s with localScopes := [] :: s.localScopes }

def closeScope : StateM State Unit :=
  modify fun s => { s with localScopes := s.localScopes.tail }

/-- Runs a step in a scope of its own. -/
def inScope {α : Type} (m : Resolving α) : Resolving α := do
  openScope
  let a ← m
  closeScope
  return a

/-- Runs a step inside a type. -/
def inType {α : Type} (id : TypeId) (m : Resolving α) : Resolving α := do
  modify fun s => { s with typeScopes := id :: s.typeScopes }
  let a ← m
  modify fun s => { s with typeScopes := s.typeScopes.tail }
  return a

/-- Declares a parameter or local variable that has no handle yet. -/
def declareLocal (name : String) (type : TypeRef) (modifiers : Modifiers) :
    Option VariableId → StateM State VariableId
  | some id => do
    pushLocal name id
    return id
  | none => do
    let id ← enter (·.addVariable (.ofLocal name type modifiers))
    count fun s => { s with locals := s.locals + 1 }
    pushLocal name id
    return id

def declareParameter (p : Parameter) : StateM State Parameter := do
  return { p with binding := some (← declareLocal p.name p.type .empty p.binding) }

def declareParameters (ps : List Parameter) : StateM State (List Parameter) :=
  ps.mapM declareParameter

/-! ## Expressions -/

/-- Resolves a name that has no handle yet. -/
def resolveUnbound (name : String) : StateM State (Option VariableId) := fun s =>
  match s.resolveName name with
  | some v => (some v, { s with stats := { s.stats with names := s.stats.names + 1 } })
  | none => (none, s)

/-- Resolves the type of a `new` by its simple name alone. -/
def resolveNew (t : TypeName) : StateM State TypeName := fun s =>
  match t.binding with
  | some _ => (t, s)
  | none => ({ t with binding := s.table.lookupSimpleType t.simpleName }, s)

end ClassInit.Binding

namespace ClassInit

open Binding

mutual

/-- Resolving an expression fills in the handles of its names and creations, from left to right. -/
def Expr.resolve : Expr → StateM State Expr
  | .literal i v => return .literal i v
  | .this i => return .this i
  | .name i n (some v) => return .name i n (some v)
  | .name i n none => return .name i n (← resolveUnbound n)
  | .fieldAccess i t n (some v) => do
    let t ← t.resolve
    return .fieldAccess i t n (some v)
  | .fieldAccess i t n none => do
    let t ← t.resolve
    return .fieldAccess i t n ((← get).resolveMember t n)
  | .unary i op e => do
    let e ← e.resolve
    return .unary i op e
  | .step i op e => do
    let e ← e.resolve
    return .step i op e
  | .binary i op l r => do
    let l ← l.resolve
    let r ← r.resolve
    return .binary i op l r
  | .conditional i c t e => do
    let c ← c.resolve
    let t ← t.resolve
    let e ← e.resolve
    return .conditional i c t e
  | .parenthesized i e => do
    let e ← e.resolve
    return .parenthesized i e
  | .cast i t e => do
    let e ← e.resolve
    return .cast i t e
  | .assignment i op l r => do
    let l ← l.resolve
    let r ← r.resolve
    return .assignment i op l r
  | .call i none n as b => do
    let as ← Expr.resolveAll as
    return .call i none n as b
  | .call i (some r) n as b => do
    let r ← r.resolve
    let as ← Expr.resolveAll as
    return .call i (some r) n as b
  | .new i t as b => do
    let t ← resolveNew t
    let as ← Expr.resolveAll as
    return .new i t as b

def Expr.resolveAll : List Expr → StateM State (List Expr)
  | [] => return []
  | e :: es => do
    let e ← e.resolve
    let es ← Expr.resolveAll es
    return e :: es

end

/-- Resolves an expression that may be missing. -/
def Expr.resolveOption : Option Expr → StateM State (Option Expr)
  | none => return none
  | some e => return some (← e.resolve)

/-! ## Statements and declarations -/

/-- Resolves the initializer of a field fragment. -/
def Fragment.resolve (f : Fragment) : StateM State Fragment := do
  return { f with initializer := ← Expr.resolveOption f.initializer }

/-- Resolves the initializer of a local variable, which then comes into scope. -/
def Fragment.resolveLocal (type : TypeRef) (modifiers : Modifiers) (f : Fragment) :
    StateM State Fragment := do
  let initializer ← Expr.resolveOption f.initializer
  let id ← declareLocal f.name type modifiers f.binding
  return { f with initializer, binding := some id }

/-- Resolves the declarators of a local variable declaration from the first to the last. -/
def Fragment.resolveLocals (type : TypeRef) (modifiers : Modifiers) (fs : List Fragment) :
    StateM State (List Fragment) :=
  fs.mapM (Fragment.resolveLocal type modifiers)

def EnumConstant.resolve (c : EnumConstant) : StateM State EnumConstant := do
  return { c with arguments := ← Expr.resolveAll c.arguments }

def EnumConstant.resolveAll (cs : List EnumConstant) : StateM State (List EnumConstant) :=
  cs.mapM EnumConstant.resolve

/-- Resolving a field declaration resolves the initializers of its fields. -/
def FieldDecl.resolve (f : FieldDecl) : StateM State FieldDecl := do
  return { f with fragments := ← f.fragments.mapM Fragment.resolve }

/-- Resolves the superclass clause of a type and records the superclass. -/
def TypeHead.resolveSuperclass (id : TypeId) (h : TypeHead) : Resolving TypeHead := do
  match h.superclass with
  | none => return h
  | some clause =>
    let superclass ← match clause.binding with
      | some s => pure s
      | none => Binding.resolveSuperclass clause.name
    match (← get).table.setSuperclass id superclass with
    | .error e => throw e
    | .ok table =>
      modify fun s => { s with table }
      return { h with superclass := some { clause with binding := some superclass } }

/-- The handle of a type, which declaring it has set. -/
def TypeHead.handle (h : TypeHead) : Resolving TypeId :=
  match h.binding with
  | some id => return id
  | none => throw (.unresolvedTypeName h.name)

mutual

/-- Resolving a statement opens a scope for each block, loop and clause. -/
def Stmt.resolve : Stmt → Resolving Stmt
  | .expression i e => return .expression i (← e.resolve)
  | .localVariable i m t fs => return .localVariable i m t (← Fragment.resolveLocals t m fs)
  | .block i ⟨b, ss⟩ => do
    let ss ← inScope (Stmt.resolveAll ss)
    return .block i ⟨b, ss⟩
  | .ifElse i c t none => do
    let c ← c.resolve
    let t ← inScope t.resolve
    return .ifElse i c t none
  | .ifElse i c t (some e) => do
    let c ← c.resolve
    let t ← inScope t.resolve
    let e ← inScope e.resolve
    return .ifElse i c t (some e)
  | .whileLoop i c b => do
    let c ← c.resolve
    let b ← inScope b.resolve
    return .whileLoop i c b
  | .forLoop i init c us b => inScope do
    let init ← Stmt.resolveAll init
    let c ← Expr.resolveOption c
    let us ← Expr.resolveAll us
    let b ← inScope b.resolve
    return .forLoop i init c us b
  | .tryCatch i ⟨b, ss⟩ cs none => do
    let ss ← inScope (Stmt.resolveAll ss)
    let cs ← CatchClause.resolveAll cs
    return .tryCatch i ⟨b, ss⟩ cs none
  | .tryCatch i ⟨b, ss⟩ cs (some ⟨fb, fs⟩) => do
    let ss ← inScope (Stmt.resolveAll ss)
    let cs ← CatchClause.resolveAll cs
    let fs ← inScope (Stmt.resolveAll fs)
    return .tryCatch i ⟨b, ss⟩ cs (some ⟨fb, fs⟩)
  | .returnValue i e => return .returnValue i (← Expr.resolveOption e)
  | .throwValue i e => return .throwValue i (← e.resolve)
  | .superCall i as b => return .superCall i (← Expr.resolveAll as) b
  | .thisCall i as b => return .thisCall i (← Expr.resolveAll as) b
  | .localType i d => do
    let d ← d.resolve
    return .localType i d
  | .empty i => return .empty i

def Stmt.resolveAll : List Stmt → Resolving (List Stmt)
  | [] => return []
  | s :: ss => do
    let s ← s.resolve
    let ss ← Stmt.resolveAll ss
    return s :: ss

def CatchClause.resolveAll : List CatchClause → Resolving (List CatchClause)
  | [] => return []
  | ⟨sp, x, ⟨b, ss⟩⟩ :: cs => do
    let c ← inScope do
      let x ← declareParameter x
      let ss ← inScope (Stmt.resolveAll ss)
      return ⟨sp, x, ⟨b, ss⟩⟩
    let cs ← CatchClause.resolveAll cs
    return c :: cs

def Member.resolve : Member → Resolving Member
  | .type d => do
    let d ← d.resolve
    return .type d
  | .field f => return .field (← f.resolve)
  | .initializer ⟨i, s, ⟨b, ss⟩⟩ => do
    let ss ← inScope (Stmt.resolveAll ss)
    return .initializer ⟨i, s, ⟨b, ss⟩⟩
  | .method ⟨h, none⟩ => inScope do
    let parameters ← declareParameters h.parameters
    return .method ⟨{ h with parameters }, none⟩
  | .method ⟨h, some ⟨b, ss⟩⟩ => inScope do
    let parameters ← declareParameters h.parameters
    let ss ← Stmt.resolveAll ss
    return .method ⟨{ h with parameters }, some ⟨b, ss⟩⟩

def Member.resolveAll : List Member → Resolving (List Member)
  | [] => return []
  | m :: ms => do
    let m ← m.resolve
    let ms ← Member.resolveAll ms
    return m :: ms

def TypeDecl.resolve : TypeDecl → Resolving TypeDecl
  | ⟨h, ms⟩ => do
    let id ← h.handle
    let h ← h.resolveSuperclass id
    inType id do
      let enumConstants ← EnumConstant.resolveAll h.enumConstants
      let ms ← Member.resolveAll ms
      return ⟨{ h with enumConstants }, ms⟩

end

end ClassInit
