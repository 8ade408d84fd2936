import ClassInit.Binding.Table
import ClassInit.Fold
import ClassInit.Tree.LocalTypes

/-!
Constant variables: final fields of primitive or string type whose initializer is a constant
expression. One may be defined through another that is declared later, so values are found in
rounds, until a round finds none.
-/

set_option autoImplicit false

namespace ClassInit

/-- The constant value of an expression, with the constants of the table for its names. -/
def BindingTable.constantValue (t : BindingTable) (e : Expr) : Option Constant :=
  e.fold t.variableConstant

namespace Constants

/-- A field that may turn out to be a constant variable. -/
structure Candidate where
  id : VariableId
  type : TypeRef
  initializer : Expr
deriving Inhabited

/-! ## Candidates -/

/-- Whether a constant variable can have the type. -/
def admitsType (t : TypeRef) : Bool := t.isPrimitive || t.isString

/-- The candidate that a fragment of a field of the given type is, if it is one: it has a handle and
an initializer, and its entry is final and has no value yet. -/
def ofFragment (t : BindingTable) (type : TypeRef) (f : Fragment) :
    Except ResolveError (List Candidate) :=
  match f.binding, f.initializer with
  | some id, some initializer => do
    let v ← t.variableAt id
    return if v.modifiers.isFinal && v.constantValue.isNone then [⟨id, type, initializer⟩] else []
  | _, _ => return []

/-- The candidates among the fragments of a field. -/
def ofField (t : BindingTable) (f : FieldDecl) : Except ResolveError (List Candidate) :=
  if admitsType f.type then return (← f.fragments.mapM (ofFragment t f.type)).flatten else return []

/-- The candidates among the fields that a type itself declares. -/
def ofFields (t : BindingTable) (ms : List Member) : Except ResolveError (List Candidate) := do
  return (← (ms.filterMap Member.asField).mapM (ofField t)).flatten

section

variable (t : BindingTable)

mutual

/-- The candidates in a type: those of its own fields, then those of its member types, then those of
the local types in its bodies. -/
def ofType : TypeDecl → Except ResolveError (List Candidate)
  | ⟨_, ms⟩ => do
    let own ← ofFields t ms
    let nested ← ofMemberTypes ms
    let locals ← ofBodies ms
    return own ++ nested ++ locals

/-- The candidates in the types among the members. -/
def ofMemberTypes : List Member → Except ResolveError (List Candidate)
  | [] => return []
  | .type d :: ms => return (← ofType d) ++ (← ofMemberTypes ms)
  | .method _ :: ms => ofMemberTypes ms
  | .initializer _ :: ms => ofMemberTypes ms
  | .field _ :: ms => ofMemberTypes ms

/-- The candidates in the local types of the bodies of the members. -/
def ofBodies : List Member → Except ResolveError (List Candidate)
  | [] => return []
  | .type _ :: ms => ofBodies ms
  | .method ⟨_, none⟩ :: ms => ofBodies ms
  | .method ⟨_, some ⟨_, ss⟩⟩ :: ms => return (← ofStmts ss) ++ (← ofBodies ms)
  | .initializer ⟨_, _, ⟨_, ss⟩⟩ :: ms => return (← ofStmts ss) ++ (← ofBodies ms)
  | .field _ :: ms => ofBodies ms

/-- The candidates in the local types of a statement. -/
def ofStmt : Stmt → Except ResolveError (List Candidate)
  | .localType _ d => ofType d
  | .block _ ⟨_, ss⟩ => ofStmts ss
  | .ifElse _ _ t none => ofStmt t
  | .ifElse _ _ t (some e) => return (← ofStmt t) ++ (← ofStmt e)
  | .whileLoop _ _ b => ofStmt b
  | .forLoop _ init _ _ b => return (← ofStmts init) ++ (← ofStmt b)
  | .tryCatch _ ⟨_, ss⟩ cs none => return (← ofStmts ss) ++ (← ofCatches cs)
  | .tryCatch _ ⟨_, ss⟩ cs (some ⟨_, fs⟩) =>
    return (← ofStmts ss) ++ (← ofCatches cs) ++ (← ofStmts fs)
  | .expression .. => return []
  | .localVariable .. => return []
  | .returnValue .. => return []
  | .throwValue .. => return []
  | .superCall .. => return []
  | .thisCall .. => return []
  | .empty _ => return []

/-- The candidates in the local types of statements. -/
def ofStmts : List Stmt → Except ResolveError (List Candidate)
  | [] => return []
  | s :: ss => return (← ofStmt s) ++ (← ofStmts ss)

/-- The candidates in the local types of catch clauses. -/
def ofCatches : List CatchClause → Except ResolveError (List Candidate)
  | [] => return []
  | ⟨_, _, ⟨_, ss⟩⟩ :: cs => return (← ofStmts ss) ++ (← ofCatches cs)

end

end

/-- The candidates of a unit. -/
def ofUnit (t : BindingTable) (u : CompilationUnit) : Except ResolveError (List Candidate) := do
  return (← u.types.mapM (ofType t)).flatten

/-! ## Rounds -/

/-- A step of finding values. -/
abbrev Finding := ExceptT ResolveError (StateM BindingTable)

/-- The value of a candidate under the values found so far, converted to the type of its field. -/
def Candidate.value? (t : BindingTable) (c : Candidate) : Option Constant :=
  (t.constantValue c.initializer).bind (·.convertTo c.type)

/-- One round over the candidates that have no value yet; it leaves those that still have none. -/
def round : List Candidate → Finding (List Candidate)
  | [] => return []
  | c :: cs => do
    match c.value? (← get) with
    | none => return c :: (← round cs)
    | some value =>
      match (← get).setConstant c.id value with
      | .error e => throw e
      | .ok t =>
        set t
        round cs

/-- Up to the given number of rounds, ending with the first that finds nothing; it leaves the
candidates without a value. -/
def rounds : Nat → List Candidate → Finding (List Candidate)
  | 0, pending => return pending
  | n + 1, pending => do
    let left ← round pending
    if left.length = pending.length then return left else rounds n left

end Constants

/-- Records the values of the constant variables of a unit, and yields their number. -/
def BindingTable.bindConstants (t : BindingTable) (u : CompilationUnit) :
    Except ResolveError Nat × BindingTable :=
  match Constants.ofUnit t u with
  | .error e => (.error e, t)
  | .ok candidates =>
    let (result, t) := (Constants.rounds Limits.constantRounds candidates).run t
    (result.map (candidates.length - ·.length), t)

end ClassInit
