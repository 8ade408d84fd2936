import ClassInit.Binding.Table
import ClassInit.Limits
import ClassInit.Tree.LocalTypes

/-!
Declaring what a unit declares: every type, field and method gets an entry in the table, and its
node gets the handle. Handles that are already there are kept, but the handle of a type has to
exist. The walk goes through the members of a type first and then through the local types of its
bodies.
-/

set_option autoImplicit false

namespace ClassInit.Binding

/-- What one binding of a unit declared and resolved. -/
structure Stats where
  types : Nat
  fields : Nat
  methods : Nat
  locals : Nat
  names : Nat
deriving DecidableEq, Inhabited

namespace Stats

def zero : Stats := ⟨0, 0, 0, 0, 0⟩

end Stats

/-- The locals of one scope, the latest first. -/
abbrev Scope := List (String × VariableId)

/-- The state of binding. Types and scopes that enclose the current place are listed from the
innermost outwards. -/
structure State where
  table : BindingTable
  stats : Stats
  typeScopes : List TypeId
  localScopes : List Scope
deriving Inhabited

/-- A binding step on the table that yields a handle. -/
def enter {α : Type} (add : BindingTable → α × BindingTable) : StateM State α := fun s =>
  let (a, table) := add s.table
  (a, { s with table })

def count (f : Stats → Stats) : StateM State Unit :=
  modify fun s => { s with stats := f s.stats }

/-! ## Entries -/

/-- The name under which methods and constructors are recorded. -/
def recordedName (h : MethodHead) : String :=
  if h.isConstructor then Names.constructor else h.name

/-- Declares a fragment of a field. -/
def declareFragment (owner : TypeId) (modifiers : Modifiers) (type : TypeRef) (f : Fragment) :
    StateM State Fragment := do
  match f.binding with
  | some _ => return f
  | none =>
    let id ← enter (·.addVariable ⟨f.name, type, modifiers, some owner, true, none⟩)
    count fun s => { s with fields := s.fields + 1 }
    return { f with binding := some id }

/-- Declares the fragments of a field; in an interface-like type a field is public, static and
final. -/
def declareField (owner : TypeId) (isInterfaceLike : Bool) (f : FieldDecl) :
    StateM State FieldDecl := do
  let modifiers :=
    if isInterfaceLike then f.modifiers.union .interfaceField else f.modifiers
  return { f with fragments := ← f.fragments.mapM (declareFragment owner modifiers f.type) }

/-- Declares a method or constructor. -/
def declareMethod (owner : TypeId) (h : MethodHead) : StateM State MethodHead := do
  match h.binding with
  | some _ => return h
  | none =>
    let id ← enter (·.addMethod ⟨recordedName h, owner, h.modifiers, h.returnType,
      h.parameters.map (·.type), h.isConstructor, h.isSynthetic⟩)
    count fun s => { s with methods := s.methods + 1 }
    return { h with binding := some id }

/-- Declares a type itself, without what it contains, and yields its handle. -/
def declareHead (qualifier : Option String) (outer : Option TypeId) (d : TypeDecl) :
    Edit State ResolveError (TypeDecl × TypeId) := fun s =>
  match d.head.binding with
  | some id =>
    match s.table.typeAt id with
    | .ok _ => (.done (d, id), s)
    | .error e => (.stopped (d, id) e, s)
  | none =>
    let h := d.head
    let name := s.table.uniqueTypeName qualifier h.name
    let (id, table) := s.table.addType ⟨name, h.kind, h.modifiers, none, outer⟩
    let stats := { s.stats with types := s.stats.types + 1 }
    (.done ({ d with head := { h with binding := some id } }, id), { s with table, stats })

/-! ## The walk -/

/-- Declares a member; `nested` declares the types that stand in it. -/
def declareMember (nested : TypeDecl → Edit State ResolveError TypeDecl) (owner : TypeId)
    (isInterfaceLike : Bool) : Member → Edit State ResolveError Member
  | .type d => (nested d).map .type
  | .field f => (Edit.ofState (declareField owner isInterfaceLike f)).map .field
  | .method ⟨h, b⟩ => (Edit.ofState (declareMethod owner h)).map fun h => .method ⟨h, b⟩
  | .initializer i => Edit.keep (.initializer i)

/-- Declares what a type with the given handle contains. -/
def declareContents (nested : String → TypeDecl → Edit State ResolveError TypeDecl) (id : TypeId)
    (d : TypeDecl) : Edit State ResolveError TypeDecl := fun s =>
  match s.table.typeAt id with
  | .error e => (.stopped d e, s)
  | .ok descriptor =>
    let nested := nested descriptor.name
    (((Edit.list (declareMember nested id d.isInterfaceLike) d.members).map
        fun ms => { d with members := ms }).seq
      (TypeDecl.editLocalTypes nested)) s

/-- Declares a type and what it contains; `levels` is the number of levels left for it and the types
inside it. -/
def declareType : Nat → Option String → Option TypeId → TypeDecl →
    Edit State ResolveError TypeDecl
  | 0, _, _, d => Edit.stop d (.nestingTooDeep d.name)
  | levels + 1, qualifier, outer, d =>
    (declareHead qualifier outer d).andThen (·.1) fun (d, id) =>
      declareContents (fun name => declareType levels (some name) (some id)) id d

/-- Declares a top-level type of a package. -/
def declareTopLevel (package : Option String) : TypeDecl → Edit State ResolveError TypeDecl :=
  declareType (Limits.typeNesting + 1) package none

end ClassInit.Binding
