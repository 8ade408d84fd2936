import ClassInit.Lowering.Collect
import ClassInit.Lowering.Constructors
import ClassInit.Lowering.Synthesis
import ClassInit.Tree.LocalTypes

/-!
Lowering types and units. A type is lowered from the inside out: its member types and the local
types of its bodies come before its own initialization is collected, so that nothing that is copied
still has to be lowered. Lowering a unit either finishes or leaves the unit as it was.
-/

set_option autoImplicit false

namespace ClassInit

namespace Lowering

/-- A member of which only a type is lowered. -/
def lowerMemberType (nested : TypeDecl → Edit State Failure TypeDecl) :
    Member → Edit State Failure Member
  | .type d => (nested d).map .type
  | m => Edit.keep m

/-- Lowers the types in a type: its member types, then the local types of its bodies. -/
def lowerNested (nested : TypeDecl → Edit State Failure TypeDecl) (d : TypeDecl) :
    Edit State Failure TypeDecl :=
  ((Edit.list (lowerMemberType nested) d.members).map fun ms => { d with members := ms }).seq
    (TypeDecl.editLocalTypes nested)

/-- Gives instances their initialization: in the declared constructors, or in a default constructor
if there are none. -/
def lowerInstances (type : TypeId) (instances : List Stmt) (d : TypeDecl) :
    Edit State Failure TypeDecl :=
  (lowerConstructors type instances d).seq fun d =>
    if d.constructors.isEmpty then addDefaultConstructor type instances d else Edit.keep d

/-- Gives a type its static routine if there is something for it to run. -/
def lowerStatics (options : Options) (type : TypeId) (statics : List Stmt) (d : TypeDecl) :
    Edit State Failure TypeDecl :=
  if statics.isEmpty then Edit.keep d else addClassInitializer options type statics d

/-- Lowers a type itself, when the types in it are lowered. -/
def lowerOwn (options : Options) (type : TypeId) (isInterface : Bool) (d : TypeDecl) :
    Edit State Failure TypeDecl :=
  (collect options isInterface d).andThen (·.1) fun (d, lists) =>
    (if isInterface then Edit.keep d else lowerInstances type lists.instances d).seq
      (lowerStatics options type lists.statics)

/-- Counts a lowered type. -/
def countType (d : TypeDecl) : Edit State Failure TypeDecl :=
  Edit.ofState do
    count fun s => { s with types := s.types + 1 }
    return d

/-- The handle of a type and whether it is interface-like. -/
def identify (d : TypeDecl) : Step (TypeId × Bool) := do
  match d.head.binding with
  | none => throw ⟨d.name, d.head.span, .missingTypeBinding⟩
  | some type => return (type, ← ask d.name d.head.span (·.isInterface type))

/-- Lowers a type and the types in it; `levels` is the number of levels left for them. -/
def lowerType (options : Options) : Nat → TypeDecl → Edit State Failure TypeDecl
  | 0, d => Edit.stop d ⟨d.name, d.head.span, .nestingTooDeep Limits.typeNesting⟩
  | levels + 1, d => fun s =>
    match (identify d).run s with
    | (.error e, s) => (.stopped d e, s)
    | (.ok (type, isInterface), s) =>
      (((lowerNested (lowerType options levels) d).seq (lowerOwn options type isInterface)).seq
        countType) s

/-- Lowers a top-level type. -/
def lowerTopLevel (options : Options) : TypeDecl → Edit State Failure TypeDecl :=
  lowerType options (Limits.typeNesting + 1)

end Lowering

/-- What lowering a unit leaves: the unit, the table with the entries that were made, and the counts
or the failure. -/
structure LowerResult where
  unit : CompilationUnit
  table : BindingTable
  result : Except Lowering.Failure Lowering.Stats

/-- Lowers every type of a unit. A failure leaves the unit as it was; entries already made stay in
the table, but nothing in the unit refers to them. -/
def CompilationUnit.lower (u : CompilationUnit) (t : BindingTable) (options : Lowering.Options) :
    LowerResult :=
  match Edit.list (Lowering.lowerTopLevel options) u.types ⟨t, u.supply, .zero⟩ with
  | (.done types, s) => ⟨{ u with types, supply := s.supply }, s.table, .ok s.stats⟩
  | (.stopped _ e, s) => ⟨u, s.table, .error e⟩

end ClassInit
