import ClassInit.Lowering.Eligibility
import ClassInit.Tree.Access

/-!
Collecting initialization: one pass over the members of a type takes away its initializer blocks and
the field initializers that need an assignment, and lists what has to run, in declaration order, for
every instance and once for the type.
-/

set_option autoImplicit false

namespace ClassInit.Lowering

/-- The statements that initialize a type, in declaration order. -/
structure InitLists where
  /-- Run by every designated constructor. -/
  instances : List Stmt
  /-- Run once, by the static routine. -/
  statics : List Stmt
deriving Inhabited

namespace InitLists

def empty : InitLists := ⟨[], []⟩

/-- Adds statements at the end of one of the lists. -/
def add (l : InitLists) (isStatic : Bool) (ss : List Stmt) : InitLists :=
  if isStatic then { l with statics := l.statics ++ ss }
  else { l with instances := l.instances ++ ss }

end InitLists

/-- Whether a statement declares a name in its block. -/
def declaresName : Stmt → Bool
  | .localVariable .. | .localType .. => true
  | _ => false

/-- What a block contributes to a list: its statements, or the block as a whole if it declares
names, so that these stay in its scope. -/
def contribution (b : Block) : Numbered (List Stmt) := do
  if b.statements.any declaresName then return [.block ⟨← freshId, b.info.span⟩ b]
  else return b.statements

/-- The assignment that a demoted initializer becomes; it has the span of its fragment. -/
def assignmentOf (f : Fragment) (field : VariableId) (value : Expr) : Numbered Stmt := do
  let target ← Make.name f.name (some field)
  let assign ← Make.assignment target value
  return .expression ⟨← freshId, f.span⟩ assign

/-- What becomes of the initializer of a field. Without instances to initialize it is classified,
otherwise it is demoted. -/
def eligibility (options : Options) (typeName : String) (isStatic : Bool) (f : Fragment)
    (field : VariableId) (initializer : Expr) : Step Eligibility :=
  if isStatic then
    ask typeName f.span fun t => classify t options.literalEncoding initializer field
  else return .demote

/-- Collects one fragment of a field of the given type. -/
def collectFragment (options : Options) (typeName : String) (isStatic : Bool) (type : TypeRef)
    (lists : InitLists) (f : Fragment) : Step (Fragment × InitLists) := do
  match f.initializer, f.binding with
  | none, _ => return (f, lists)
  | some _, none => throw ⟨typeName, f.span, .missingVariableBinding f.name⟩
  | some initializer, some field =>
    match ← eligibility options typeName isStatic f field initializer with
    | .keep =>
      count fun s => { s with keptLiterals := s.keptLiterals + 1 }
      return (f, lists)
    | .fold value =>
      let literal ← mint (foldedLiteral value type)
      count fun s => { s with foldedLiterals := s.foldedLiterals + 1 }
      return ({ f with initializer := some literal }, lists)
    | .demote =>
      let assign ← mint (assignmentOf f field initializer)
      count fun s =>
        if isStatic then { s with staticAssignments := s.staticAssignments + 1 }
        else { s with instanceAssignments := s.instanceAssignments + 1 }
      return ({ f with initializer := none }, lists.add isStatic [assign])

/-- Collects the fragments of a field from the first to the last. -/
def collectFragments (options : Options) (typeName : String) (isStatic : Bool) (type : TypeRef) :
    InitLists → List Fragment → Step (List Fragment × InitLists)
  | lists, [] => return ([], lists)
  | lists, f :: fs => do
    let (f, lists) ← collectFragment options typeName isStatic type lists f
    let (fs, lists) ← collectFragments options typeName isStatic type lists fs
    return (f :: fs, lists)

/-- Collects a field. -/
def collectField (options : Options) (typeName : String) (isInterface : Bool) (lists : InitLists)
    (f : FieldDecl) : Step (FieldDecl × InitLists) := do
  let isStatic := f.modifiers.isStatic || isInterface
  let (fragments, lists) ←
    collectFragments options typeName isStatic f.type lists f.fragments
  return ({ f with fragments }, lists)

/-- Collects an initializer block. -/
def collectBlock (lists : InitLists) (i : InitializerDecl) : StateM State InitLists := do
  let ss ← numbered (contribution i.body)
  count fun s => { s with initializerBlocks := s.initializerBlocks + 1 }
  return lists.add i.isStatic ss

/-- Collects the members of a type. A field that fails is lost together with the members after
it. -/
def collectMembers (options : Options) (typeName : String) (isInterface : Bool) :
    InitLists → List Member → Edit State Failure (List Member × InitLists)
  | lists, [] => Edit.keep ([], lists)
  | lists, .initializer i :: ms =>
    (Edit.ofState (collectBlock lists i)).andThen (fun lists => ([], lists)) fun lists =>
      collectMembers options typeName isInterface lists ms
  | lists, .field f :: ms =>
    (editBy (f, lists) (collectField options typeName isInterface lists f)).andThen
      (fun (_, lists) => ([], lists)) fun (f, lists) =>
        (collectMembers options typeName isInterface lists ms).map fun (ms, lists) =>
          (.field f :: ms, lists)
  | lists, .type d :: ms =>
    (collectMembers options typeName isInterface lists ms).map fun (ms, lists) =>
      (.type d :: ms, lists)
  | lists, .method m :: ms =>
    (collectMembers options typeName isInterface lists ms).map fun (ms, lists) =>
      (.method m :: ms, lists)

/-- Collects a type whose descriptor is interface-like or not. -/
def collect (options : Options) (isInterface : Bool) (d : TypeDecl) :
    Edit State Failure (TypeDecl × InitLists) :=
  (collectMembers options d.name isInterface .empty d.members).map fun (ms, lists) =>
    ({ d with members := ms }, lists)

end ClassInit.Lowering
