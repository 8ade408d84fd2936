import ClassInit.Lowering.Basic
import ClassInit.Tree.Access
import ClassInit.Tree.Copy

/-!
Initializing instances: every designated constructor runs a copy of the instance list right after
its call of the superclass constructor, which it gets if it has none. Delegating constructors stay
as they are.
-/

set_option autoImplicit false

namespace ClassInit.Lowering

/-- The statements with others put in right after the one at an index. -/
def insertAfter (index : Nat) (inserted ss : List Stmt) : List Stmt :=
  ss.take (index + 1) ++ inserted ++ ss.drop (index + 1)

/-- An implicit call of the superclass constructor, with an entry in the table. -/
def implicitSuperCall (typeName : String) (type : TypeId) (span : Span) : Step Stmt := do
  let superclass ← ask typeName span (·.superclass type)
  let binding ← enter typeName span (newConstructor · superclass (.of .pub))
  mint (Make.superCall binding)

/-- The statements of a designated constructor with the instance list put in. -/
def initialized (typeName : String) (type : TypeId) (instances : List Stmt) (m : MethodDecl)
    (ss : List Stmt) : Step (List Stmt) := do
  match m.superCallIndex with
  | some index =>
    let copies ← mint (Stmt.copyAll instances)
    return insertAfter index copies ss
  | none =>
    let call ← implicitSuperCall typeName type m.head.span
    let copies ← mint (Stmt.copyAll instances)
    return insertAfter 0 copies (call :: ss)

/-- A constructor after lowering. -/
def lowerConstructor (typeName : String) (type : TypeId) (instances : List Stmt) (m : MethodDecl) :
    Step MethodDecl := do
  match m.body with
  | none => throw ⟨typeName, m.head.span, .missingConstructorBody⟩
  | some body =>
    if m.isDesignated then
      let statements ← initialized typeName type instances m body.statements
      count fun s => { s with designatedConstructors := s.designatedConstructors + 1 }
      return { m with body := some { body with statements } }
    else
      count fun s => { s with delegatingConstructors := s.delegatingConstructors + 1 }
      return m

/-- A member after lowering the constructors. -/
def lowerMember (typeName : String) (type : TypeId) (instances : List Stmt) (m : Member) :
    Edit State Failure Member :=
  match m with
  | .method d =>
    if d.head.isConstructor then
      editBy m (do return .method (← lowerConstructor typeName type instances d))
    else Edit.keep m
  | _ => Edit.keep m

/-- A type after lowering its constructors. -/
def lowerConstructors (type : TypeId) (instances : List Stmt) (d : TypeDecl) :
    Edit State Failure TypeDecl :=
  (Edit.list (lowerMember d.name type instances) d.members).map fun ms => { d with members := ms }

end ClassInit.Lowering
