import ClassInit.Lowering.Basic
import ClassInit.Tree.Access

/-!
Synthesized members: the default constructor of a type that declares none, and the static routine of
a type that has something to run once.
-/

set_option autoImplicit false

namespace ClassInit.Lowering

/-- A type with one more member at the end. -/
def appendMethod (d : TypeDecl) (m : MethodDecl) : TypeDecl :=
  { d with members := d.members ++ [.method m] }

/-- The constructor without parameters that runs the instance list. It is as visible as its type. -/
def defaultConstructor (d : TypeDecl) (type : TypeId) (instances : List Stmt) :
    Step MethodDecl := do
  let span := d.head.span
  let descriptor ← ask d.name span (·.typeAt type)
  let modifiers := descriptor.modifiers.access
  let superclass ← ask d.name span (·.superclass type)
  let superBinding ← enter d.name span (newConstructor · superclass modifiers)
  let binding ← enter d.name span (newConstructor · type modifiers)
  let call ← mint (Make.superCall superBinding)
  mint (Make.syntheticMethod d.name modifiers .void true binding (call :: instances))

/-- Adds the default constructor. -/
def addDefaultConstructor (type : TypeId) (instances : List Stmt) (d : TypeDecl) :
    Edit State Failure TypeDecl :=
  editBy d do
    let m ← defaultConstructor d type instances
    count fun s => { s with defaultConstructors := s.defaultConstructors + 1 }
    return appendMethod d m

/-- The modifiers of a static routine. -/
def routineModifiers : Modifiers := .ofList [.pub, .static]

/-- The static routine, whose name must not be taken by a method without parameters. -/
def classInitializer (options : Options) (d : TypeDecl) (type : TypeId) (statics : List Stmt) :
    Step MethodDecl := do
  let name := options.classInitializerName
  match d.findMethod? name 0 with
  | some existing => throw ⟨d.name, existing.head.span, .reservedNameCollision name⟩
  | none =>
    let binding ← enter d.name d.head.span (newMethod · type name routineModifiers .void)
    mint (Make.syntheticMethod name routineModifiers .void false binding statics)

/-- Adds the static routine. -/
def addClassInitializer (options : Options) (type : TypeId) (statics : List Stmt) (d : TypeDecl) :
    Edit State Failure TypeDecl :=
  editBy d do
    let m ← classInitializer options d type statics
    count fun s => { s with classInitializers := s.classInitializers + 1 }
    return appendMethod d m

end ClassInit.Lowering
