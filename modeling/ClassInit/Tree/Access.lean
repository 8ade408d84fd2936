import ClassInit.Tree.Decl

/-!
Reading declarations: the members of a type by their kind, searches among them, and the statements
of a body.
-/

set_option autoImplicit false

namespace ClassInit

namespace Member

/-- The word for the kind of a member. -/
def kindName : Member → String
  | type _ => "type"
  | method _ => "method"
  | initializer _ => "initializer"
  | field _ => "field"

def asMethod : Member → Option MethodDecl
  | method m => some m
  | _ => none

def asField : Member → Option FieldDecl
  | field f => some f
  | _ => none

def asInitializer : Member → Option InitializerDecl
  | initializer i => some i
  | _ => none

def asType : Member → Option TypeDecl
  | type d => some d
  | _ => none

/-- The statements of a method with a body or of an initializer block. -/
def body : Member → Option (List Stmt)
  | method m => m.body.map (·.statements)
  | initializer i => some i.body.statements
  | _ => none

end Member

namespace Stmt

def info : Stmt → NodeInfo
  | expression i _ | localVariable i .. | block i _ | ifElse i .. | whileLoop i .. | forLoop i ..
  | tryCatch i .. | returnValue i _ | throwValue i _ | superCall i .. | thisCall i ..
  | localType i _ | empty i => i

def isSuperCall : Stmt → Bool
  | superCall .. => true
  | _ => false

def isThisCall : Stmt → Bool
  | thisCall .. => true
  | _ => false

end Stmt

namespace MethodDecl

/-- The statements of the body; a method without body has none. -/
def statements (m : MethodDecl) : List Stmt := (m.body.map (·.statements)).getD []

/-- The index of the first call of a superclass constructor. -/
def superCallIndex (m : MethodDecl) : Option Nat := m.statements.findIdx? Stmt.isSuperCall

/-- Whether a constructor runs the initializers of its type itself. One that starts by calling a
sibling leaves that to the sibling, so that they run once whatever chain of constructors runs. -/
def isDesignated (m : MethodDecl) : Bool :=
  m.head.isConstructor && !(m.statements.head?.map Stmt.isThisCall).getD false

end MethodDecl

namespace TypeDecl

def name (d : TypeDecl) : String := d.head.name

def isInterfaceLike (d : TypeDecl) : Bool := d.head.kind.isInterfaceLike

def methods (d : TypeDecl) : List MethodDecl := d.members.filterMap Member.asMethod

def constructors (d : TypeDecl) : List MethodDecl := d.methods.filter (·.head.isConstructor)

def fields (d : TypeDecl) : List FieldDecl := d.members.filterMap Member.asField

def initializers (d : TypeDecl) : List InitializerDecl := d.members.filterMap Member.asInitializer

def memberTypes (d : TypeDecl) : List TypeDecl := d.members.filterMap Member.asType

/-- The statement lists of the methods and initializer blocks. -/
def bodies (d : TypeDecl) : List (List Stmt) := d.members.filterMap Member.body

/-- The first method with a name and a number of parameters that is no constructor. -/
def findMethod? (d : TypeDecl) (name : String) (arity : Nat) : Option MethodDecl :=
  d.methods.find? fun m =>
    !m.head.isConstructor && m.head.name == name && m.head.parameters.length == arity

/-- The first field fragment with a name, together with its declaration. -/
def findField? (d : TypeDecl) (name : String) : Option (FieldDecl × Fragment) :=
  d.fields.findSome? fun f => (f.fragments.find? (·.name == name)).map fun frag => (f, frag)

end TypeDecl

end ClassInit
