import ClassInit.Modifiers
import ClassInit.Tree.Expr

/-!
Declarations and statements. They nest in each other: a type has members, a method or an initializer
block has statements, and a statement may declare a local type. Expressions hold neither.
-/

set_option autoImplicit false

namespace ClassInit

/-- The kinds of type declarations. -/
inductive TypeKind where
  | classType
  | interfaceType
  | enumType
  | annotationType
deriving DecidableEq, Inhabited

namespace TypeKind

def keyword : TypeKind → String
  | classType => "class"
  | interfaceType => "interface"
  | enumType => "enum"
  | annotationType => "@interface"

/-- Interfaces and annotation types: their fields are static, and they have no instances. -/
def isInterfaceLike : TypeKind → Bool
  | interfaceType | annotationType => true
  | _ => false

end TypeKind

/-- What every statement, block and initializer carries. -/
structure NodeInfo where
  id : NodeId
  span : Span
deriving DecidableEq, Inhabited

/-- A parameter of a method or a catch clause. -/
structure Parameter where
  name : String
  type : TypeRef
  binding : Option VariableId
deriving DecidableEq, Inhabited

/-- One declarator of a field or local variable declaration. -/
structure Fragment where
  span : Span
  name : String
  initializer : Option Expr
  binding : Option VariableId
deriving Inhabited

/-- A field declaration, which may declare several fields of one type. -/
structure FieldDecl where
  id : NodeId
  span : Span
  modifiers : Modifiers
  type : TypeRef
  fragments : List Fragment
deriving Inhabited

/-- A constant of an enum, with the arguments for its constructor. -/
structure EnumConstant where
  name : String
  arguments : List Expr
  span : Span
deriving Inhabited

/-- A type declaration without its members. -/
structure TypeHead where
  id : NodeId
  span : Span
  kind : TypeKind
  name : String
  modifiers : Modifiers
  superclass : Option TypeName
  binding : Option TypeId
  enumConstants : List EnumConstant
deriving Inhabited

/-- A method or constructor declaration without its body. -/
structure MethodHead where
  id : NodeId
  span : Span
  name : String
  modifiers : Modifiers
  returnType : TypeRef
  parameters : List Parameter
  isConstructor : Bool
  binding : Option MethodId
  isSynthetic : Bool
deriving Inhabited

mutual

/-- Statements between braces. -/
structure Block where
  info : NodeInfo
  statements : List Stmt

/-- A statement. -/
inductive Stmt where
  | expression (info : NodeInfo) (value : Expr)
  | localVariable (info : NodeInfo) (modifiers : Modifiers) (type : TypeRef)
      (fragments : List Fragment)
  | block (info : NodeInfo) (body : Block)
  | ifElse (info : NodeInfo) (condition : Expr) (thenBranch : Stmt) (elseBranch : Option Stmt)
  | whileLoop (info : NodeInfo) (condition : Expr) (body : Stmt)
  | forLoop (info : NodeInfo) (init : List Stmt) (condition : Option Expr) (updates : List Expr)
      (body : Stmt)
  | tryCatch (info : NodeInfo) (body : Block) (catches : List CatchClause)
      (finallyBody : Option Block)
  | returnValue (info : NodeInfo) (value : Option Expr)
  | throwValue (info : NodeInfo) (value : Expr)
  /-- A call of a constructor of the superclass. -/
  | superCall (info : NodeInfo) (arguments : List Expr) (binding : Option MethodId)
  /-- A call of a sibling constructor. -/
  | thisCall (info : NodeInfo) (arguments : List Expr) (binding : Option MethodId)
  | localType (info : NodeInfo) (decl : TypeDecl)
  | empty (info : NodeInfo)

/-- A clause of a `try` statement. -/
structure CatchClause where
  span : Span
  exception : Parameter
  body : Block

/-- A member of a type: a type, a method or constructor, an initializer block, or a field. -/
inductive Member where
  | type (decl : TypeDecl)
  | method (decl : MethodDecl)
  | initializer (decl : InitializerDecl)
  | field (decl : FieldDecl)

/-- A method or a constructor. -/
structure MethodDecl where
  head : MethodHead
  /-- Abstract, native and interface methods have no body. -/
  body : Option Block

/-- An initializer block, for the type if it is static and for each instance otherwise. -/
structure InitializerDecl where
  info : NodeInfo
  isStatic : Bool
  body : Block

/-- A type declaration with its members in the order of the source. -/
structure TypeDecl where
  head : TypeHead
  members : List Member

end

instance : Inhabited Block := ⟨⟨default, []⟩⟩

instance : Inhabited Stmt := ⟨.empty default⟩

instance : Inhabited TypeDecl := ⟨⟨default, []⟩⟩

instance : Inhabited Member := ⟨.type default⟩

instance : Inhabited MethodDecl := ⟨⟨default, none⟩⟩

instance : Inhabited InitializerDecl := ⟨⟨default, false, default⟩⟩

/-- One source file. -/
structure CompilationUnit where
  fileName : String
  package : Option String
  types : List TypeDecl
  supply : IdSupply
deriving Inhabited

namespace CompilationUnit

/-- A unit without a name and without types. -/
def empty : CompilationUnit := ⟨"", none, [], .initial⟩

end CompilationUnit

end ClassInit
