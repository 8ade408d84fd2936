import ClassInit.Names
import ClassInit.Tree.Id

/-!
Types as source text writes them: primitive types, names of declared types, arrays, and the type of
the null literal.
-/

set_option autoImplicit false

namespace ClassInit

/-- The primitive types, with `void` for methods that return nothing. -/
inductive PrimitiveType where
  | boolean
  | byte
  | char
  | short
  | int
  | long
  | float
  | double
  | void
deriving DecidableEq, Inhabited

namespace PrimitiveType

def keyword : PrimitiveType → String
  | boolean => "boolean"
  | byte => "byte"
  | char => "char"
  | short => "short"
  | int => "int"
  | long => "long"
  | float => "float"
  | double => "double"
  | void => "void"

def all : List PrimitiveType := [boolean, byte, char, short, int, long, float, double, void]

def isNumeric : PrimitiveType → Bool
  | boolean | void => false
  | _ => true

def isIntegral : PrimitiveType → Bool
  | byte | char | short | int | long => true
  | _ => false

end PrimitiveType

/-- The name of a declared type as it is written, with the handle it was resolved to. -/
structure TypeName where
  name : String
  binding : Option TypeId
deriving DecidableEq, Inhabited

namespace TypeName

def simpleName (n : TypeName) : String := Names.simple n.name

end TypeName

/-- A type as it is referred to. -/
inductive TypeRef where
  | primitive (type : PrimitiveType)
  | declared (name : TypeName)
  | array (element : TypeRef)
  | null
deriving DecidableEq, Inhabited

namespace TypeRef

def void : TypeRef := primitive .void

def asPrimitive : TypeRef → Option PrimitiveType
  | primitive p => some p
  | _ => none

/-- Whether values of the type are primitive; `void` has no values. -/
def isPrimitive : TypeRef → Bool
  | primitive .void => false
  | primitive _ => true
  | _ => false

/-- Whether the type is written as the string class, with or without its package. -/
def isString : TypeRef → Bool
  | declared n => n.name == "String" || n.name == Names.stringType
  | _ => false

/-- The spelling in source text: a declared type by its simple name. -/
def text : TypeRef → String
  | primitive p => p.keyword
  | declared n => n.simpleName
  | array e => e.text ++ "[]"
  | null => "null"

end TypeRef

end ClassInit
