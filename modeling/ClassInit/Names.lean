/-!
Names with a fixed meaning: the well-known types and the names that synthesized members carry.
-/

set_option autoImplicit false

namespace ClassInit

namespace Names

/-- The default name of the static routine of a type. -/
def classInitializer : String := "initialize"

/-- The name recorded for every constructor. -/
def constructor : String := "<init>"

/-- The root of the class hierarchy. -/
def objectType : String := "java.lang.Object"

/-- The string class. -/
def stringType : String := "java.lang.String"

/-- The superclass of an enum that names none. -/
def enumType : String := "java.lang.Enum"

/-- The last segment of a dotted name. -/
def simple (name : String) : String :=
  String.ofList ((name.toList.reverse.takeWhile (· ≠ '.')).reverse)

end Names

end ClassInit
