/-!
The depths and round counts at which a walk over a program gives up, and the depth at which the
reader of its document does.
-/

set_option autoImplicit false

namespace ClassInit

namespace Limits

/-- The deepest level a type declaration may stand at; a top-level type stands at level zero, and
member and local nesting count alike. -/
def typeNesting : Nat := 64

/-- The deepest level at which a constant expression is still folded. A deeper expression is no
constant, and its field is initialized at run time. -/
def constantFold : Nat := 256

/-- The number of rounds after which constants that depend on each other are given up. -/
def constantRounds : Nat := 1024

/-- The number of arrays and objects of a document that may be open at a time. -/
def documentNesting : Nat := 127

end Limits

end ClassInit
