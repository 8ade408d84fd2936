import ClassInit.Constant
import ClassInit.Span

/-!
Expressions. Every expression carries its node id, its span and, if it is known, its static type; a
name, a field access and a call carry the handle that they were resolved to.
-/

set_option autoImplicit false

namespace ClassInit

/-- The operators in front of their operand. -/
inductive UnaryOp where
  | plus
  | minus
  | not
  | complement
  | preIncrement
  | preDecrement
deriving DecidableEq, Inhabited

def UnaryOp.text : UnaryOp → String
  | plus => "+"
  | minus => "-"
  | not => "!"
  | complement => "~"
  | preIncrement => "++"
  | preDecrement => "--"

/-- The operators that follow their operand. -/
inductive StepOp where
  | increment
  | decrement
deriving DecidableEq, Inhabited

def StepOp.text : StepOp → String
  | increment => "++"
  | decrement => "--"

/-- The operators between two operands. -/
inductive BinaryOp where
  | add
  | sub
  | mul
  | div
  | rem
  | shl
  | shr
  | ushr
  | lt
  | gt
  | le
  | ge
  | eq
  | ne
  | bitAnd
  | bitOr
  | bitXor
  | and
  | or
deriving DecidableEq, Inhabited

def BinaryOp.text : BinaryOp → String
  | add => "+"
  | sub => "-"
  | mul => "*"
  | div => "/"
  | rem => "%"
  | shl => "<<"
  | shr => ">>"
  | ushr => ">>>"
  | lt => "<"
  | gt => ">"
  | le => "<="
  | ge => ">="
  | eq => "=="
  | ne => "!="
  | bitAnd => "&"
  | bitOr => "|"
  | bitXor => "^"
  | and => "&&"
  | or => "||"

/-- Assignment, alone or together with an operator. -/
inductive AssignOp where
  | assign
  | add
  | sub
  | mul
  | div
  | rem
  | shl
  | shr
  | ushr
  | bitAnd
  | bitOr
  | bitXor
deriving DecidableEq, Inhabited

def AssignOp.text : AssignOp → String
  | assign => "="
  | add => "+="
  | sub => "-="
  | mul => "*="
  | div => "/="
  | rem => "%="
  | shl => "<<="
  | shr => ">>="
  | ushr => ">>>="
  | bitAnd => "&="
  | bitOr => "|="
  | bitXor => "^="

/-! ## Literals -/

/-- A literal. Numbers are kept as values, not as they were written. -/
inductive Literal where
  | boolean (value : Bool)
  | char (value : UInt16)
  | null
  | int (value : Int32)
  | long (value : Int64)
  | float (value : Float32)
  | double (value : Float)
  | string (value : String)
deriving Inhabited

namespace Literal

/-- The literal that spells a constant. A `byte` or `short` has no literal of its own and is spelled
as an `int`; the type of the expression tells them apart. -/
def ofConstant : Constant → Literal
  | .boolean b => boolean b
  | .char c => char c
  | .byte b => int b.toInt32
  | .short s => int s.toInt32
  | .int i => int i
  | .long l => long l
  | .float f => float f
  | .double d => double d
  | .string s => string s

/-- The constant that a literal denotes; `null` denotes none. -/
def constant : Literal → Option Constant
  | boolean b => some (.boolean b)
  | char c => some (.char c)
  | null => none
  | int i => some (.int i)
  | long l => some (.long l)
  | float f => some (.float f)
  | double d => some (.double d)
  | string s => some (.string s)

end Literal

/-! ## Expressions -/

/-- What every expression carries: its identity, its source span, and its static type if known. -/
structure ExprInfo where
  id : NodeId
  span : Span
  type : Option TypeRef
deriving DecidableEq, Inhabited

/-- An expression. Parentheses of the source are nodes of their own. -/
inductive Expr where
  | literal (info : ExprInfo) (value : Literal)
  /-- A simple or a dotted name. -/
  | name (info : ExprInfo) (identifier : String) (binding : Option VariableId)
  | this (info : ExprInfo)
  | fieldAccess (info : ExprInfo) (target : Expr) (name : String) (binding : Option VariableId)
  | unary (info : ExprInfo) (op : UnaryOp) (operand : Expr)
  | step (info : ExprInfo) (op : StepOp) (operand : Expr)
  | binary (info : ExprInfo) (op : BinaryOp) (lhs rhs : Expr)
  | conditional (info : ExprInfo) (condition whenTrue whenFalse : Expr)
  | parenthesized (info : ExprInfo) (inner : Expr)
  | cast (info : ExprInfo) (type : TypeRef) (operand : Expr)
  | assignment (info : ExprInfo) (op : AssignOp) (lhs rhs : Expr)
  | call (info : ExprInfo) (receiver : Option Expr) (name : String) (arguments : List Expr)
      (binding : Option MethodId)
  | new (info : ExprInfo) (type : TypeName) (arguments : List Expr) (binding : Option MethodId)
deriving Inhabited

namespace Expr

def info : Expr → ExprInfo
  | literal i .. | name i .. | this i | fieldAccess i .. | unary i .. | step i .. | binary i ..
  | conditional i .. | parenthesized i .. | cast i .. | assignment i .. | call i .. | new i .. => i

/-- The same expression with another header. -/
def withInfo (i : ExprInfo) : Expr → Expr
  | literal _ v => literal i v
  | name _ n b => name i n b
  | this _ => this i
  | fieldAccess _ t n b => fieldAccess i t n b
  | unary _ op e => unary i op e
  | step _ op e => step i op e
  | binary _ op l r => binary i op l r
  | conditional _ c t e => conditional i c t e
  | parenthesized _ e => parenthesized i e
  | cast _ t e => cast i t e
  | assignment _ op l r => assignment i op l r
  | call _ r n as b => call i r n as b
  | new _ t as b => new i t as b

def asLiteral : Expr → Option Literal
  | literal _ v => some v
  | _ => none

/-- The identifier and the handle of an expression that is a name. -/
def asName : Expr → Option (String × Option VariableId)
  | name _ n b => some (n, b)
  | _ => none

/-- The expression inside all enclosing parentheses. -/
def skipParens : Expr → Expr
  | parenthesized _ e => e.skipParens
  | e => e

end Expr

end ClassInit
