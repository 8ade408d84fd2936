import ClassInit.Limits
import ClassInit.Tree.Expr
import ClassInit.Number.Binary

/-!
Constant folding. Literals other than `null`, names of constant variables, casts to primitive types
and to the string class, and the unary, binary and conditional operators over constants are constant
expressions. Integers wrap at 32 or 64 bits, and an integer division by zero is no constant.
-/

set_option autoImplicit false

namespace ClassInit.Constant

/-! ## Promotion -/

/-- Unary promotion: the small integer types widen to `int`; booleans and strings have none. -/
def promote : Constant → Option Constant
  | int i => some (int i)
  | long l => some (long l)
  | float f => some (float f)
  | double d => some (double d)
  | boolean _ | string _ => none
  | c => c.convert .int

/-- The type to which binary promotion takes two numeric types: the wider one, at least `int`. -/
def promotedPair (l r : PrimitiveType) : Option PrimitiveType :=
  if !l.isNumeric || !r.isNumeric then none
  else if l = .double ∨ r = .double then some .double
  else if l = .float ∨ r = .float then some .float
  else if l = .long ∨ r = .long then some .long
  else some .int

/-- The type to which binary promotion takes two constants. -/
def promotedType (l r : Constant) : Option PrimitiveType := do
  promotedPair (← l.primitiveType) (← r.primitiveType)

/-! ## Operators -/

/-- A comparison, from the outcomes of the tests that it may ask for. -/
def compared (op : BinaryOp) (lt gt le ge eq : Bool) : Option Constant :=
  match op with
  | .lt => some (boolean lt)
  | .gt => some (boolean gt)
  | .le => some (boolean le)
  | .ge => some (boolean ge)
  | .eq => some (boolean eq)
  | .ne => some (boolean (!eq))
  | _ => none

def foldInt (op : BinaryOp) (l r : Int32) : Option Constant :=
  match op with
  | .add => some (int (l + r))
  | .sub => some (int (l - r))
  | .mul => some (int (l * r))
  | .div => if r = 0 then none else some (int (l / r))
  | .rem => if r = 0 then none else some (int (l % r))
  | .bitAnd => some (int (l &&& r))
  | .bitOr => some (int (l ||| r))
  | .bitXor => some (int (l ^^^ r))
  | _ => compared op (l < r) (r < l) (l ≤ r) (r ≤ l) (l = r)

def foldLong (op : BinaryOp) (l r : Int64) : Option Constant :=
  match op with
  | .add => some (long (l + r))
  | .sub => some (long (l - r))
  | .mul => some (long (l * r))
  | .div => if r = 0 then none else some (long (l / r))
  | .rem => if r = 0 then none else some (long (l % r))
  | .bitAnd => some (long (l &&& r))
  | .bitOr => some (long (l ||| r))
  | .bitXor => some (long (l ^^^ r))
  | _ => compared op (l < r) (r < l) (l ≤ r) (r ≤ l) (l = r)

def foldFloat (op : BinaryOp) (l r : Float32) : Option Constant :=
  match op with
  | .add => some (float (l + r))
  | .sub => some (float (l - r))
  | .mul => some (float (l * r))
  | .div => some (float (l / r))
  | .rem => some (float (Number.remainder32 l r))
  | _ => compared op (l < r) (r < l) (l ≤ r) (r ≤ l) (l == r)

def foldDouble (op : BinaryOp) (l r : Float) : Option Constant :=
  match op with
  | .add => some (double (l + r))
  | .sub => some (double (l - r))
  | .mul => some (double (l * r))
  | .div => some (double (l / r))
  | .rem => some (double (Number.remainder64 l r))
  | _ => compared op (l < r) (r < l) (l ≤ r) (r ≤ l) (l == r)

def foldBoolean (op : BinaryOp) (l r : Bool) : Option Constant :=
  match op with
  | .and | .bitAnd => some (boolean (l && r))
  | .or | .bitOr => some (boolean (l || r))
  | .bitXor | .ne => some (boolean (l != r))
  | .eq => some (boolean (l == r))
  | _ => none

/-- How a shift treats the places that it frees. -/
inductive ShiftKind where
  | left
  | signed
  | unsigned
deriving DecidableEq

def ShiftKind.ofOp? : BinaryOp → Option ShiftKind
  | .shl => some .left
  | .shr => some .signed
  | .ushr => some .unsigned
  | _ => none

/-- A shift; the distance counts modulo 32. -/
def shiftInt (k : ShiftKind) (value : Int32) (distance : Int64) : Int32 :=
  let n := (distance &&& 0x1F).toInt32
  match k with
  | .left => value <<< n
  | .signed => value >>> n
  | .unsigned => (value.toUInt32 >>> n.toUInt32).toInt32

/-- A shift; the distance counts modulo 64. -/
def shiftLong (k : ShiftKind) (value distance : Int64) : Int64 :=
  let n := distance &&& 0x3F
  match k with
  | .left => value <<< n
  | .signed => value >>> n
  | .unsigned => (value.toUInt64 >>> n.toUInt64).toInt64

/-- The distance of a shift, which is promoted by itself. -/
def shiftDistance (c : Constant) : Option Int64 :=
  match c.promote with
  | some (int i) => some i.toInt64
  | some (long l) => some l
  | _ => none

/-- A shift; each operand is promoted by itself. -/
def foldShift (k : ShiftKind) (l r : Constant) : Option Constant := do
  let distance ← r.shiftDistance
  match l.promote with
  | some (int value) => some (int (shiftInt k value distance))
  | some (long value) => some (long (shiftLong k value distance))
  | _ => none

/-- An operator on two numbers, carried out in their promoted type. -/
def foldNumeric (op : BinaryOp) (l r : Constant) : Option Constant := do
  match ← promotedType l r with
  | .double => foldDouble op (← l.asDouble) (← r.asDouble)
  | .float => foldFloat op (← l.asFloat) (← r.asFloat)
  | .long => foldLong op (← l.asLong) (← r.asLong)
  | _ => foldInt op (← l.asInt) (← r.asInt)

/-- A binary operator. With a string operand only `+` is constant, and it concatenates. -/
def foldBinary (op : BinaryOp) (l r : Constant) : Option Constant :=
  if l.isString || r.isString then
    if op = .add then some (string (l.concatText ++ r.concatText)) else none
  else
    match l.asBool, r.asBool with
    | some l, some r => foldBoolean op l r
    | _, _ =>
      match ShiftKind.ofOp? op with
      | some k => foldShift k l r
      | none => foldNumeric op l r

def foldUnary (op : UnaryOp) (c : Constant) : Option Constant :=
  match op with
  | .not => c.asBool.map fun b => boolean (!b)
  | .plus => c.promote
  | .minus =>
    match c.promote with
    | some (int i) => some (int (-i))
    | some (long l) => some (long (-l))
    | some (float f) => some (float (-f))
    | some (double d) => some (double (-d))
    | _ => none
  | .complement =>
    match c.promote with
    | some (int i) => some (int (~~~i))
    | some (long l) => some (long (~~~l))
    | _ => none
  | .preIncrement | .preDecrement => none

/-- Conversion of a constant to a type as it is written: to a primitive type, or of a string to the
string class. -/
def convertTo (c : Constant) (type : TypeRef) : Option Constant :=
  match type with
  | .primitive p => c.convert p
  | t => if t.isString && c.isString then some c else none

/-- A conditional. Two strings and two constants of one type keep their type; two numbers of
different types are promoted. -/
def foldConditional (condition : Bool) (whenTrue whenFalse : Constant) : Option Constant :=
  let chosen := if condition then whenTrue else whenFalse
  match whenTrue.primitiveType, whenFalse.primitiveType with
  | none, none => some chosen
  | some t, some e =>
    if t = e then some chosen
    else (promotedType whenTrue whenFalse).bind chosen.convert
  | _, _ => none

end ClassInit.Constant

namespace ClassInit

/-- Whether an expression at a level is too deep to be folded. -/
def tooDeepToFold (level : Nat) : Bool := Limits.constantFold < level

/-- The constant that an expression at a level denotes, if it is a constant expression. A field
access through `this` is none. -/
def Expr.foldAt (env : VariableId → Option Constant) : Nat → Expr → Option Constant
  | n, .literal _ v => if tooDeepToFold n then none else v.constant
  | n, .name _ _ b => if tooDeepToFold n then none else b.bind env
  | n, .fieldAccess _ t _ b =>
    if tooDeepToFold n then none
    else
      match t.skipParens with
      | .this _ => none
      | _ => b.bind env
  | n, .parenthesized _ e => if tooDeepToFold n then none else e.foldAt env (n + 1)
  | n, .unary _ op e =>
    if tooDeepToFold n then none else (e.foldAt env (n + 1)).bind (Constant.foldUnary op)
  | n, .binary _ op l r =>
    if tooDeepToFold n then none
    else do Constant.foldBinary op (← l.foldAt env (n + 1)) (← r.foldAt env (n + 1))
  | n, .conditional _ c t e =>
    if tooDeepToFold n then none
    else do
      let condition ← (← c.foldAt env (n + 1)).asBool
      Constant.foldConditional condition (← t.foldAt env (n + 1)) (← e.foldAt env (n + 1))
  | n, .cast _ t e =>
    if tooDeepToFold n then none else (e.foldAt env (n + 1)).bind (·.convertTo t)
  | _, .this _ => none
  | _, .step .. => none
  | _, .assignment .. => none
  | _, .call .. => none
  | _, .new .. => none

/-- The constant that an expression denotes, given the constants of variables. -/
def Expr.fold (env : VariableId → Option Constant) (e : Expr) : Option Constant := e.foldAt env 0

end ClassInit
