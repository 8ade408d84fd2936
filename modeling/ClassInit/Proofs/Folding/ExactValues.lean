import Mathlib.Data.Int.Bitwise
import ClassInit.Fold

/-!
# Exact values

A reference for folding: the value of an expression over booleans and integers, computed on integers
of unbounded size that carry their type. The results are brought into the range of their type where
the language says so, and nowhere else (`IntegralType.reduce`).

The evaluator has no value for some expressions. Which ones is said apart from it: one of the parts
of the expression divides by zero, is a name without value, or applies an operator to kinds of
operands that it does not accept (`Expr.exactValue_eq_none_iff`).
-/

set_option autoImplicit false

namespace ClassInit

/-! ## Types of integers -/

inductive IntegralType where
  | byte
  | short
  | char
  | int
  | long
deriving DecidableEq

namespace IntegralType

def type : IntegralType → PrimitiveType
  | byte => .byte
  | short => .short
  | char => .char
  | int => .int
  | long => .long

def ofType? : PrimitiveType → Option IntegralType
  | .byte => some byte
  | .short => some short
  | .char => some char
  | .int => some int
  | .long => some long
  | _ => none

def bits : IntegralType → Nat
  | byte => 8
  | short | char => 16
  | int => 32
  | long => 64

/-- The integer in the range of the type that agrees with the given one modulo two to the number of
bits. Characters are not negative; the ranges of the others are symmetric around zero, but for the
least number. -/
def reduce : IntegralType → Int → Int
  | char, n => n % 2 ^ char.bits
  | t, n => n.bmod (2 ^ t.bits)

/-- The promoted type of one operand. -/
def promoted : IntegralType → IntegralType
  | long => long
  | _ => int

theorem promoted_cases (t : IntegralType) : t.promoted = int ∨ t.promoted = long := by
  cases t <;> first | exact .inl rfl | exact .inr rfl

/-- The promoted type of two operands. -/
def paired : IntegralType → IntegralType → IntegralType
  | long, _ | _, long => long
  | _, _ => int

theorem paired_cases (t t' : IntegralType) :
    t.paired t' = int ∧ t.promoted = int ∧ t'.promoted = int ∨ t.paired t' = long := by
  cases t <;> cases t' <;> first | exact .inl ⟨rfl, rfl, rfl⟩ | exact .inr rfl

/-- The places that an operand of the type is shifted by. -/
def places (t : IntegralType) (distance : Int) : Nat := (distance % t.bits).toNat

theorem places_lt (t : IntegralType) (distance : Int) : t.places distance < t.bits := by
  have positive : (0 : Int) < t.bits := by cases t <;> decide
  have below := Int.emod_lt_of_pos distance positive
  rw [places]
  omega

/-- The result of a shift of an operand of the type. -/
def shifted (t : IntegralType) (k : Constant.ShiftKind) (m distance : Int) : Int :=
  match k with
  | .left => t.reduce (m * 2 ^ t.places distance)
  | .signed => m.fdiv (2 ^ t.places distance)
  | .unsigned => t.reduce (m % 2 ^ t.bits / 2 ^ t.places distance)

end IntegralType

/-! ## Values -/

/-- A boolean, or an integer with the type that it has. -/
inductive ExactValue where
  | boolean (value : Bool)
  | integer (type : IntegralType) (value : Int)
deriving DecidableEq

namespace ExactValue

/-- An operator on two integers of the type that both were promoted to. -/
def arithmetic (op : BinaryOp) (t : IntegralType) (m n : Int) : Option ExactValue :=
  match op with
  | .add => some (integer t (t.reduce (m + n)))
  | .sub => some (integer t (t.reduce (m - n)))
  | .mul => some (integer t (t.reduce (m * n)))
  | .div => if n = 0 then none else some (integer t (t.reduce (m.tdiv n)))
  | .rem => if n = 0 then none else some (integer t (m.tmod n))
  | .bitAnd => some (integer t (Int.land m n))
  | .bitOr => some (integer t (Int.lor m n))
  | .bitXor => some (integer t (Int.xor m n))
  | .lt => some (boolean (m < n))
  | .gt => some (boolean (n < m))
  | .le => some (boolean (m ≤ n))
  | .ge => some (boolean (n ≤ m))
  | .eq => some (boolean (m = n))
  | .ne => some (boolean (m ≠ n))
  | _ => none

/-- An operator on two booleans. -/
def logical (op : BinaryOp) (a b : Bool) : Option ExactValue :=
  match op with
  | .and | .bitAnd => some (boolean (a && b))
  | .or | .bitOr => some (boolean (a || b))
  | .bitXor | .ne => some (boolean (a ^^ b))
  | .eq => some (boolean (a == b))
  | _ => none

def binary (op : BinaryOp) : ExactValue → ExactValue → Option ExactValue
  | boolean a, boolean b => logical op a b
  | integer t m, integer t' n =>
    match op with
    | .shl => some (integer t.promoted (t.promoted.shifted .left m n))
    | .shr => some (integer t.promoted (t.promoted.shifted .signed m n))
    | .ushr => some (integer t.promoted (t.promoted.shifted .unsigned m n))
    | _ => arithmetic op (t.paired t') m n
  | _, _ => none

def unary : UnaryOp → ExactValue → Option ExactValue
  | .not, boolean b => some (boolean (!b))
  | .plus, integer t n => some (integer t.promoted n)
  | .minus, integer t n => some (integer t.promoted (t.promoted.reduce (-n)))
  | .complement, integer t n => some (integer t.promoted (-n - 1))
  | _, _ => none

def cast : TypeRef → ExactValue → Option ExactValue
  | .primitive .boolean, boolean b => some (boolean b)
  | .primitive p, integer _ n => (IntegralType.ofType? p).map fun t => integer t (t.reduce n)
  | _, _ => none

end ExactValue

/-! ## Expressions -/

/-- The value of a constant that is no floating-point number and no string. -/
def Constant.exactValue? : Constant → Option ExactValue
  | boolean b => some (.boolean b)
  | char c => some (.integer .char c.toNat)
  | byte b => some (.integer .byte b.toInt)
  | short s => some (.integer .short s.toInt)
  | int i => some (.integer .int i.toInt)
  | long l => some (.integer .long l.toInt)
  | float _ | double _ | string _ => none

namespace Expr

/-- Whether an expression is built from literals of booleans, characters and integers, names,
parentheses, casts between the types of these, and the unary and binary operators. -/
def isExact : Expr → Bool
  | .literal _ v => (v.constant.bind Constant.exactValue?).isSome
  | .name .. => true
  | .parenthesized _ e => e.isExact
  | .cast _ (.primitive p) e => (p = .boolean || p.isIntegral) && e.isExact
  | .unary _ op e => (op = .plus || op = .minus || op = .complement || op = .not) && e.isExact
  | .binary _ _ l r => l.isExact && r.isExact
  | _ => false

/-- The number of levels below an expression that its operands stand at. -/
def operandDepth : Expr → Nat
  | .parenthesized _ e | .cast _ _ e | .unary _ _ e => e.operandDepth + 1
  | .binary _ _ l r => max l.operandDepth r.operandDepth + 1
  | .conditional _ c t e => max c.operandDepth (max t.operandDepth e.operandDepth) + 1
  | _ => 0

/-- The expression and all its operands, whether direct or not. -/
def operands : Expr → List Expr
  | .parenthesized i e => .parenthesized i e :: e.operands
  | .cast i t e => .cast i t e :: e.operands
  | .unary i op e => .unary i op e :: e.operands
  | .binary i op l r => .binary i op l r :: (l.operands ++ r.operands)
  | .conditional i c t e => .conditional i c t e :: (c.operands ++ t.operands ++ e.operands)
  | e => [e]

variable (env : VariableId → Option ExactValue)

/-- The value of an expression that is exact, given the values of variables. All operands are
evaluated. -/
def exactValue : Expr → Option ExactValue
  | .literal _ v => v.constant.bind Constant.exactValue?
  | .name _ _ b => b.bind env
  | .parenthesized _ e => e.exactValue
  | .cast _ t e => e.exactValue.bind (ExactValue.cast t)
  | .unary _ op e => e.exactValue.bind (ExactValue.unary op)
  | .binary _ op l r =>
    l.exactValue.bind fun v => r.exactValue.bind fun w => ExactValue.binary op v w
  | _ => none

end Expr

/-! ## Where there is no value -/

/-- Whether an operator applies to an operand of the kind of a value. -/
def UnaryOp.accepts : UnaryOp → ExactValue → Bool
  | .not, .boolean _ => true
  | .plus, .integer .. | .minus, .integer .. | .complement, .integer .. => true
  | _, _ => false

/-- Whether an operator applies to operands of the kinds of two values. -/
def BinaryOp.accepts (op : BinaryOp) : ExactValue → ExactValue → Bool
  | .boolean _, .boolean _ => op ∈ [.and, .or, .bitAnd, .bitOr, .bitXor, .eq, .ne]
  | .integer .., .integer .. => op ∉ [.and, .or]
  | _, _ => false

/-- Whether a value is converted to a type as it is written: a boolean to `boolean`, an integer to
the types of integers. -/
def TypeRef.acceptsCast : TypeRef → ExactValue → Bool
  | .primitive p, .boolean _ => p = .boolean
  | .primitive p, .integer .. => p.isIntegral
  | _, _ => false

/-- The expression has no value itself, though its operands have. -/
inductive Expr.Obstructed (env : VariableId → Option ExactValue) : Expr → Prop
  | noValue (i : ExprInfo) (x : String) (b : Option VariableId) (unknown : b.bind env = none) :
    Obstructed env (.name i x b)
  | zeroDivisor (i : ExprInfo) (op : BinaryOp) (l r : Expr) (t t' : IntegralType) (m : Int)
    (divides : op = .div ∨ op = .rem) (dividend : l.exactValue env = some (.integer t m))
    (divisor : r.exactValue env = some (.integer t' 0)) : Obstructed env (.binary i op l r)
  | unary (i : ExprInfo) (op : UnaryOp) (e : Expr) (v : ExactValue)
    (operand : e.exactValue env = some v) (refused : op.accepts v = false) :
    Obstructed env (.unary i op e)
  | binary (i : ExprInfo) (op : BinaryOp) (l r : Expr) (v w : ExactValue)
    (left : l.exactValue env = some v) (right : r.exactValue env = some w)
    (refused : op.accepts v w = false) : Obstructed env (.binary i op l r)
  | cast (i : ExprInfo) (t : TypeRef) (e : Expr) (v : ExactValue)
    (operand : e.exactValue env = some v) (refused : t.acceptsCast v = false) :
    Obstructed env (.cast i t e)

namespace ExactValue

theorem unary_eq_none_iff (op : UnaryOp) (v : ExactValue) :
    unary op v = none ↔ op.accepts v = false := by
  cases op <;> cases v <;> simp [unary, UnaryOp.accepts]

theorem cast_eq_none_iff (t : TypeRef) (v : ExactValue) :
    cast t v = none ↔ t.acceptsCast v = false := by
  cases t with
  | primitive p =>
    cases p <;> cases v
      <;> simp [cast, TypeRef.acceptsCast, IntegralType.ofType?, PrimitiveType.isIntegral]
  | _ => simp [cast, TypeRef.acceptsCast]

theorem binary_eq_none_iff (op : BinaryOp) (v w : ExactValue) :
    binary op v w = none ↔
      op.accepts v w = false ∨
        (op = .div ∨ op = .rem) ∧ ∃ t m t', v = integer t m ∧ w = integer t' 0 := by
  cases v with
  | boolean a =>
    cases w with
    | boolean b => cases op <;> simp [binary, logical, BinaryOp.accepts]
    | integer t' n => simp [binary, BinaryOp.accepts]
  | integer t m =>
    cases w with
    | boolean b => simp [binary, BinaryOp.accepts]
    | integer t' n => cases op <;> simp [binary, arithmetic, BinaryOp.accepts]

end ExactValue

namespace Expr

variable {env : VariableId → Option ExactValue} {i : ExprInfo} {e l r : Expr}

/-! Each kind of operator is obstructed exactly if its operands have values that it maps to none. -/

theorem obstructed_unary_iff {op : UnaryOp} :
    (unary i op e).Obstructed env ↔ ∃ v, e.exactValue env = some v ∧
      ExactValue.unary op v = none := by
  constructor
  · rintro ⟨⟩
    rename_i v refused operand
    exact ⟨v, operand, (ExactValue.unary_eq_none_iff op v).mpr refused⟩
  · rintro ⟨v, operand, refused⟩
    exact .unary i op e v operand ((ExactValue.unary_eq_none_iff op v).mp refused)

theorem obstructed_cast_iff {t : TypeRef} :
    (cast i t e).Obstructed env ↔ ∃ v, e.exactValue env = some v ∧ ExactValue.cast t v = none := by
  constructor
  · rintro ⟨⟩
    rename_i v refused operand
    exact ⟨v, operand, (ExactValue.cast_eq_none_iff t v).mpr refused⟩
  · rintro ⟨v, operand, refused⟩
    exact .cast i t e v operand ((ExactValue.cast_eq_none_iff t v).mp refused)

theorem obstructed_binary_iff {op : BinaryOp} :
    (binary i op l r).Obstructed env ↔
      ∃ v w, l.exactValue env = some v ∧ r.exactValue env = some w ∧
      ExactValue.binary op v w = none := by
  constructor
  · intro obstructed
    cases obstructed with
    | zeroDivisor _ _ _ _ t t' m divides dividend divisor =>
      exact ⟨_, _, dividend, divisor,
        (ExactValue.binary_eq_none_iff op _ _).mpr (.inr ⟨divides, t, m, t', rfl, rfl⟩)⟩
    | binary _ _ _ _ v w left right refused =>
      exact ⟨v, w, left, right, (ExactValue.binary_eq_none_iff op v w).mpr (.inl refused)⟩
  · rintro ⟨v, w, left, right, failed⟩
    obtain refused | ⟨divides, t, m, t', rfl, rfl⟩ :=
      (ExactValue.binary_eq_none_iff op v w).mp failed
    · exact .binary i op l r v w left right refused
    · exact .zeroDivisor i op l r t t' m divides left right

/-- An expression has no value exactly if one of its operands, itself included, is obstructed. -/
theorem exactValue_eq_none_iff :
    ∀ {e : Expr}, e.isExact = true → (e.exactValue env = none ↔ ∃ s ∈ e.operands, s.Obstructed env)
  | .literal i v, built => by
    have valued : (v.constant.bind Constant.exactValue?).isSome = true := built
    constructor
    · intro none
      rw [exactValue] at none
      rw [none] at valued
      cases valued
    · rintro ⟨s, inside, obstructed⟩
      obtain rfl := List.mem_singleton.mp inside
      cases obstructed
  | .name i x b, _ => by
    rw [exactValue]
    constructor
    · exact fun unknown => ⟨_, List.mem_singleton_self _, .noValue i x b unknown⟩
    · rintro ⟨s, inside, obstructed⟩
      obtain rfl := List.mem_singleton.mp inside
      cases obstructed
      assumption
  -- A pair of parentheses is never itself at fault.
  | .parenthesized i e, built => by
    have ih := exactValue_eq_none_iff (e := e) built
    simp only [operands, List.mem_cons, exists_eq_or_imp]
    rw [exactValue, ih]
    exact ⟨.inr, fun found => found.resolve_left nofun⟩
  | .cast i (.primitive p) e, built => by
    have ih := exactValue_eq_none_iff (e := e) (Bool.and_eq_true_iff.mp built).2
    simp only [operands, List.mem_cons, exists_eq_or_imp]
    rw [exactValue, obstructed_cast_iff, ← ih]
    cases e.exactValue env <;> simp
  | .unary i op e, built => by
    have ih := exactValue_eq_none_iff (e := e) (Bool.and_eq_true_iff.mp built).2
    simp only [operands, List.mem_cons, exists_eq_or_imp]
    rw [exactValue, obstructed_unary_iff, ← ih]
    cases e.exactValue env <;> simp
  | .binary i op l r, built => by
    have left := exactValue_eq_none_iff (e := l) (Bool.and_eq_true_iff.mp built).1
    have right := exactValue_eq_none_iff (e := r) (Bool.and_eq_true_iff.mp built).2
    simp only [operands, List.mem_cons, List.mem_append, or_and_right, exists_or, exists_eq_left]
    rw [exactValue, obstructed_binary_iff, ← left, ← right]
    cases l.exactValue env <;> cases r.exactValue env <;> simp

end Expr

end ClassInit
