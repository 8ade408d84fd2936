import ClassInit.Proofs.Folding.Arithmetic

/-!
# The depth of folded expressions

Folding goes down to a fixed level. An expression with an operand below it is no constant, and any
other expression folds as it would without a limit (`Expr.fold_eq_ite`): all operators are strict,
so an operand that is cut off takes the constant of the whole expression with it, also where its
value would not matter.
-/

set_option autoImplicit false

namespace ClassInit

namespace Expr

/-! ## Operands and their levels -/

/-- The expressions that folding goes on to from an expression. -/
def directOperands : Expr → List Expr
  | .parenthesized _ e | .cast _ _ e | .unary _ _ e => [e]
  | .binary _ _ l r => [l, r]
  | .conditional _ c t e => [c, t, e]
  | _ => []

/-- The second expression is an operand of the first, so many levels below it. -/
inductive HasOperandAt : Nat → Expr → Expr → Prop where
  | self (e : Expr) : HasOperandAt 0 e e
  | deeper {n : Nat} {e s o : Expr} (direct : s ∈ e.directOperands) (inside : HasOperandAt n s o) :
      HasOperandAt (n + 1) e o

/-- Above its deepest operand an expression has a direct one, which is one level less deep. -/
theorem operandDepth_eq (e : Expr) :
    (∀ s ∈ e.directOperands, s.operandDepth < e.operandDepth) ∧
      (e.operandDepth = 0 ∨ ∃ s ∈ e.directOperands, e.operandDepth = s.operandDepth + 1) := by
  cases e <;> simp [directOperands, operandDepth] <;> omega

theorem HasOperandAt.le_operandDepth {n : Nat} {e o : Expr} (operand : HasOperandAt n e o) :
    n ≤ e.operandDepth := by
  induction operand with
  | self e => exact Nat.zero_le _
  | deeper direct _ ih => exact Nat.lt_of_le_of_lt ih ((operandDepth_eq _).1 _ direct)

/-- The depth of an expression is the level of one of its operands. -/
theorem exists_hasOperandAt (e : Expr) : ∃ o, HasOperandAt e.operandDepth e o := by
  generalize depth : e.operandDepth = n
  induction n generalizing e with
  | zero => exact ⟨e, .self e⟩
  | succ n ih =>
    obtain none | ⟨s, direct, depth⟩ := (operandDepth_eq e).2
    · omega
    · obtain ⟨o, operand⟩ := ih s (by omega)
      exact ⟨o, .deeper direct operand⟩

theorem operandDepth_le_iff {e : Expr} {limit : Nat} :
    e.operandDepth ≤ limit ↔ ∀ n o, HasOperandAt n e o → n ≤ limit := by
  constructor
  · exact fun shallow n o operand => Nat.le_trans operand.le_operandDepth shallow
  · intro all
    obtain ⟨o, operand⟩ := e.exists_hasOperandAt
    exact all _ o operand

/-! ## Folding without a limit -/

/-- The constant that an expression denotes at whatever depth, given the constants of variables. -/
def foldFreely (env : VariableId → Option Constant) : Expr → Option Constant
  | .literal _ v => v.constant
  | .name _ _ b => b.bind env
  | .fieldAccess _ t _ b =>
    match t.skipParens with
    | .this _ => none
    | _ => b.bind env
  | .parenthesized _ e => e.foldFreely env
  | .unary _ op e => (e.foldFreely env).bind (Constant.foldUnary op)
  | .binary _ op l r => do Constant.foldBinary op (← l.foldFreely env) (← r.foldFreely env)
  | .conditional _ c t e => do
    let condition ← (← c.foldFreely env).asBool
    Constant.foldConditional condition (← t.foldFreely env) (← e.foldFreely env)
  | .cast _ t e => (e.foldFreely env).bind (·.convertTo t)
  | .this _ => none
  | .step .. => none
  | .assignment .. => none
  | .call .. => none
  | .new .. => none

variable {env : VariableId → Option Constant}

/-- By induction on the expression. The level rises by one towards the operands, so the bound is on
the level and the depth together. -/
theorem foldAt_of_shallow : ∀ {e : Expr} {n : Nat}, n + e.operandDepth ≤ Limits.constantFold →
    e.foldAt env n = e.foldFreely env
  | .literal i v, n, shallow => by rw [foldAt, not_tooDeepToFold shallow]; rfl
  | .name i x b, n, shallow => by rw [foldAt, not_tooDeepToFold shallow]; rfl
  | .fieldAccess i t x b, n, shallow => by rw [foldAt, not_tooDeepToFold shallow]; rfl
  | .parenthesized i e, n, shallow => by
    rw [operandDepth] at shallow
    rw [foldAt, not_tooDeepToFold shallow, foldAt_of_shallow (e := e) (by omega)]
    rfl
  | .unary i op e, n, shallow => by
    rw [operandDepth] at shallow
    rw [foldAt, not_tooDeepToFold shallow, foldAt_of_shallow (e := e) (by omega)]
    rfl
  | .cast i t e, n, shallow => by
    rw [operandDepth] at shallow
    rw [foldAt, not_tooDeepToFold shallow, foldAt_of_shallow (e := e) (by omega)]
    rfl
  | .binary i op l r, n, shallow => by
    rw [operandDepth] at shallow
    rw [foldAt, not_tooDeepToFold shallow, foldAt_of_shallow (e := l) (by omega),
      foldAt_of_shallow (e := r) (by omega)]
    rfl
  | .conditional i c t e, n, shallow => by
    rw [operandDepth] at shallow
    rw [foldAt, not_tooDeepToFold shallow, foldAt_of_shallow (e := c) (by omega),
      foldAt_of_shallow (e := t) (by omega), foldAt_of_shallow (e := e) (by omega)]
    rfl
  | .this _, _, _ => rfl
  | .step .., _, _ => rfl
  | .assignment .., _, _ => rfl
  | .call .., _, _ => rfl
  | .new .., _, _ => rfl

theorem le_of_not_tooDeepToFold {n : Nat} (shallow : ¬tooDeepToFold n = true) :
    n ≤ Limits.constantFold :=
  Nat.le_of_not_lt fun deep => shallow (decide_eq_true deep)

/-- What folds is not too deep, and its operands fold one level below it: each operator asks for the
constants of all its operands, whether it needs their values or not. -/
theorem operands_of_foldAt {e : Expr} {n : Nat} {k : Constant} (folds : e.foldAt env n = some k) :
    n ≤ Limits.constantFold ∧ ∀ s ∈ e.directOperands, ∃ c, s.foldAt env (n + 1) = some c := by
  by_cases deep : tooDeepToFold n = true
  · cases e <;> simp [foldAt, deep] at folds
  · refine ⟨le_of_not_tooDeepToFold deep, fun s direct => ?_⟩
    cases e with
    | parenthesized i e =>
      rw [foldAt, if_neg deep] at folds
      obtain rfl := List.mem_singleton.mp direct
      exact ⟨k, folds⟩
    | unary i op e | cast i t e =>
      rw [foldAt, if_neg deep] at folds
      obtain ⟨c, operand, -⟩ := Option.bind_eq_some_iff.mp folds
      obtain rfl := List.mem_singleton.mp direct
      exact ⟨c, operand⟩
    | binary i op l r =>
      rw [foldAt, if_neg deep] at folds
      obtain ⟨a, left, folds⟩ := Option.bind_eq_some_iff.mp folds
      obtain ⟨b, right, -⟩ := Option.bind_eq_some_iff.mp folds
      rcases List.mem_pair.mp direct with rfl | rfl
      · exact ⟨a, left⟩
      · exact ⟨b, right⟩
    | conditional i c t e =>
      rw [foldAt, if_neg deep] at folds
      obtain ⟨test, condition, folds⟩ := Option.bind_eq_some_iff.mp folds
      obtain ⟨truth, -, folds⟩ := Option.bind_eq_some_iff.mp folds
      obtain ⟨a, whenTrue, folds⟩ := Option.bind_eq_some_iff.mp folds
      obtain ⟨b, whenFalse, -⟩ := Option.bind_eq_some_iff.mp folds
      rcases List.mem_cons.mp direct with rfl | direct
      · exact ⟨test, condition⟩
      · rcases List.mem_pair.mp direct with rfl | rfl
        · exact ⟨a, whenTrue⟩
        · exact ⟨b, whenFalse⟩
    | _ => cases direct

theorem HasOperandAt.folds {d n : Nat} {e o : Expr} {k : Constant} (operand : HasOperandAt d e o)
    (folds : e.foldAt env n = some k) : ∃ c, o.foldAt env (n + d) = some c := by
  induction operand generalizing n k with
  | self e => exact ⟨k, folds⟩
  | @deeper d e s o direct _ ih =>
    obtain ⟨c, folds⟩ := (operands_of_foldAt folds).2 s direct
    rw [show n + (d + 1) = n + 1 + d by omega]
    exact ih folds

/-- What folds is shallow: its deepest operand folds. -/
theorem shallow_of_foldAt {e : Expr} {n : Nat} {k : Constant} (folds : e.foldAt env n = some k) :
    n + e.operandDepth ≤ Limits.constantFold := by
  obtain ⟨o, deepest⟩ := e.exists_hasOperandAt
  obtain ⟨c, folds⟩ := deepest.folds folds
  exact (operands_of_foldAt folds).1

/-- At the top an expression folds as it would without a limit, unless it is too deep. -/
theorem fold_eq_ite (e : Expr) :
    e.fold env = if e.operandDepth ≤ Limits.constantFold then e.foldFreely env else none := by
  split
  · rename_i shallow
    exact foldAt_of_shallow (by rwa [Nat.zero_add])
  · rename_i deep
    refine Option.eq_none_iff_forall_ne_some.mpr fun k folds => deep ?_
    have shallow := shallow_of_foldAt folds
    rwa [Nat.zero_add] at shallow

/-- An expression all of whose operands are at most 256 levels below it folds as it would without a
limit, and any other folds to none. What it folds to it folds to as well where the constants of more
variables are known. -/
theorem fold_limited (env : VariableId → Option Constant) (e : Expr) :
    ((∀ n o, HasOperandAt n e o → n ≤ 256) → e.fold env = e.foldFreely env) ∧
      ((∃ n o, HasOperandAt n e o ∧ 256 < n) → e.fold env = none) ∧
        ∀ env', (∀ v k, env v = some k → env' v = some k) → ∀ k, e.fold env = some k →
        e.fold env' = some k := by
  refine ⟨fun shallow => ?_, ?_, fun env' more k folds => foldAt_mono more e 0 k folds⟩
  · exact (fold_eq_ite e).trans (if_pos (operandDepth_le_iff.mpr shallow))
  · rintro ⟨n, o, operand, deep⟩
    refine (fold_eq_ite e).trans (if_neg fun shallow => ?_)
    exact Nat.not_lt.mpr (operandDepth_le_iff.mp shallow n o operand) deep

/-- The expression in so many pairs of parentheses. -/
def inParentheses : Nat → Expr → Expr
  | 0, e => e
  | n + 1, e => .parenthesized default (inParentheses n e)

theorem operandDepth_inParentheses (n : Nat) (e : Expr) :
    (inParentheses n e).operandDepth = e.operandDepth + n := by
  induction n with
  | zero => rfl
  | succ n ih => exact congrArg (· + 1) ih

theorem foldFreely_inParentheses (n : Nat) (e : Expr) :
    (inParentheses n e).foldFreely env = e.foldFreely env := by
  induction n with
  | zero => rfl
  | succ n ih => exact ih

/-- The sum `x + 2` in 255 pairs of parentheses folds once `x` is known, whatever else is; in one
pair more it never does. -/
theorem fold_limited_nested :
    let sum : Expr :=
  .binary default .add (.name default "x" (some ⟨0⟩)) (.literal default (.int 2))
    let env : VariableId → Option Constant := fun v => if v = ⟨0⟩ then some (.int 40) else none
    let env' : VariableId → Option Constant :=
      fun v => if v = ⟨0⟩ then some (.int 40) else some (.int 7)
    (∀ n o, HasOperandAt n (inParentheses 255 sum) o → n ≤ 256) ∧
      (∃ n o, HasOperandAt n (inParentheses 256 sum) o ∧ 256 < n) ∧
        (∀ v k, env v = some k → env' v = some k) ∧
        (inParentheses 255 sum).fold env = some (.int 42) ∧
          (inParentheses 255 sum).fold env' = some (.int 42) ∧
          (inParentheses 256 sum).fold env' = none := by
  intro sum env env'
  have shallow : ∀ n o, HasOperandAt n (inParentheses 255 sum) o → n ≤ 256 :=
    operandDepth_le_iff.mp (Nat.le_of_eq (operandDepth_inParentheses 255 sum))
  have deep : ∃ n o, HasOperandAt n (inParentheses 256 sum) o ∧ 256 < n := by
    obtain ⟨o, operand⟩ := (inParentheses 256 sum).exists_hasOperandAt
    exact ⟨_, o, operand, (operandDepth_inParentheses 256 sum).symm ▸ (by decide)⟩
  have more : ∀ v k, env v = some k → env' v = some k := by
    intro v k known
    obtain ⟨same, known⟩ := Option.ite_none_right_eq_some.mp known
    exact (if_pos same).trans known
  obtain ⟨free, -, mono⟩ := fold_limited env (inParentheses 255 sum)
  have folds : (inParentheses 255 sum).fold env = some (.int 42) :=
    (free shallow).trans (foldFreely_inParentheses 255 sum)
  exact ⟨shallow, deep, more, folds, mono env' more _ folds, (fold_limited env' _).2.1 deep⟩

end Expr

end ClassInit
