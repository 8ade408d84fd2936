import ClassInit.Fold
import ClassInit.Proofs.Tree.Erase

/-!
# What a fold depends on

The constant that an expression denotes depends on its variables only: not on the ids of its nodes
(`Expr.foldAt_erase`), and on the constants of variables only as far as they are known, so that
knowing more of them never takes a constant away (`Expr.foldAt_mono`).
-/

set_option autoImplicit false

namespace ClassInit

namespace Expr

attribute [simp] foldAt

/-- Whether the expression is `this`, in parentheses or not. -/
def meansThis : Expr → Bool
  | .this _ => true
  | .parenthesized _ e => e.meansThis
  | _ => false

theorem meansThis_iff (e : Expr) : e.meansThis = true ↔ ∃ i, e.skipParens = .this i := by
  fun_induction skipParens e with
  | case1 i e ih => exact ih
  | case2 e notParens =>
    cases e with
    | parenthesized i e => exact absurd rfl (notParens i e)
    | this i => exact ⟨fun _ => ⟨i, rfl⟩, fun _ => rfl⟩
    | _ => simp [meansThis]

variable {env env' : VariableId → Option Constant}

/-- A field access denotes the constant of its variable, except through `this`. -/
theorem foldAt_fieldAccess (n : Nat) (i : ExprInfo) (t : Expr) (name : String)
    (v : Option VariableId) :
    (fieldAccess i t name v).foldAt env n =
      if tooDeepToFold n then none else if t.meansThis then none else v.bind env := by
  rw [foldAt]
  by_cases isThis : t.meansThis = true
  · obtain ⟨j, same⟩ := (meansThis_iff t).mp isThis
    rw [same, isThis]
    rfl
  · rw [if_neg isThis]
    split
    · rfl
    · split
      · rename_i j same
        exact absurd ((meansThis_iff t).mpr ⟨j, same⟩) isThis
      · rfl

/-! ## Copies -/

section

variable (h : Option MethodId → Option MethodId)

theorem meansThis_erase : ∀ e : Expr, (e.erase h).meansThis = e.meansThis
  | .parenthesized _ e => meansThis_erase e
  | .this _ => rfl
  | .literal .. => rfl
  | .name .. => rfl
  | .fieldAccess .. => rfl
  | .unary .. => rfl
  | .step .. => rfl
  | .binary .. => rfl
  | .conditional .. => rfl
  | .cast .. => rfl
  | .assignment .. => rfl
  | .call _ none .. => rfl
  | .call _ (some _) .. => rfl
  | .new .. => rfl

/-- A copy of an expression denotes the same constant. -/
theorem foldAt_erase : ∀ (e : Expr) (n : Nat), (e.erase h).foldAt env n = e.foldAt env n
  | .literal .., n => by rw [erase, foldAt, foldAt]
  | .name .., n => by rw [erase, foldAt, foldAt]
  | .this _, n => by rw [erase, foldAt, foldAt]
  | .fieldAccess .., n => by rw [erase, foldAt_fieldAccess, foldAt_fieldAccess, meansThis_erase]
  | .unary i op e, n => by rw [erase, foldAt, foldAt, foldAt_erase e]
  | .step .., n => by rw [erase, foldAt, foldAt]
  | .binary i op l r, n => by rw [erase, foldAt, foldAt, foldAt_erase l, foldAt_erase r]
  | .conditional i c t e, n => by
    rw [erase, foldAt, foldAt, foldAt_erase c, foldAt_erase t, foldAt_erase e]
  | .parenthesized i e, n => by rw [erase, foldAt, foldAt, foldAt_erase e]
  | .cast i t e, n => by rw [erase, foldAt, foldAt, foldAt_erase e]
  | .assignment .., n => by rw [erase, foldAt, foldAt]
  | .call _ none .., n => by rw [erase, foldAt, foldAt]
  | .call _ (some _) .., n => by rw [erase, foldAt, foldAt]
  | .new .., n => by rw [erase, foldAt, foldAt]

end

/-! ## Known constants -/

/-- Every constant that the first expression denotes, at any level, the second denotes as well. -/
def FoldsLike (env env' : VariableId → Option Constant) (e e' : Expr) : Prop :=
  ∀ n k, e.foldAt env n = some k → e'.foldAt env' n = some k

namespace FoldsLike

/-- What is known of a variable stays known. -/
def Binding (env env' : VariableId → Option Constant) (b b' : Option VariableId) : Prop :=
  ∀ k, b.bind env = some k → b'.bind env' = some k

theorem Binding.of_mono (more : ∀ v k, env v = some k → env' v = some k) (b : Option VariableId) :
    Binding env env' b b := by
  intro k known
  obtain ⟨v, rfl, known⟩ := Option.bind_eq_some_iff.mp known
  exact more v k known

theorem never {e e' : Expr} (none : ∀ n, e.foldAt env n = none) : FoldsLike env env' e e' := by
  intro n k known
  rw [none n] at known
  cases known

theorem literal (i i' : ExprInfo) (v : Literal) :
    FoldsLike env env' (.literal i v) (.literal i' v) := by
  intro n k known
  rw [foldAt] at known ⊢
  exact known

/-- Where the first is cut off by a condition, the second is as well. -/
theorem cut {a b : Option Constant} (h : ∀ k, a = some k → b = some k) (off : Prop) [Decidable off]
    {k : Constant} (known : (if off then none else a) = some k) :
    (if off then none else b) = some k := by
  split at known
  · cases known
  · rename_i stays
    rw [if_neg stays]
    exact h k known

/-- What is made of a constant of the first is made of that of the second as well. -/
theorem bind {α : Type} {a b : Option α} {f g : α → Option Constant}
    (h : ∀ c, a = some c → b = some c) (next : ∀ c k, f c = some k → g c = some k) {k : Constant}
    (known : a.bind f = some k) : b.bind g = some k := by
  obtain ⟨c, inner, outer⟩ := Option.bind_eq_some_iff.mp known
  rw [h c inner]
  exact next c k outer

theorem name (i : ExprInfo) (x : String) {b b' : Option VariableId} (h : Binding env env' b b') :
    FoldsLike env env' (.name i x b) (.name i x b') := by
  intro n k known
  rw [foldAt] at known ⊢
  exact cut h _ known

theorem fieldAccess (i : ExprInfo) {t t' : Expr} (x : String) {b b' : Option VariableId}
    (same : t'.meansThis = t.meansThis) (h : Binding env env' b b') :
    FoldsLike env env' (.fieldAccess i t x b) (.fieldAccess i t' x b') := by
  intro n k known
  rw [foldAt_fieldAccess] at known ⊢
  rw [same]
  exact cut (fun _ => cut h _) _ known

theorem unary (i : ExprInfo) (op : UnaryOp) {e e' : Expr} (h : FoldsLike env env' e e') :
    FoldsLike env env' (.unary i op e) (.unary i op e') := by
  intro n k known
  rw [foldAt] at known ⊢
  exact cut (fun _ => bind (h _) fun _ _ folds => folds) _ known

theorem cast (i : ExprInfo) (type : TypeRef) {e e' : Expr} (h : FoldsLike env env' e e') :
    FoldsLike env env' (.cast i type e) (.cast i type e') := by
  intro n k known
  rw [foldAt] at known ⊢
  exact cut (fun _ => bind (h _) fun _ _ folds => folds) _ known

theorem parenthesized (i : ExprInfo) {e e' : Expr} (h : FoldsLike env env' e e') :
    FoldsLike env env' (.parenthesized i e) (.parenthesized i e') := by
  intro n k known
  rw [foldAt] at known ⊢
  exact cut (h _) _ known

theorem binary (i : ExprInfo) (op : BinaryOp) {l l' r r' : Expr} (hl : FoldsLike env env' l l')
    (hr : FoldsLike env env' r r') :
    FoldsLike env env' (.binary i op l r) (.binary i op l' r') := by
  intro n k known
  rw [foldAt] at known ⊢
  refine cut (fun _ => bind (hl _) fun c _ => ?_) _ known
  exact bind (hr _) fun c' _ folds => folds

theorem conditional (i : ExprInfo) {c c' t t' e e' : Expr} (hc : FoldsLike env env' c c')
    (ht : FoldsLike env env' t t') (he : FoldsLike env env' e e') :
    FoldsLike env env' (.conditional i c t e) (.conditional i c' t' e') := by
  intro n k known
  rw [foldAt] at known ⊢
  refine cut (fun _ => bind (hc _) fun condition _ => ?_) _ known
  -- All three operands are folded, so that both branches count for either choice.
  refine bind (fun _ isBool => isBool) fun truth _ => ?_
  exact bind (ht _) fun value _ => bind (he _) fun value' _ folds => folds

end FoldsLike

/-- Knowing the constants of more variables takes no constant away. -/
theorem foldAt_mono (more : ∀ v k, env v = some k → env' v = some k) :
    ∀ e : Expr, FoldsLike env env' e e
  | .literal i v => .literal i i v
  | .name i x b => .name i x (.of_mono more b)
  | .fieldAccess i t x b => .fieldAccess i x rfl (.of_mono more b)
  | .unary i op e => .unary i op (foldAt_mono more e)
  | .binary i op l r => .binary i op (foldAt_mono more l) (foldAt_mono more r)
  | .conditional i c t e =>
    .conditional i (foldAt_mono more c) (foldAt_mono more t) (foldAt_mono more e)
  | .parenthesized i e => .parenthesized i (foldAt_mono more e)
  | .cast i t e => .cast i t (foldAt_mono more e)
  | .this _ => .never fun _ => by rw [foldAt]
  | .step .. => .never fun _ => by rw [foldAt]
  | .assignment .. => .never fun _ => by rw [foldAt]
  | .call .. => .never fun _ => by rw [foldAt]
  | .new .. => .never fun _ => by rw [foldAt]

end Expr

end ClassInit
