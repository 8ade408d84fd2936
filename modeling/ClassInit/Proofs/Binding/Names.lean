import ClassInit.Binding.Resolve
import ClassInit.Proofs.Fold

/-!
# What resolving does to expressions

Resolving the names of an expression leaves the table alone (`Expr.resolve_table`) and takes no
constant away: names only gain handles (`Expr.resolve_foldsLike`).
-/

set_option autoImplicit false

namespace ClassInit

open Binding

/-! ## The table -/

@[simp] theorem resolveUnbound_table (name : String) (s : State) :
    (resolveUnbound name s).2.table = s.table := by
  unfold resolveUnbound
  split <;> rfl

@[simp] theorem resolveNew_state (t : TypeName) (s : State) : (resolveNew t s).2 = s := by
  unfold resolveNew
  split <;> rfl

namespace Expr

mutual

theorem resolve_table : ∀ (e : Expr) (s : State), (e.resolve s).2.table = s.table
  | .literal .., s => by simp [resolve]
  | .this _, s => by simp [resolve]
  | .name _ _ (some _), s => by simp [resolve]
  | .name _ x none, s => by simp [resolve]
  | .fieldAccess _ t _ (some _), s => by simp [resolve, resolve_table t]
  | .fieldAccess _ t _ none, s => by simp [resolve, resolve_table t]
  | .unary _ _ e, s => by simp [resolve, resolve_table e]
  | .step _ _ e, s => by simp [resolve, resolve_table e]
  | .binary _ _ l r, s => by simp [resolve, resolve_table l, resolve_table r]
  | .conditional _ c t e, s => by simp [resolve, resolve_table c, resolve_table t, resolve_table e]
  | .parenthesized _ e, s => by simp [resolve, resolve_table e]
  | .cast _ _ e, s => by simp [resolve, resolve_table e]
  | .assignment _ _ l r, s => by simp [resolve, resolve_table l, resolve_table r]
  | .call _ none _ as _, s => by simp [resolve, resolveAll_table as]
  | .call _ (some r) _ as _, s => by simp [resolve, resolve_table r, resolveAll_table as]
  | .new _ t as _, s => by simp [resolve, resolveAll_table as]

theorem resolveAll_table : ∀ (es : List Expr) (s : State), (resolveAll es s).2.table = s.table
  | [], s => by simp [resolveAll]
  | e :: es, s => by simp [resolveAll, resolve_table e, resolveAll_table es]

end

theorem resolveOption_table (e : Option Expr) (s : State) :
    (resolveOption e s).2.table = s.table := by
  cases e with
  | none => rfl
  | some e => simp [resolveOption, resolve_table]

/-! ## Constants -/

theorem resolve_meansThis : ∀ (e : Expr) (s : State), (e.resolve s).1.meansThis = e.meansThis
  | .parenthesized _ e, s => by
    rw [resolve, state_bind, state_pure]
    exact resolve_meansThis e s
  | .literal .., s => by rw [resolve, state_pure]
  | .this _, s => by rw [resolve, state_pure]
  | .name _ _ (some _), s => by rw [resolve, state_pure]
  | .name _ _ none, s => rfl
  | .fieldAccess _ _ _ (some _), s => rfl
  | .fieldAccess _ _ _ none, s => rfl
  | .unary .., s => rfl
  | .step .., s => rfl
  | .binary .., s => rfl
  | .conditional .., s => rfl
  | .cast .., s => rfl
  | .assignment .., s => rfl
  | .call _ none .., s => rfl
  | .call _ (some _) .., s => rfl
  | .new .., s => rfl

/-- A resolved expression denotes the constant that it denoted before, if it denoted one. -/
theorem resolve_foldsLike (env : VariableId → Option Constant) :
    ∀ (e : Expr) (s : State), FoldsLike env env e (e.resolve s).1
  | .literal i v, s => .literal i i v
  | .name i x (some v), s => .name i x fun _ known => known
  | .name i x none, s => .name i x fun _ known => nomatch known
  | .fieldAccess i t x (some v), s => .fieldAccess i x (resolve_meansThis t s) fun _ known => known
  | .fieldAccess i t x none, s =>
    .fieldAccess i x (resolve_meansThis t s) fun _ known => nomatch known
  | .unary i op e, s => .unary i op (resolve_foldsLike env e s)
  | .binary i op l r, s => .binary i op (resolve_foldsLike env l s) (resolve_foldsLike env r _)
  | .conditional i c t e, s =>
    .conditional i (resolve_foldsLike env c s) (resolve_foldsLike env t _)
      (resolve_foldsLike env e _)
  | .parenthesized i e, s => .parenthesized i (resolve_foldsLike env e s)
  | .cast i t e, s => .cast i t (resolve_foldsLike env e s)
  | .this _, s => .never fun _ => by rw [foldAt]
  | .step .., s => .never fun _ => by rw [foldAt]
  | .assignment .., s => .never fun _ => by rw [foldAt]
  | .call .., s => .never fun _ => by rw [foldAt]
  | .new .., s => .never fun _ => by rw [foldAt]

end Expr

end ClassInit
