import ClassInit.Proofs.Binding.Uses
import ClassInit.Proofs.Tree.Outline

/-!
# What uses of names depend on

The uses of names in a body are the same up to node ids and method handles (`Stmt.uses_erase`) and
whatever its local types contain (`Stmt.uses_outline`). In a scope that lies in others every use
sees the locals of these after its own (`Stmt.uses_append`).
-/

set_option autoImplicit false

namespace ClassInit

open Binding

/-! ## Erasing -/

section

variable (h : Option MethodId → Option MethodId)

mutual

/-- The names in an expression and their handles do not depend on ids. -/
@[simp] theorem Expr.names_erase : ∀ e : Expr, (e.erase h).names = e.names
  | .name .. => rfl
  | .literal .. => rfl
  | .this _ => rfl
  | .fieldAccess _ t _ _ => Expr.names_erase t
  | .unary _ _ e => Expr.names_erase e
  | .step _ _ e => Expr.names_erase e
  | .binary _ _ l r => by simp only [Expr.erase, Expr.names, Expr.names_erase l, Expr.names_erase r]
  | .conditional _ c t e => by
    simp only [Expr.erase, Expr.names, Expr.names_erase c, Expr.names_erase t, Expr.names_erase e]
  | .parenthesized _ e => Expr.names_erase e
  | .cast _ _ e => Expr.names_erase e
  | .assignment _ _ l r => by
    simp only [Expr.erase, Expr.names, Expr.names_erase l, Expr.names_erase r]
  | .call _ none _ as _ => Expr.namesOf_eraseAll as
  | .call _ (some r) _ as _ => by
    simp only [Expr.erase, Expr.names, Expr.names_erase r, Expr.namesOf_eraseAll as]
  | .new _ _ as _ => Expr.namesOf_eraseAll as

@[simp] theorem Expr.namesOf_eraseAll : ∀ es : List Expr,
    Expr.namesOf (Expr.eraseAll h es) = Expr.namesOf es
  | [] => rfl
  | e :: es => by
    simp only [Expr.eraseAll, Expr.namesOf, Expr.names_erase e, Expr.namesOf_eraseAll es]

end

@[simp] theorem Expr.namesIn_erase (e : Option Expr) :
    Expr.namesIn (e.map (Expr.erase h)) = Expr.namesIn e := by
  cases e with
  | none => rfl
  | some e => exact Expr.names_erase h e

@[simp] theorem Fragment.declares_erase (f : Fragment) : (f.erase h).declares = f.declares := rfl

@[simp] theorem Fragment.usesOf_erase (env : Scope) (fs : List Fragment) :
    Fragment.usesOf env (fs.map (Fragment.erase h)) = Fragment.usesOf env fs := by
  induction fs generalizing env with
  | nil => rfl
  | cons f fs ih =>
    have own : (f.erase h).uses env = f.uses env :=
      congrArg (usesAt env) (Expr.namesIn_erase h f.initializer)
    simp only [List.map_cons, Fragment.usesOf, own, Fragment.declares_erase, ih]

/-- What items declare one after the other, if each declares what another does. -/
theorem latestFirst_map {α : Type} (declares : α → Scope) (f : α → α)
    (same : ∀ a, declares (f a) = declares a) (as : List α) :
    latestFirst declares (as.map f) = latestFirst declares as := by
  rw [latestFirst, ← List.map_reverse, List.flatMap_map]
  simp only [same]
  rfl

/-- A statement declares the same locals with its ids erased. -/
@[simp] theorem Stmt.declares_erase (s : Stmt) : (s.erase h).declares = s.declares := by
  fun_cases Stmt.erase h s <;> first | rfl | exact latestFirst_map _ _ (Fragment.declares_erase h) _

@[simp] theorem Stmt.latestFirst_eraseAll (ss : List Stmt) :
    latestFirst Stmt.declares (Stmt.eraseAll h ss) = latestFirst Stmt.declares ss := by
  rw [Stmt.eraseAll_eq_map]
  exact latestFirst_map _ _ (Stmt.declares_erase h) ss

mutual

/-- The names in a statement are used in the same scopes with ids erased. -/
theorem Stmt.uses_erase : ∀ (env : Scope) (s : Stmt), Stmt.uses env (s.erase h) = Stmt.uses env s
  | env, .expression .. => by simp only [Stmt.erase, Stmt.uses, Expr.names_erase]
  | env, .localVariable .. => by simp only [Stmt.erase, Stmt.uses, Fragment.usesOf_erase]
  | env, .block _ ⟨_, ss⟩ => by
    simp only [Stmt.erase, Block.erase, Stmt.uses, Stmt.usesOf_eraseAll env ss]
  | env, .ifElse _ _ t none => by
    simp only [Stmt.erase, Stmt.uses, Expr.names_erase, Stmt.uses_erase env t]
  | env, .ifElse _ _ t (some e) => by
    simp only [Stmt.erase, Stmt.uses, Expr.names_erase, Stmt.uses_erase env t,
      Stmt.uses_erase env e]
  | env, .whileLoop _ _ b => by
    simp only [Stmt.erase, Stmt.uses, Expr.names_erase, Stmt.uses_erase env b]
  | env, .forLoop _ init _ _ b => by
    simp only [Stmt.erase, Stmt.uses, Stmt.latestFirst_eraseAll, Expr.namesIn_erase,
      Expr.namesOf_eraseAll, Stmt.usesOf_eraseAll env init, Stmt.uses_erase _ b]
  | env, .tryCatch _ ⟨_, ss⟩ cs none => by
    simp only [Stmt.erase, Block.erase, Stmt.uses, Stmt.usesOf_eraseAll env ss,
      CatchClause.usesOf_eraseAll env cs]
  | env, .tryCatch _ ⟨_, ss⟩ cs (some ⟨_, fs⟩) => by
    simp only [Stmt.erase, Block.erase, Stmt.uses, Stmt.usesOf_eraseAll env ss,
      CatchClause.usesOf_eraseAll env cs, Stmt.usesOf_eraseAll env fs]
  | env, .returnValue .. => by simp only [Stmt.erase, Stmt.uses, Expr.namesIn_erase]
  | env, .throwValue .. => by simp only [Stmt.erase, Stmt.uses, Expr.names_erase]
  | env, .superCall .. => by simp only [Stmt.erase, Stmt.uses, Expr.namesOf_eraseAll]
  | env, .thisCall .. => by simp only [Stmt.erase, Stmt.uses, Expr.namesOf_eraseAll]
  | _, .localType .. => by simp only [Stmt.erase, Stmt.uses]
  | _, .empty _ => rfl

theorem Stmt.usesOf_eraseAll : ∀ (env : Scope) (ss : List Stmt),
    Stmt.usesOf env (Stmt.eraseAll h ss) = Stmt.usesOf env ss
  | _, [] => rfl
  | env, s :: ss => by
    simp only [Stmt.eraseAll, Stmt.usesOf, Stmt.declares_erase, Stmt.uses_erase env s,
      Stmt.usesOf_eraseAll _ ss]

theorem CatchClause.usesOf_eraseAll : ∀ (env : Scope) (cs : List CatchClause),
    CatchClause.usesOf env (CatchClause.eraseAll h cs) = CatchClause.usesOf env cs
  | _, [] => rfl
  | env, ⟨_, _, ⟨_, ss⟩⟩ :: cs => by
    simp only [CatchClause.eraseAll, Block.erase, CatchClause.usesOf, Stmt.usesOf_eraseAll _ ss,
      CatchClause.usesOf_eraseAll env cs]

end

end

/-! ## Outlines -/

/-- The types declared in a statement do not matter for its locals. -/
@[simp] theorem Stmt.declares_outline (s : Stmt) : s.outline.declares = s.declares := by
  fun_cases Stmt.outline s <;> rfl

@[simp] theorem Stmt.latestFirst_outlineOf (ss : List Stmt) :
    latestFirst Stmt.declares (Stmt.outlineOf ss) = latestFirst Stmt.declares ss := by
  rw [Stmt.outlineOf_eq_map]
  exact latestFirst_map _ _ Stmt.declares_outline ss

mutual

/-- The names in the types declared in a statement are not among those it uses. -/
theorem Stmt.uses_outline : ∀ (env : Scope) (s : Stmt), Stmt.uses env s.outline = Stmt.uses env s
  | env, .block _ ⟨_, ss⟩ => by simp only [Stmt.outline, Stmt.uses, Stmt.usesOf_outlineOf env ss]
  | env, .ifElse _ _ t none => by simp only [Stmt.outline, Stmt.uses, Stmt.uses_outline env t]
  | env, .ifElse _ _ t (some e) => by
    simp only [Stmt.outline, Stmt.uses, Stmt.uses_outline env t, Stmt.uses_outline env e]
  | env, .whileLoop _ _ b => by simp only [Stmt.outline, Stmt.uses, Stmt.uses_outline env b]
  | env, .forLoop _ init _ _ b => by
    simp only [Stmt.outline, Stmt.uses, Stmt.latestFirst_outlineOf, Stmt.usesOf_outlineOf env init,
      Stmt.uses_outline _ b]
  | env, .tryCatch _ ⟨_, ss⟩ cs none => by
    simp only [Stmt.outline, Stmt.uses, Stmt.usesOf_outlineOf env ss,
      CatchClause.usesOf_outlineOf env cs]
  | env, .tryCatch _ ⟨_, ss⟩ cs (some ⟨_, fs⟩) => by
    simp only [Stmt.outline, Stmt.uses, Stmt.usesOf_outlineOf env ss,
      CatchClause.usesOf_outlineOf env cs, Stmt.usesOf_outlineOf env fs]
  | _, .localType .. => rfl
  | _, .expression .. => rfl
  | _, .localVariable .. => rfl
  | _, .returnValue .. => rfl
  | _, .throwValue .. => rfl
  | _, .superCall .. => rfl
  | _, .thisCall .. => rfl
  | _, .empty _ => rfl

theorem Stmt.usesOf_outlineOf : ∀ (env : Scope) (ss : List Stmt),
    Stmt.usesOf env (Stmt.outlineOf ss) = Stmt.usesOf env ss
  | _, [] => rfl
  | env, s :: ss => by
    simp only [Stmt.outlineOf, Stmt.usesOf, Stmt.declares_outline, Stmt.uses_outline env s,
      Stmt.usesOf_outlineOf _ ss]

theorem CatchClause.usesOf_outlineOf : ∀ (env : Scope) (cs : List CatchClause),
    CatchClause.usesOf env (CatchClause.outlineOf cs) = CatchClause.usesOf env cs
  | _, [] => rfl
  | env, ⟨_, _, ⟨_, ss⟩⟩ :: cs => by
    simp only [CatchClause.outlineOf, CatchClause.usesOf, Stmt.usesOf_outlineOf _ ss,
      CatchClause.usesOf_outlineOf env cs]

end

theorem Member.uses_outline (m : Member) : m.outline.uses = m.uses := by
  rcases m with d | ⟨h, _ | ⟨i, ss⟩⟩ | ⟨i, s, ⟨b, ss⟩⟩ | f
  · rfl
  · rfl
  · exact Stmt.usesOf_outlineOf _ ss
  · exact Stmt.usesOf_outlineOf _ ss
  · rfl

/-! ## Scopes in scopes -/

/-- The use, seen in a scope that lies in another one. -/
def NameUse.within (outer : Scope) (o : NameUse) : NameUse := { o with scope := o.scope ++ outer }

section

variable (outer : Scope)

/-- A wider scope around names is around every use. -/
@[simp] theorem usesAt_append (env : Scope) (ns : List (String × Option VariableId)) :
    usesAt (env ++ outer) ns = (usesAt env ns).map (NameUse.within outer) := by
  rw [usesAt, usesAt, List.map_map]
  rfl

/-- The same where each variable is in scope for the next. -/
theorem Fragment.usesOf_append (env : Scope) (fs : List Fragment) :
    Fragment.usesOf (env ++ outer) fs = (Fragment.usesOf env fs).map (NameUse.within outer) := by
  induction fs generalizing env with
  | nil => rfl
  | cons f fs ih =>
    rw [Fragment.usesOf, Fragment.usesOf, ← List.append_assoc, ih, List.map_append, Fragment.uses,
      usesAt_append, Fragment.uses]

mutual

/-- The names in a statement are used in the scopes inside it, within those around it. -/
theorem Stmt.uses_append : ∀ (env : Scope) (s : Stmt),
    Stmt.uses (env ++ outer) s = (Stmt.uses env s).map (NameUse.within outer)
  | env, .expression .. => by simp only [Stmt.uses, usesAt_append]
  | env, .localVariable .. => by simp only [Stmt.uses, Fragment.usesOf_append]
  | env, .block _ ⟨_, ss⟩ => by simp only [Stmt.uses, Stmt.usesOf_append env ss]
  | env, .ifElse _ _ t none => by
    simp only [Stmt.uses, usesAt_append, List.map_append, Stmt.uses_append env t]
  | env, .ifElse _ _ t (some e) => by
    simp only [Stmt.uses, usesAt_append, List.map_append, Stmt.uses_append env t,
      Stmt.uses_append env e]
  | env, .whileLoop _ _ b => by
    simp only [Stmt.uses, usesAt_append, List.map_append, Stmt.uses_append env b]
  | env, .forLoop _ init _ _ b => by
    simp only [Stmt.uses, ← List.append_assoc, usesAt_append, List.map_append,
      Stmt.usesOf_append env init, Stmt.uses_append _ b]
  | env, .tryCatch _ ⟨_, ss⟩ cs none => by
    simp only [Stmt.uses, List.map_append, Stmt.usesOf_append env ss,
      CatchClause.usesOf_append env cs]
  | env, .tryCatch _ ⟨_, ss⟩ cs (some ⟨_, fs⟩) => by
    simp only [Stmt.uses, List.map_append, Stmt.usesOf_append env ss,
      CatchClause.usesOf_append env cs, Stmt.usesOf_append env fs]
  | env, .returnValue .. => by simp only [Stmt.uses, usesAt_append]
  | env, .throwValue .. => by simp only [Stmt.uses, usesAt_append]
  | env, .superCall .. => by simp only [Stmt.uses, usesAt_append]
  | env, .thisCall .. => by simp only [Stmt.uses, usesAt_append]
  | _, .localType .. => rfl
  | _, .empty _ => rfl

theorem Stmt.usesOf_append : ∀ (env : Scope) (ss : List Stmt),
    Stmt.usesOf (env ++ outer) ss = (Stmt.usesOf env ss).map (NameUse.within outer)
  | _, [] => rfl
  | env, s :: ss => by
    simp only [Stmt.usesOf, ← List.append_assoc, List.map_append, Stmt.uses_append env s,
      Stmt.usesOf_append _ ss]

theorem CatchClause.usesOf_append : ∀ (env : Scope) (cs : List CatchClause),
    CatchClause.usesOf (env ++ outer) cs = (CatchClause.usesOf env cs).map (NameUse.within outer)
  | _, [] => rfl
  | env, ⟨_, x, ⟨_, ss⟩⟩ :: cs => by
    simp only [CatchClause.usesOf, ← List.append_assoc, List.map_append, Stmt.usesOf_append _ ss,
      CatchClause.usesOf_append env cs]

end

end

end ClassInit
