import ClassInit.Proofs.Binding.Scoping

/-!
# Uses of names

The simple and dotted names of a tree, each with the locals that are in scope where it stands
(`Stmt.uses`). In a body that is resolved in an environment every name has the handle of what it
means in the scope of its use (`Stmt.uses_resolveIn`).
-/

set_option autoImplicit false

namespace ClassInit

open Binding

/-! ## Names -/

mutual

/-- The names in an expression with their handles. -/
def Expr.names : Expr → List (String × Option VariableId)
  | .name _ n b => [(n, b)]
  | .literal .. => []
  | .this _ => []
  | .fieldAccess _ t _ _ => t.names
  | .unary _ _ e => e.names
  | .step _ _ e => e.names
  | .binary _ _ l r => l.names ++ r.names
  | .conditional _ c t e => c.names ++ (t.names ++ e.names)
  | .parenthesized _ e => e.names
  | .cast _ _ e => e.names
  | .assignment _ _ l r => l.names ++ r.names
  | .call _ none _ as _ => Expr.namesOf as
  | .call _ (some r) _ as _ => r.names ++ Expr.namesOf as
  | .new _ _ as _ => Expr.namesOf as

def Expr.namesOf : List Expr → List (String × Option VariableId)
  | [] => []
  | e :: es => e.names ++ Expr.namesOf es

end

/-- The names in an expression that may be missing. -/
def Expr.namesIn (e : Option Expr) : List (String × Option VariableId) := (e.map Expr.names).getD []

def Fragment.names (f : Fragment) : List (String × Option VariableId) := Expr.namesIn f.initializer

mutual

/-- The names in a statement, outside local types. -/
def Stmt.names : Stmt → List (String × Option VariableId)
  | .expression _ e => e.names
  | .localVariable _ _ _ fs => fs.flatMap Fragment.names
  | .block _ ⟨_, ss⟩ => Stmt.namesOf ss
  | .ifElse _ c t none => c.names ++ t.names
  | .ifElse _ c t (some e) => c.names ++ (t.names ++ e.names)
  | .whileLoop _ c b => c.names ++ b.names
  | .forLoop _ init c us b => Stmt.namesOf init ++ (Expr.namesIn c ++ (Expr.namesOf us ++ b.names))
  | .tryCatch _ ⟨_, ss⟩ cs none => Stmt.namesOf ss ++ CatchClause.namesOf cs
  | .tryCatch _ ⟨_, ss⟩ cs (some ⟨_, fs⟩) =>
    Stmt.namesOf ss ++ (CatchClause.namesOf cs ++ Stmt.namesOf fs)
  | .returnValue _ e => Expr.namesIn e
  | .throwValue _ e => e.names
  | .superCall _ as _ => Expr.namesOf as
  | .thisCall _ as _ => Expr.namesOf as
  | .localType .. => []
  | .empty _ => []

def Stmt.namesOf : List Stmt → List (String × Option VariableId)
  | [] => []
  | s :: ss => s.names ++ Stmt.namesOf ss

def CatchClause.namesOf : List CatchClause → List (String × Option VariableId)
  | [] => []
  | ⟨_, _, ⟨_, ss⟩⟩ :: cs => Stmt.namesOf ss ++ CatchClause.namesOf cs

end

/-- The names in a member itself: in the body of a method or an initializer block, and in the
initializers of a field. -/
def Member.names : Member → List (String × Option VariableId)
  | .type _ => []
  | .method m => Stmt.namesOf m.statements
  | .initializer i => Stmt.namesOf i.body.statements
  | .field f => f.fragments.flatMap Fragment.names

/-! ## Uses -/

/-- A name, its handle, and the locals in scope where it stands, the innermost and latest first. -/
structure NameUse where
  identifier : String
  handle : Option VariableId
  scope : Scope
deriving DecidableEq

/-- Names that all stand at one place. -/
def usesAt (env : Scope) (names : List (String × Option VariableId)) : List NameUse :=
  names.map fun x => ⟨x.1, x.2, env⟩

def Fragment.uses (env : Scope) (f : Fragment) : List NameUse := usesAt env f.names

/-- The uses in declarators one after the other. -/
def Fragment.usesOf : Scope → List Fragment → List NameUse
  | _, [] => []
  | env, f :: fs => f.uses env ++ Fragment.usesOf (f.declares ++ env) fs

mutual

/-- The uses of names in a statement that stands in a scope, outside local types. -/
def Stmt.uses : Scope → Stmt → List NameUse
  | env, .expression _ e => usesAt env e.names
  | env, .localVariable _ _ _ fs => Fragment.usesOf env fs
  | env, .block _ ⟨_, ss⟩ => Stmt.usesOf env ss
  | env, .ifElse _ c t none => usesAt env c.names ++ Stmt.uses env t
  | env, .ifElse _ c t (some e) => usesAt env c.names ++ (Stmt.uses env t ++ Stmt.uses env e)
  | env, .whileLoop _ c b => usesAt env c.names ++ Stmt.uses env b
  | env, .forLoop _ init c us b =>
    Stmt.usesOf env init ++
      (usesAt (latestFirst Stmt.declares init ++ env) (Expr.namesIn c) ++
        (usesAt (latestFirst Stmt.declares init ++ env) (Expr.namesOf us) ++
          Stmt.uses (latestFirst Stmt.declares init ++ env) b))
  | env, .tryCatch _ ⟨_, ss⟩ cs none => Stmt.usesOf env ss ++ CatchClause.usesOf env cs
  | env, .tryCatch _ ⟨_, ss⟩ cs (some ⟨_, fs⟩) =>
    Stmt.usesOf env ss ++ (CatchClause.usesOf env cs ++ Stmt.usesOf env fs)
  | env, .returnValue _ e => usesAt env (Expr.namesIn e)
  | env, .throwValue _ e => usesAt env e.names
  | env, .superCall _ as _ => usesAt env (Expr.namesOf as)
  | env, .thisCall _ as _ => usesAt env (Expr.namesOf as)
  | _, .localType .. => []
  | _, .empty _ => []

/-- The uses in statements one after the other, each of which sees what the ones before it
declare. -/
def Stmt.usesOf : Scope → List Stmt → List NameUse
  | _, [] => []
  | env, s :: ss => Stmt.uses env s ++ Stmt.usesOf (s.declares ++ env) ss

def CatchClause.usesOf : Scope → List CatchClause → List NameUse
  | _, [] => []
  | env, ⟨_, x, ⟨_, ss⟩⟩ :: cs =>
    Stmt.usesOf (x.declares ++ env) ss ++ CatchClause.usesOf env cs

end

/-- The uses in the body of a method, which sees its parameters, or of an initializer block, and in
the initializers of a field. -/
def Member.uses : Member → List NameUse
  | .type _ => []
  | .method m => Stmt.usesOf (latestFirst Parameter.declares m.head.parameters) m.statements
  | .initializer i => Stmt.usesOf [] i.body.statements
  | .field f => usesAt [] (f.fragments.flatMap Fragment.names)

/-! ## Uses in resolved bodies -/

/-- No name has a handle. -/
def Unnamed (names : List (String × Option VariableId)) : Prop := ∀ x ∈ names, x.2 = none

theorem Unnamed.append_iff {ns ns' : List (String × Option VariableId)} :
    Unnamed (ns ++ ns') ↔ Unnamed ns ∧ Unnamed ns' := List.forall_mem_append

namespace Binding

variable (c : Site)

/-- Every name has the handle of what it means in the environment. -/
def Site.Resolves (env : Scope) (names : List (String × Option VariableId)) : Prop :=
  ∀ x ∈ names, x.2 = c.means? env x.1

/-- Every name has the handle of what it means in the scope of its use. -/
def Site.ResolvesUses (os : List NameUse) : Prop :=
  ∀ o ∈ os, o.handle = c.means? o.scope o.identifier

variable {c} {env : Scope}

theorem Site.Resolves.append {ns ns' : List (String × Option VariableId)}
    (first : c.Resolves env ns) (second : c.Resolves env ns') : c.Resolves env (ns ++ ns') :=
  List.forall_mem_append.mpr ⟨first, second⟩

theorem Site.Resolves.nil : c.Resolves env [] := List.forall_mem_nil _

theorem Site.Resolves.uses {ns : List (String × Option VariableId)} (resolves : c.Resolves env ns) :
    c.ResolvesUses (usesAt env ns) := List.forall_mem_map.mpr resolves

theorem Site.ResolvesUses.append {os os' : List NameUse} (first : c.ResolvesUses os)
    (second : c.ResolvesUses os') : c.ResolvesUses (os ++ os') :=
  List.forall_mem_append.mpr ⟨first, second⟩

theorem Site.ResolvesUses.nil : c.ResolvesUses [] := List.forall_mem_nil _

end Binding

section

variable {c : Site}

mutual

theorem Expr.names_resolveIn (env : Scope) : ∀ e : Expr, Unnamed e.names →
    c.Resolves env (e.resolveIn c env).names
  | .name i n (some v), unnamed => nomatch unnamed (n, some v) List.mem_cons_self
  | .name i n none, _ => by
    intro x hx
    rw [List.mem_singleton.mp hx]
  | .literal .., _ => .nil
  | .this _, _ => .nil
  | .fieldAccess _ t _ (some _), unnamed => Expr.names_resolveIn env t unnamed
  | .fieldAccess _ t _ none, unnamed => Expr.names_resolveIn env t unnamed
  | .unary _ _ e, unnamed => Expr.names_resolveIn env e unnamed
  | .step _ _ e, unnamed => Expr.names_resolveIn env e unnamed
  | .binary _ _ l r, unnamed =>
    (Expr.names_resolveIn env l (Unnamed.append_iff.mp unnamed).1).append
      (Expr.names_resolveIn env r (Unnamed.append_iff.mp unnamed).2)
  | .conditional _ c t e, unnamed =>
    have rest := Unnamed.append_iff.mp (Unnamed.append_iff.mp unnamed).2
    (Expr.names_resolveIn env c (Unnamed.append_iff.mp unnamed).1).append
      ((Expr.names_resolveIn env t rest.1).append (Expr.names_resolveIn env e rest.2))
  | .parenthesized _ e, unnamed => Expr.names_resolveIn env e unnamed
  | .cast _ _ e, unnamed => Expr.names_resolveIn env e unnamed
  | .assignment _ _ l r, unnamed =>
    (Expr.names_resolveIn env l (Unnamed.append_iff.mp unnamed).1).append
      (Expr.names_resolveIn env r (Unnamed.append_iff.mp unnamed).2)
  | .call _ none _ as _, unnamed => Expr.namesOf_resolveIn env as unnamed
  | .call _ (some r) _ as _, unnamed =>
    (Expr.names_resolveIn env r (Unnamed.append_iff.mp unnamed).1).append
      (Expr.namesOf_resolveIn env as (Unnamed.append_iff.mp unnamed).2)
  | .new _ _ as _, unnamed => Expr.namesOf_resolveIn env as unnamed

theorem Expr.namesOf_resolveIn (env : Scope) : ∀ es : List Expr, Unnamed (Expr.namesOf es) →
    c.Resolves env (Expr.namesOf (Expr.resolveAllIn c env es))
  | [], _ => .nil
  | e :: es, unnamed =>
    (Expr.names_resolveIn env e (Unnamed.append_iff.mp unnamed).1).append
      (Expr.namesOf_resolveIn env es (Unnamed.append_iff.mp unnamed).2)

end

theorem Expr.namesIn_resolveIn (env : Scope) (e : Option Expr)
    (unnamed : Unnamed (Expr.namesIn e)) :
    c.Resolves env (Expr.namesIn (e.map (Expr.resolveIn c env))) := by
  cases e with
  | none => exact .nil
  | some e => exact Expr.names_resolveIn env e unnamed

theorem Fragment.usesOf_resolveIn (fs : List Fragment) : ∀ (env : Scope) (next : Nat),
    Unnamed (fs.flatMap Fragment.names) →
      c.ResolvesUses (Fragment.usesOf env (Fragment.resolveAllIn c env next fs).1) := by
  induction fs with
  | nil => exact fun _ _ _ => .nil
  | cons f fs ih =>
    intro env next unnamed
    rw [List.flatMap_cons, Unnamed.append_iff] at unnamed
    exact (Expr.namesIn_resolveIn env f.initializer unnamed.1).uses.append (ih _ _ unnamed.2)

mutual

/-- In a statement that is resolved in an environment every name has the handle of what it means. -/
theorem Stmt.uses_resolveIn : ∀ (s : Stmt) (env : Scope) (next : Nat), Unnamed s.names →
    c.ResolvesUses (Stmt.uses env (s.resolveIn c env next).1)
  | .expression i e, env, next, unnamed => (Expr.names_resolveIn env e unnamed).uses
  | .localVariable i m t fs, env, next, unnamed => Fragment.usesOf_resolveIn fs env next unnamed
  | .block i ⟨b, ss⟩, env, next, unnamed => Stmt.usesOf_resolveIn ss env next unnamed
  | .ifElse i e t none, env, next, unnamed => by
    obtain ⟨unnamed, unnamed'⟩ := Unnamed.append_iff.mp unnamed
    exact (Expr.names_resolveIn env e unnamed).uses.append (Stmt.uses_resolveIn t env _ unnamed')
  | .ifElse i e t (some f), env, next, unnamed => by
    obtain ⟨unnamed, unnamed'⟩ := Unnamed.append_iff.mp unnamed
    obtain ⟨unnamed', unnamed''⟩ := Unnamed.append_iff.mp unnamed'
    exact (Expr.names_resolveIn env e unnamed).uses.append
      ((Stmt.uses_resolveIn t env _ unnamed').append (Stmt.uses_resolveIn f env _ unnamed''))
  | .whileLoop i e b, env, next, unnamed => by
    obtain ⟨unnamed, unnamed'⟩ := Unnamed.append_iff.mp unnamed
    exact (Expr.names_resolveIn env e unnamed).uses.append (Stmt.uses_resolveIn b env _ unnamed')
  | .forLoop i init e us b, env, next, unnamed => by
    obtain ⟨first, unnamed⟩ := Unnamed.append_iff.mp unnamed
    obtain ⟨condition, unnamed⟩ := Unnamed.append_iff.mp unnamed
    obtain ⟨updates, body⟩ := Unnamed.append_iff.mp unnamed
    exact (Stmt.usesOf_resolveIn init env next first).append
      ((Expr.namesIn_resolveIn _ e condition).uses.append
        ((Expr.namesOf_resolveIn _ us updates).uses.append (Stmt.uses_resolveIn b _ _ body)))
  | .tryCatch i ⟨b, ss⟩ cs none, env, next, unnamed => by
    obtain ⟨unnamed, unnamed'⟩ := Unnamed.append_iff.mp unnamed
    exact (Stmt.usesOf_resolveIn ss env next unnamed).append
      (CatchClause.usesOf_resolveIn cs env _ unnamed')
  | .tryCatch i ⟨b, ss⟩ cs (some ⟨fb, fs⟩), env, next, unnamed => by
    obtain ⟨unnamed, unnamed'⟩ := Unnamed.append_iff.mp unnamed
    obtain ⟨unnamed', unnamed''⟩ := Unnamed.append_iff.mp unnamed'
    exact (Stmt.usesOf_resolveIn ss env next unnamed).append
      ((CatchClause.usesOf_resolveIn cs env _ unnamed').append
        (Stmt.usesOf_resolveIn fs env _ unnamed''))
  | .returnValue i e, env, next, unnamed => (Expr.namesIn_resolveIn env e unnamed).uses
  | .throwValue i e, env, next, unnamed => (Expr.names_resolveIn env e unnamed).uses
  | .superCall i as b, env, next, unnamed => (Expr.namesOf_resolveIn env as unnamed).uses
  | .thisCall i as b, env, next, unnamed => (Expr.namesOf_resolveIn env as unnamed).uses
  -- The uses in a local type are its own: they are looked up from inside it.
  | .localType .., _, _, _ => .nil
  | .empty _, _, _, _ => .nil

theorem Stmt.usesOf_resolveIn : ∀ (ss : List Stmt) (env : Scope) (next : Nat),
    Unnamed (Stmt.namesOf ss) → c.ResolvesUses (Stmt.usesOf env (Stmt.resolveAllIn c env next ss).1)
  | [], _, _, _ => .nil
  | s :: ss, env, next, unnamed =>
    (Stmt.uses_resolveIn s env next (Unnamed.append_iff.mp unnamed).1).append
      (Stmt.usesOf_resolveIn ss _ _ (Unnamed.append_iff.mp unnamed).2)

theorem CatchClause.usesOf_resolveIn : ∀ (cs : List CatchClause) (env : Scope) (next : Nat),
    Unnamed (CatchClause.namesOf cs) →
      c.ResolvesUses (CatchClause.usesOf env (CatchClause.resolveAllIn c env next cs).1)
  | [], _, _, _ => .nil
  | ⟨_, _, ⟨_, ss⟩⟩ :: cs, env, _, unnamed =>
    (Stmt.usesOf_resolveIn ss _ _ (Unnamed.append_iff.mp unnamed).1).append
      (CatchClause.usesOf_resolveIn cs env _ (Unnamed.append_iff.mp unnamed).2)

end

/-- In a member that is resolved in an environment every name has the handle of what it means. -/
theorem Member.uses_resolveIn (m : Member) (next : Nat) (unnamed : Unnamed m.names) :
    c.ResolvesUses (m.resolveIn c next).uses := by
  rcases m with d | ⟨h, _ | ⟨b, ss⟩⟩ | ⟨i, isStatic, ⟨b, ss⟩⟩ | f
  · exact .nil
  · exact .nil
  · exact Stmt.usesOf_resolveIn ss _ _ unnamed
  · exact Stmt.usesOf_resolveIn ss _ _ unnamed
  · refine Site.Resolves.uses fun x hx => ?_
    obtain ⟨g', hg', hx⟩ := List.mem_flatMap.mp hx
    obtain ⟨g, hg, rfl⟩ := List.mem_map.mp hg'
    refine Expr.namesIn_resolveIn [] g.initializer (fun y hy => ?_) x hx
    exact unnamed y (List.mem_flatMap.mpr ⟨g, hg, hy⟩)

end

end ClassInit
