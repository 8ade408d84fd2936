import ClassInit.Proofs.Binding.Sites

/-!
# Resolving by passing an environment

Resolving works on stacks of scopes that it opens, closes and adds to, while `Stmt.resolveIn` passes
an environment down. Both agree on every statement without local types (`Stmt.resolve_agrees`), and
so on every member without them (`Member.resolve_agrees`).
-/

set_option autoImplicit false

namespace ClassInit

open Binding

/-! ## States at a site -/

namespace Binding

/-- The state is inside the types of the site, has the scopes open, has only added locals to the
table, and gives the handle `next` to the next one. -/
structure Site.Here (c : Site) (scopes : List Scope) (next : Nat) (s : State) : Prop where
  types : s.typeScopes = c.types
  scopes : s.localScopes = scopes
  table : c.table.WithLocals s.table
  next : s.table.vars.size = next

namespace Site.Here

variable {c : Site} {scopes : List Scope} {next : Nat} {s : State} (here : c.Here scopes next s)

include here

/-- At a site a name means what the locals in scope and the fields around say. -/
theorem resolveName (name : String) : s.resolveName name = c.means? scopes.flatten name := by
  unfold State.resolveName Site.means? Site.qualified? Site.simple? State.findLocal
    State.findEnclosingField Site.field?
  rw [here.types, here.scopes, here.table.findField]
  simp only [here.table.owner?]
  cases splitLast? name with
  | some parts => rfl
  | none => cases scopes.flatten.lookup name <;> rfl

theorem resolveMember (target : Expr) (name : String) :
    s.resolveMember target name = c.member? target name := by
  unfold State.resolveMember Site.member? Site.qualified?
  cases target.skipParens with
  | name i qualifier binding =>
    cases binding <;> simp only [here.table.findField, here.table.owner?]
  | _ => simp only [here.types, here.table.findField]

theorem resolveNew (t : TypeName) : (resolveNew t s).1 = c.newType t := by
  unfold Binding.resolveNew Site.newType
  cases t.binding with
  | some id => rfl
  | none =>
    dsimp only
    rw [here.table.lookupSimpleType]

/-- What is counted does not matter. -/
theorem of_stats {s' : State} (table : s'.table = s.table) (types : s'.typeScopes = s.typeScopes)
    (locals : s'.localScopes = s.localScopes) : c.Here scopes next s' :=
  ⟨types.trans here.types, locals.trans here.scopes, table ▸ here.table, table ▸ here.next⟩

/-- A name that has no handle yet gets the one of what it means. -/
theorem resolveUnbound (name : String) :
    (resolveUnbound name s).1 = c.means? scopes.flatten name ∧
      c.Here scopes next (resolveUnbound name s).2 := by
  rw [← here.resolveName]
  unfold Binding.resolveUnbound
  cases s.resolveName name with
  | some v => exact ⟨rfl, here.of_stats rfl rfl rfl⟩
  | none => exact ⟨rfl, here⟩

end Site.Here

end Binding

/-! ## Expressions agree -/

section

variable {c : Site} {scopes : List Scope} {next : Nat}

namespace Expr

mutual

/-- Resolving an expression at a site gives what the environment gives. -/
theorem resolve_agrees : ∀ (e : Expr) (s : Binding.State), c.Here scopes next s →
    (e.resolve s).1 = e.resolveIn c scopes.flatten ∧ c.Here scopes next (e.resolve s).2
  | .literal .., _, here => ⟨rfl, here⟩
  | .this _, _, here => ⟨rfl, here⟩
  | .name _ _ (some _), _, here => ⟨rfl, here⟩
  | .name i x none, _, here => by
    obtain ⟨value, after⟩ := here.resolveUnbound x
    exact ⟨congrArg (name i x) value, after⟩
  | .fieldAccess i t x (some v), s, here => by
    obtain ⟨target, after⟩ := resolve_agrees t s here
    exact ⟨congrArg (fieldAccess i · x (some v)) target, after⟩
  | .fieldAccess i t x none, s, here => by
    obtain ⟨target, after⟩ := resolve_agrees t s here
    refine ⟨?_, after⟩
    -- The member is searched for in the state after the target, which still stands at the same
    -- place.
    show fieldAccess i (t.resolve s).1 x ((t.resolve s).2.resolveMember (t.resolve s).1 x) = _
    rw [target, after.resolveMember, resolveIn]
  | .unary i op e, s, here => by
    obtain ⟨operand, after⟩ := resolve_agrees e s here
    exact ⟨congrArg (unary i op) operand, after⟩
  | .step i op e, s, here => by
    obtain ⟨operand, after⟩ := resolve_agrees e s here
    exact ⟨congrArg (step i op) operand, after⟩
  | .binary i op l r, s, here => by
    obtain ⟨left, between⟩ := resolve_agrees l s here
    obtain ⟨right, after⟩ := resolve_agrees r _ between
    exact ⟨congrArg₂ (binary i op) left right, after⟩
  | .conditional i c t e, s, here => by
    obtain ⟨condition, first⟩ := resolve_agrees c s here
    obtain ⟨whenTrue, second⟩ := resolve_agrees t _ first
    obtain ⟨whenFalse, after⟩ := resolve_agrees e _ second
    refine ⟨?_, after⟩
    rw [resolveIn, ← condition, ← whenTrue, ← whenFalse]
    rfl
  | .parenthesized i e, s, here => by
    obtain ⟨inner, after⟩ := resolve_agrees e s here
    exact ⟨congrArg (parenthesized i) inner, after⟩
  | .cast i t e, s, here => by
    obtain ⟨operand, after⟩ := resolve_agrees e s here
    exact ⟨congrArg (cast i t) operand, after⟩
  | .assignment i op l r, s, here => by
    obtain ⟨left, between⟩ := resolve_agrees l s here
    obtain ⟨right, after⟩ := resolve_agrees r _ between
    exact ⟨congrArg₂ (assignment i op) left right, after⟩
  | .call i none n as b, s, here => by
    obtain ⟨arguments, after⟩ := resolveAll_agrees as s here
    exact ⟨congrArg (call i none n · b) arguments, after⟩
  | .call i (some r) n as b, s, here => by
    obtain ⟨receiver, between⟩ := resolve_agrees r s here
    obtain ⟨arguments, after⟩ := resolveAll_agrees as _ between
    exact ⟨congrArg₂ (fun r as => call i (some r) n as b) receiver arguments, after⟩
  | .new i t as b, s, here => by
    have type := here.resolveNew t
    -- Looking up the type leaves the state as it is.
    have between : c.Here scopes next (resolveNew t s).2 := by
      rw [resolveNew_state]
      exact here
    obtain ⟨arguments, after⟩ := resolveAll_agrees as _ between
    exact ⟨congrArg₂ (new i · · b) type arguments, after⟩

theorem resolveAll_agrees : ∀ (es : List Expr) (s : Binding.State), c.Here scopes next s →
    (resolveAll es s).1 = resolveAllIn c scopes.flatten es ∧ c.Here scopes next (resolveAll es s).2
  | [], _, here => ⟨rfl, here⟩
  | e :: es, s, here => by
    obtain ⟨head, between⟩ := resolve_agrees e s here
    obtain ⟨rest, after⟩ := resolveAll_agrees es _ between
    exact ⟨congrArg₂ List.cons head rest, after⟩

end

theorem resolveOption_agrees (e : Option Expr) (s : Binding.State) (here : c.Here scopes next s) :
    (resolveOption e s).1 = e.map (resolveIn c scopes.flatten) ∧
      c.Here scopes next (resolveOption e s).2 := by
  cases e with
  | none => exact ⟨rfl, here⟩
  | some e =>
    obtain ⟨value, after⟩ := resolve_agrees e s here
    exact ⟨congrArg some value, after⟩

end Expr

/-! ## Locals agree -/

variable {scope : Scope}

/-- A local gets the next handle unless it has one, and is in scope afterwards. -/
theorem declareLocal_agrees (name : String) (type : TypeRef) (modifiers : Modifiers)
    (binding : Option VariableId) (s : Binding.State) (here : c.Here (scope :: scopes) next s) :
    (declareLocal name type modifiers binding s).1 = (localHandle next binding).1 ∧
      c.Here (((name, (localHandle next binding).1) :: scope) :: scopes)
        (localHandle next binding).2 (declareLocal name type modifiers binding s).2 := by
  obtain ⟨table, stats, typeScopes, localScopes⟩ := s
  obtain ⟨types, locals, more, size⟩ := here
  dsimp only at types locals more size
  subst types locals size
  cases binding with
  | some v => exact ⟨rfl, rfl, rfl, more, rfl⟩
  | none =>
    refine ⟨rfl, rfl, rfl, ⟨more.types, more.adds.trans (.addVariable table rfl)⟩, ?_⟩
    exact Array.size_push _

theorem declareParameter_agrees (p : Parameter) (s : Binding.State)
    (here : c.Here (scope :: scopes) next s) :
    (declareParameter p s).1 = (p.resolveIn next).1 ∧
      c.Here (((p.resolveIn next).1.declares ++ scope) :: scopes) (p.resolveIn next).2
        (declareParameter p s).2 := by
  obtain ⟨handle, after⟩ := declareLocal_agrees p.name p.type .empty p.binding s here
  refine ⟨?_, after⟩
  rw [Parameter.resolveIn, ← handle]
  rfl

/-- Parameters get the next handles in order. -/
theorem declareParameters_agrees (ps : List Parameter) (s : Binding.State)
    (here : c.Here (scope :: scopes) next s) :
    (declareParameters ps s).1 = (Parameter.resolveAllIn next ps).1 ∧
      c.Here ((latestFirst Parameter.declares (Parameter.resolveAllIn next ps).1 ++ scope) ::
        scopes) (Parameter.resolveAllIn next ps).2 (declareParameters ps s).2 := by
  induction ps generalizing next scope s with
  | nil => exact ⟨rfl, here⟩
  | cons p ps ih =>
    obtain ⟨head, between⟩ := declareParameter_agrees p s here
    obtain ⟨rest, after⟩ := ih _ between
    rw [declareParameters, mapM_cons_state, Parameter.resolveAllIn, latestFirst_cons,
      List.append_assoc]
    exact ⟨congrArg₂ List.cons head rest, after⟩

/-- What is added to the innermost scope comes first in the environment. -/
theorem flatten_added (added scope : Scope) (scopes : List Scope) :
    ((added ++ scope) :: scopes).flatten = added ++ (scope :: scopes).flatten := by
  rw [List.flatten_cons, List.flatten_cons, List.append_assoc]

theorem Fragment.resolveLocal_agrees (type : TypeRef) (modifiers : Modifiers) (f : Fragment)
    (s : Binding.State) (here : c.Here (scope :: scopes) next s) :
    (f.resolveLocal type modifiers s).1 = (f.resolveIn c (scope :: scopes).flatten next).1 ∧
      c.Here (((f.resolveIn c (scope :: scopes).flatten next).1.declares ++ scope) :: scopes)
        (f.resolveIn c (scope :: scopes).flatten next).2 (f.resolveLocal type modifiers s).2 := by
  obtain ⟨initializer, between⟩ := Expr.resolveOption_agrees f.initializer s here
  obtain ⟨handle, after⟩ := declareLocal_agrees f.name type modifiers f.binding _ between
  refine ⟨?_, after⟩
  rw [Fragment.resolveIn, ← handle, ← initializer]
  rfl

/-- A variable is in scope for the initializers after its own. -/
theorem Fragment.resolveLocals_agrees (type : TypeRef) (modifiers : Modifiers) (fs : List Fragment)
    (s : Binding.State) (here : c.Here (scope :: scopes) next s) :
    (Fragment.resolveLocals type modifiers fs s).1 =
        (Fragment.resolveAllIn c (scope :: scopes).flatten next fs).1 ∧
      c.Here ((latestFirst Fragment.declares
          (Fragment.resolveAllIn c (scope :: scopes).flatten next fs).1 ++ scope) :: scopes)
        (Fragment.resolveAllIn c (scope :: scopes).flatten next fs).2
        (Fragment.resolveLocals type modifiers fs s).2 := by
  induction fs generalizing next scope s with
  | nil => exact ⟨rfl, here⟩
  | cons f fs ih =>
    obtain ⟨head, between⟩ := Fragment.resolveLocal_agrees type modifiers f s here
    obtain ⟨rest, after⟩ := ih _ between
    rw [flatten_added] at rest after
    rw [Fragment.resolveLocals, mapM_cons_state, Fragment.resolveAllIn, latestFirst_cons,
      List.append_assoc]
    exact ⟨congrArg₂ List.cons head rest, after⟩

/-! ## Statements agree -/

open Step (Leads)

/-- What is declared in a scope of its own is gone after it. -/
theorem inScope_leads {α : Type} {m : Resolving α} {a : α} {next' : Nat} (added : Scope)
    (inside : Leads (c.Here ([] :: scopes) next) m a (c.Here (added :: scopes) next')) :
    Leads (c.Here scopes next) (inScope m) a (c.Here scopes next') := by
  refine .bind (.lift (Q := c.Here ([] :: scopes) next) fun s here => ⟨rfl, ?_⟩) ?_
  · exact ⟨here.types, congrArg ([] :: ·) here.scopes, here.table, here.next⟩
  refine .bind inside (.bind (.lift (Q := c.Here scopes next') fun s here => ⟨rfl, ?_⟩) ?_)
  · exact ⟨here.types, congrArg List.tail here.scopes, here.table, here.next⟩
  · exact .pure fun _ => id

theorem Expr.resolve_leads (e : Expr) :
    Leads (c.Here scopes next) (liftM e.resolve : Resolving Expr) (e.resolveIn c scopes.flatten)
      (c.Here scopes next) := .lift e.resolve_agrees

theorem Expr.resolveAll_leads (es : List Expr) :
    Leads (c.Here scopes next) (liftM (Expr.resolveAll es) : Resolving (List Expr))
      (Expr.resolveAllIn c scopes.flatten es) (c.Here scopes next) :=
        .lift (Expr.resolveAll_agrees es)

theorem Expr.resolveOption_leads (e : Option Expr) :
    Leads (c.Here scopes next) (liftM (Expr.resolveOption e) : Resolving (Option Expr))
      (e.map (Expr.resolveIn c scopes.flatten)) (c.Here scopes next) :=
  .lift (Expr.resolveOption_agrees e)

mutual

/-- A statement without local types resolves to what it resolves to in the environment of the open
scopes, and leaves the scopes as they were, up to its own locals in the innermost one. -/
theorem Stmt.resolve_agrees : ∀ (s : Stmt), s.localTypes = [] →
    ∀ (scope : Scope) (scopes : List Scope) (next : Nat),
      Leads (c.Here (scope :: scopes) next) s.resolve
        (s.resolveIn c (scope :: scopes).flatten next).1
        (c.Here (((s.resolveIn c (scope :: scopes).flatten next).1.declares ++ scope) :: scopes)
          (s.resolveIn c (scope :: scopes).flatten next).2)
  | .expression i e, _, scope, scopes, next => by
    rw [Stmt.resolve, Stmt.resolveIn]
    exact .bind e.resolve_leads (.pure fun _ => id)
  | .localVariable i m t fs, _, scope, scopes, next => by
    rw [Stmt.resolve, Stmt.resolveIn]
    exact .bind (.lift (Fragment.resolveLocals_agrees t m fs)) (.pure fun _ => id)
  | .block i ⟨b, ss⟩, noTypes, scope, scopes, next => by
    rw [Stmt.resolve, Stmt.resolveIn]
    exact .bind (inScope_leads _ (Stmt.resolveAll_agrees ss noTypes [] (scope :: scopes) next))
      (.pure fun _ => id)
  | .ifElse i e t none, noTypes, scope, scopes, next => by
    rw [Stmt.resolve, Stmt.resolveIn]
    refine .bind e.resolve_leads ?_
    exact .bind (inScope_leads _ (Stmt.resolve_agrees t noTypes [] (scope :: scopes) next))
      (.pure fun _ => id)
  | .ifElse i e t (some f), noTypes, scope, scopes, next => by
    rw [Stmt.resolve, Stmt.resolveIn]
    obtain ⟨noTypes, noTypes'⟩ := List.append_eq_nil_iff.mp noTypes
    refine .bind e.resolve_leads ?_
    refine .bind (inScope_leads _ (Stmt.resolve_agrees t noTypes [] (scope :: scopes) next)) ?_
    exact .bind (inScope_leads _ (Stmt.resolve_agrees f noTypes' [] (scope :: scopes) _))
      (.pure fun _ => id)
  | .whileLoop i e b, noTypes, scope, scopes, next => by
    rw [Stmt.resolve, Stmt.resolveIn]
    refine .bind e.resolve_leads ?_
    exact .bind (inScope_leads _ (Stmt.resolve_agrees b noTypes [] (scope :: scopes) next))
      (.pure fun _ => id)
  | .forLoop i init e us b, noTypes, scope, scopes, next => by
    rw [Stmt.resolve, Stmt.resolveIn]
    obtain ⟨noTypes, noTypes'⟩ := List.append_eq_nil_iff.mp noTypes
    have env : ∀ added : Scope, ((added ++ []) :: scope :: scopes).flatten =
        added ++ (scope :: scopes).flatten := fun added => flatten_added added [] (scope :: scopes)
    -- The header and the body see what the initialization declares; the body has a scope of its
    -- own.
    rw [← env]
    exact inScope_leads _ (.bind (Stmt.resolveAll_agrees init noTypes [] (scope :: scopes) next)
      (.bind (Expr.resolveOption_leads e) (.bind (Expr.resolveAll_leads us)
        (.bind (inScope_leads _ (Stmt.resolve_agrees b noTypes' [] _ _)) (.pure fun _ => id)))))
  | .tryCatch i ⟨b, ss⟩ cs none, noTypes, scope, scopes, next => by
    rw [Stmt.resolve, Stmt.resolveIn]
    obtain ⟨noTypes, noTypes'⟩ := List.append_eq_nil_iff.mp noTypes
    refine .bind (inScope_leads _ (Stmt.resolveAll_agrees ss noTypes [] (scope :: scopes) next)) ?_
    exact .bind (CatchClause.resolveAll_agrees cs noTypes' (scope :: scopes) _) (.pure fun _ => id)
  | .tryCatch i ⟨b, ss⟩ cs (some ⟨fb, fs⟩), noTypes, scope, scopes, next => by
    rw [Stmt.resolve, Stmt.resolveIn]
    obtain ⟨noTypes, noTypes''⟩ := List.append_eq_nil_iff.mp noTypes
    obtain ⟨noTypes, noTypes'⟩ := List.append_eq_nil_iff.mp noTypes
    refine .bind (inScope_leads _ (Stmt.resolveAll_agrees ss noTypes [] (scope :: scopes) next)) ?_
    refine .bind (CatchClause.resolveAll_agrees cs noTypes' (scope :: scopes) _) ?_
    exact .bind (inScope_leads _ (Stmt.resolveAll_agrees fs noTypes'' [] (scope :: scopes) _))
      (.pure fun _ => id)
  | .returnValue i e, _, scope, scopes, next => by
    rw [Stmt.resolve, Stmt.resolveIn]
    exact .bind (Expr.resolveOption_leads e) (.pure fun _ => id)
  | .throwValue i e, _, scope, scopes, next => by
    rw [Stmt.resolve, Stmt.resolveIn]
    exact .bind e.resolve_leads (.pure fun _ => id)
  | .superCall i as b, _, scope, scopes, next => by
    rw [Stmt.resolve, Stmt.resolveIn]
    exact .bind (Expr.resolveAll_leads as) (.pure fun _ => id)
  | .thisCall i as b, _, scope, scopes, next => by
    rw [Stmt.resolve, Stmt.resolveIn]
    exact .bind (Expr.resolveAll_leads as) (.pure fun _ => id)
  | .localType i d, noTypes, _, _, _ => nomatch noTypes
  | .empty i, _, scope, scopes, next => by
    rw [Stmt.resolve, Stmt.resolveIn]
    exact .pure fun _ => id

theorem Stmt.resolveAll_agrees : ∀ (ss : List Stmt), Stmt.localTypesOf ss = [] →
    ∀ (scope : Scope) (scopes : List Scope) (next : Nat),
      Leads (c.Here (scope :: scopes) next) (Stmt.resolveAll ss)
        (Stmt.resolveAllIn c (scope :: scopes).flatten next ss).1
        (c.Here ((latestFirst Stmt.declares
            (Stmt.resolveAllIn c (scope :: scopes).flatten next ss).1 ++ scope) :: scopes)
          (Stmt.resolveAllIn c (scope :: scopes).flatten next ss).2)
  | [], _, scope, scopes, next => by
    rw [Stmt.resolveAll, Stmt.resolveAllIn]
    exact .pure fun _ => id
  | s :: ss, noTypes, scope, scopes, next => by
    rw [Stmt.resolveAll, Stmt.resolveAllIn]
    obtain ⟨noTypes, noTypes'⟩ := List.append_eq_nil_iff.mp noTypes
    have rest := Stmt.resolveAll_agrees ss noTypes'
      ((s.resolveIn c (scope :: scopes).flatten next).1.declares ++ scope) scopes
      (s.resolveIn c (scope :: scopes).flatten next).2
    rw [flatten_added] at rest
    rw [latestFirst_cons, List.append_assoc]
    refine .bind (Stmt.resolve_agrees s noTypes scope scopes next) ?_
    exact .bind rest (.pure fun _ => id)

theorem CatchClause.resolveAll_agrees :
    ∀ (cs : List CatchClause), CatchClause.localTypesOf cs = [] →
    ∀ (scopes : List Scope) (next : Nat),
      Leads (c.Here scopes next) (CatchClause.resolveAll cs)
        (CatchClause.resolveAllIn c scopes.flatten next cs).1
        (c.Here scopes (CatchClause.resolveAllIn c scopes.flatten next cs).2)
  | [], _, scopes, next => by
    rw [CatchClause.resolveAll, CatchClause.resolveAllIn]
    exact .pure fun _ => id
  | ⟨sp, x, ⟨b, ss⟩⟩ :: cs, noTypes, scopes, next => by
    rw [CatchClause.resolveAll, CatchClause.resolveAllIn]
    obtain ⟨noTypes, noTypes'⟩ := List.append_eq_nil_iff.mp noTypes
    have body := Stmt.resolveAll_agrees ss noTypes []
      (((x.resolveIn next).1.declares ++ []) :: scopes) (x.resolveIn next).2
    have env : ([] :: ((x.resolveIn next).1.declares ++ []) :: scopes).flatten =
        (x.resolveIn next).1.declares ++ scopes.flatten := by
      simp only [List.flatten_cons, List.nil_append, List.append_nil]
    rw [env] at body
    -- The parameter has a scope of its own around that of the body.
    refine .bind (inScope_leads _ (.bind (.lift (declareParameter_agrees x))
      (.bind (inScope_leads _ body) (.pure fun _ => id)))) ?_
    exact .bind (CatchClause.resolveAll_agrees cs noTypes' scopes _) (.pure fun _ => id)

end

/-! ## Members agree -/

/-- The initializers of fields are resolved with no locals in scope. -/
theorem FieldDecl.resolve_agrees (f : FieldDecl) (s : Binding.State) (here : c.Here scopes next s) :
    (f.resolve s).1 = { f with
        fragments := f.fragments.map fun g =>
          { g with initializer := g.initializer.map (Expr.resolveIn c scopes.flatten) } } ∧
      c.Here scopes next (f.resolve s).2 := by
  have fragments : ∀ gs : List Fragment, ∀ s : Binding.State, c.Here scopes next s →
      (gs.mapM Fragment.resolve s).1 = (gs.map fun g =>
          { g with initializer := g.initializer.map (Expr.resolveIn c scopes.flatten) }) ∧
        c.Here scopes next (gs.mapM Fragment.resolve s).2 := by
    intro gs
    induction gs with
    | nil => exact fun _ here => ⟨rfl, here⟩
    | cons g gs ih =>
      intro s here
      obtain ⟨initializer, between⟩ := Expr.resolveOption_agrees g.initializer s here
      obtain ⟨rest, after⟩ := ih _ between
      rw [mapM_cons_state]
      refine ⟨congrArg₂ List.cons ?_ rest, after⟩
      dsimp only
      rw [← initializer]
      rfl
  obtain ⟨value, after⟩ := fragments f.fragments s here
  refine ⟨?_, after⟩
  rw [← value]
  rfl

/-- A member without types in it resolves to what it resolves to without any state. -/
theorem Member.resolve_agrees {m : Member} (noType : m.asType = none)
    (noTypes : Stmt.localTypesOf (m.body.getD []) = []) :
    ∃ next', Leads (c.Here [] next) m.resolve (m.resolveIn c next) (c.Here [] next') := by
  rcases m with d | ⟨h, _ | ⟨b, ss⟩⟩ | ⟨i, isStatic, ⟨b, ss⟩⟩ | f
  · cases noType
  · rw [Member.resolve, Member.resolveIn]
    exact ⟨_, inScope_leads _ (.bind (.lift (declareParameters_agrees h.parameters))
      (.pure fun _ => id))⟩
  · rw [Member.resolve, Member.resolveIn]
    have env :
        ((latestFirst Parameter.declares (Parameter.resolveAllIn next h.parameters).1 ++ []) ::
          []).flatten =
            latestFirst Parameter.declares (Parameter.resolveAllIn next h.parameters).1 := by
      simp only [List.flatten_cons, List.flatten_nil, List.append_nil]
    have body := Stmt.resolveAll_agrees (c := c) ss noTypes
      (latestFirst Parameter.declares (Parameter.resolveAllIn next h.parameters).1 ++ []) []
      (Parameter.resolveAllIn next h.parameters).2
    rw [env] at body
    exact ⟨_, inScope_leads _ (.bind (.lift (declareParameters_agrees h.parameters))
      (.bind body (.pure fun _ => id)))⟩
  · rw [Member.resolve, Member.resolveIn]
    exact ⟨_, .bind (inScope_leads _ (Stmt.resolveAll_agrees ss noTypes [] [] next))
      (.pure fun _ => id)⟩
  · rw [Member.resolve, Member.resolveIn]
    exact ⟨_, .bind (.lift f.resolve_agrees) (.pure fun _ => id)⟩

end

end ClassInit
