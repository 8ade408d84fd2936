import ClassInit.Proofs.Binding.Standing
import ClassInit.Proofs.Binding.Unresolved

/-!
# Names that are explained

A name is explained by the table in which it was looked up, with the types and the scopes that were
open there (`Binding.Explained`). Resolving an expression explains the names in it, and resolving
variables explains those in their initializers and gives each local a handle of its own.
-/

set_option autoImplicit false

namespace ClassInit

namespace Binding

/-! ## Steps that resolve names -/

/-- The state is on the trail, inside the types, and has scopes of locals open. -/
structure State.Inside (w : Trail) (types : List TypeId) (scopes : List Scope) (s : State) :
    Prop where
  since : w.leads w.start s.table
  locals : ∀ x ∈ scopes.flatten, s.table.IsLocal x.2
  types : s.typeScopes = types
  scopes : s.localScopes = scopes

/-- If the step succeeds inside the types and with the scopes open, it leaves the types around it
and scopes as `after` says, and of its value holds what `fact` says, wherever the trail leads from
then on. -/
def Binds {α : Type} (w : Trail) (types : List TypeId) (scopes : List Scope) (m : Resolving α)
    (after : α → List Scope → Prop) (fact : α → BindingTable → Prop) : Prop :=
  ∀ s a s', s.Inside w types scopes → m.run s = (.ok a, s') →
    w.leads s.table s'.table ∧ (∃ scopes', s'.Inside w types scopes' ∧ after a scopes') ∧
      ∀ t, w.leads s'.table t → fact a t

namespace Binds

variable {α β : Type} {w : Trail} {types : List TypeId} {scopes : List Scope}
variable {after : α → List Scope → Prop} {fact : α → BindingTable → Prop}

theorem pure {a : α} (same : after a scopes) (holds : ∀ t, fact a t) :
    Binds w types scopes (Pure.pure a) after fact := by
  intro s b s' inside run
  obtain ⟨rfl, rfl⟩ := Step.pure_eq_ok.mp run
  exact ⟨w.refl _, ⟨scopes, inside, same⟩, fun t _ => holds t⟩

theorem bind {m : Resolving α} {k : α → Resolving β} {after' : β → List Scope → Prop}
    {fact' : β → BindingTable → Prop} (h : Binds w types scopes m after fact)
    (hk : ∀ a scopes', after a scopes' →
      Binds w types scopes' (k a) after' fun b t => fact a t → fact' b t) :
    Binds w types scopes (m >>= k) after' fact' := by
  intro s b s' inside run
  obtain ⟨a, s₁, hm, hrest⟩ := Step.bind_eq_ok.mp run
  obtain ⟨first, ⟨scopes₁, inside₁, after₁⟩, fact₁⟩ := h s a s₁ inside hm
  obtain ⟨second, after₂, fact₂⟩ := hk a scopes₁ after₁ s₁ b s' inside₁ hrest
  exact ⟨w.trans first second, after₂, fun t later =>
    fact₂ t later (fact₁ t (w.trans second later))⟩

/-- What is opened is closed again; `after'` may depend on the value. -/
theorem inScopeTo {m : Resolving α} {after' : α → List Scope → Prop}
    (h : Binds w types ([] :: scopes) m after fact)
    (closed : ∀ a scopes', after a scopes' → scopes'.tail = scopes ∧ after' a scopes) :
    Binds w types scopes (inScope m) after' fact := by
  intro s b s' inside run
  obtain ⟨_, s₁, hopen, run⟩ := Step.bind_eq_ok.mp run
  obtain ⟨-, rfl⟩ := Prod.mk.inj (Step.lift_eq_ok.mp hopen)
  obtain ⟨a, s₂, hm, run⟩ := Step.bind_eq_ok.mp run
  obtain ⟨_, s₃, hclose, hpure⟩ := Step.bind_eq_ok.mp run
  obtain ⟨-, rfl⟩ := Prod.mk.inj (Step.lift_eq_ok.mp hclose)
  obtain ⟨rfl, rfl⟩ := Step.pure_eq_ok.mp hpure
  have entered :
      State.Inside w types ([] :: scopes) { s with localScopes := [] :: s.localScopes } :=
    ⟨inside.since, inside.locals, inside.types, congrArg ([] :: ·) inside.scopes⟩
  obtain ⟨leads, ⟨scopes', inside', after'⟩, fact'⟩ := h _ a s₂ entered hm
  obtain ⟨closed, after''⟩ := closed a scopes' after'
  refine ⟨leads, ⟨scopes, ⟨inside'.since, fun x hx => ?_, inside'.types, ?_⟩, after''⟩, fact'⟩
  · rw [← closed] at hx
    obtain ⟨scope, hscope, hx⟩ := List.mem_flatten.mp hx
    exact inside'.locals x (List.mem_flatten.mpr ⟨scope, List.mem_of_mem_tail hscope, hx⟩)
  · show s₂.localScopes.tail = scopes
    rw [inside'.scopes]
    exact closed

theorem inScope {m : Resolving α} (h : Binds w types ([] :: scopes) m after fact)
    (closed : ∀ a scopes', after a scopes' → scopes'.tail = scopes) :
    Binds w types scopes (Binding.inScope m) (fun _ l => l = scopes) fact :=
  inScopeTo h fun a l after' => ⟨closed a l after', rfl⟩

/-- A step inside a type leaves the types around the type. -/
theorem inType {m : Resolving α} {id : TypeId} (h : Binds w (id :: types) scopes m after fact) :
    Binds w types scopes (inType id m) after fact := by
  intro s b s' inside run
  obtain ⟨_, s₁, henter, run⟩ := Step.bind_eq_ok.mp run
  obtain rfl := Step.modify_eq_ok.mp henter
  obtain ⟨a, s₂, hm, run⟩ := Step.bind_eq_ok.mp run
  obtain ⟨_, s₃, hleave, hpure⟩ := Step.bind_eq_ok.mp run
  obtain rfl := Step.modify_eq_ok.mp hleave
  obtain ⟨rfl, rfl⟩ := Step.pure_eq_ok.mp hpure
  have entered : State.Inside w (id :: types) scopes { s with typeScopes := id :: s.typeScopes } :=
    ⟨inside.since, inside.locals, congrArg (id :: ·) inside.types, inside.scopes⟩
  obtain ⟨leads, ⟨scopes', inside', after'⟩, fact'⟩ := h _ a s₂ entered hm
  refine ⟨leads, ⟨scopes', ⟨inside'.since, inside'.locals, ?_, inside'.scopes⟩, after'⟩, fact'⟩
  exact congrArg List.tail inside'.types

/-- A step of which is known what it does to the stacks and to the table. -/
theorem of_stacks {m : Resolving α} {after : α → List Scope} {P : α → Prop}
    (onStacks : ∀ t, Stacks t types scopes m after) (yields : ∀ t, Yields (w.leads t) True m P)
    (single : ∀ s a s', s.Inside w types scopes → m.run s = (.ok a, s') → P a →
    w.leads s.table s'.table → (∀ x ∈ (after a).flatten, s'.table.IsLocal x.2) ∧
    ∀ t, w.leads s'.table t → fact a t) :
    Binds w types scopes m (fun a l => l = after a) fact := by
  intro s a s' inside run
  have at' := (onStacks s.table).of_ok ⟨inside.types, inside.scopes, .refl _⟩ run
  obtain ⟨yielded, leads⟩ := (yields s.table).of_ok (w.refl _) run
  obtain ⟨locals, holds⟩ := single s a s' inside run yielded leads
  exact ⟨leads, ⟨after a, ⟨w.trans inside.since leads, locals, at'.types, at'.scopes⟩, rfl⟩, holds⟩

/-- A step that leaves the scopes as they are. -/
theorem of_kept {m : Resolving α} {P : α → Prop}
    (onStacks : ∀ t, Stacks t types scopes m fun _ => scopes)
    (yields : ∀ t, Yields (w.leads t) True m P)
    (single : ∀ s a s', s.Inside w types scopes → m.run s = (.ok a, s') → P a →
    w.leads s.table s'.table → ∀ t, w.leads s'.table t → fact a t) :
    Binds w types scopes m (fun _ l => l = scopes) fact :=
  of_stacks onStacks yields fun s a s' inside run yielded leads =>
    ⟨fun x hx => (w.resolves leads).adds.isLocal (inside.locals x hx),
      single s a s' inside run yielded leads⟩

end Binds

/-! ## What is resolved -/

/-- The uses were looked up inside the types, and so were the names in the declarations, each of
which stands in its scope. -/
structure Explained (w : Trail) (t : BindingTable) (types : List TypeId) (os : List NameUse)
    (ds : List (Scope × TypeDecl)) : Prop where
  uses : ∀ o ∈ os, o.LookedUpIn w t [] types
  inner : ∀ x ∈ ds, x.2.LookedUpIn w t x.1 types

namespace Explained

variable {w : Trail} {t : BindingTable} {types : List TypeId}

theorem nil : Explained w t types [] [] :=
  ⟨fun _ ho => absurd ho List.not_mem_nil, fun _ hd => absurd hd List.not_mem_nil⟩

theorem append {os os' : List NameUse} {ds ds' : List (Scope × TypeDecl)}
    (first : Explained w t types os ds) (second : Explained w t types os' ds') :
    Explained w t types (os ++ os') (ds ++ ds') :=
  ⟨List.forall_mem_append.mpr ⟨first.uses, second.uses⟩,
    List.forall_mem_append.mpr ⟨first.inner, second.inner⟩⟩

/-- Uses that are resolved in scopes of locals. -/
theorem of_uses {t₁ : BindingTable} {os : List NameUse} (since : w.leads w.start t₁)
    (before : w.leads t₁ t) (locals : ∀ o ∈ os, ∀ x ∈ o.scope, t.IsLocal x.2)
    (resolved : (Site.mk t₁ types).ResolvesUses os) : Explained w t types os [] := by
  refine ⟨fun o ho => ⟨?_, t₁, since, before, ?_⟩, fun _ hd => absurd hd List.not_mem_nil⟩ <;>
    rw [List.append_nil]
  · exact locals o ho
  · exact resolved o ho

/-- Names that are resolved at one place. -/
theorem of_names {t₁ : BindingTable} {env : Scope} {ns : List (String × Option VariableId)}
    (since : w.leads w.start t₁) (before : w.leads t₁ t) (locals : ∀ x ∈ env, t.IsLocal x.2)
    (resolved : (Site.mk t₁ types).Resolves env ns) : Explained w t types (usesAt env ns) [] := by
  refine of_uses since before (fun o ho => ?_) resolved.uses
  obtain ⟨x, -, rfl⟩ := List.mem_map.mp ho
  exact locals

/-- Uses that see further scopes around them. -/
theorem of_within {outer : Scope} {os : List NameUse} {ds : List (Scope × TypeDecl)}
    (explained : Explained w t types (os.map (NameUse.within outer)) ds) :
    ∀ o ∈ os, o.LookedUpIn w t outer types := by
  intro o ho
  obtain ⟨locals, handle⟩ := explained.uses _ (List.mem_map_of_mem ho)
  rw [List.append_nil] at locals handle
  exact ⟨locals, handle⟩

/-- The uses and the local types in a body. -/
theorem of_body {env : Scope} {scopes : List Scope} {ss : List Stmt}
    (explained : Explained w t types (Stmt.usesOf (env :: scopes).flatten ss)
      (Stmt.localTypesOfIn (env :: scopes).flatten ss)) :
    (∀ o ∈ Stmt.usesOf env ss, o.LookedUpIn w t scopes.flatten types) ∧
      ∀ x ∈ Stmt.localTypesOfIn env ss, x.2.LookedUpIn w t (x.1 ++ scopes.flatten) types := by
  rw [List.flatten_cons, Stmt.usesOf_append, Stmt.localTypesOfIn_append] at explained
  exact ⟨explained.of_within, fun x hx => explained.inner _ (List.mem_map_of_mem hx)⟩

end Explained

/-- The site at which the state resolves names. -/
theorem State.Inside.here {w : Trail} {types : List TypeId} {scopes : List Scope} {s : State}
    (inside : s.Inside w types scopes) :
    (Site.mk s.table types).Here scopes s.table.vars.size s :=
  ⟨inside.types, inside.scopes, ⟨rfl, .refl _⟩, rfl⟩

/-- Locals stay locals. -/
theorem State.Inside.later {w : Trail} {types : List TypeId} {scopes : List Scope} {s : State}
    {t : BindingTable} (inside : s.Inside w types scopes) (leads : w.leads s.table t) :
    ∀ x ∈ scopes.flatten, t.IsLocal x.2 :=
  fun x hx => (w.resolves leads).adds.isLocal (inside.locals x hx)

end Binding

open Binding

section

variable {w : Trail} {types : List TypeId} {scopes : List Scope} {scope : Scope}

/-! ## Expressions -/

/-- A step that resolves names at one place. -/
theorem names_bind {α : Type} {m : StateM Binding.State α}
    {names : α → List (String × Option VariableId)}
    (onStacks : ∀ t, Stacks t types scopes (liftM m : Resolving α) fun _ => scopes)
    (yields : ∀ t, Yields (w.leads t) True (liftM m : Resolving α) fun _ => True)
    (resolved : ∀ (c : Site) s next, c.Here scopes next s →
    c.Resolves scopes.flatten (names (m s).1)) :
    Binds w types scopes (liftM m : Resolving α) (fun _ l => l = scopes)
      fun a t => Explained w t types (usesAt scopes.flatten (names a)) [] := by
  refine .of_kept onStacks yields fun s a s' inside run _ leads t later => ?_
  have value : (m s).1 = a := congrArg Prod.fst (Step.lift_eq_ok.mp run)
  have all := resolved _ s _ inside.here
  rw [value] at all
  exact .of_names inside.since (w.trans leads later) (inside.later (w.trans leads later)) all

theorem Expr.resolve_names (e : Expr) (free : Unnamed e.names) :
    Binds w types scopes (liftM e.resolve : Resolving Expr) (fun _ l => l = scopes)
      fun e' t => Explained w t types (usesAt scopes.flatten e'.names) [] := by
  refine names_bind (fun _ => e.resolve_stacks) (fun _ => e.resolve_yields) fun c s next here => ?_
  rw [(e.resolve_agrees s here).1]
  exact Expr.names_resolveIn _ e free

theorem Expr.resolveAll_names (es : List Expr) (free : Unnamed (Expr.namesOf es)) :
    Binds w types scopes (liftM (Expr.resolveAll es) : Resolving (List Expr))
      (fun _ l => l = scopes)
      fun es' t => Explained w t types (usesAt scopes.flatten (Expr.namesOf es')) [] := by
  refine names_bind (fun _ => Expr.resolveAll_stacks es) (fun _ => Expr.resolveAll_yields es)
    fun c s next here => ?_
  rw [(Expr.resolveAll_agrees es s here).1]
  exact Expr.namesOf_resolveIn _ es free

theorem Expr.resolveOption_names (e : Option Expr) (free : Unnamed (Expr.namesIn e)) :
    Binds w types scopes (liftM (Expr.resolveOption e) : Resolving (Option Expr))
      (fun _ l => l = scopes)
      fun e' t => Explained w t types (usesAt scopes.flatten (Expr.namesIn e')) [] := by
  refine names_bind (fun _ => Expr.resolveOption_stacks e) (fun _ => Expr.resolveOption_yields e)
    fun c s next here => ?_
  rw [(Expr.resolveOption_agrees e s here).1]
  exact Expr.namesIn_resolveIn _ e free

theorem FieldDecl.resolve_names (f : FieldDecl) (free : ∀ g ∈ f.fragments, Unnamed g.names) :
    Binds w types scopes (liftM f.resolve : Resolving FieldDecl) (fun _ l => l = scopes)
      fun f' t => Explained w t types (usesAt scopes.flatten (f'.fragments.flatMap Fragment.names))
        [] := by
  have yields :
      ∀ t, Yields (w.leads t) True (liftM f.resolve : Resolving FieldDecl) fun _ => True :=
    fun t => f.resolve_yields.imp fun _ _ => trivial
  refine names_bind (fun _ => f.resolve_stacks) yields fun c s next here => ?_
  rw [(f.resolve_agrees s here).1]
  intro x hx
  obtain ⟨g', hg', hx⟩ := List.mem_flatMap.mp hx
  obtain ⟨g, hg, rfl⟩ := List.mem_map.mp hg'
  exact Expr.namesIn_resolveIn _ g.initializer (free g hg) x hx

theorem EnumConstant.resolveAll_names (cs : List EnumConstant) :
    Binds w types scopes (liftM (EnumConstant.resolveAll cs) : Resolving (List EnumConstant))
      (fun _ l => l = scopes) fun _ _ => True :=
  .of_kept (fun _ => EnumConstant.resolveAll_stacks cs) (fun _ => EnumConstant.resolveAll_yields cs)
    fun _ _ _ _ _ _ _ _ _ => trivial

/-- The names in enum constants, if none of them has a handle. -/
theorem EnumConstant.resolveAll_lookedUp (cs : List EnumConstant)
    (free : ∀ c ∈ cs, Unnamed (Expr.namesOf c.arguments)) :
    Binds w types scopes (liftM (EnumConstant.resolveAll cs) : Resolving (List EnumConstant))
      (fun _ l => l = scopes) fun cs' t =>
        Explained w t types (usesAt scopes.flatten (cs'.flatMap fun c => Expr.namesOf c.arguments))
          [] := by
  refine names_bind (fun _ => EnumConstant.resolveAll_stacks cs)
    (fun _ => EnumConstant.resolveAll_yields cs)
    fun c s next here => ?_
  induction cs generalizing s with
  | nil => exact fun _ hx => absurd hx List.not_mem_nil
  | cons k cs ih =>
    obtain ⟨own, others⟩ := List.forall_mem_cons.mp free
    obtain ⟨value, after⟩ := Expr.resolveAll_agrees k.arguments s here
    rw [EnumConstant.resolveAll, mapM_cons_state]
    refine List.forall_mem_append.mpr ⟨?_, ih others _ after⟩
    show ∀ x ∈ Expr.namesOf (Expr.resolveAll k.arguments s).1, _
    rw [value]
    exact Expr.namesOf_resolveIn _ k.arguments own

/-! ## Locals -/

/-- The handle is one of those given out from the first number on and below the second. -/
def GivenOut (low high : Nat) (v : Option VariableId) : Prop :=
  ∃ w : VariableId, v = some w ∧ low ≤ w.index ∧ w.index < high

theorem GivenOut.mono {low low' high high' : Nat} {v : Option VariableId}
    (given : GivenOut low' high' v) (below : low ≤ low') (above : high' ≤ high) :
    GivenOut low high v := by
  obtain ⟨w, bound, atLeast, less⟩ := given
  exact ⟨w, bound, by omega, by omega⟩

/-- Handles that are given out one after the other. -/
theorem GivenOut.cons {α : Type} {binding : α → Option VariableId} {a : α} {as : List α}
    {low mid high : Nat} (first : low ≤ mid ∧ GivenOut low mid (binding a))
    (rest : mid ≤ high ∧ ∀ b ∈ as, GivenOut mid high (binding b)) :
    low ≤ high ∧ ∀ b ∈ a :: as, GivenOut low high (binding b) := by
  refine ⟨Nat.le_trans first.1 rest.1, List.forall_mem_cons.mpr ⟨?_, fun b hb => ?_⟩⟩
  · exact first.2.mono (Nat.le_refl low) rest.1
  · exact (rest.2 b hb).mono first.1 (Nat.le_refl high)

/-- A local that is new gets the next handle. -/
theorem localHandle_new (next : Nat) {v : Option VariableId} (new : v = none) :
    next ≤ (localHandle next v).2 ∧
      GivenOut next (localHandle next v).2 (some (localHandle next v).1) := by
  subst new
  exact ⟨Nat.le_succ next, ⟨next⟩, rfl, Nat.le_refl next, Nat.lt_succ_self next⟩

theorem Parameter.resolveAllIn_new (ps : List Parameter) (next : Nat)
    (free : ∀ p ∈ ps, p.binding = none) :
    next ≤ (Parameter.resolveAllIn next ps).2 ∧
      ∀ p ∈ (Parameter.resolveAllIn next ps).1,
        GivenOut next (Parameter.resolveAllIn next ps).2 p.binding := by
  induction ps generalizing next with
  | nil => exact ⟨Nat.le_refl next, fun p hp => absurd hp List.not_mem_nil⟩
  | cons p ps ih =>
    obtain ⟨new, free⟩ := List.forall_mem_cons.mp free
    exact GivenOut.cons (localHandle_new next new) (ih (p.resolveIn next).2 free)

theorem Fragment.resolveAllIn_new (c : Site) (fs : List Fragment) (env : Scope) (next : Nat)
    (free : ∀ f ∈ fs, f.binding = none) :
    next ≤ (Fragment.resolveAllIn c env next fs).2 ∧
      ∀ f ∈ (Fragment.resolveAllIn c env next fs).1,
        GivenOut next (Fragment.resolveAllIn c env next fs).2 f.binding := by
  induction fs generalizing env next with
  | nil => exact ⟨Nat.le_refl next, fun f hf => absurd hf List.not_mem_nil⟩
  | cons f fs ih =>
    obtain ⟨new, free⟩ := List.forall_mem_cons.mp free
    exact GivenOut.cons (localHandle_new next new)
      (ih ((f.resolveIn c env next).1.declares ++ env) (f.resolveIn c env next).2 free)

/-- Handles that were given out since a state are those of locals. -/
theorem Binding.Site.Here.isLocal {s s' : Binding.State} {scopes' : List Scope} {next' : Nat}
    (here : (Site.mk s.table types).Here scopes' next' s') {v : Option VariableId}
    (given : GivenOut s.table.vars.size next' v) : ∃ w, v = some w ∧ s'.table.IsLocal w := by
  obtain ⟨w, bound, low, high⟩ := given
  refine ⟨w, bound, here.table.adds.isLocal_of_new low ?_⟩
  rw [here.next]
  exact high

/-- Locals are added to the innermost scope only. -/
theorem tail_of_added {α : Type} {declares : α → Scope} (a : α) (l : List Scope)
    (added : l = (declares a ++ scope) :: scopes) : l.tail = scopes := by
  rw [added, List.tail_cons]

theorem mem_latestFirst {α : Type} {declares : α → Scope} {as : List α} {x : String × VariableId} :
    x ∈ latestFirst declares as ↔ ∃ a ∈ as, x ∈ declares a := by
  rw [latestFirst, List.mem_flatMap]
  simp only [List.mem_reverse]

/-- What a local with the name and the handle declares. -/
theorem mem_declares {name : String} {binding : Option VariableId} {x : String × VariableId} :
    x ∈ (binding.map (name, ·)).toList ↔ binding = some x.2 ∧ name = x.1 := by
  rw [Option.mem_toList, Option.map_eq_some_iff]
  constructor
  · rintro ⟨v, bound, rfl⟩
    exact ⟨bound, rfl⟩
  · rintro ⟨bound, same⟩
    exact ⟨x.2, bound, by rw [same]⟩

/-- What items with the handles of locals declare in a scope of locals. -/
theorem Binding.State.Inside.added {α : Type} {declares : α → Scope}
    {binding : α → Option VariableId} (declared : ∀ {a x}, x ∈ declares a → binding a = some x.2)
    {as : List α} {s : Binding.State} {t : BindingTable}
    (inside : s.Inside w types (scope :: scopes)) (leads : w.leads s.table t)
    (locals : ∀ a ∈ as, ∃ v, binding a = some v ∧ t.IsLocal v) :
    ∀ x ∈ ((latestFirst declares as ++ scope) :: scopes).flatten, t.IsLocal x.2 := by
  intro x hx
  rw [flatten_added] at hx
  rcases List.mem_append.mp hx with hx | hx
  · obtain ⟨a, ha, hx⟩ := mem_latestFirst.mp hx
    obtain ⟨v, bound, isLocal⟩ := locals a ha
    rw [declared hx] at bound
    cases bound
    exact isLocal
  · exact inside.later leads x hx

theorem declareParameters_names (ps : List Parameter) (free : ∀ p ∈ ps, p.binding = none) :
    Binds w types (scope :: scopes) (liftM (declareParameters ps) : Resolving (List Parameter))
      (fun ps' l => l = (latestFirst Parameter.declares ps' ++ scope) :: scopes)
      fun ps' t => ∀ p ∈ ps', ∃ v, p.binding = some v ∧ t.IsLocal v := by
  refine .of_stacks (fun _ => declareParameters_stacks ps)
    (fun t => declareParameters_yields (w.locals t) ps)
    fun s ps' s' inside run _ leads => ?_
  obtain ⟨value, after⟩ := declareParameters_agrees ps s inside.here
  rw [Step.lift_eq_ok.mp run] at value after
  have value : ps' = (Parameter.resolveAllIn s.table.vars.size ps).1 := value
  have given := (Parameter.resolveAllIn_new ps s.table.vars.size free).2
  rw [← value] at given
  have locals : ∀ p ∈ ps', ∃ v, p.binding = some v ∧ s'.table.IsLocal v :=
    fun p hp => after.isLocal (given p hp)
  refine ⟨inside.added (fun h => (mem_declares.mp h).1) leads locals, fun t later p hp => ?_⟩
  obtain ⟨v, bound, isLocal⟩ := locals p hp
  exact ⟨v, bound, (w.resolves later).adds.isLocal isLocal⟩

theorem declareParameter_names (p : Parameter) (free : p.binding = none) :
    Binds w types (scope :: scopes) (liftM (declareParameter p) : Resolving Parameter)
      (fun p' l => l = (p'.declares ++ scope) :: scopes) fun _ _ => True := by
  refine .of_stacks (fun _ => declareParameter_stacks p)
    (fun t => declareParameter_yields (w.locals t) p)
    fun s p' s' inside run _ leads => ⟨?_, fun _ _ => trivial⟩
  obtain ⟨value, after⟩ := declareParameter_agrees p s inside.here
  rw [Step.lift_eq_ok.mp run] at value after
  have value : p' = (p.resolveIn s.table.vars.size).1 := value
  have given := (localHandle_new s.table.vars.size free).2
  have locals : ∀ q ∈ [p'], ∃ v, q.binding = some v ∧ s'.table.IsLocal v := by
    intro q hq
    rw [List.mem_singleton.mp hq, value]
    exact after.isLocal (v := (p.resolveIn s.table.vars.size).1.binding) given
  have one : latestFirst Parameter.declares [p'] = p'.declares := List.flatMap_singleton ..
  rw [← one]
  exact inside.added (fun h => (mem_declares.mp h).1) leads locals

theorem Fragment.mem_of_mem_usesOf {env : Scope} {fs : List Fragment} {o : NameUse}
    (used : o ∈ Fragment.usesOf env fs) {x : String × VariableId} (hx : x ∈ o.scope) :
    x ∈ latestFirst Fragment.declares fs ++ env := by
  induction fs generalizing env with
  | nil => exact absurd used List.not_mem_nil
  | cons f fs ih =>
    rw [latestFirst_cons, List.append_assoc]
    rcases List.mem_append.mp used with used | used
    · obtain ⟨n, -, rfl⟩ := List.mem_map.mp used
      exact List.mem_append_right _ (List.mem_append_right _ hx)
    · exact ih used

theorem Fragment.resolveLocals_names (type : TypeRef) (modifiers : Modifiers) (fs : List Fragment)
    (free : ∀ f ∈ fs, Unnamed f.names ∧ f.binding = none) :
    Binds w types (scope :: scopes)
      (liftM (Fragment.resolveLocals type modifiers fs) : Resolving (List Fragment))
      (fun fs' l => l = (latestFirst Fragment.declares fs' ++ scope) :: scopes)
      fun fs' t => Explained w t types (Fragment.usesOf (scope :: scopes).flatten fs') [] := by
  refine .of_stacks (fun _ => Fragment.resolveLocals_stacks type modifiers fs)
    (fun t => Fragment.resolveLocals_yields (w.locals t) type modifiers fs)
    fun s fs' s' inside run _ leads => ?_
  obtain ⟨value, after⟩ := Fragment.resolveLocals_agrees type modifiers fs s inside.here
  rw [Step.lift_eq_ok.mp run] at value after
  have value : fs' = (Fragment.resolveAllIn ⟨s.table, types⟩ (scope :: scopes).flatten
    s.table.vars.size fs).1 := value
  have given := (Fragment.resolveAllIn_new ⟨s.table, types⟩ fs (scope :: scopes).flatten
    s.table.vars.size fun f hf => (free f hf).2).2
  rw [← value] at given
  have locals : ∀ x ∈ ((latestFirst Fragment.declares fs' ++ scope) :: scopes).flatten,
      s'.table.IsLocal x.2 :=
    inside.added (fun h => (mem_declares.mp h).1) leads fun f hf => after.isLocal (given f hf)
  refine ⟨locals, fun t later => ?_⟩
  have unnamed : Unnamed (fs.flatMap Fragment.names) := by
    intro x hx
    obtain ⟨f, hf, hx⟩ := List.mem_flatMap.mp hx
    exact (free f hf).1 x hx
  have resolved := Fragment.usesOf_resolveIn (c := ⟨s.table, types⟩) fs (scope :: scopes).flatten
    s.table.vars.size unnamed
  rw [← value] at resolved
  refine .of_uses inside.since (w.trans leads later)
    (fun o ho x hx => (w.resolves later).adds.isLocal (locals x ?_)) resolved
  rw [flatten_added]
  exact Fragment.mem_of_mem_usesOf ho hx

end

end ClassInit
