import ClassInit.Proofs.Binding.Resolving
import ClassInit.Proofs.Binding.Scoping

/-!
# The stacks of resolving

Whatever resolving goes through, it leaves the stacks of types and scopes as it found them, up to
the locals that a statement adds to the innermost scope, and of variables it adds only locals to the
table (`Stmt.resolve_stacks`, `TypeDecl.resolve_stacks`). Every member of a type is therefore
resolved right inside the type, with no scope open that was not open around the type
(`TypeDecl.resolve_members`).
-/

set_option autoImplicit false

namespace ClassInit

namespace Binding

/-- The state is inside the types, has the scopes open, and has only added locals to the table. -/
structure State.At (t : BindingTable) (types : List TypeId) (scopes : List Scope) (s : State) :
    Prop where
  types : s.typeScopes = types
  scopes : s.localScopes = scopes
  adds : t.AddsLocals s.table

theorem State.At.self (s : State) : s.At s.table s.typeScopes s.localScopes :=
  ⟨rfl, rfl, .refl _⟩

/-- A step that succeeds leaves the types around it as they are, and the scopes as its value
says. -/
def Stacks {α : Type} (t : BindingTable) (types : List TypeId) (scopes : List Scope)
    (m : Resolving α) (after : α → List Scope) : Prop :=
  Step.Ends (State.At t types scopes) m (fun a => State.At t types (after a)) fun _ => True

section

variable {t : BindingTable} {types : List TypeId} {scopes : List Scope} {scope : Scope}
variable {α β : Type}

namespace Stacks

/-- A step that only returns a value leaves the stacks alone. -/
theorem pure {a : α} {after : α → List Scope} (same : after a = scopes) :
    Stacks t types scopes (Pure.pure a) after :=
  Step.Ends.pure fun _ holds => by
    rw [same]
    exact holds

/-- After two steps the scopes are as the second leaves them. -/
theorem bind {m : Resolving α} {k : α → Resolving β} {F : α → List Scope}
    {after : β → List Scope} (h : Stacks t types scopes m F)
    (hk : ∀ a, Stacks t types (F a) (k a) after) : Stacks t types scopes (m >>= k) after :=
  Step.Ends.bind h hk

/-- The step ends with some locals in the scope that was opened for it; `after` tells the scopes
that there are without it. -/
def Inside (t : BindingTable) (types : List TypeId) (scopes : List Scope) (m : Resolving α)
    (after : α → List Scope) : Prop :=
  Step.Ends (State.At t types ([] :: scopes)) m
    (fun a s => after a = scopes ∧ ∃ added, s.At t types (added :: scopes)) fun _ => True

/-- A scope that a step adds to is dropped with what was added. -/
theorem Inside.of_stacks {m : Resolving α} {added : α → Scope}
    (h : Stacks t types ([] :: scopes) m fun a => added a :: scopes) :
    Inside t types scopes m fun _ => scopes :=
  Step.Ends.imp h fun _ _ at' => ⟨rfl, _, at'⟩

/-- What is opened is closed again. -/
theorem inScope {m : Resolving α} {after : α → List Scope} (h : Inside t types scopes m after) :
    Stacks t types scopes (inScope m) after := by
  refine .bind (F := fun _ => [] :: scopes) (.lift fun s at' => ?_) fun _ => ?_
  · exact ⟨at'.types, congrArg ([] :: ·) at'.scopes, at'.adds⟩
  refine Step.Ends.bind h fun a => Step.Ends.bind
    (Q := fun _ s => after a = scopes ∧ s.At t types scopes) (.lift fun s ⟨same, added, at'⟩ => ?_)
    fun _ => .pure fun s ⟨same, at'⟩ => ?_
  · exact ⟨same, at'.types, congrArg List.tail at'.scopes, at'.adds⟩
  · rw [same]
    exact at'

/-- A step inside a type leaves the types around the type. -/
theorem inType {m : Resolving α} (id : TypeId)
    (h : Stacks t (id :: types) scopes m fun _ => scopes) :
    Stacks t types scopes (inType id m) fun _ => scopes := by
  refine Step.Ends.bind (Q := fun _ => State.At t (id :: types) scopes)
    (.modify fun s at' => ?_) fun _ => ?_
  · exact ⟨congrArg (id :: ·) at'.types, at'.scopes, at'.adds⟩
  refine Step.Ends.bind h fun a => Step.Ends.bind (Q := fun _ => State.At t types scopes)
    (.modify fun s at' => ?_) fun _ => .pure fun _ => fun at' => at'
  exact ⟨congrArg List.tail at'.types, at'.scopes, at'.adds⟩

end Stacks

/-- A step that is known at every site is known on the stacks. -/
theorem State.At.of_site {s s' : State} {after : List Scope} (at' : s.At t types scopes)
    (step : ∀ (c : Site) (next : Nat), c.Here scopes next s → ∃ next', c.Here after next' s') :
    s'.At t types after := by
  obtain ⟨next', here⟩ := step ⟨s.table, types⟩ s.table.vars.size
    ⟨at'.types, at'.scopes, ⟨rfl, .refl _⟩, rfl⟩
  exact ⟨here.types, here.scopes, at'.adds.trans here.table.adds⟩

end

end Binding

open Binding

section

variable {t : BindingTable} {types : List TypeId} {scopes : List Scope} {scope : Scope}

/-! ## Expressions and locals -/

/-- Resolving an expression leaves both stacks as they are. -/
theorem Expr.resolve_stacks (e : Expr) :
    Stacks t types scopes (liftM e.resolve : Resolving Expr) fun _ => scopes :=
  .lift fun s at' => at'.of_site fun _ next here => ⟨next, (e.resolve_agrees s here).2⟩

theorem Expr.resolveAll_stacks (es : List Expr) :
    Stacks t types scopes (liftM (Expr.resolveAll es) : Resolving (List Expr)) fun _ => scopes :=
  .lift fun s at' => at'.of_site fun _ next here => ⟨next, (Expr.resolveAll_agrees es s here).2⟩

theorem Expr.resolveOption_stacks (e : Option Expr) :
    Stacks t types scopes (liftM (Expr.resolveOption e) : Resolving (Option Expr))
      fun _ => scopes :=
  .lift fun s at' => at'.of_site fun _ next here => ⟨next, (Expr.resolveOption_agrees e s here).2⟩

theorem EnumConstant.resolveAll_stacks (cs : List EnumConstant) :
    Stacks t types scopes (liftM (EnumConstant.resolveAll cs) : Resolving (List EnumConstant))
      fun _ => scopes := by
  refine .lift fun s at' => ?_
  induction cs generalizing s with
  | nil => exact at'
  | cons c cs ih =>
    rw [EnumConstant.resolveAll, mapM_cons_state]
    exact ih
      _ (at'.of_site fun _ next here => ⟨next, (Expr.resolveAll_agrees c.arguments s here).2⟩)

/-- Resolving a field leaves both stacks as they are. -/
theorem FieldDecl.resolve_stacks (f : FieldDecl) :
    Stacks t types scopes (liftM f.resolve : Resolving FieldDecl) fun _ => scopes := by
  refine .lift fun s at' => ?_
  show ((f.fragments.mapM Fragment.resolve) s).2.At t types scopes
  induction f.fragments generalizing s with
  | nil => exact at'
  | cons g gs ih =>
    rw [mapM_cons_state]
    exact ih _ (at'.of_site fun _ next here =>
      ⟨next, (Expr.resolveOption_agrees g.initializer s here).2⟩)

/-- A parameter is added to the innermost scope. -/
theorem declareParameter_stacks (p : Parameter) :
    Stacks t types (scope :: scopes) (liftM (declareParameter p) : Resolving Parameter)
      fun p' => (p'.declares ++ scope) :: scopes := by
  refine .lift fun s at' => at'.of_site fun c next here => ?_
  obtain ⟨value, after⟩ := declareParameter_agrees p s here
  rw [value]
  exact ⟨_, after⟩

/-- Parameters are added one by one, the latest first. -/
theorem declareParameters_stacks (ps : List Parameter) :
    Stacks t types (scope :: scopes) (liftM (declareParameters ps) : Resolving (List Parameter))
      fun ps' => (latestFirst Parameter.declares ps' ++ scope) :: scopes := by
  refine .lift fun s at' => at'.of_site fun c next here => ?_
  obtain ⟨value, after⟩ := declareParameters_agrees ps s here
  rw [value]
  exact ⟨_, after⟩

/-- Locals are added one by one, the latest first. -/
theorem Fragment.resolveLocals_stacks (type : TypeRef) (modifiers : Modifiers)
    (fs : List Fragment) :
    Stacks t types (scope :: scopes)
      (liftM (Fragment.resolveLocals type modifiers fs) : Resolving (List Fragment))
      fun fs' => (latestFirst Fragment.declares fs' ++ scope) :: scopes := by
  refine .lift fun s at' => at'.of_site fun c next here => ?_
  obtain ⟨value, after⟩ := Fragment.resolveLocals_agrees type modifiers fs s here
  rw [value]
  exact ⟨_, after⟩

/-! ## Superclass clauses -/

theorem internClass_adds (t : BindingTable) (name : String) :
    t.AddsLocals (t.internClass name).2 := by
  rcases t.internClass_cases name with ⟨id, -, same⟩ | ⟨superclass, -, -, pushed⟩
  · rw [same]
    exact .of_eq rfl
  · rw [pushed]
    exact .of_eq rfl

/-- Recording a superclass adds no variables. -/
theorem setSuperclass_adds {t' : BindingTable} {id superclass : TypeId}
    (set : t.setSuperclass id superclass = .ok t') : t.AddsLocals t' := by
  obtain ⟨-, rfl⟩ := BindingTable.setSuperclass_eq_ok.mp set
  exact .of_eq rfl

/-- Looking up a superclass leaves the stacks as they are. -/
theorem resolveSuperclass_at (name : String) {s : Binding.State} (at' : s.At t types scopes) :
    (Binding.resolveSuperclass name s).2.At t types scopes := by
  rcases resolveSuperclass_finds name s with ⟨id, -, found⟩ | interned
  · rw [found]
    exact at'
  · rw [interned]
    exact ⟨at'.types, at'.scopes, at'.adds.trans (internClass_adds s.table name)⟩

/-- A superclass clause is resolved outside all scopes of its type. -/
theorem TypeHead.resolveSuperclass_stacks (id : TypeId) (h : TypeHead) :
    Stacks t types scopes (h.resolveSuperclass id) fun _ => scopes := by
  unfold TypeHead.resolveSuperclass
  split
  · exact .pure rfl
  · dsimp only
    split
    case' h_1 => refine .bind (F := fun _ => scopes) (.pure rfl) fun superclass => ?_
    case' h_2 =>
      refine .bind (F := fun _ => scopes) (.lift fun s at' => resolveSuperclass_at _ at')
        fun superclass => ?_
    -- However the superclass was found, it is then recorded.
    all_goals
      refine Step.Ends.bind (.get (Q := fun s s' => s' = s ∧ s.At t types scopes)
        fun s at' => ⟨rfl, at'⟩) fun s => ?_
      cases set : s.table.setSuperclass id superclass with
      | error e => exact .throw fun _ _ => trivial
      | ok table =>
        refine Step.Ends.bind (Q := fun _ => State.At t types scopes)
          (.modify fun s' ⟨same, at'⟩ => ?_) fun _ => .pure fun _ at' => at'
        subst same
        exact ⟨at'.types, at'.scopes, at'.adds.trans (setSuperclass_adds set)⟩

theorem TypeHead.handle_stacks (h : TypeHead) :
    Stacks t types scopes h.handle fun _ => scopes := by
  unfold TypeHead.handle
  split
  · exact .pure rfl
  · exact Step.Ends.throw fun _ _ => trivial

/-! ## Statements and declarations -/

mutual

/-- Resolving a statement leaves the stacks as they were, up to the locals that the statement adds
to the innermost scope. -/
theorem Stmt.resolve_stacks : ∀ (s : Stmt) (types : List TypeId) (scope : Scope)
    (scopes : List Scope),
      Stacks t types (scope :: scopes) s.resolve fun s' => (s'.declares ++ scope) :: scopes
  | .expression i e, types, scope, scopes => by
    rw [Stmt.resolve]
    exact .bind e.resolve_stacks fun _ => .pure rfl
  | .localVariable i m x fs, types, scope, scopes => by
    rw [Stmt.resolve]
    exact .bind (Fragment.resolveLocals_stacks x m fs) fun _ => .pure rfl
  -- The body starts an empty scope, which is dropped at its end with the locals in it.
  | .block i ⟨b, ss⟩, types, scope, scopes => by
    rw [Stmt.resolve]
    exact .bind (.inScope (.of_stacks (Stmt.resolveAll_stacks ss types [] (scope :: scopes))))
      fun _ => .pure rfl
  | .ifElse i e x none, types, scope, scopes => by
    rw [Stmt.resolve]
    refine .bind e.resolve_stacks fun _ => ?_
    exact .bind (.inScope (.of_stacks (Stmt.resolve_stacks x types [] (scope :: scopes)))) fun _ =>
      .pure rfl
  | .ifElse i e x (some y), types, scope, scopes => by
    rw [Stmt.resolve]
    refine .bind e.resolve_stacks fun _ => ?_
    refine .bind (.inScope (.of_stacks (Stmt.resolve_stacks x types [] (scope :: scopes))))
      fun _ => ?_
    exact .bind (.inScope (.of_stacks (Stmt.resolve_stacks y types [] (scope :: scopes)))) fun _ =>
      .pure rfl
  | .whileLoop i e b, types, scope, scopes => by
    rw [Stmt.resolve]
    refine .bind e.resolve_stacks fun _ => ?_
    exact .bind (.inScope (.of_stacks (Stmt.resolve_stacks b types [] (scope :: scopes)))) fun _ =>
      .pure rfl
  -- The variables of the header are in the scope of the loop, not in the one around it.
  | .forLoop i init e us b, types, scope, scopes => by
    rw [Stmt.resolve]
    refine .inScope (.bind (Stmt.resolveAll_stacks init types [] (scope :: scopes)) fun _ => ?_)
    refine .bind (Expr.resolveOption_stacks e) fun _ => .bind (Expr.resolveAll_stacks us)
      fun _ => ?_
    exact .bind (Stacks.inScope (.of_stacks (Stmt.resolve_stacks b types [] _))) fun _ =>
      .pure fun _ at' => ⟨rfl, _, at'⟩
  | .tryCatch i ⟨b, ss⟩ cs none, types, scope, scopes => by
    rw [Stmt.resolve]
    refine .bind (.inScope (.of_stacks (Stmt.resolveAll_stacks ss types [] (scope :: scopes))))
      fun _ => ?_
    exact .bind (CatchClause.resolveAll_stacks cs types (scope :: scopes)) fun _ => .pure rfl
  | .tryCatch i ⟨b, ss⟩ cs (some ⟨fb, fs⟩), types, scope, scopes => by
    rw [Stmt.resolve]
    refine .bind (.inScope (.of_stacks (Stmt.resolveAll_stacks ss types [] (scope :: scopes))))
      fun _ => ?_
    refine .bind (CatchClause.resolveAll_stacks cs types (scope :: scopes)) fun _ => ?_
    exact .bind (.inScope (.of_stacks (Stmt.resolveAll_stacks fs types [] (scope :: scopes))))
      fun _ => .pure rfl
  | .returnValue i e, types, scope, scopes => by
    rw [Stmt.resolve]
    exact .bind (Expr.resolveOption_stacks e) fun _ => .pure rfl
  | .throwValue i e, types, scope, scopes => by
    rw [Stmt.resolve]
    exact .bind e.resolve_stacks fun _ => .pure rfl
  | .superCall i as b, types, scope, scopes => by
    rw [Stmt.resolve]
    exact .bind (Expr.resolveAll_stacks as) fun _ => .pure rfl
  | .thisCall i as b, types, scope, scopes => by
    rw [Stmt.resolve]
    exact .bind (Expr.resolveAll_stacks as) fun _ => .pure rfl
  | .localType i d, types, scope, scopes => by
    rw [Stmt.resolve]
    exact .bind (TypeDecl.resolve_stacks d types (scope :: scopes)) fun _ => .pure rfl
  | .empty i, types, scope, scopes => by
    rw [Stmt.resolve]
    exact .pure rfl

/-- A list of statements leaves what its statements declare in the innermost scope. -/
theorem Stmt.resolveAll_stacks : ∀ (ss : List Stmt) (types : List TypeId) (scope : Scope)
    (scopes : List Scope),
      Stacks t types (scope :: scopes) (Stmt.resolveAll ss)
        fun ss' => (latestFirst Stmt.declares ss' ++ scope) :: scopes
  | [], types, scope, scopes => by
    rw [Stmt.resolveAll]
    exact .pure rfl
  | s :: ss, types, scope, scopes => by
    rw [Stmt.resolveAll]
    refine .bind (Stmt.resolve_stacks s types scope scopes) fun s' => ?_
    refine .bind (Stmt.resolveAll_stacks ss types (s'.declares ++ scope) scopes) fun ss' => .pure ?_
    rw [latestFirst_cons, List.append_assoc]

theorem CatchClause.resolveAll_stacks : ∀ (cs : List CatchClause) (types : List TypeId)
    (scopes : List Scope), Stacks t types scopes (CatchClause.resolveAll cs) fun _ => scopes
  | [], types, scopes => by
    rw [CatchClause.resolveAll]
    exact .pure rfl
  | ⟨sp, x, ⟨b, ss⟩⟩ :: cs, types, scopes => by
    rw [CatchClause.resolveAll]
    refine .bind (F := fun _ => scopes)
      (.inScope (.bind (declareParameter_stacks x) fun _ => ?_)) fun _ => ?_
    · exact .bind (Stacks.inScope (.of_stacks (Stmt.resolveAll_stacks ss types [] _))) fun _ =>
        .pure fun _ at' => ⟨rfl, _, at'⟩
    · exact .bind (CatchClause.resolveAll_stacks cs types scopes) fun _ => .pure rfl

/-- A member leaves the stacks as it found them. -/
theorem Member.resolve_stacks : ∀ (m : Member) (types : List TypeId) (scopes : List Scope),
    Stacks t types scopes m.resolve fun _ => scopes
  | .type d, types, scopes => by
    rw [Member.resolve]
    exact .bind (TypeDecl.resolve_stacks d types scopes) fun _ => .pure rfl
  | .field f, types, scopes => by
    rw [Member.resolve]
    exact .bind f.resolve_stacks fun _ => .pure rfl
  | .initializer ⟨i, s, ⟨b, ss⟩⟩, types, scopes => by
    rw [Member.resolve]
    exact .bind (.inScope (.of_stacks (Stmt.resolveAll_stacks ss types [] scopes))) fun _ =>
      .pure rfl
  | .method ⟨h, none⟩, types, scopes => by
    rw [Member.resolve]
    exact .inScope (.bind (declareParameters_stacks h.parameters) fun _ =>
      .pure fun _ at' => ⟨rfl, _, at'⟩)
  | .method ⟨h, some ⟨b, ss⟩⟩, types, scopes => by
    rw [Member.resolve]
    refine .inScope (.bind (declareParameters_stacks h.parameters) fun _ => ?_)
    exact .bind (Stmt.resolveAll_stacks ss types _ scopes) fun _ => .pure fun _ at' => ⟨rfl, _, at'⟩

theorem Member.resolveAll_stacks : ∀ (ms : List Member) (types : List TypeId)
    (scopes : List Scope), Stacks t types scopes (Member.resolveAll ms) fun _ => scopes
  | [], types, scopes => by
    rw [Member.resolveAll]
    exact .pure rfl
  | m :: ms, types, scopes => by
    rw [Member.resolveAll]
    refine .bind (Member.resolve_stacks m types scopes) fun _ => ?_
    exact .bind (Member.resolveAll_stacks ms types scopes) fun _ => .pure rfl

/-- Resolving a type leaves the stacks as they were. -/
theorem TypeDecl.resolve_stacks : ∀ (d : TypeDecl) (types : List TypeId) (scopes : List Scope),
    Stacks t types scopes d.resolve fun _ => scopes
  | ⟨h, ms⟩, types, scopes => by
    rw [TypeDecl.resolve]
    refine .bind h.handle_stacks fun id => ?_
    refine .bind (h.resolveSuperclass_stacks id) fun h' => .inType id ?_
    refine .bind (EnumConstant.resolveAll_stacks h'.enumConstants) fun _ => ?_
    exact .bind (Member.resolveAll_stacks ms (id :: types) scopes) fun _ => .pure rfl

end

/-! ## Where members are resolved -/

namespace BindingTable

/-- What resolving makes of a table: it adds locals to the variables and changes no type but for its
superclass. -/
structure ResolvesTo (t t' : BindingTable) : Prop where
  adds : t.AddsLocals t'
  grown : t.Extends t'

theorem ResolvesTo.refl (t : BindingTable) : t.ResolvesTo t := ⟨.refl t, .refl t⟩

theorem ResolvesTo.trans {a b c : BindingTable} (first : a.ResolvesTo b) (second : b.ResolvesTo c) :
    a.ResolvesTo c := ⟨first.adds.trans second.adds, first.grown.trans second.grown⟩

end BindingTable

/-- Resolving a member only adds to the table. -/
theorem Member.resolve_table {m m' : Member} {s s' : Binding.State}
    (run : m.resolve.run s = (.ok m', s')) : s.table.ResolvesTo s'.table :=
  ⟨((Member.resolve_stacks m _ _).of_ok (.self s) run).adds,
    ((Member.resolve_yields (admitsLocals_of_extends s.table) m
      (fun x _ => x.head.resolvable_of_extends s.table)
      fun x _ => x.head.resolvable_of_extends s.table).of_ok (.refl _) run).2⟩

theorem Member.resolveAll_table {ms ms' : List Member} {s s' : Binding.State}
    (run : (Member.resolveAll ms).run s = (.ok ms', s')) : s.table.ResolvesTo s'.table :=
  ⟨((Member.resolveAll_stacks ms _ _).of_ok (.self s) run).adds,
    ((Member.resolveAll_yields (admitsLocals_of_extends s.table) ms
      (fun x _ => x.head.resolvable_of_extends s.table)
      fun x _ => x.head.resolvable_of_extends s.table).of_ok (.refl _) run).2⟩

/-- Resolving a type only adds to the table. -/
theorem TypeDecl.resolve_table {d d' : TypeDecl} {s s' : Binding.State}
    (run : d.resolve.run s = (.ok d', s')) : s.table.ResolvesTo s'.table :=
  ⟨((TypeDecl.resolve_stacks d _ _).of_ok (.self s) run).adds,
    ((TypeDecl.resolve_yields (admitsLocals_of_extends s.table) d
      fun x _ => x.head.resolvable_of_extends s.table).of_ok (.refl _) run).2⟩

/-- The second member is what the first is resolved to inside the types, with the scopes open,
before the table has become the last one. -/
def Member.ResolvedAt (types : List TypeId) (scopes : List Scope) (last : BindingTable)
    (m m' : Member) : Prop :=
  ∃ s s', s.typeScopes = types ∧ s.localScopes = scopes ∧ m.resolve.run s = (.ok m', s') ∧
    s'.table.ResolvesTo last

/-- Each of several members is resolved with the same stacks, in a table between the first and the
last. -/
theorem Member.resolveAll_steps {last : BindingTable} {ms ms' : List Member} {s s' : Binding.State}
    (here : s.typeScopes = types ∧ s.localScopes = scopes)
    (run : (Member.resolveAll ms).run s = (.ok ms', s')) (before : s'.table.ResolvesTo last) :
    List.Forall₂ (Member.ResolvedAt types scopes last) ms ms' := by
  obtain ⟨rfl, rfl⟩ := here
  induction ms generalizing ms' s with
  | nil =>
    rw [Member.resolveAll] at run
    obtain ⟨rfl, -⟩ := Step.pure_eq_ok.mp run
    exact .nil
  | cons m ms ih =>
    rw [Member.resolveAll] at run
    obtain ⟨m', s₁, hm, run⟩ := Step.bind_eq_ok.mp run
    obtain ⟨rest, s₂, hms, hpure⟩ := Step.bind_eq_ok.mp run
    obtain ⟨rfl, rfl⟩ := Step.pure_eq_ok.mp hpure
    have between := (Member.resolve_stacks m _ _).of_ok (.self s) hm
    have sameTypes : s₁.typeScopes = s.typeScopes := between.types
    have sameScopes : s₁.localScopes = s.localScopes := between.scopes
    refine .cons ⟨s, s₁, rfl, rfl, hm, (Member.resolveAll_table hms).trans before⟩ ?_
    rw [← sameTypes, ← sameScopes]
    exact ih hms

/-- The handle of a head that is resolved is the one that it has. -/
theorem TypeHead.handle_eq_ok {h : TypeHead} {id : TypeId} {s s' : Binding.State}
    (run : h.handle.run s = (.ok id, s')) : h.binding = some id ∧ s' = s := by
  unfold TypeHead.handle at run
  split at run
  · obtain ⟨rfl, rfl⟩ := Step.pure_eq_ok.mp run
    exact ⟨‹_›, rfl⟩
  · exact absurd run Step.throw_ne_ok

/-- A type is resolved in four steps: its handle is looked up and its superclass clause resolved,
and then, inside the type, its enum constants and its members. -/
theorem TypeDecl.resolve_eq_ok {h : TypeHead} {ms : List Member} {d' : TypeDecl}
    {s s' : Binding.State} (run : (TypeDecl.resolve ⟨h, ms⟩).run s = (.ok d', s')) :
    ∃ id h' s₁ cs s₂ ms' s₃, h.binding = some id ∧ (h.resolveSuperclass id).run s = (.ok h', s₁) ∧
      (liftM (EnumConstant.resolveAll h'.enumConstants) : Resolving (List EnumConstant)).run
        { s₁ with typeScopes := id :: s₁.typeScopes } = (.ok cs, s₂) ∧
      (Member.resolveAll ms).run s₂ = (.ok ms', s₃) ∧ d' = ⟨{ h' with enumConstants := cs }, ms'⟩ ∧
      s' = { s₃ with typeScopes := s₃.typeScopes.tail } := by
  rw [TypeDecl.resolve] at run
  obtain ⟨id, s₁, hhandle, run₁⟩ := Step.bind_eq_ok.mp run
  obtain ⟨bound, rfl⟩ := TypeHead.handle_eq_ok hhandle
  obtain ⟨h', s₂, hsuper, run₂⟩ := Step.bind_eq_ok.mp run₁
  obtain ⟨_, s₃, henter, run₃⟩ := Step.bind_eq_ok.mp run₂
  obtain rfl := Step.modify_eq_ok.mp henter
  obtain ⟨d₁, s₄, hinside, hleave⟩ := Step.bind_eq_ok.mp run₃
  obtain ⟨_, s₅, hpop, hpure⟩ := Step.bind_eq_ok.mp hleave
  obtain rfl := Step.modify_eq_ok.mp hpop
  obtain ⟨rfl, rfl⟩ := Step.pure_eq_ok.mp hpure
  obtain ⟨cs, s₆, hcs, hmembers⟩ := Step.bind_eq_ok.mp hinside
  obtain ⟨ms', s₇, hms, hdone⟩ := Step.bind_eq_ok.mp hmembers
  obtain ⟨rfl, rfl⟩ := Step.pure_eq_ok.mp hdone
  exact ⟨id, h', s₂, cs, s₆, ms', s₇, bound, hsuper, hcs, hms, rfl, rfl⟩

/-- Every member of a type that is resolved is resolved inside the type and with the scopes that are
open around the type. -/
theorem TypeDecl.resolve_members {last : BindingTable} {d d' : TypeDecl} {s s' : Binding.State}
    (run : d.resolve.run s = (.ok d', s')) (before : s'.table.ResolvesTo last) :
    ∃ id, d'.head.binding = some id ∧
      List.Forall₂ (Member.ResolvedAt (id :: s.typeScopes) s.localScopes last) d.members
        d'.members := by
  obtain ⟨h, ms⟩ := d
  obtain ⟨id, h', s₁, cs, s₂, ms', s₃, bound, hsuper, hcs, hms, rfl, rfl⟩ :=
    TypeDecl.resolve_eq_ok run
  have same := (((h.resolvable_of_extends s.table).superclass id bound).of_ok (.refl _) hsuper).1
  have at₁ := (h.resolveSuperclass_stacks id).of_ok (.self s) hsuper
  have at₂ := (EnumConstant.resolveAll_stacks h'.enumConstants).of_ok (.self _) hcs
  refine ⟨id, same.1.trans bound, Member.resolveAll_steps ⟨?_, ?_⟩ hms before⟩
  · exact at₂.types.trans (congrArg (id :: ·) at₁.types)
  · exact at₂.scopes.trans at₁.scopes

end

end ClassInit
