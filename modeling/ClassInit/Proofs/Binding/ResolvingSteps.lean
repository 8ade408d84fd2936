import ClassInit.Proofs.Binding.Handles
import ClassInit.Proofs.Binding.NamedTypes
import ClassInit.Proofs.Binding.Names
import ClassInit.Proofs.Step
import ClassInit.Proofs.Tree.Nesting

/-!
# Steps of resolving

A step of resolving keeps what holds of the table if adding locals does and recording superclasses
does (`Yields`). So do the steps for expressions, locals, fields and the heads of types.
-/

set_option autoImplicit false

namespace ClassInit

open Binding

/-! ## Resolved declarations -/

/-- The second declarator is the first with its initializer resolved: it denotes every constant that
the first one denotes. -/
structure FieldSlot.ResolvesTo (s s' : FieldSlot) : Prop where
  type : s'.type = s.type
  binding : s'.fragment.binding = s.fragment.binding
  initializer : ∀ e, s.fragment.initializer = some e →
    ∃ e', s'.fragment.initializer = some e' ∧ ∀ env, Expr.FoldsLike env env e e'

/-- The second declaration is the first with its names resolved. -/
structure TypeDecl.ResolvesTo (d d' : TypeDecl) : Prop where
  binding : d'.head.binding = d.head.binding
  kind : d'.head.kind = d.head.kind
  slots : List.Forall₂ FieldSlot.ResolvesTo d.slots d'.slots
  fits : ∀ n, d.Fits n → d'.Fits n

/-- The second list of declarations is the first with all names resolved. -/
def ResolvedDecls (ds ds' : List TypeDecl) : Prop := List.Forall₂ TypeDecl.ResolvesTo ds ds'

/-- Declarations are resolved list by list. -/
theorem ResolvedDecls.append {ds ds' es es' : List TypeDecl} (first : ResolvedDecls ds ds')
    (second : ResolvedDecls es es') : ResolvedDecls (ds ++ es) (ds' ++ es') :=
  List.rel_append first second

/-! ## Steps of resolving -/

/-- From a table as `T` says the step either succeeds, leaves a table as `T` says and yields what is
described, or fails, which `E` admits. -/
def Yields {α : Type} (T : BindingTable → Prop) (E : Prop) (m : Resolving α) (Q : α → Prop) :
    Prop :=
  Step.Keeps (fun s => T s.table) m Q fun _ => E

/-- Locals may be added to the table. -/
def AdmitsLocals (T : BindingTable → Prop) : Prop :=
  ∀ t name type modifiers, T t → T (t.addVariable (.ofLocal name type modifiers)).2

/-- The head of a type resolves, or fails where `E` admits it. -/
structure TypeHead.Resolvable (T : BindingTable → Prop) (E : Prop) (h : TypeHead) : Prop where
  bound : h.binding = none → E
  superclass : ∀ id, h.binding = some id → Yields T E (h.resolveSuperclass id) fun h' =>
    h'.binding = h.binding ∧ h'.kind = h.kind

section

variable {T : BindingTable → Prop} {E : Prop}

namespace Yields

variable {α β : Type} {P : α → Prop} {Q : β → Prop}

/-- A step that only returns a value keeps what holds of the table. -/
theorem pure {a : α} (h : P a) : Yields T E (Pure.pure a) P := Step.Keeps.pure h

/-- Two steps one after the other keep what both keep. -/
theorem bind {m : Resolving α} {k : α → Resolving β} (h : Yields T E m P)
    (hk : ∀ a, P a → Yields T E (k a) Q) : Yields T E (m >>= k) Q := Step.Keeps.bind h hk

/-- A step that cannot fail keeps what it keeps of every table. -/
theorem lift {m : StateM State α} (h : ∀ s, T s.table → P (m s).1 ∧ T (m s).2.table) :
    Yields T E (liftM m) P := Step.Keeps.lift h

/-- Steps that leave the table alone. -/
theorem modify {f : State → State} (same : ∀ s, (f s).table = s.table) :
    Yields T E (modify f : Resolving PUnit) fun _ => True := by
  refine .lift fun s holds => ⟨trivial, ?_⟩
  show T (f s).table
  rw [same]
  exact holds

theorem inScope {m : Resolving α} (h : Yields T E m P) : Yields T E (inScope m) P := by
  refine .bind (P := fun _ => True) (.lift fun _ holds => ⟨trivial, holds⟩) fun _ _ => ?_
  refine .bind h fun a ha => ?_
  exact .bind (P := fun _ => True) (.lift fun _ holds => ⟨trivial, holds⟩) fun _ _ => .pure ha

theorem inType {m : Resolving α} (id : TypeId) (h : Yields T E m P) :
    Yields T E (inType id m) P := by
  refine .bind (.modify fun _ => rfl) fun _ _ => ?_
  refine .bind h fun a ha => ?_
  exact .bind (.modify fun _ => rfl) fun _ _ => .pure ha

end Yields

/-! ## Lists -/

/-- A map over a list keeps what its steps keep, and does to the items what they do. -/
theorem mapM_keeps {α : Type} {f : α → StateM State α} {R : α → α → Prop}
    (single : ∀ a s, T s.table → R a (f a s).1 ∧ T (f a s).2.table) (as : List α) (s : State)
    (holds : T s.table) : List.Forall₂ R as (as.mapM f s).1 ∧ T (as.mapM f s).2.table := by
  induction as generalizing s with
  | nil => exact ⟨.nil, holds⟩
  | cons a as ih =>
    rw [mapM_cons_state]
    obtain ⟨one, holds₁⟩ := single a s holds
    obtain ⟨rest, holds'⟩ := ih (f a s).2 holds₁
    exact ⟨.cons one rest, holds'⟩

/-- What becomes of the items may be left open. -/
theorem Yields.mapM {α : Type} {f : α → StateM State α}
    (single : ∀ a s, T s.table → T (f a s).2.table) (as : List α) :
    Yields T E (as.mapM f : StateM State (List α)) fun _ => True :=
  .lift fun s holds => ⟨trivial,
    (mapM_keeps (R := fun _ _ => True) (fun a s holds => ⟨trivial, single a s holds⟩) as s holds).2⟩

/-! ## Expressions, locals and fields -/

/-- A step that leaves the table alone keeps whatever holds of it. -/
theorem Yields.of_table {α : Type} {m : StateM State α} (same : ∀ s, (m s).2.table = s.table) :
    Yields T E (liftM m) fun _ => True := by
  refine .lift fun s holds => ⟨trivial, ?_⟩
  rw [same]
  exact holds

theorem Expr.resolve_yields (e : Expr) : Yields T E e.resolve fun _ => True :=
  .of_table e.resolve_table

theorem Expr.resolveAll_yields (es : List Expr) : Yields T E (Expr.resolveAll es) fun _ => True :=
  .of_table (Expr.resolveAll_table es)

theorem Expr.resolveOption_yields (e : Option Expr) :
    Yields T E (Expr.resolveOption e) fun _ => True := .of_table (Expr.resolveOption_table e)

theorem EnumConstant.resolveAll_yields (cs : List EnumConstant) :
    Yields T E (EnumConstant.resolveAll cs) fun _ => True := by
  refine .mapM (fun c s holds => ?_) cs
  show T (Expr.resolveAll c.arguments s).2.table
  rw [Expr.resolveAll_table]
  exact holds

/-- A field is resolved to one of the same name and type, and its handle stays. -/
theorem Fragment.resolve_spec (type : TypeRef) (f : Fragment) (s : State) (holds : T s.table) :
    FieldSlot.ResolvesTo ⟨type, f⟩ ⟨type, (f.resolve s).1⟩ ∧ T (f.resolve s).2.table := by
  obtain ⟨span, name, _ | e, binding⟩ := f
  · exact ⟨⟨rfl, rfl, fun _ none => nomatch none⟩, holds⟩
  · refine ⟨⟨rfl, rfl, ?_⟩, ?_⟩
    · intro e' same
      cases same
      exact ⟨_, rfl, fun env => e.resolve_foldsLike env s⟩
    · show T (e.resolve s).2.table
      rw [Expr.resolve_table]
      exact holds

/-- The fields of a declaration are resolved one by one. -/
theorem FieldDecl.resolve_yields (f : FieldDecl) :
    Yields T E f.resolve fun f' =>
      List.Forall₂ FieldSlot.ResolvesTo (Member.field f).slots (Member.field f').slots := by
  refine .lift fun s holds => ?_
  obtain ⟨related, holds'⟩ := mapM_keeps
    (R := fun g g' => FieldSlot.ResolvesTo ⟨f.type, g⟩ ⟨f.type, g'⟩)
    (Fragment.resolve_spec f.type) f.fragments s holds
  exact ⟨List.forall₂_map_left_iff.mpr (List.forall₂_map_right_iff.mpr related), holds'⟩

/-- A head that can be resolved has a handle. -/
theorem TypeHead.Resolvable.handle_yields {h : TypeHead} (resolvable : h.Resolvable T E) :
    Yields T E h.handle fun id => h.binding = some id := by
  unfold TypeHead.handle
  split
  · rename_i id bound
    exact .pure bound
  · rename_i unbound
    exact Step.Keeps.throw (resolvable.bound unbound)

/-- The superclass that a clause means, in the state in which it is looked up. -/
def superclassOf (clause : TypeName) : StateM State TypeId :=
  match clause.binding with
  | some p => pure p
  | none => Binding.resolveSuperclass clause.name

/-- Recording a superclass is the one change that resolving makes to an old entry. -/
def Records (T : BindingTable → Prop) (E : Prop) (id superclass : TypeId) (t : BindingTable) :
    Prop :=
  match t.setSuperclass id superclass with
  | .ok t' => T t'
  | .error _ => E

/-- Recording a superclass changes the table alone, or fails where the table does not have the
type. -/
theorem TypeHead.recordSuperclass_ends {id superclass : TypeId} {h h' : TypeHead}
    (same : h'.binding = h.binding ∧ h'.kind = h.kind) :
    Step.Ends (fun s => Records T E id superclass s.table)
      (do
        match (← get).table.setSuperclass id superclass with
        | .error e => throw e
        | .ok table =>
          modify fun s : State => { s with table }
          return h' : Resolving TypeHead)
      (fun h' s' => (h'.binding = h.binding ∧ h'.kind = h.kind) ∧ T s'.table) fun _ => E := by
  refine .bind (.get (Q := fun s s' => s' = s ∧ Records T E id superclass s.table)
    fun s holds => ⟨rfl, holds⟩) fun s => ?_
  cases set : s.table.setSuperclass id superclass with
  | error e =>
    refine .throw fun _ ⟨_, recorded⟩ => ?_
    rw [Records, set] at recorded
    exact recorded
  | ok table =>
    refine .bind (.modify (Q := fun _ s' => T s'.table) fun _ ⟨_, recorded⟩ => ?_) fun _ =>
      .pure fun _ holds => ⟨same, holds⟩
    rw [Records, set] at recorded
    exact recorded

/-- Resolving the superclass clause of a type keeps what recording the superclass keeps. -/
theorem TypeHead.resolveSuperclass_yields {id : TypeId} {h : TypeHead}
    (record : ∀ clause, h.superclass = some clause → ∀ s : State, T s.table →
      Records T E id (superclassOf clause s).1 (superclassOf clause s).2.table) :
    Yields T E (h.resolveSuperclass id) fun h' => h'.binding = h.binding ∧ h'.kind = h.kind := by
  unfold TypeHead.resolveSuperclass
  split
  · exact .pure ⟨rfl, rfl⟩
  · rename_i clause written
    have recorded := record clause written
    unfold superclassOf at recorded
    dsimp only
    split
    · rename_i p bound
      rw [bound] at recorded
      have known : ∀ s : State, T s.table → Records T E id p s.table := recorded
      exact Step.Ends.bind (Step.Ends.pure (Q := fun p s => Records T E id p s.table) known)
        fun _ => TypeHead.recordSuperclass_ends ⟨rfl, rfl⟩
    · rename_i unbound
      rw [unbound] at recorded
      exact Step.Ends.bind (Step.Ends.lift (Q := fun p s => Records T E id p s.table) recorded)
        fun _ => TypeHead.recordSuperclass_ends ⟨rfl, rfl⟩

theorem pushLocal_table (name : String) (id : VariableId) (s : State) :
    (pushLocal name id s).2.table = s.table := by
  obtain ⟨table, stats, typeScopes, localScopes⟩ := s
  cases localScopes <;> rfl

section

variable (admits : AdmitsLocals T)

include admits

/-- Declaring a local keeps whatever new locals keep. -/
theorem declareLocal_keeps (name : String) (type : TypeRef) (modifiers : Modifiers)
    (binding : Option VariableId) (s : State) (holds : T s.table) :
    T (declareLocal name type modifiers binding s).2.table := by
  cases binding with
  | some id =>
    show T (pushLocal name id s).2.table
    rw [pushLocal_table]
    exact holds
  | none =>
    show T (pushLocal name ⟨s.table.vars.size⟩
      { s with
        table := (s.table.addVariable (.ofLocal name type modifiers)).2
        stats := { s.stats with locals := s.stats.locals + 1 } }).2.table
    rw [pushLocal_table]
    exact admits _ _ _ _ holds

theorem declareParameter_yields (p : Parameter) :
    Yields T E (declareParameter p) fun _ => True :=
  .lift fun s holds =>
    ⟨trivial, declareLocal_keeps admits p.name p.type .empty p.binding s holds⟩

/-- Parameters are declared as locals. -/
theorem declareParameters_yields (ps : List Parameter) :
    Yields T E (declareParameters ps) fun _ => True :=
  .mapM (fun p s holds => declareLocal_keeps admits p.name p.type .empty p.binding s holds) ps

theorem Fragment.resolveLocals_yields (type : TypeRef) (modifiers : Modifiers)
    (fs : List Fragment) : Yields T E (Fragment.resolveLocals type modifiers fs) fun _ => True := by
  refine .mapM (fun f s holds => ?_) fs
  refine declareLocal_keeps admits f.name type modifiers f.binding
    (Expr.resolveOption f.initializer s).2 ?_
  rw [Expr.resolveOption_table]
  exact holds

end

end

end ClassInit
