import ClassInit.Proofs.Binding.Mentions

/-!
# What `new` creates

A `new` looks its type up by the simple name alone, whatever is written before the last dot; a
superclass clause looks for the qualified name first. In a bound unit every mention is bound as it
would be one after the other, starting from the declared types (`CompilationUnit.bind_mentions`). So
a `new` with a qualified name creates the type of that name exactly if no later type has the same
simple name, and with any other name it creates the last type that ends in the same simple name, in
whatever package or type that is (`CompilationUnit.bind_creation`).
-/

set_option autoImplicit false

namespace ClassInit

open Binding

namespace Binding

/-! ## Steps of resolving -/

/-- From the first table to the second the mentions become the others. -/
structure Follows (t t' : BindingTable) (ms ms' : List Mention) : Prop where
  mentions : ms' = (Mention.bindAll t ms).1
  names : t'.typeNames = (Mention.bindAll t ms).2.typeNames

namespace Follows

variable {t t₁ t' : BindingTable} {ms ms' ns ns' : List Mention}

theorem nil (same : t'.typeNames = t.typeNames) : Follows t t' [] [] := ⟨rfl, same⟩

/-- Mentions are followed piece by piece. -/
theorem append (first : Follows t t₁ ms ms') (second : Follows t₁ t' ns ns') :
    Follows t t' (ms ++ ns) (ms' ++ ns') := by
  obtain ⟨mentions, names⟩ := Mention.bindAll_of_typeNames first.names ns
  constructor
  · rw [Mention.bindAll_append, first.mentions, second.mentions, mentions]
  · rw [Mention.bindAll_append, second.names, names]

/-- A table with the same type names at the end. -/
theorem later (follows : Follows t t₁ ms ms') (same : t'.typeNames = t₁.typeNames) :
    Follows t t' ms ms' :=
  ⟨follows.mentions, same.trans follows.names⟩

end Follows

/-- Wherever the step succeeds, it binds the mentions to those of its value. -/
def BindsTypes {α : Type} (m : Resolving α) (ms : List Mention) (out : α → List Mention) : Prop :=
  ∀ s a s', m.run s = (.ok a, s') → Follows s.table s'.table ms (out a)

/-- Whatever came before it, after the step all the mentions are bound to those of its value. -/
def BindsTypesOn {α : Type} (before before' : List Mention) (m : Resolving α) (ms : List Mention)
    (out : α → List Mention) : Prop :=
  ∀ t s a s', Follows t s.table before before' → m.run s = (.ok a, s') →
    Follows t s'.table ms (out a)

section

variable {α β : Type} {ms ns before before' : List Mention} {out : α → List Mention} {out' : β →
  List Mention}

theorem BindsTypesOn.pure {a : α} (same : out a = before') :
    BindsTypesOn before before' (Pure.pure a) before out := by
  intro t s b s' follows run
  obtain ⟨rfl, rfl⟩ := Step.pure_eq_ok.mp run
  rw [same]
  exact follows

/-- After a first step the second binds its own mentions. -/
theorem BindsTypesOn.bind {m : Resolving α} {k : α → Resolving β} (h : BindsTypes m ns out)
    (hk : ∀ a, BindsTypesOn (before ++ ns) (before' ++ out a) (k a) ms out') :
    BindsTypesOn before before' (m >>= k) ms out' := by
  intro t s b s' follows run
  obtain ⟨a, s₁, hm, hrest⟩ := Step.bind_eq_ok.mp run
  exact hk a t s₁ b s' (follows.append (h s a s₁ hm)) hrest

theorem BindsTypes.bind {m : Resolving α} {k : α → Resolving β} (h : BindsTypes m ns out)
    (hk : ∀ a, BindsTypesOn ns (out a) (k a) ms out') : BindsTypes (m >>= k) ms out' := by
  intro s b s' run
  have bound : BindsTypesOn [] [] (m >>= k) ms out' := .bind h hk
  exact bound s.table s b s' (.nil rfl) run

theorem BindsTypes.pure {a : α} (same : out a = []) : BindsTypes (Pure.pure a) [] out := by
  intro s b s' run
  obtain ⟨rfl, rfl⟩ := Step.pure_eq_ok.mp run
  rw [same]
  exact .nil rfl

/-- Opening and closing a scope does not change the table. -/
theorem BindsTypes.inScope {m : Resolving α} (h : BindsTypes m ms out) :
    BindsTypes (inScope m) ms out := by
  intro s a s' run
  obtain ⟨s₁, hm, rfl⟩ := inScope_eq_ok run
  exact h { s with localScopes := [] :: s.localScopes } a s₁ hm

/-- A step that cannot fail. -/
theorem BindsTypes.lift {m : StateM State α}
    (h : ∀ s, Follows s.table (m s).2.table ms (out (m s).1)) :
    BindsTypes (liftM m : Resolving α) ms out := by
  intro s a s' run
  have follows := h s
  rw [Step.lift_eq_ok.mp run] at follows
  exact follows

end

end Binding

/-! ## Expressions -/

/-- A creation is bound as the table says. -/
theorem resolveNew_follows (c : TypeName) (s : Binding.State) :
    Follows s.table (resolveNew c s).2.table [.creation c] [.creation (resolveNew c s).1] := by
  obtain ⟨name, _ | id⟩ := c <;> exact ⟨rfl, rfl⟩

mutual

/-- The mentions in an expression are bound in the order in which they stand. -/
theorem Expr.resolve_follows : ∀ (e : Expr) (s : Binding.State),
    Follows s.table (e.resolve s).2.table e.mentions (e.resolve s).1.mentions
  | .literal .., s => by
    rw [Expr.resolve]
    exact .nil rfl
  | .this _, s => by
    rw [Expr.resolve]
    exact .nil rfl
  | .name _ n (some v), s => by
    rw [Expr.resolve]
    exact .nil rfl
  | .name _ n none, s => by
    rw [Expr.resolve]
    exact .nil (congrArg BindingTable.typeNames (resolveUnbound_table n s))
  | .fieldAccess _ t n (some v), s => by
    rw [Expr.resolve]
    exact Expr.resolve_follows t s
  | .fieldAccess _ t n none, s => by
    rw [Expr.resolve]
    exact Expr.resolve_follows t s
  | .unary _ _ e, s => by
    rw [Expr.resolve]
    exact Expr.resolve_follows e s
  | .step _ _ e, s => by
    rw [Expr.resolve]
    exact Expr.resolve_follows e s
  | .binary _ _ l r, s => by
    rw [Expr.resolve]
    exact (Expr.resolve_follows l s).append (Expr.resolve_follows r _)
  | .conditional _ c t e, s => by
    rw [Expr.resolve]
    exact ((Expr.resolve_follows c s).append (Expr.resolve_follows t _)).append
      (Expr.resolve_follows e _)
  | .parenthesized _ e, s => by
    rw [Expr.resolve]
    exact Expr.resolve_follows e s
  | .cast _ _ e, s => by
    rw [Expr.resolve]
    exact Expr.resolve_follows e s
  | .assignment _ _ l r, s => by
    rw [Expr.resolve]
    exact (Expr.resolve_follows l s).append (Expr.resolve_follows r _)
  | .call _ none _ as _, s => by
    rw [Expr.resolve]
    exact Expr.resolveAll_follows as s
  | .call _ (some r) _ as _, s => by
    rw [Expr.resolve]
    exact (Expr.resolve_follows r s).append (Expr.resolveAll_follows as _)
  | .new _ t as _, s => by
    rw [Expr.resolve]
    exact (resolveNew_follows t s).append (Expr.resolveAll_follows as _)

theorem Expr.resolveAll_follows :
    ∀ (es : List Expr) (s : Binding.State), Follows s.table (Expr.resolveAll es s).2.table
      (Expr.mentionsOf es) (Expr.mentionsOf (Expr.resolveAll es s).1)
  | [], s => by
    rw [Expr.resolveAll]
    exact .nil rfl
  | e :: es, s => by
    rw [Expr.resolveAll]
    exact (Expr.resolve_follows e s).append (Expr.resolveAll_follows es _)

end

theorem Expr.resolveOption_follows (e : Option Expr) (s : Binding.State) :
    Follows s.table (Expr.resolveOption e s).2.table (Expr.mentionsIn e)
      (Expr.mentionsIn (Expr.resolveOption e s).1) := by
  cases e with
  | none => exact .nil rfl
  | some e => exact e.resolve_follows s

theorem Expr.resolve_binds (e : Expr) :
    BindsTypes (liftM e.resolve : Resolving Expr) e.mentions Expr.mentions :=
  .lift e.resolve_follows

theorem Expr.resolveAll_binds (es : List Expr) :
    BindsTypes (liftM (Expr.resolveAll es) : Resolving (List Expr)) (Expr.mentionsOf es)
      Expr.mentionsOf :=
  .lift (Expr.resolveAll_follows es)

theorem Expr.resolveOption_binds (e : Option Expr) :
    BindsTypes (liftM (Expr.resolveOption e) : Resolving (Option Expr)) (Expr.mentionsIn e)
      Expr.mentionsIn :=
  .lift (Expr.resolveOption_follows e)

/-! ## Declarations without types -/

/-- Items one after the other, each with its mentions. -/
theorem mapM_follows {α : Type} {f : α → StateM Binding.State α} (mentions : α → List Mention)
    (each : ∀ a s, Follows s.table (f a s).2.table (mentions a) (mentions (f a s).1)) (as : List α)
    (s : Binding.State) :
    Follows s.table (as.mapM f s).2.table (as.flatMap mentions)
      ((as.mapM f s).1.flatMap mentions) := by
  induction as generalizing s with
  | nil => exact .nil rfl
  | cons a as ih =>
    rw [mapM_cons_state]
    exact (each a s).append (ih _)

theorem EnumConstant.resolveAll_binds (cs : List EnumConstant) :
    BindsTypes (liftM (EnumConstant.resolveAll cs) : Resolving (List EnumConstant))
      (cs.flatMap fun c => Expr.mentionsOf c.arguments) fun cs' => cs'.flatMap fun c =>
        Expr.mentionsOf c.arguments :=
  .lift
    (mapM_follows (f := EnumConstant.resolve)
      _ (fun c s => Expr.resolveAll_follows c.arguments s) cs)

theorem FieldDecl.resolve_binds (f : FieldDecl) :
    BindsTypes (liftM f.resolve : Resolving FieldDecl) (Member.field f).mentions fun f' =>
      (Member.field f').mentions :=
  .lift (mapM_follows (f := Fragment.resolve) Fragment.mentions
    (fun g s => Expr.resolveOption_follows g.initializer s) f.fragments)

/-- Declaring a local adds no types. -/
theorem declareLocal_typeNames (name : String) (type : TypeRef) (modifiers : Modifiers)
    (binding : Option VariableId) (s : Binding.State) :
    (declareLocal name type modifiers binding s).2.table.typeNames = s.table.typeNames := by
  cases binding with
  | some id => exact congrArg BindingTable.typeNames (pushLocal_table name id s)
  | none =>
    refine (congrArg BindingTable.typeNames (pushLocal_table name _ _)).trans ?_
    rfl

theorem declareParameter_binds (p : Parameter) :
    BindsTypes (liftM (declareParameter p) : Resolving Parameter) [] fun _ => [] :=
  .lift fun s => .nil (declareLocal_typeNames p.name p.type .empty p.binding s)

theorem declareParameters_binds (ps : List Parameter) :
    BindsTypes (liftM (declareParameters ps) : Resolving (List Parameter)) [] fun _ => [] := by
  refine .lift fun s => ?_
  have follows := mapM_follows (f := declareParameter) (fun _ => [])
    (fun p s => .nil (declareLocal_typeNames p.name p.type .empty p.binding s)) ps s
  have none : ∀ qs : List Parameter, qs.flatMap (fun _ => ([] : List Mention)) = [] :=
    fun qs => List.flatMap_eq_nil_iff.mpr fun _ _ => rfl
  rw [none, none] at follows
  exact follows

theorem Fragment.resolveLocals_binds (type : TypeRef) (modifiers : Modifiers) (fs : List Fragment) :
    BindsTypes (liftM (Fragment.resolveLocals type modifiers fs) : Resolving (List Fragment))
      (fs.flatMap Fragment.mentions) fun fs' => fs'.flatMap Fragment.mentions := by
  refine .lift
    (mapM_follows (f := Fragment.resolveLocal type modifiers) Fragment.mentions (fun f s => ?_) fs)
  exact (Expr.resolveOption_follows f.initializer s).later
    (declareLocal_typeNames f.name type modifiers f.binding _)

/-- A clause is bound, and recording its superclass changes no name. -/
theorem TypeHead.resolveSuperclass_binds (h : TypeHead) (id : TypeId) :
    BindsTypes (h.resolveSuperclass id) (h.superclass.toList.map .clause)
      fun h' => h'.superclass.toList.map .clause := by
  intro s h' s' run
  rcases TypeHead.resolveSuperclass_eq_ok run with ⟨none, rfl, rfl⟩ |
    ⟨c, p, t, t', written, found, set, rfl, rfl⟩
  · simp only [none]
    exact .nil rfl
  · rw [superclassOf_eq] at found
    obtain ⟨rfl, state⟩ := Prod.mk.inj found
    obtain rfl : _ = t := congrArg Binding.State.table state
    rw [written]
    exact ⟨rfl, BindingTable.typeNames_of_setSuperclass set⟩

/-! ## Statements and declarations -/

mutual

/-- The mentions in a statement are bound in the order in which they stand. -/
theorem Stmt.resolve_binds : ∀ s : Stmt, BindsTypes s.resolve s.mentions Stmt.mentions
  | .expression i e => by
    rw [Stmt.resolve]
    exact .bind e.resolve_binds fun _ => .pure rfl
  | .localVariable i m t fs => by
    rw [Stmt.resolve]
    exact .bind (Fragment.resolveLocals_binds t m fs) fun _ => .pure rfl
  | .block i ⟨b, ss⟩ => by
    rw [Stmt.resolve]
    exact .bind (.inScope (Stmt.resolveAll_binds ss)) fun _ => .pure rfl
  | .ifElse i c t none => by
    rw [Stmt.resolve]
    refine .bind c.resolve_binds fun _ => ?_
    exact .bind (.inScope (Stmt.resolve_binds t)) fun _ => .pure rfl
  | .ifElse i c t (some e) => by
    rw [Stmt.resolve]
    refine .bind c.resolve_binds fun _ => ?_
    refine .bind (.inScope (Stmt.resolve_binds t)) fun _ => ?_
    exact .bind (.inScope (Stmt.resolve_binds e)) fun _ => .pure rfl
  | .whileLoop i c b => by
    rw [Stmt.resolve]
    refine .bind c.resolve_binds fun _ => ?_
    exact .bind (.inScope (Stmt.resolve_binds b)) fun _ => .pure rfl
  | .forLoop i init c us b => by
    rw [Stmt.resolve]
    refine .inScope (.bind (Stmt.resolveAll_binds init) fun _ => ?_)
    refine .bind (Expr.resolveOption_binds c) fun _ => ?_
    refine .bind (Expr.resolveAll_binds us) fun _ => ?_
    exact .bind (.inScope (Stmt.resolve_binds b)) fun _ => .pure rfl
  | .tryCatch i ⟨b, ss⟩ cs none => by
    rw [Stmt.resolve]
    refine .bind (.inScope (Stmt.resolveAll_binds ss)) fun _ => ?_
    exact .bind (CatchClause.resolveAll_binds cs) fun _ => .pure rfl
  | .tryCatch i ⟨b, ss⟩ cs (some ⟨fb, fs⟩) => by
    rw [Stmt.resolve]
    refine .bind (.inScope (Stmt.resolveAll_binds ss)) fun _ => ?_
    refine .bind (CatchClause.resolveAll_binds cs) fun _ => ?_
    exact .bind (.inScope (Stmt.resolveAll_binds fs)) fun _ => .pure rfl
  | .returnValue i e => by
    rw [Stmt.resolve]
    exact .bind (Expr.resolveOption_binds e) fun _ => .pure rfl
  | .throwValue i e => by
    rw [Stmt.resolve]
    exact .bind e.resolve_binds fun _ => .pure rfl
  | .superCall i as b => by
    rw [Stmt.resolve]
    exact .bind (Expr.resolveAll_binds as) fun _ => .pure rfl
  | .thisCall i as b => by
    rw [Stmt.resolve]
    exact .bind (Expr.resolveAll_binds as) fun _ => .pure rfl
  | .localType i d => by
    rw [Stmt.resolve]
    exact .bind (TypeDecl.resolve_binds d) fun _ => .pure rfl
  | .empty i => by
    rw [Stmt.resolve]
    exact .pure rfl

theorem Stmt.resolveAll_binds :
    ∀ ss : List Stmt, BindsTypes (Stmt.resolveAll ss) (Stmt.mentionsOf ss) Stmt.mentionsOf
  | [] => by
    rw [Stmt.resolveAll]
    exact .pure rfl
  | s :: ss => by
    rw [Stmt.resolveAll]
    refine .bind (Stmt.resolve_binds s) fun _ => ?_
    exact .bind (Stmt.resolveAll_binds ss) fun _ => .pure rfl

theorem CatchClause.resolveAll_binds : ∀ cs : List CatchClause,
    BindsTypes (CatchClause.resolveAll cs) (CatchClause.mentionsOf cs) CatchClause.mentionsOf
  | [] => by
    rw [CatchClause.resolveAll]
    exact .pure rfl
  | ⟨sp, x, ⟨b, ss⟩⟩ :: cs => by
    rw [CatchClause.resolveAll]
    have one : BindsTypes (inScope do
        let x ← declareParameter x
        let ss ← inScope (Stmt.resolveAll ss)
        return (⟨sp, x, ⟨b, ss⟩⟩ : CatchClause)) (Stmt.mentionsOf ss)
        fun c => Stmt.mentionsOf c.body.statements := by
      refine .inScope (.bind (declareParameter_binds x) fun _ => ?_)
      exact .bind (.inScope (Stmt.resolveAll_binds ss)) fun _ => .pure rfl
    refine .bind one fun c => ?_
    obtain ⟨sp', x', ⟨b', ss'⟩⟩ := c
    exact .bind (CatchClause.resolveAll_binds cs) fun _ => .pure rfl

/-- So are those in a member. -/
theorem Member.resolve_binds : ∀ m : Member, BindsTypes m.resolve m.mentions Member.mentions
  | .type d => by
    rw [Member.resolve]
    exact .bind (TypeDecl.resolve_binds d) fun _ => .pure rfl
  | .field f => by
    rw [Member.resolve]
    exact .bind f.resolve_binds fun _ => .pure rfl
  | .initializer ⟨i, s, ⟨b, ss⟩⟩ => by
    rw [Member.resolve]
    exact .bind (.inScope (Stmt.resolveAll_binds ss)) fun _ => .pure rfl
  | .method ⟨h, none⟩ => by
    rw [Member.resolve]
    exact .inScope (.bind (declareParameters_binds h.parameters) fun _ => .pure rfl)
  | .method ⟨h, some ⟨b, ss⟩⟩ => by
    rw [Member.resolve]
    refine .inScope (.bind (declareParameters_binds h.parameters) fun _ => ?_)
    exact .bind (Stmt.resolveAll_binds ss) fun _ => .pure rfl

theorem Member.resolveAll_binds : ∀ ms : List Member,
    BindsTypes (Member.resolveAll ms) (Member.mentionsOf ms) Member.mentionsOf
  | [] => by
    rw [Member.resolveAll]
    exact .pure rfl
  | m :: ms => by
    rw [Member.resolveAll]
    refine .bind (Member.resolve_binds m) fun _ => ?_
    exact .bind (Member.resolveAll_binds ms) fun _ => .pure rfl

/-- Resolving a type binds the mentions in it one after the other. -/
theorem TypeDecl.resolve_binds : ∀ d : TypeDecl, BindsTypes d.resolve d.mentions TypeDecl.mentions
  | ⟨h, ms⟩ => by
    intro s d' s' run
    obtain ⟨id, h', s₁, cs, s₂, ms', s₃, bound, hsuper, hcs, hms, rfl, rfl⟩ :=
      TypeDecl.resolve_eq_ok run
    obtain ⟨-, -, -, constants, -⟩ := TypeHead.resolveSuperclass_steps bound hsuper
    have clause := TypeHead.resolveSuperclass_binds h id s h' s₁ hsuper
    have enums := EnumConstant.resolveAll_binds h'.enumConstants _ cs s₂ hcs
    rw [constants] at enums
    exact (clause.append enums).append (Member.resolveAll_binds ms s₂ ms' s₃ hms)

end

theorem resolveTypes_binds (ds : List TypeDecl) :
    BindsTypes (ds.mapM TypeDecl.resolve) (ds.flatMap TypeDecl.mentions) fun ds' =>
      ds'.flatMap TypeDecl.mentions := by
  induction ds with
  | nil => exact .pure rfl
  | cons d ds ih =>
    rw [List.mapM_cons]
    refine .bind d.resolve_binds fun _ => ?_
    exact .bind ih fun _ => .pure rfl

/-! ## What is found -/

/-- What a `new` finds for its type among the known types. -/
structure BindingTable.Creates (known : BindingTable) (c : TypeName) (found : Option TypeId) :
    Prop where
  /-- It is the last type with the simple name. -/
  last : ∀ id, found = some id ↔ (∃ d, known.typeAt id = .ok d ∧ d.simpleName = c.simpleName) ∧
    ∀ other d, known.typeAt other = .ok d → d.simpleName = c.simpleName → other.index ≤ id.index
  /-- If the name is the qualified name of a type, which a superclass clause means by it, some type
  is found, and it is that one exactly if no later type has the simple name. -/
  qualified : ∀ id, known.lookupType c.name = some id →
    superclassOf ⟨c.name, none⟩ (.start known) = (id, .start known) ∧ found ≠ none ∧
      (found = some id ↔
        ∀ other d, known.typeAt other = .ok d → d.simpleName = c.simpleName →
          other.index ≤ id.index)
  /-- If it is not, a type is found exactly if one has the simple name, and this has another
  qualified name. -/
  unqualified : known.lookupType c.name = none →
    (found = none ↔ ∀ d ∈ known.types, d.simpleName ≠ c.simpleName) ∧
      ∀ id d, found = some id → known.typeAt id = .ok d → d.name ≠ c.name

/-- What a lookup finds is the latest type of the name. -/
theorem BindingTable.creates_lookupSimpleType (known : BindingTable) (c : TypeName) :
    known.Creates c (known.lookupSimpleType c.simpleName) := by
  refine ⟨fun _ => lookupSimpleType_eq_some_iff, fun id qualified => ?_, fun absent => ?_⟩
  · obtain ⟨⟨d, found, named⟩, -⟩ := lookupType_eq_some_iff.mp qualified
    have simple : d.simpleName = c.simpleName := congrArg Names.simple named
    refine ⟨?_, fun none => ?_, ?_⟩
    · show resolveSuperclass c.name (.start known) = _
      simp only [resolveSuperclass, State.start, qualified]
    · refine lookupSimpleType_eq_none_iff.mp none d ?_ simple
      exact Array.mem_of_getElem? (typeAt_eq_ok.mp found)
    · rw [lookupSimpleType_eq_some_iff]
      exact ⟨And.right, fun greatest => ⟨⟨d, found, simple⟩, greatest⟩⟩
  · refine ⟨lookupSimpleType_eq_none_iff, fun id d _ found => ?_⟩
    exact lookupType_eq_none_iff.mp absent d (Array.mem_of_getElem? (typeAt_eq_ok.mp found))

/-! ## Units -/

namespace CompilationUnit

/-- The table once everything in the unit is declared. -/
def declaredTable (u : CompilationUnit) (t : BindingTable) : BindingTable :=
  (Edit.list (declareTopLevel u.package) u.types (.start t)).2.table

/-- The types that are known at a place, once the mentions before it are bound. Superclasses apart,
these are the types of the table at this place. -/
def knownAfter (u : CompilationUnit) (t : BindingTable) (before : List Mention) : BindingTable :=
  (Mention.bindAll (u.declaredTable t) before).2

variable {u : CompilationUnit} {t : BindingTable} {stats : Binding.Stats}

theorem declared_mentions {ds : List TypeDecl} {s : Binding.State}
    (declaring : Edit.list (declareTopLevel u.package) u.types (.start t) = (.done ds, s)) :
    List.Forall₂ (fun d d' => TypeDecl.mentions d' = d.mentions) u.types ds := by
  have declared := (Edit.Ends.list (R := fun d d' => TypeDecl.mentions d' = d.mentions) fun d _ =>
    declareType_mentions _ u.package none d).of_done trivial declaring
  exact declared.1

/-- The mentions of a bound unit are those of the unit, bound one after the other from the declared
types on, and that leaves the type names of the table. -/
theorem bind_mentions (success : (u.bind t).result = .ok stats) :
    (u.bind t).unit.mentions = (Mention.bindAll (u.declaredTable t) u.mentions).1 ∧
      (u.bind t).table.typeNames = (u.knownAfter t u.mentions).typeNames := by
  obtain ⟨ds, s, s', declaring, resolving, table⟩ := bind_runs success
  have same : ds.flatMap TypeDecl.mentions = u.types.flatMap TypeDecl.mentions := by
    rw [List.flatMap, List.flatMap, map_eq_of_forall₂ (declared_mentions declaring)]
  have start : u.declaredTable t = s.table := by rw [declaredTable, declaring]
  obtain ⟨mentions, names⟩ := resolveTypes_binds ds s _ s' resolving
  rw [same, ← start] at mentions names
  rw [table]
  exact ⟨mentions, names⟩

/-- Wherever a unit has a `new` whose type has no handle yet, the bound unit has it with the handle
that is found for it among the types known at this place. -/
theorem bind_creation (success : (u.bind t).result = .ok stats) {before after : List Mention}
    {c : TypeName} (listed : u.mentions = before ++ .creation c :: after)
    (free : c.binding = none) :
    ∃ before' after' found,
      (u.bind t).unit.mentions = before' ++ .creation ⟨c.name, found⟩ :: after' ∧
      before'.length = before.length ∧ (u.knownAfter t before).Creates c found := by
  obtain ⟨mentions, -⟩ := bind_mentions success
  rw [listed, Mention.bindAll_append, Mention.bindAll, Mention.bindIn_creation _ free] at mentions
  exact ⟨_, _, _, mentions, Mention.length_bindAll _ _, BindingTable.creates_lookupSimpleType _ c⟩

/-- `class A extends q.B { Object f = new q.B(); Object g = new A(); }` -/
def interningUnit : CompilationUnit :=
  let info : ExprInfo := ⟨.unassigned, .dummy, none⟩
  let field (name type : String) : Member :=
    .field ⟨.unassigned, .dummy, .empty, .declared ⟨"Object", none⟩,
      [⟨.dummy, name, some (.new info ⟨type, none⟩ [] none), none⟩]⟩
  ⟨"A.java", none,
    [⟨⟨.unassigned, .dummy, .classType, "A", .empty, some ⟨"q.B", none⟩, none, []⟩,
      [field "f" "q.B", field "g" "A"]⟩],
    .initial⟩

/-- The clause makes `q.B` known, which no type was before, and the first `new` then creates it. -/
theorem bind_creation_interned :
    (interningUnit.bind .new).result = .ok ⟨1, 2, 0, 0, 0⟩ ∧
      interningUnit.mentions =
        [.clause ⟨"q.B", none⟩] ++ .creation ⟨"q.B", none⟩ :: [.creation ⟨"A", none⟩] ∧
      (interningUnit.declaredTable .new).lookupType "q.B" = none ∧
      (interningUnit.knownAfter .new [.clause ⟨"q.B", none⟩]).lookupType "q.B" = some ⟨3⟩ ∧
      ∃ before' after' found,
        (interningUnit.bind .new).unit.mentions = before' ++ .creation ⟨"q.B", found⟩ :: after' ∧
          before'.length = 1 ∧
          (interningUnit.knownAfter .new [.clause ⟨"q.B", none⟩]).Creates ⟨"q.B", none⟩ found := by
  have success : (interningUnit.bind .new).result = .ok ⟨1, 2, 0, 0, 0⟩ := by decide +kernel
  have listed : interningUnit.mentions =
      [.clause ⟨"q.B", none⟩] ++ .creation ⟨"q.B", none⟩ :: [.creation ⟨"A", none⟩] := by
        decide +kernel
  exact ⟨success, listed, by decide +kernel, by decide +kernel, bind_creation success listed rfl⟩

/-- `package p; class String { } class A { Object f = new java.lang.String(); Object g = new
a.b.String(); }` -/
def homonymUnit : CompilationUnit :=
  let info : ExprInfo := ⟨.unassigned, .dummy, none⟩
  let field (name type : String) : Member :=
    .field ⟨.unassigned, .dummy, .empty, .declared ⟨"Object", none⟩,
      [⟨.dummy, name, some (.new info ⟨type, none⟩ [] none), none⟩]⟩
  ⟨"A.java", some "p",
    [⟨⟨.unassigned, .dummy, .classType, "String", .empty, none, none, []⟩, []⟩,
      ⟨⟨.unassigned, .dummy, .classType, "A", .empty, none, none, []⟩,
        [field "f" "java.lang.String", field "g" "a.b.String"]⟩],
    .initial⟩

/-- The string class is known under its qualified name, by which a superclass clause means it, and
no type is known by the other name; but both of them create the class `p.String`. -/
theorem bind_creation_homonym :
    let known := homonymUnit.knownAfter .new []
    (homonymUnit.bind .new).result = .ok ⟨2, 2, 0, 0, 0⟩ ∧
      homonymUnit.mentions =
        [.creation ⟨"java.lang.String", none⟩, .creation ⟨"a.b.String", none⟩] ∧
      known.typeNames = ["java.lang.Object", "java.lang.String", "p.String", "p.A"] ∧
      known.lookupType "java.lang.String" = some ⟨1⟩ ∧
      (superclassOf ⟨"java.lang.String", none⟩ (.start known)).1 = ⟨1⟩ ∧
      known.lookupType "a.b.String" = none ∧
      (homonymUnit.bind .new).unit.mentions =
        [.creation ⟨"java.lang.String", some ⟨2⟩⟩, .creation ⟨"a.b.String", some ⟨2⟩⟩] := by
  decide +kernel

end CompilationUnit

end ClassInit
