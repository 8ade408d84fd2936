import ClassInit.Proofs.Binding.Stacks
import ClassInit.Proofs.Binding.Units
import ClassInit.Proofs.Binding.Uses

/-!
# Bodies of a bound unit

Binding a unit resolves every body of a type that lies only in other types in an environment, if it
has no local types: at the site of its type and from the empty environment on
(`CompilationUnit.bind_scoping`). In a body without handles every name then has the handle of the
first local of that name in scope, or else of what it means outside.
-/

set_option autoImplicit false

namespace ClassInit

open Binding

/-! ## What declaring leaves alone -/

/-- The second type is the first, declared somewhere. -/
def TypeDecl.DeclaredAs (d d' : TypeDecl) : Prop :=
  ∃ levels qualifier outer s s', declareType levels qualifier outer d s = (.done d', s')

/-- The second member is the first, a member without local types, with handles for what it declares:
names, parameters, initializers and bodies are as they were. -/
inductive Member.DeclaredAs : Member → Member → Prop where
  | type {d d' : TypeDecl} (declared : d.DeclaredAs d') : DeclaredAs (.type d) (.type d')
  | field {f f' : FieldDecl} (fragments : List.Forall₂
      (fun g g' => g'.name = g.name ∧ g'.initializer = g.initializer) f.fragments f'.fragments) :
      DeclaredAs (.field f) (.field f')
  | method {h h' : MethodHead} {body : Option Block} (parameters : h'.parameters = h.parameters) :
      DeclaredAs (.method ⟨h, body⟩) (.method ⟨h', body⟩)
  | initializer (i : InitializerDecl) : DeclaredAs (.initializer i) (.initializer i)

theorem Member.DeclaredAs.asType {m m' : Member} (declared : m.DeclaredAs m')
    (noType : m.asType = none) : m'.asType = none := by
  cases declared with
  | type => cases noType
  | field | method | initializer => rfl

/-- Declaring a member leaves the names in it alone. -/
theorem Member.DeclaredAs.names {m m' : Member} (declared : m.DeclaredAs m') :
    m'.names = m.names := by
  cases declared with
  | type | method | initializer => rfl
  | @field f f' fragments =>
    show f'.fragments.flatMap Fragment.names = f.fragments.flatMap Fragment.names
    rw [List.flatMap, List.flatMap, map_eq_of_forall₂ (fragments.imp fun g g' same => ?_)]
    rw [Fragment.names, Fragment.names, same.2]

/-- Declaring a member leaves its local types for later. -/
theorem Member.DeclaredAs.localTypes {m m' : Member} (declared : m.DeclaredAs m') :
    m'.localTypes = m.localTypes := by
  cases declared <;> rfl

namespace Binding

/-- Declaring a field keeps its name and its initializer. -/
theorem declareFragment_same (owner : TypeId) (modifiers : Modifiers) (type : TypeRef)
    (g : Fragment) (s : State) :
    (declareFragment owner modifiers type g s).1.name = g.name ∧
      (declareFragment owner modifiers type g s).1.initializer = g.initializer := by
  obtain ⟨span, name, initializer, _ | v⟩ := g <;> exact ⟨rfl, rfl⟩

theorem declareField_same (owner : TypeId) (isInterfaceLike : Bool) (f : FieldDecl) (s : State) :
    List.Forall₂ (fun g g' => g'.name = g.name ∧ g'.initializer = g.initializer) f.fragments
      (declareField owner isInterfaceLike f s).1.fragments := by
  unfold declareField
  generalize (if isInterfaceLike then f.modifiers.union .interfaceField else f.modifiers) =
    modifiers
  show List.Forall₂ _ f.fragments (f.fragments.mapM (declareFragment owner modifiers f.type) s).1
  induction f.fragments generalizing s with
  | nil => exact .nil
  | cons g gs ih =>
    rw [mapM_cons_state]
    exact .cons (declareFragment_same owner modifiers f.type g s) (ih _)

theorem declareMethod_parameters (owner : TypeId) (h : MethodHead) (s : State) :
    (declareMethod owner h s).1.parameters = h.parameters := by
  unfold declareMethod
  cases h.binding <;> rfl

/-- Declaring a member gives handles to what it declares and leaves the rest of it alone. -/
theorem declareMember_declaredAs {nested : TypeDecl → Edit State ResolveError TypeDecl}
    (single : ∀ d d' s s', nested d s = (.done d', s') → d.DeclaredAs d') {owner : TypeId}
    {isInterfaceLike : Bool} {m m' : Member} {s s' : State}
    (run : declareMember nested owner isInterfaceLike m s = (.done m', s')) : m.DeclaredAs m' := by
  cases declareMember_declared run with
  | type declared => exact .type (single _ _ _ _ declared)
  | field f => exact .field (declareField_same owner isInterfaceLike f s)
  | method h body => exact .method (declareMethod_parameters owner h s)
  | initializer i => exact .initializer i

/-- A body without local types goes through the walk over local types unchanged. -/
theorem editLocalTypes_kept {f : TypeDecl → Edit State ResolveError TypeDecl} {m m' : Member}
    {s s' : State} (run : Member.editLocalTypes f m s = (.done m', s')) (none : m.localTypes = []) :
    m' = m := by
  have stay : ∀ d ∈ m.localTypes, (f d).Returns (fun _ => True) d := by
    rw [none]
    exact fun _ hd => absurd hd List.not_mem_nil
  obtain ⟨_, returned, -⟩ := Member.editLocalTypes_returns m stay s trivial
  rw [returned] at run
  cases run
  rfl

/-- Declaring the members of a type does so for each. -/
theorem declareContents_members {nested : String → TypeDecl → Edit State ResolveError TypeDecl}
    (single : ∀ name d d' s s', nested name d s = (.done d', s') → d.DeclaredAs d') {id : TypeId}
    {d d' : TypeDecl} {s s' : State} (run : declareContents nested id d s = (.done d', s')) :
    List.Forall₂ (fun m m' => m.localTypes = [] → m.DeclaredAs m') d.members d'.members := by
  obtain ⟨descriptor, ms, s₁, -, hms, hbodies⟩ := declareContents_walks run
  obtain ⟨ms', hms', rfl⟩ := Edit.map_eq_done.mp hbodies
  have declared := Edit.forall₂_of_done (R := Member.DeclaredAs)
    (fun _ _ _ _ run => declareMember_declaredAs (single descriptor.name) run) hms
  have kept := Edit.forall₂_of_done (R := fun m m' => m.localTypes = [] → m' = m)
    (fun _ _ _ _ run => editLocalTypes_kept run) hms'
  refine forall₂_trans (fun m m₁ m' declared kept none => ?_) declared kept
  rw [kept (declared.localTypes.trans none)]
  exact declared

/-- The members of a declared type are those of the type, declared, up to local types. -/
theorem declareType_members {levels : Nat} {qualifier : Option String} {outer : Option TypeId}
    {d d' : TypeDecl} {s s' : State}
    (run : declareType levels qualifier outer d s = (.done d', s')) :
    List.Forall₂ (fun m m' => m.localTypes = [] → m.DeclaredAs m') d.members d'.members := by
  cases levels with
  | zero => exact absurd run Edit.stop_ne_done
  | succ levels =>
    obtain ⟨⟨d₁, id⟩, s₁, hhead, hcontents⟩ := Edit.andThen_eq_done.mp run
    rw [← (declareHead_done hhead).1]
    exact declareContents_members (fun _ _ _ _ _ run => ⟨_, _, _, _, _, run⟩) hcontents

/-! ## Declaring and the state -/

theorem mapM_moves {α : Type} {R : State → State → Prop} (refl : ∀ s, R s s)
    (trans : ∀ a b c, R a b → R b c → R a c) {f : α → StateM State α}
    (single : ∀ a s, R s (f a s).2) (as : List α) (s : State) : R s (as.mapM f s).2 := by
  induction as generalizing s with
  | nil => exact refl s
  | cons a as ih =>
    rw [mapM_cons_state]
    exact trans _ _ _ (single a s) (ih _)

/-- Declaring moves the state as declaring single heads, fragments and methods does, whether it
finishes or stops. -/
theorem declareType_moves {R : State → State → Prop} (refl : ∀ s, R s s)
    (trans : ∀ a b c, R a b → R b c → R a c)
    (head : ∀ qualifier outer d, (declareHead qualifier outer d).Moves R)
    (fragment : ∀ owner modifiers type f s, R s (declareFragment owner modifiers type f s).2)
    (method : ∀ owner h s, R s (declareMethod owner h s).2)
    (levels : Nat) (qualifier : Option String) (outer : Option TypeId) (d : TypeDecl) :
    (declareType levels qualifier outer d).Moves R := by
  induction levels generalizing qualifier outer d with
  | zero => exact .stop refl d _
  | succ levels ih =>
    refine .andThen trans (head qualifier outer d) fun (d₁, id) s => ?_
    show R s (declareContents _ id d₁ s).2
    unfold declareContents
    split
    · exact refl s
    · refine Edit.Moves.andThen trans (.map (.list refl trans fun m _ => ?_) _) (fun d₂ => ?_) s
      · cases m with
        | type c => exact (ih _ _ c).map _
        | field f =>
          exact .map (fun s => mapM_moves refl trans (fragment id _ f.type) f.fragments s) _
        | method m =>
          obtain ⟨h, body⟩ := m
          exact .map (fun s => method id h s) _
        | initializer i => exact .keep refl _
      · exact d₂.editLocalTypes_moves refl trans (ih _ _)

/-! ## Declaring and the stacks -/

/-- Both states are inside the same types and scopes. -/
def State.SameStacks (s s' : State) : Prop :=
  s'.typeScopes = s.typeScopes ∧ s'.localScopes = s.localScopes

namespace State.SameStacks

theorem refl (s : State) : s.SameStacks s := ⟨rfl, rfl⟩

theorem trans (a b c : State) (first : a.SameStacks b) (second : b.SameStacks c) :
    a.SameStacks c := ⟨second.1.trans first.1, second.2.trans first.2⟩

end State.SameStacks

/-- Declaring touches no scopes. -/
theorem declareType_stacks (levels : Nat) (qualifier : Option String) (outer : Option TypeId)
    (d : TypeDecl) : (declareType levels qualifier outer d).Moves State.SameStacks := by
  refine declareType_moves State.SameStacks.refl State.SameStacks.trans ?_ ?_ ?_ levels qualifier
    outer d
  · intro qualifier outer d s
    unfold declareHead
    split
    · split <;> exact .refl s
    · exact ⟨rfl, rfl⟩
  · rintro owner modifiers type ⟨span, name, initializer, _ | v⟩ s <;> exact ⟨rfl, rfl⟩
  · intro owner h s
    unfold declareMethod
    cases h.binding <;> exact ⟨rfl, rfl⟩

end Binding

/-! ## Types of a bound unit -/

/-- The second type is what binding makes of the first one, a type that lies in no body; the types
with the handles are around it, the innermost first. -/
inductive TypeDecl.Counterpart (ds ds' : List TypeDecl) :
    List TypeId → TypeDecl → TypeDecl → Prop where
  | top {d d' : TypeDecl} (listed : (d, d') ∈ ds.zip ds') : Counterpart ds ds' [] d d'
  | inside {types : List TypeId} {d d' c c' : TypeDecl} {id : TypeId}
      (around : Counterpart ds ds' types d d') (handle : d'.head.binding = some id)
      (listed : (Member.type c, Member.type c') ∈ d.members.zip d'.members) :
      Counterpart ds ds' (id :: types) c c'

/-- The second type is what the first is declared as and then resolved to, inside the types and
outside all bodies. -/
def TypeDecl.BoundTo (types : List TypeId) (last : BindingTable) (d d' : TypeDecl) : Prop :=
  ∃ d₁ s s', d.DeclaredAs d₁ ∧ s.typeScopes = types ∧ s.localScopes = [] ∧
    d₁.resolve.run s = (.ok d', s') ∧ s'.table.ResolvesTo last

/-- The second member is what the first is declared as and then resolved to, if it has no local
types. -/
def Member.BoundTo (types : List TypeId) (last : BindingTable) (m m' : Member) : Prop :=
  m.localTypes = [] → ∃ m₁, m.DeclaredAs m₁ ∧ m₁.ResolvedAt types [] last m'

/-- The members of a bound type are bound inside it. -/
theorem TypeDecl.BoundTo.members {types : List TypeId} {last : BindingTable} {d d' : TypeDecl}
    (bound : d.BoundTo types last d') :
    ∃ id, d'.head.binding = some id ∧
      List.Forall₂ (Member.BoundTo (id :: types) last) d.members d'.members := by
  obtain ⟨d₁, s, s', ⟨levels, qualifier, outer, a, b, declared⟩, rfl, noScopes, run, before⟩ :=
    bound
  obtain ⟨id, handle, resolved⟩ := TypeDecl.resolve_members run before
  rw [noScopes] at resolved
  refine ⟨id, handle, ?_⟩
  exact forall₂_trans (fun _ m₁ _ declared resolved none => ⟨m₁, declared none, resolved⟩)
    (declareType_members declared) resolved

theorem Member.BoundTo.type {types : List TypeId} {last : BindingTable} {c c' : TypeDecl}
    (bound : (Member.type c).BoundTo types last (.type c')) : c.BoundTo types last c' := by
  obtain ⟨m₁, declared, s, s', inside, noScopes, run, before⟩ := bound rfl
  obtain ⟨declared⟩ := declared
  rw [Member.resolve] at run
  obtain ⟨c'', s₁, run, hpure⟩ := Step.bind_eq_ok.mp run
  obtain ⟨same, rfl⟩ := Step.pure_eq_ok.mp hpure
  cases same
  exact ⟨_, s, s₁, declared, inside, noScopes, run, before⟩

/-- A member without types in it is resolved in an environment. -/
theorem Member.BoundTo.resolved {types : List TypeId} {last : BindingTable} {m m' : Member}
    (bound : m.BoundTo types last m') (noType : m.asType = none) (noTypes : m.localTypes = []) :
    ∃ m₁ c, m.DeclaredAs m₁ ∧ c.types = types ∧ c.table.ResolvesTo last ∧
      m' = m₁.resolveIn c c.table.vars.size := by
  obtain ⟨m₁, declared, s, s', rfl, noScopes, run, before⟩ := bound noTypes
  have here : (Site.mk s.table s.typeScopes).Here [] s.table.vars.size s :=
    ⟨rfl, noScopes, ⟨rfl, .refl _⟩, rfl⟩
  obtain ⟨next', agrees⟩ :=
    Member.resolve_agrees (declared.asType noType) (declared.localTypes.trans noTypes)
  refine ⟨m₁, ⟨s.table, s.typeScopes⟩, declared, rfl, ?_, (agrees.of_ok here run).1⟩
  exact (Member.resolve_table run).trans before

/-- Each of several types is resolved outside all scopes. -/
theorem resolveTypes_steps {last : BindingTable} {ds ds' : List TypeDecl} {s s' : Binding.State}
    (outside : s.typeScopes = [] ∧ s.localScopes = [])
    (run : (ds.mapM TypeDecl.resolve).run s = (.ok ds', s')) (before : s'.table.ResolvesTo last) :
    s.table.ResolvesTo last ∧ List.Forall₂ (fun d d' => ∃ s s', s.typeScopes = [] ∧
      s.localScopes = [] ∧ d.resolve.run s = (.ok d', s') ∧ s'.table.ResolvesTo last) ds ds' := by
  induction ds generalizing ds' s with
  | nil =>
    obtain ⟨rfl, rfl⟩ := Step.pure_eq_ok.mp run
    exact ⟨before, .nil⟩
  | cons d ds ih =>
    rw [List.mapM_cons] at run
    obtain ⟨d', s₁, hd, run⟩ := Step.bind_eq_ok.mp run
    obtain ⟨rest, s₂, hds, hpure⟩ := Step.bind_eq_ok.mp run
    obtain ⟨rfl, rfl⟩ := Step.pure_eq_ok.mp hpure
    have at₁ := (TypeDecl.resolve_stacks d _ _).of_ok (.self s) hd
    obtain ⟨before₁, rest⟩ := ih ⟨at₁.types.trans outside.1, at₁.scopes.trans outside.2⟩ hds
    exact ⟨(TypeDecl.resolve_table hd).trans before₁,
      .cons ⟨s, s₁, outside.1, outside.2, hd, before₁⟩ rest⟩

namespace CompilationUnit

variable {u : CompilationUnit} {t : BindingTable} {stats : Binding.Stats}

/-- The types of a unit are bound one by one. -/
theorem bind_boundTo (success : (u.bind t).result = .ok stats) :
    List.Forall₂ (TypeDecl.BoundTo [] (u.bind t).table) u.types (u.bind t).unit.types := by
  obtain ⟨ds, s, s', declaring, resolving, table⟩ := bind_runs success
  have declared := Edit.forall₂_of_done (R := TypeDecl.DeclaredAs)
    (fun _ _ _ _ run => ⟨_, _, _, _, _, run⟩) declaring
  have outside : (State.start t).SameStacks s := (Edit.Moves.list State.SameStacks.refl
    State.SameStacks.trans fun d _ => declareType_stacks _ _ _ d).run declaring
  have before : s'.table.ResolvesTo (u.bind t).table := table ▸ .refl _
  refine forall₂_trans ?_ declared (resolveTypes_steps outside resolving before).2
  rintro d d₁ d' declared ⟨s, s', inside, noScopes, run, before⟩
  exact ⟨d₁, s, s', declared, inside, noScopes, run, before⟩

/-- So is every type at its place, at any depth. -/
theorem boundTo_of_counterpart (success : (u.bind t).result = .ok stats) {types : List TypeId}
    {d d' : TypeDecl}
    (counterpart : TypeDecl.Counterpart u.types (u.bind t).unit.types types d d') :
    d.BoundTo types (u.bind t).table d' := by
  induction counterpart with
  | top listed => exact List.forall₂_zip (bind_boundTo success) listed
  | inside around handle listed ih =>
    obtain ⟨id, handle', members⟩ := ih.members
    rw [handle] at handle'
    cases handle'
    exact (List.forall₂_zip members listed).type

/-- In a unit that is bound, a member without local types of a type that lies in no body is what
declaring and then resolving it in an environment makes of it, at the site of its type and from the
empty environment on. Every name in it, if none had a handle, has the handle of what it means in the
scope of its use: of the first local of that name there, or else of what it means outside. Resolving
any statement changes the stacks only by the locals that the statement adds to the innermost
scope. -/
theorem bind_scoping (success : (u.bind t).result = .ok stats) :
    (∀ types d d', TypeDecl.Counterpart u.types (u.bind t).unit.types types d d' →
      ∃ id, d'.head.binding = some id ∧ d'.members.length = d.members.length ∧
        ∀ m m', (m, m') ∈ d.members.zip d'.members → m.asType = none → m.localTypes = [] →
          ∃ m₁ c, m.DeclaredAs m₁ ∧ c.types = id :: types ∧ c.table.ResolvesTo (u.bind t).table ∧
            m' = m₁.resolveIn c c.table.vars.size ∧
            (Unnamed m.names → c.ResolvesUses m'.uses)) ∧
    ∀ (s s' : Stmt) (state state' : Binding.State) (scope : Scope) (scopes : List Scope),
      state.localScopes = scope :: scopes → s.resolve.run state = (.ok s', state') →
        state'.typeScopes = state.typeScopes ∧
          state'.localScopes = (s'.declares ++ scope) :: scopes := by
  constructor
  · intro types d d' counterpart
    obtain ⟨id, handle, members⟩ := (boundTo_of_counterpart success counterpart).members
    refine ⟨id, handle, members.length_eq.symm, fun m m' listed noType noTypes => ?_⟩
    obtain ⟨m₁, c, declared, site, before, rfl⟩ :=
      (List.forall₂_zip members listed).resolved noType noTypes
    refine ⟨m₁, c, declared, site, before, rfl, fun unnamed => ?_⟩
    exact Member.uses_resolveIn m₁ _ (declared.names ▸ unnamed)
  · intro s s' state state' scope scopes open' run
    have at' := (s.resolve_stacks state.typeScopes scope scopes).of_ok
      ⟨rfl, open', .refl state.table⟩ run
    exact ⟨at'.types, at'.scopes⟩

end CompilationUnit

namespace Binding

/-- `void m(int y) { { int y = y; x = y; } for (int x = y, z = x; ; ) y = x; x = y; }`. -/
def shadowingMethod : Member :=
  let n : NodeInfo := ⟨.unassigned, .dummy⟩
  let name (x : String) : Expr := .name ⟨.unassigned, .dummy, none⟩ x none
  let assign (x y : String) : Stmt :=
    .expression n (.assignment ⟨.unassigned, .dummy, none⟩ .assign (name x) (name y))
  let fragment (x y : String) : Fragment := ⟨.dummy, x, some (name y), none⟩
  .method
    ⟨⟨.unassigned, .dummy, "m", .empty, .void, [⟨"y", .primitive .int, none⟩], false, none, false⟩,
    some ⟨n,
      [.block n ⟨n,
        [.localVariable n .empty (.primitive .int) [fragment "y" "y"], assign "x" "y"]⟩,
        .forLoop n [.localVariable n .empty (.primitive .int) [fragment "x" "y", fragment "z" "x"]]
          none [] (assign "y" "x"),
        assign "x" "y"]⟩⟩

/-- A class with the field `int x` and the method. -/
def shadowingClass : TypeDecl :=
  ⟨⟨.unassigned, .dummy, .classType, "A", .empty, none, none, []⟩,
    [.field ⟨.unassigned, .dummy, .empty, .primitive .int, [⟨.dummy, "x", none, none⟩]⟩,
      shadowingMethod]⟩

def shadowingUnit : CompilationUnit := ⟨"A.java", none, [shadowingClass], .initial⟩

end Binding

/-- The names in the method, whose parameter is local 1: the local `y` of the block is 2, and the
locals of the loop are 3 and 4. -/
theorem CompilationUnit.bind_scoping_shadowed :
    (shadowingUnit.bind .new).result = .ok ⟨1, 1, 1, 4, 9⟩ ∧
      ((shadowingUnit.bind .new).unit.types.flatMap fun d =>
          (d.members.flatMap Member.names).map fun x => (x.1, x.2.map (·.index))) =
        [("y", some 1), ("x", some 0), ("y", some 2), ("y", some 1), ("x", some 3), ("y", some 1),
          ("x", some 3), ("x", some 0), ("y", some 1)] ∧
      ∃ d' m' m₁ c, (shadowingClass, d') ∈ shadowingUnit.types.zip
        (shadowingUnit.bind .new).unit.types ∧
        (shadowingMethod, m') ∈ shadowingClass.members.zip d'.members ∧
        shadowingMethod.DeclaredAs m₁ ∧ m' = m₁.resolveIn c c.table.vars.size ∧
        c.ResolvesUses m'.uses := by
  have success : (shadowingUnit.bind .new).result = .ok ⟨1, 1, 1, 4, 9⟩ := by decide +kernel
  have one : (shadowingUnit.bind .new).unit.types.length = 1 := by decide +kernel
  obtain ⟨d', only⟩ := List.length_eq_one_iff.mp one
  have listed :
      (shadowingClass, d') ∈ shadowingUnit.types.zip (shadowingUnit.bind .new).unit.types := by
    rw [only]
    exact List.mem_cons_self
  obtain ⟨id, -, length, members⟩ := (CompilationUnit.bind_scoping success).1 _ _ _ (.top listed)
  obtain ⟨f', m', both⟩ := List.length_eq_two.mp length
  have listed' : (shadowingMethod, m') ∈ shadowingClass.members.zip d'.members := by
    rw [both]
    exact List.mem_cons_of_mem _ List.mem_cons_self
  obtain ⟨m₁, c, declared, -, -, resolved, resolves⟩ := members _ _ listed' rfl rfl
  refine ⟨success, by decide +kernel, d', m', m₁, c, listed, listed', declared, resolved,
    resolves ?_⟩
  unfold Unnamed
  decide

end ClassInit
