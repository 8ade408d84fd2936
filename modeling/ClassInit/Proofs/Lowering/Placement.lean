import ClassInit.Proofs.Lowering.Placed

/-!
# Where lowered types stand

What becomes of the declarations of a type stands in the lowered type in the order of
`TypeDecl.placed` (`Lowering.lowerType_placed`). The order depends on the tree and on which types
are interfaces, but not on the options, so that the outputs for different options are aligned
(`CompilationUnit.lower_placed`). Nothing is lost but the types in blocks for instances of a type
that initializes none (`CompilationUnit.mem_placed_or_drops`).
-/

set_option autoImplicit false

namespace ClassInit

namespace Lowering

variable {options : Options} {t : BindingTable} {levels : Nat} {d d' : TypeDecl} {s s' : State}

/-! ## Lowering the types inside a type -/

section

variable {nested : TypeDecl → Edit State Failure TypeDecl} {R : TypeDecl → TypeDecl → Prop}
  (moves : ∀ c, (nested c).Moves State.Grows)
  (single : ∀ c c' s₁ s₂, State.Grows s s₁ → nested c s₁ = (.done c', s₂) → R c c')

include moves single

/-- A list of types of which each is lowered at some point of a longer run. -/
theorem forall₂_of_nested {cs cs' : List TypeDecl} {s₁ s₂ : State} (grown : State.Grows s s₁)
    (run : Edit.list nested cs s₁ = (.done cs', s₂)) : List.Forall₂ R cs cs' := by
  obtain ⟨-, steps⟩ := Edit.forall₂_steps_of_done State.Grows.refl State.Grows.trans
    (fun c _ _ _ run => (moves c).run run) run
  refine steps.imp fun c c' ⟨s₃, s₄, before, step, _⟩ => ?_
  exact single c c' s₃ s₄ (State.Grows.trans _ _ _ grown before) step

omit moves in
/-- Lowering the type in a member leaves a member with the lowered type, and other members as they
are. -/
theorem corresponds_of_lowerMemberType {m m' : Member} {s₁ s₂ : State} (grown : State.Grows s s₁)
    (run : lowerMemberType nested m s₁ = (.done m', s₂)) :
    (∃ c c', m = .type c ∧ m' = .type c' ∧ R c c') ∨ m' = m ∧ m.asType = none := by
  cases m with
  | type c =>
    obtain ⟨c', step, rfl⟩ := Edit.map_eq_done.mp run
    exact .inl ⟨c, c', rfl, rfl, single c c' s₁ s₂ grown step⟩
  | method | initializer | field =>
    obtain ⟨rfl, -⟩ := Edit.keep_eq_done.mp run
    exact .inr ⟨rfl, rfl⟩

/-- Lowering the local types of a member leaves a member that corresponds to it. -/
theorem corresponds_of_editLocalTypes {m m' : Member} {s₁ s₂ : State} (noType : m.asType = none)
    (grown : State.Grows s s₁) (run : Member.editLocalTypes nested m s₁ = (.done m', s₂)) :
    m.Corresponds R m' := by
  rcases m with c | ⟨h, _ | ⟨b, ss⟩⟩ | ⟨i, once, ⟨b, ss⟩⟩ | f
  · cases noType
  · obtain ⟨rfl, -⟩ := Edit.keep_eq_done.mp run
    exact .bodiless h
  · obtain ⟨ss', edited, rfl⟩ := Edit.map_eq_done.mp run
    exact .method ((Stmt.editLocalTypesOf_outline nested ss).of_done edited)
      (forall₂_of_nested moves single grown
        (Edit.done_of_map (Stmt.editLocalTypesOf_map nested ss) edited))
  · obtain ⟨ss', edited, rfl⟩ := Edit.map_eq_done.mp run
    exact .initializer
      (forall₂_of_nested moves single grown
        (Edit.done_of_map (Stmt.editLocalTypesOf_map nested ss) edited))
  · obtain ⟨rfl, -⟩ := Edit.keep_eq_done.mp run
    exact .field f

/-- Lowering the types inside a type leaves its members as they are but for these types. -/
theorem lowerNested_corresponds (run : lowerNested nested d s = (.done d', s')) :
    List.Forall₂ (Member.Corresponds R) d.members d'.members := by
  obtain ⟨d₁, s₁, members, bodies⟩ := Edit.seq_eq_done.mp run
  obtain ⟨ms, listed, rfl⟩ := Edit.map_eq_done.mp members
  obtain ⟨ms', edited, rfl⟩ := Edit.map_eq_done.mp bodies
  obtain ⟨grown, types⟩ := Edit.forall₂_steps_of_done State.Grows.refl State.Grows.trans
    (fun m _ _ _ run => (lowerMemberType_moves moves m).run run) listed
  obtain ⟨-, locals⟩ := Edit.forall₂_steps_of_done State.Grows.refl State.Grows.trans
    (fun m _ _ _ run =>
      (Member.editLocalTypes_moves State.Grows.refl State.Grows.trans moves m).run run)
    edited
  refine forall₂_trans (fun m m₁ m' ⟨s₂, _, before, first, _⟩ ⟨s₃, _, before', second, _⟩ => ?_)
    types locals
  rcases corresponds_of_lowerMemberType single before first with
    ⟨c, c', rfl, rfl, related⟩ | ⟨rfl, noType⟩
  · obtain ⟨rfl, -⟩ := Edit.keep_eq_done.mp second
    exact .type related
  · exact corresponds_of_editLocalTypes moves single noType
      (State.Grows.trans _ _ _ grown before') second

end

/-! ## The types inside a lowered type -/

/-- The statements that initialize hold the types of the blocks that they come from. -/
theorem localTypesOf_initList (encoding : LiteralEncoding) (isInterface once : Bool)
    (ms : List Member) :
    Stmt.localTypesOf (initList t encoding isInterface once ms) = blockTypes once ms := by
  have fragment : ∀ f, Stmt.localTypesOf (fragmentInit t encoding once f) = [] := by
    intro f
    unfold fragmentInit
    split
    · split <;> rfl
    · rfl
  have block : ∀ b : Block, Stmt.localTypesOf (blockInit b) = Stmt.localTypesOf b.statements := by
    rintro ⟨i, ss⟩
    unfold blockInit
    split
    · exact List.append_nil _
    · rfl
  rw [initList, Stmt.localTypesOf_eq_flatMap, List.flatMap_assoc, blockTypes]
  refine List.flatMap_congr fun m _ => ?_
  rw [← Stmt.localTypesOf_eq_flatMap]
  cases m with
  | type | method => rfl
  | initializer i =>
    simp only [memberInit]
    split
    · exact block i.body
    · rfl
  | field f =>
    simp only [memberInit]
    split
    · rw [Stmt.localTypesOf_eq_flatMap, List.flatMap_assoc]
      simp only [← Stmt.localTypesOf_eq_flatMap, fragment]
      exact List.flatMap_eq_nil_iff.mpr fun _ _ => rfl
    · rfl

/-- Copies declare the same local types, up to ids. -/
theorem SameStmts.localTypesOf {ss ss' : List Stmt} (same : SameStmts ss ss') :
    (Stmt.localTypesOf ss).map (TypeDecl.erase id) =
      (Stmt.localTypesOf ss').map (TypeDecl.erase id) := by
  rw [← Stmt.localTypesOf_erase, ← Stmt.localTypesOf_erase, Stmt.eraseAll_eq_map,
    Stmt.eraseAll_eq_map]
  exact congrArg Stmt.localTypesOf same

section

variable {encoding : LiteralEncoding} {isInterface : Bool} {ms : List Member}

/-- A constructor that does not delegate is designated. -/
theorem isDesignated_of_own {h : MethodHead} {b : Block} (isConstructor : h.isConstructor = true)
    (own : delegates b.statements = false) : (MethodDecl.mk h (some b)).isDesignated = true := by
  show (h.isConstructor && !delegates b.statements) = true
  rw [isConstructor, own]
  rfl

theorem isDesignated_of_delegating {h : MethodHead} {b : Block}
    (delegating : delegates b.statements = true) :
    (MethodDecl.mk h (some b)).isDesignated = false := by
  show (h.isConstructor && !delegates b.statements) = false
  rw [delegating]
  exact Bool.and_false _

/-- The initializers are copied after an explicit call of the superclass constructor. -/
theorem statementsBefore_explicit {h : MethodHead} {i : NodeInfo} {before after : List Stmt}
    {call : Stmt} (first : ∀ s ∈ before, s.isSuperCall = false) (isCall : call.isSuperCall = true) :
    (MethodDecl.mk h (some ⟨i, before ++ call :: after⟩)).statementsBefore =
      (before ++ [call]).length := by
  have index : (MethodDecl.mk h (some ⟨i, before ++ call :: after⟩)).superCallIndex =
      some before.length := by
    show (before ++ call :: after).findIdx? Stmt.isSuperCall = some before.length
    rw [List.findIdx?_append, List.findIdx?_eq_none_iff.mpr first, List.findIdx?_cons,
      if_pos isCall, Option.map_some, Nat.zero_add, Option.none_or]
  rw [MethodDecl.statementsBefore, index, List.length_append]
  rfl

/-- Without one they are copied to the front. -/
theorem statementsBefore_implicit {h : MethodHead} {i : NodeInfo} {ss : List Stmt}
    (none : ∀ s ∈ ss, s.isSuperCall = false) :
    (MethodDecl.mk h (some ⟨i, ss⟩)).statementsBefore = 0 := by
  have index : (MethodDecl.mk h (some ⟨i, ss⟩)).superCallIndex = Option.none :=
    List.findIdx?_eq_none_iff.mpr none
  rw [MethodDecl.statementsBefore, index]

/-- The types in the body of a lowered member. -/
theorem MemberLowered.localTypes {m m' : Member}
    (lowered : MemberLowered t encoding isInterface (initList t encoding isInterface false ms)
    m m') :
    m'.localTypes.map (TypeDecl.erase id) =
      (m.placed isInterface (blockTypes false ms)).map (TypeDecl.erase id) := by
  cases lowered with
  | type | field => rfl
  | @method m stays =>
    have aside : (!isInterface && m.isDesignated) = false := by
      rcases stays with rfl | isMethod
      · rfl
      · rw [MethodDecl.isDesignated, isMethod, Bool.false_and, Bool.and_false]
    rw [Member.placed_method aside]
    rfl
  | constructor isClass isConstructor made =>
    subst isClass
    cases made with
    | @delegating h b delegating =>
      have aside : (!false && (MethodDecl.mk h (some b)).isDesignated) = false :=
        isDesignated_of_delegating delegating
      rw [Member.placed_method aside]
      rfl
    | @explicit h i before after copies call own first isCall copied =>
      have designated :
          (!false && (MethodDecl.mk h (some ⟨i, before ++ call :: after⟩)).isDesignated) = true :=
        isDesignated_of_own isConstructor own
      have same : (Member.method ⟨h, some ⟨i, before ++ call :: (copies ++ after)⟩⟩).localTypes =
          Stmt.localTypesOf (before ++ [call]) ++
            (Stmt.localTypesOf copies ++ Stmt.localTypesOf after) := by
        show Stmt.localTypesOf (before ++ call :: (copies ++ after)) = _
        rw [List.append_cons, Stmt.localTypesOf_append, Stmt.localTypesOf_append copies]
      rw [same, Member.placed_designated designated, statementsBefore_explicit first isCall]
      show _ = List.map _ (Stmt.localTypesOf (List.take _ (before ++ call :: after)) ++
        (_ ++ Stmt.localTypesOf (List.drop _ (before ++ call :: after))))
      rw [List.append_cons before call after, List.take_left, List.drop_left]
      simp only [List.map_append, copied.localTypesOf, localTypesOf_initList]
    | @implicit h i ss copies call own none implied copied =>
      have designated : (!false && (MethodDecl.mk h (some ⟨i, ss⟩)).isDesignated) = true :=
        isDesignated_of_own isConstructor own
      have same : (Member.method ⟨h, some ⟨i, call :: (copies ++ ss)⟩⟩).localTypes =
          Stmt.localTypesOf copies ++ Stmt.localTypesOf ss := by
        show call.localTypes ++ Stmt.localTypesOf (copies ++ ss) = _
        rw [implied.localTypes, Stmt.localTypesOf_append, List.nil_append]
      rw [same, Member.placed_designated designated, statementsBefore_implicit none]
      show _ = List.map _ ([] ++ (_ ++ Stmt.localTypesOf ss))
      simp only [List.map_append, copied.localTypesOf, localTypesOf_initList, List.nil_append]

/-- The passes of a type leave the types among its members alone. -/
theorem MemberLowered.asType {m m' : Member} {instances : List Stmt}
    (lowered : MemberLowered t encoding isInterface instances m m') : m'.asType = m.asType := by
  cases lowered <;> rfl

/-- What the surviving members hold, all members hold if the others hold nothing. -/
theorem flatMap_of_lowered {instances : List Stmt} {ms kept : List Member} {α : Type}
    {f g : Member → List α}
    (lowered : List.Forall₂ (MemberLowered t encoding isInterface instances) (ms.filter survives)
    kept) (same : ∀ m m', MemberLowered t encoding isInterface instances m m' → f m' = g m)
    (none : ∀ i, g (.initializer i) = []) : kept.flatMap f = ms.flatMap g := by
  have survivors : (ms.filter survives).flatMap g = ms.flatMap g := by
    clear lowered
    induction ms with
    | nil => rfl
    | cons m ms ih =>
      cases m with
      | initializer i =>
        rw [List.filter_cons_of_neg Bool.false_ne_true, List.flatMap_cons, none,
          List.nil_append, ih]
      | type | method | field =>
        rw [List.filter_cons_of_pos rfl, List.flatMap_cons, List.flatMap_cons, ih]
  rw [← survivors, List.flatMap_def, List.flatMap_def,
    map_eq_of_forall₂ (lowered.imp fun m m' => same m m')]

/-- A default constructor declares no type but those in the statements for instances. -/
theorem localTypes_of_default {name : String} {access : Modifiers} {m : Member}
    (made : DefaultConstructor name access (initList t encoding isInterface false ms) m) :
    m.asType = none ∧
      m.localTypes.map (TypeDecl.erase id) = (blockTypes false ms).map (TypeDecl.erase id) := by
  obtain ⟨call, ss, implied, copied, n, bodyId, handle, rfl⟩ := made
  refine ⟨rfl, ?_⟩
  show (call.localTypes ++ Stmt.localTypesOf ss).map _ = _
  rw [implied.localTypes, List.nil_append, copied.localTypesOf, localTypesOf_initList]

/-- The static routine holds the types in the blocks for the type itself. -/
theorem localTypes_of_routine {name : String} {m : Member}
    (routine : StaticRoutine name (initList t encoding isInterface true ms) m) :
    m.asType = none ∧
      m.localTypes.map (TypeDecl.erase id) = (blockTypes true ms).map (TypeDecl.erase id) := by
  obtain ⟨ss, copied, n, bodyId, handle, rfl⟩ := routine
  refine ⟨rfl, ?_⟩
  rw [← localTypesOf_initList (t := t) encoding isInterface]
  exact copied.localTypesOf

end

/-- The types inside a lowered type are those inside the type, up to node ids, each where it is
placed. -/
theorem TypeLowered.inner_placed {isInterface : Bool} {access : Modifiers}
    (lowered : TypeLowered options t isInterface access d d') :
    d'.inner.map (TypeDecl.erase id) = (d.placedInner isInterface).map (TypeDecl.erase id) := by
  obtain ⟨kept, made, routine, members, hkept, hmade, hroutine⟩ := lowered.members
  have types : kept.filterMap Member.asType = d.memberTypes := by
    rw [TypeDecl.memberTypes, List.filterMap_eq_flatMap_toList, List.filterMap_eq_flatMap_toList]
    exact flatMap_of_lowered hkept (fun _ _ one => congrArg Option.toList one.asType) fun _ => rfl
  have bodies : (kept.flatMap Member.localTypes).map (TypeDecl.erase id) =
      (d.members.flatMap (Member.placed isInterface (blockTypes false d.members))).map
        (TypeDecl.erase id) := by
    rw [List.map_flatMap, List.map_flatMap]
    exact flatMap_of_lowered hkept (fun _ _ one => one.localTypes) fun _ => rfl
  have instances : made.filterMap Member.asType = [] ∧
      (made.flatMap Member.localTypes).map (TypeDecl.erase id) =
        (if isInterface = false ∧ d.constructors = [] then blockTypes false d.members else []).map
          (TypeDecl.erase id) := by
    split at hmade
    · rename_i bare
      obtain ⟨m, rfl, default⟩ := hmade
      obtain ⟨noType, locals⟩ := localTypes_of_default default
      rw [List.flatMap_singleton, locals, if_pos bare]
      exact ⟨List.filterMap_cons_none noType, rfl⟩
    · rename_i declared
      rw [hmade, if_neg declared]
      exact ⟨rfl, rfl⟩
  have statics : routine.filterMap Member.asType = [] ∧
      (routine.flatMap Member.localTypes).map (TypeDecl.erase id) =
        (blockTypes true d.members).map (TypeDecl.erase id) := by
    split at hroutine
    · rename_i nothing
      rw [hroutine, ← localTypesOf_initList (t := t) options.literalEncoding isInterface, nothing]
      exact ⟨rfl, rfl⟩
    · obtain ⟨m, rfl, runs⟩ := hroutine
      obtain ⟨noType, locals⟩ := localTypes_of_routine runs
      rw [List.flatMap_singleton, locals]
      exact ⟨List.filterMap_cons_none noType, rfl⟩
  rw [TypeDecl.inner, TypeDecl.memberTypes, members, TypeDecl.placedInner]
  simp only [List.filterMap_append, List.flatMap_append, List.map_append, types, bodies, instances,
    statics, List.append_nil]

/-! ## What becomes of a type -/

/-- The second declaration is, up to node ids, what lowering makes of the first, whatever has been
lowered before. -/
def Becomes (options : Options) (t : BindingTable) (d a : TypeDecl) : Prop :=
  ∃ levels s a₀ s', t.Grows s.table ∧ lowerType options levels d s = (.done a₀, s') ∧
    a₀.erase id = a.erase id

/-- What a type becomes is known up to ids. -/
theorem Becomes.of_erase {a b : TypeDecl} (becomes : Becomes options t d a)
    (same : a.erase id = b.erase id) : Becomes options t d b := by
  obtain ⟨levels, s, a₀, s', grown, run, same₀⟩ := becomes
  exact ⟨levels, s, a₀, s', grown, run, same₀.trans same⟩

/-- Whether a type is an interface is read from its entry. -/
theorem isInterfaceIn_eq {type : TypeId} {descriptor : TypeDescriptor}
    (bound : d.head.binding = some type) (described : t.typeAt type = .ok descriptor) :
    d.isInterfaceIn t = descriptor.isInterface := by
  have asked : t.isInterface type = .ok descriptor.isInterface := by
    rw [BindingTable.isInterface, described]
    rfl
  rw [TypeDecl.isInterfaceIn, bound, Option.map_some, asked]

/-- The declarations of a lowered type are what the declarations of the type become, each where it
is placed. -/
theorem lowerType_placed (levels : Nat) {d d' : TypeDecl} {s s' : State} (grown : t.Grows s.table)
    (run : lowerType options levels d s = (.done d', s')) :
    List.Forall₂ (Becomes options t) (d.placed t levels) d'.declarations := by
  induction levels generalizing d d' s s' with
  | zero => exact absurd run Edit.stop_ne_done
  | succ levels ih =>
    obtain ⟨type, descriptor, d₁, s₁, bound, described, nested, -, lowered⟩ :=
      lowerType_done grown run
    have all := lowerNested_corresponds
      (R := fun c c' => List.Forall₂ (Becomes options t) (c.placed t levels) c'.declarations)
      (lowerType_moves options levels)
        (fun _ _ _ _ before step => ih (grown.trans before) step) nested
    have inside : List.Forall₂ (Becomes options t)
        ((d.placedInner descriptor.isInterface).flatMap (TypeDecl.placed t levels))
        ((d₁.placedInner descriptor.isInterface).flatMap TypeDecl.declarations) :=
      List.rel_flatMap (TypeDecl.placedInner_corresponds all) fun _ _ one => one
    have erased : ∀ cs : List TypeDecl, (cs.flatMap TypeDecl.declarations).map (TypeDecl.erase id) =
        (cs.map (TypeDecl.erase id)).flatMap TypeDecl.declarations := by
      intro cs
      rw [List.map_flatMap, List.flatMap_map]
      exact List.flatMap_congr fun c _ => (TypeDecl.declarations_erase id c).symm
    have same :
        ((d₁.placedInner descriptor.isInterface).flatMap TypeDecl.declarations).map
            (TypeDecl.erase id) =
          (d'.inner.flatMap TypeDecl.declarations).map (TypeDecl.erase id) := by
      rw [erased, ← lowered.inner_placed, ← erased]
    rw [TypeDecl.placed, isInterfaceIn_eq bound described, TypeDecl.declarations_eq]
    refine .cons ⟨levels + 1, s, d', s', grown, run, rfl⟩ ?_
    exact forall₂_trans (fun _ _ _ becomes copied => becomes.of_erase copied) inside
      (forall₂_of_map_eq same)

/-! ## Which declarations are placed -/

/-- The types in blocks are those declared in their statements. -/
theorem mem_blockTypes {once : Bool} {ms : List Member} {c : TypeDecl} :
    c ∈ blockTypes once ms ↔
      ∃ i, .initializer i ∈ ms ∧ i.isStatic = once ∧ c ∈ Stmt.localTypesOf i.body.statements := by
  rw [blockTypes, List.mem_flatMap]
  constructor
  · rintro ⟨m, hm, hc⟩
    cases m with
    | type | method | field => exact absurd hc List.not_mem_nil
    | initializer i =>
      obtain ⟨kind, hc⟩ := List.mem_ite_nil_right.mp hc
      exact ⟨i, hm, kind, hc⟩
  · rintro ⟨i, hi, kind, hc⟩
    exact ⟨_, hi, List.mem_ite_nil_right.mpr ⟨kind, hc⟩⟩

/-- The types placed in a method are its own or, in a designated constructor, copied ones. -/
theorem mem_placed_method {isInterface : Bool} {instances : List TypeDecl} {m : MethodDecl}
    {c : TypeDecl} :
    c ∈ (Member.method m).placed isInterface instances ↔
      c ∈ Stmt.localTypesOf m.statements ∨ (!isInterface && m.isDesignated) = true ∧
      c ∈ instances := by
  cases designated : !isInterface && m.isDesignated with
  | false =>
    rw [Member.placed_method designated]
    simp
  | true =>
    have whole : Stmt.localTypesOf m.statements =
        Stmt.localTypesOf (m.statements.take m.statementsBefore) ++
          Stmt.localTypesOf (m.statements.drop m.statementsBefore) := by
      rw [← Stmt.localTypesOf_append, List.take_append_drop]
    rw [Member.placed_designated designated, whole]
    simp only [List.mem_append]
    tauto

/-- Only types inside a type are placed. -/
theorem mem_inner_of_mem_placedInner {isInterface : Bool} {c : TypeDecl}
    (hc : c ∈ d.placedInner isInterface) : c ∈ d.inner := by
  have fromBlock : ∀ once, c ∈ blockTypes once d.members → c ∈ d.inner := by
    intro once hc
    obtain ⟨i, hi, -, hc⟩ := mem_blockTypes.mp hc
    exact TypeDecl.mem_inner.mpr ⟨_, hi, hc⟩
  simp only [TypeDecl.placedInner, List.mem_append] at hc
  rcases hc with hc | hc | hc | hc
  · exact List.mem_append_left _ hc
  · obtain ⟨m, hm, hc⟩ := List.mem_flatMap.mp hc
    cases m with
    | type | initializer | field => exact absurd hc List.not_mem_nil
    | method m =>
      rcases mem_placed_method.mp hc with hc | ⟨-, hc⟩
      · exact TypeDecl.mem_inner.mpr ⟨_, hm, hc⟩
      · exact fromBlock false hc
  · exact fromBlock false (List.mem_ite_nil_right.mp hc).2
  · exact fromBlock true hc

/-- A type inside a type is placed, or it stands in a block for instances and there are none to
initialize. -/
theorem mem_placedInner_or {c : TypeDecl} (hc : c ∈ d.inner) :
    c ∈ d.placedInner (d.isInterfaceIn t) ∨
      ¬ d.InitializesInstances t ∧ c ∈ blockTypes false d.members := by
  simp only [TypeDecl.placedInner, List.mem_append]
  obtain ⟨m, hm, hc⟩ := TypeDecl.mem_inner.mp hc
  cases m with
  | type x =>
    obtain rfl := List.mem_singleton.mp hc
    exact .inl (.inl (List.mem_filterMap.mpr ⟨_, hm, rfl⟩))
  | field f => exact absurd hc List.not_mem_nil
  | method m =>
    exact .inl (.inr (.inl (List.mem_flatMap.mpr ⟨_, hm, mem_placed_method.mpr (.inl hc)⟩)))
  | initializer i =>
    have hc : c ∈ Stmt.localTypesOf i.body.statements := hc
    have listed : c ∈ blockTypes i.isStatic d.members := mem_blockTypes.mpr ⟨i, hm, rfl, hc⟩
    cases kind : i.isStatic with
    | true => exact .inl (.inr (.inr (.inr (kind ▸ listed))))
    | false =>
      rw [kind] at listed
      by_cases initializes : d.InitializesInstances t
      · refine .inl (.inr ?_)
        obtain ⟨isClass, bare | ⟨m, hm, designated⟩⟩ := initializes
        · exact .inr (.inl (List.mem_ite_nil_right.mpr ⟨⟨isClass, bare⟩, listed⟩))
        · obtain ⟨n, hn, isMethod⟩ := List.mem_filterMap.mp (List.mem_filter.mp hm).1
          cases n with
          | type | initializer | field => cases isMethod
          | method n =>
            cases isMethod
            refine .inl (List.mem_flatMap.mpr ⟨_, hn, mem_placed_method.mpr (.inr ⟨?_, listed⟩)⟩)
            rw [isClass, designated]
            rfl
      · exact .inr ⟨initializes, listed⟩

/-- Only declarations of the type are placed. -/
theorem mem_declarations_of_mem_placed (levels : Nat) {d x : TypeDecl}
    (hx : x ∈ d.placed t levels) :
    x ∈ d.declarations := by
  induction levels generalizing d with
  | zero => exact absurd hx List.not_mem_nil
  | succ levels ih =>
    rw [TypeDecl.declarations_eq]
    rcases List.mem_cons.mp hx with rfl | hx
    · exact List.mem_cons_self
    · obtain ⟨c, hc, hx⟩ := List.mem_flatMap.mp hx
      exact List.mem_cons_of_mem
        _ (List.mem_flatMap.mpr ⟨c, mem_inner_of_mem_placedInner hc, ih hx⟩)

/-- Every declaration in a type that is lowered is placed, or a type in it drops it. -/
theorem mem_placed_or_drops (levels : Nat) {d d' x : TypeDecl} {s s' : State}
    (run : lowerType options levels d s = (.done d', s')) (hx : x ∈ d.declarations) :
    x ∈ d.placed t levels ∨ ∃ y ∈ d.declarations, y.Drops t x := by
  induction levels generalizing d d' s s' with
  | zero => exact absurd run Edit.stop_ne_done
  | succ levels ih =>
    rw [TypeDecl.declarations_eq] at hx
    rcases List.mem_cons.mp hx with rfl | hx
    · exact .inl List.mem_cons_self
    · obtain ⟨c, hc, hx⟩ := List.mem_flatMap.mp hx
      have inside : ∀ y ∈ c.declarations, y ∈ d.declarations := by
        intro y hy
        rw [TypeDecl.declarations_eq]
        exact List.mem_cons_of_mem _ (List.mem_flatMap.mpr ⟨c, hc, hy⟩)
      rcases mem_placedInner_or (t := t) hc with hplaced | ⟨none, hblock⟩
      · obtain ⟨_, _, d₁, s₁, _, -, -, nested, -, -⟩ := lowerType_steps run
        obtain ⟨listed, -, -⟩ := lowerNested_done nested
        obtain ⟨c', s₂, s₃, -, step, -⟩ := Edit.exists_run_of_mem State.Grows.refl State.Grows.trans
          (lowerType_moves _ levels) listed hc
        rcases ih step hx with hx | ⟨y, hy, drops⟩
        · exact .inl (List.mem_cons_of_mem _ (List.mem_flatMap.mpr ⟨c, hplaced, hx⟩))
        · exact .inr ⟨y, inside y hy, drops⟩
      · exact .inr ⟨d, d.mem_declarations_self, none, c, hblock, hx⟩

end Lowering

/-! ## Units -/

namespace CompilationUnit

variable {u : CompilationUnit} {t : BindingTable} {options : Lowering.Options}
  {stats : Lowering.Stats}

/-- The declarations of a lowered unit are what the declarations of the unit become, each where it
is placed. -/
theorem lower_placed (success : (u.lower t options).result = .ok stats) :
    List.Forall₂ (Lowering.Becomes options t) (u.placed t)
      (u.lower t options).unit.declarations := by
  obtain ⟨-, tops⟩ :=
    Edit.forall₂_steps_of_done Lowering.State.Grows.refl Lowering.State.Grows.trans
    (fun d _ _ _ run => (Lowering.lowerType_moves options (Limits.typeNesting + 1) d).run run)
    (lower_run success)
  exact List.rel_flatMap tops fun _ _ ⟨_, _, before, step, _⟩ =>
    Lowering.lowerType_placed _ before step

/-- Every declaration of a unit that is lowered is placed, unless it stands in a block for instances
of a type that initializes none. -/
theorem mem_placed_or_drops (success : (u.lower t options).result = .ok stats) {x : TypeDecl}
    (hx : x ∈ u.declarations) : x ∈ u.placed t ∨ ∃ y ∈ u.declarations, y.Drops t x := by
  obtain ⟨d, hd, hx⟩ := List.mem_flatMap.mp hx
  obtain ⟨d', s₁, s₂, -, step, -⟩ := Edit.exists_run_of_mem Lowering.State.Grows.refl
    Lowering.State.Grows.trans (Lowering.lowerType_moves options (Limits.typeNesting + 1))
    (lower_run success) hd
  rcases Lowering.mem_placed_or_drops (t := t) _ step hx with hx | ⟨y, hy, drops⟩
  · exact .inl (List.mem_flatMap.mpr ⟨d, hd, hx⟩)
  · exact .inr ⟨y, List.mem_flatMap.mpr ⟨d, hd, hy⟩, drops⟩

theorem mem_declarations_of_mem_placed {x : TypeDecl} (hx : x ∈ u.placed t) :
    x ∈ u.declarations := by
  obtain ⟨d, hd, hx⟩ := List.mem_flatMap.mp hx
  exact List.mem_flatMap.mpr ⟨d, hd, Lowering.mem_declarations_of_mem_placed _ hx⟩

end CompilationUnit

end ClassInit
