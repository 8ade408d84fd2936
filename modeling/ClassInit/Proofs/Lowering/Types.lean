import ClassInit.Proofs.Lowering.Constructors

/-!
# Types come out by the rules

A type that is lowered comes out of the type with its nested types lowered as `TypeLowered` says
(`lowerType_members`). What happens to the nested types before that is an edit of each of them, in
the order in which `TypeDecl.inner` lists them, that leaves everything else alone
(`lowerNested_done`).
-/

set_option autoImplicit false

namespace ClassInit.Lowering

variable {options : Options} {type : TypeId} {s s' : State}

/-! ## Synthesized members -/

/-- A member that is made: a method without parameters and result. -/
def madeMethod (n bodyId : NodeId) (name : String) (modifiers : Modifiers) (isConstructor : Bool)
    (handle : MethodId) (ss : List Stmt) : MethodDecl :=
  ⟨⟨n, .dummy, name, modifiers, .void, [], isConstructor, some handle, true⟩,
    some ⟨⟨bodyId, .dummy⟩, ss⟩⟩

/-- The entry of a static routine that is made. -/
def routineEntry (owner : TypeId) (name : String) : MethodBinding :=
  ⟨name, owner, routineModifiers, .void, [], false, true⟩

/-- What adding a default constructor makes of the type, and of the state. -/
theorem addDefaultConstructor_ok {instances : List Stmt} {d d' : TypeDecl}
    (run : addDefaultConstructor type instances d s = (.done d', s')) :
    ∃ descriptor superclass, s.table.typeAt type = .ok descriptor ∧
      s.table.superclass type = .ok superclass ∧
      d' = appendMethod d (madeMethod ⟨s.supply.next + 1 + 1⟩ ⟨s.supply.next + 1⟩ d.name
        descriptor.modifiers.access true ⟨s.table.methods.size + 1⟩
        (.superCall ⟨⟨s.supply.next⟩, .dummy⟩ [] (some ⟨s.table.methods.size⟩) :: instances)) ∧
      s' =
        { table := ((s.table.addMethod
            (constructorEntry superclass descriptor.modifiers.access)).2.addMethod
              (constructorEntry type descriptor.modifiers.access)).2
          supply := ⟨s.supply.next + 1 + 1 + 1⟩
          stats := { s.stats with defaultConstructors := s.stats.defaultConstructors + 1 } } := by
  obtain ⟨m, s₁, hm, run⟩ := Step.bind_eq_ok.mp (editBy_eq_done.mp run)
  obtain ⟨u, s₂, hcount, hpure⟩ := Step.bind_eq_ok.mp run
  obtain ⟨rfl, rfl⟩ := Step.pure_eq_ok.mp hpure
  obtain ⟨-, rfl⟩ := Prod.mk.inj (Step.lift_eq_ok.mp hcount)
  obtain ⟨descriptor, s₃, hask, hm⟩ := Step.bind_eq_ok.mp hm
  obtain ⟨described, rfl⟩ := ask_eq_ok.mp hask
  obtain ⟨superclass, s₄, hask, hm⟩ := Step.bind_eq_ok.mp hm
  obtain ⟨asked, rfl⟩ := ask_eq_ok.mp hask
  obtain ⟨superBinding, s₅, henter, hm⟩ := Step.bind_eq_ok.mp hm
  obtain ⟨rfl, rfl⟩ := enter_newConstructor_ok henter
  obtain ⟨binding, s₆, henter, hm⟩ := Step.bind_eq_ok.mp hm
  obtain ⟨rfl, rfl⟩ := enter_newConstructor_ok henter
  obtain ⟨call, s₇, hcall, hm⟩ := Step.bind_eq_ok.mp hm
  obtain ⟨rfl, rfl⟩ := mint_eq_ok.mp hcall
  obtain ⟨rfl, rfl⟩ := mint_eq_ok.mp hm
  refine ⟨descriptor, superclass, described, asked, ?_, rfl⟩
  rw [← Array.size_push]
  rfl

theorem addDefaultConstructor_done {t : BindingTable} {descriptor : TypeDescriptor}
    {instances : List Stmt} {d d' : TypeDecl} (grown : t.Grows s.table)
    (described : t.typeAt type = .ok descriptor)
    (run : addDefaultConstructor type instances d s = (.done d', s')) :
    ∃ m, d' = { d with members := d.members ++ [m] } ∧
      DefaultConstructor d.name descriptor.modifiers.access instances m := by
  obtain ⟨descriptor', superclass, described', -, rfl, -⟩ := addDefaultConstructor_ok run
  rw [grown.typeAt, described] at described'
  cases described'
  exact ⟨_, rfl, _, instances, ⟨_, _, rfl⟩, SameStmts.refl _, _, _, _, rfl⟩

/-- What adding the static routine makes of the type, and of the state. -/
theorem addClassInitializer_ok {statics : List Stmt} {d d' : TypeDecl}
    (run : addClassInitializer options type statics d s = (.done d', s')) :
    d.findMethod? options.classInitializerName 0 = none ∧
      d' = appendMethod d (madeMethod ⟨s.supply.next + 1⟩ ⟨s.supply.next⟩
        options.classInitializerName routineModifiers false ⟨s.table.methods.size⟩ statics) ∧
      s' =
        { table := (s.table.addMethod (routineEntry type options.classInitializerName)).2
          supply := ⟨s.supply.next + 1 + 1⟩
          stats := { s.stats with classInitializers := s.stats.classInitializers + 1 } } := by
  obtain ⟨m, s₁, hm, run⟩ := Step.bind_eq_ok.mp (editBy_eq_done.mp run)
  obtain ⟨u, s₂, hcount, hpure⟩ := Step.bind_eq_ok.mp run
  obtain ⟨rfl, rfl⟩ := Step.pure_eq_ok.mp hpure
  obtain ⟨-, rfl⟩ := Prod.mk.inj (Step.lift_eq_ok.mp hcount)
  unfold classInitializer at hm
  dsimp only at hm
  split at hm
  · exact absurd hm Step.throw_ne_ok
  · rename_i notTaken
    obtain ⟨binding, s₃, henter, hm⟩ := Step.bind_eq_ok.mp hm
    obtain ⟨table, added, rfl⟩ := enter_eq_ok.mp henter
    obtain ⟨-, added⟩ := newMethod_eq_ok.mp added
    obtain ⟨rfl, rfl⟩ := Prod.mk.inj added
    obtain ⟨rfl, rfl⟩ := mint_eq_ok.mp hm
    exact ⟨notTaken, rfl, rfl⟩

theorem addClassInitializer_done {statics : List Stmt} {d d' : TypeDecl}
    (run : addClassInitializer options type statics d s = (.done d', s')) :
    ∃ m, d' = { d with members := d.members ++ [m] } ∧
      StaticRoutine options.classInitializerName statics m := by
  obtain ⟨-, rfl, -⟩ := addClassInitializer_ok run
  exact ⟨_, rfl, statics, SameStmts.refl _, _, _, _, rfl⟩

theorem DefaultConstructor.congr {name : String} {access : Modifiers}
    {instances instances' : List Stmt} (same : SameStmts instances instances') {m : Member}
    (made : DefaultConstructor name access instances m) :
    DefaultConstructor name access instances' m := by
  obtain ⟨call, ss, implicit, listed, synthesized⟩ := made
  exact ⟨call, ss, implicit, listed.trans same, synthesized⟩

theorem StaticRoutine.congr {name : String} {statics statics' : List Stmt}
    (same : SameStmts statics statics') {m : Member} (made : StaticRoutine name statics m) :
    StaticRoutine name statics' m := by
  obtain ⟨ss, listed, synthesized⟩ := made
  exact ⟨ss, listed.trans same, synthesized⟩

/-! ## The parts of a run -/

theorem lowerInstances_steps {instances : List Stmt} {d d' : TypeDecl}
    (run : lowerInstances type instances d s = (.done d', s')) :
    ∃ ms s₁, Edit.list (lowerMember d.name type instances) d.members s = (.done ms, s₁) ∧
      (d.constructors = [] ∧
          addDefaultConstructor type instances ⟨d.head, ms⟩ s₁ = (.done d', s') ∨
        d.constructors ≠ [] ∧ d' = ⟨d.head, ms⟩ ∧ s' = s₁) := by
  obtain ⟨d₁, s₁, hmembers, hmade⟩ := Edit.seq_eq_done.mp run
  obtain ⟨ms, hms, rfl⟩ := Edit.map_eq_done.mp hmembers
  have declared := constructors_eq_nil_of_run hms
  refine ⟨ms, s₁, hms, ?_⟩
  split at hmade
  · rename_i none
    exact .inl ⟨declared.mp (List.isEmpty_iff.mp none), hmade⟩
  · rename_i some
    obtain ⟨rfl, rfl⟩ := Edit.keep_eq_done.mp hmade
    exact .inr ⟨fun none => some (List.isEmpty_iff.mpr (declared.mpr none)), rfl, rfl⟩

theorem lowerStatics_cases {statics : List Stmt} {d d' : TypeDecl}
    (run : lowerStatics options type statics d s = (.done d', s')) :
    statics = [] ∧ d' = d ∧ s' = s ∨
      statics ≠ [] ∧ addClassInitializer options type statics d s = (.done d', s') := by
  unfold lowerStatics at run
  split at run
  · rename_i nothing
    obtain ⟨rfl, rfl⟩ := Edit.keep_eq_done.mp run
    exact .inl ⟨List.isEmpty_iff.mp nothing, rfl, rfl⟩
  · rename_i something
    exact .inr ⟨fun nothing => something (List.isEmpty_iff.mpr nothing), run⟩

theorem lowerOwn_steps {isInterface : Bool} {d d' : TypeDecl}
    (run : lowerOwn options type isInterface d s = (.done d', s')) :
    ∃ d₁ lists s₁ d₂ s₂, collect options isInterface d s = (.done (d₁, lists), s₁) ∧
      (isInterface = true ∧ d₂ = d₁ ∧ s₂ = s₁ ∨
        isInterface = false ∧ lowerInstances type lists.instances d₁ s₁ = (.done d₂, s₂)) ∧
      lowerStatics options type lists.statics d₂ s₂ = (.done d', s') := by
  obtain ⟨⟨d₁, lists⟩, s₁, hcollect, run⟩ := Edit.andThen_eq_done.mp run
  obtain ⟨d₂, s₂, hinstances, hstatics⟩ := Edit.seq_eq_done.mp run
  refine ⟨d₁, lists, s₁, d₂, s₂, hcollect, ?_, hstatics⟩
  split at hinstances
  · rename_i isInterface
    obtain ⟨rfl, rfl⟩ := Edit.keep_eq_done.mp hinstances
    exact .inl ⟨isInterface, rfl, rfl⟩
  · rename_i isClass
    exact .inr ⟨Bool.eq_false_iff.mpr isClass, hinstances⟩

/-! ## One type -/

/-- What a class or enum is left with when its instances have their initialization. -/
theorem lowerInstances_done {t : BindingTable} {encoding : LiteralEncoding}
    {descriptor : TypeDescriptor} {instances instances' : List Stmt} {d₀ d d' : TypeDecl}
    (grown : t.Grows s.table) (described : t.typeAt type = .ok descriptor)
    (same : SameStmts instances instances') (head : d.head = d₀.head)
    (collected : List.Forall₂ (MemberCollected t encoding false) (d₀.members.filter survives)
      d.members)
    (run : lowerInstances type instances d s = (.done d', s')) :
    d'.head = d₀.head ∧ ∃ kept made : List Member, d'.members = kept ++ made ∧
      List.Forall₂ (MemberLowered t encoding false instances') (d₀.members.filter survives) kept ∧
      (if d₀.constructors = [] then
        ∃ m, made = [m] ∧ DefaultConstructor d₀.name descriptor.modifiers.access instances' m
      else made = []) := by
  obtain ⟨ms, s₁, hms, hmade⟩ := lowerInstances_steps run
  have kept := lowerMembers_done same collected hms
  have declared : d.constructors = d₀.constructors :=
    congrArg (List.filter _) (methods_of_collected collected)
  rw [declared] at hmade
  rcases hmade with ⟨none, hmade⟩ | ⟨some, rfl, -⟩
  · have moved : s.table.Grows s₁.table := (lowerMembers_moves _ _ _ _).run hms
    obtain ⟨m, rfl, made⟩ := addDefaultConstructor_done (grown.trans moved) described hmade
    refine ⟨head, ms, [m], rfl, kept, ?_⟩
    have name : (TypeDecl.mk d.head ms).name = d₀.name := congrArg TypeHead.name head
    rw [name] at made
    rw [if_pos none]
    exact ⟨m, rfl, made.congr same⟩
  · refine ⟨head, ms, [], (List.append_nil ms).symm, kept, ?_⟩
    rw [if_neg some]

/-- What a type is left with when it has its static routine. -/
theorem lowerStatics_done {statics statics' : List Stmt} {d d' : TypeDecl}
    (same : SameStmts statics statics')
    (run : lowerStatics options type statics d s = (.done d', s')) :
    d'.head = d.head ∧ ∃ routine : List Member, d'.members = d.members ++ routine ∧
      (if statics' = [] then routine = []
      else ∃ m, routine = [m] ∧ StaticRoutine options.classInitializerName statics' m) := by
  rcases lowerStatics_cases run with ⟨nothing, rfl, -⟩ | ⟨something, run⟩
  · refine ⟨rfl, [], (List.append_nil _).symm, ?_⟩
    rw [if_pos (same.nil_iff.mp nothing)]
  · obtain ⟨m, rfl, routine⟩ := addClassInitializer_done run
    refine ⟨rfl, [m], rfl, ?_⟩
    rw [if_neg fun nothing => something (same.nil_iff.mpr nothing)]
    exact ⟨m, rfl, routine.congr same⟩

/-- A type comes out of its own lowering by the rules. -/
theorem lowerOwn_done {t : BindingTable} {descriptor : TypeDescriptor} {d d' : TypeDecl}
    (grown : t.Grows s.table) (described : t.typeAt type = .ok descriptor)
    (run : lowerOwn options type descriptor.isInterface d s = (.done d', s')) :
    TypeLowered options t descriptor.isInterface descriptor.modifiers.access d d' := by
  obtain ⟨d₁, lists, s₁, d₂, s₂, hcollect, hinstances, hstatics⟩ := lowerOwn_steps run
  obtain ⟨head, collected, instances, statics⟩ := collect_done grown hcollect
  obtain ⟨head', routine, members, hroutine⟩ := lowerStatics_done statics hstatics
  rcases hinstances with ⟨isInterface, rfl, -⟩ | ⟨isClass, hinstances⟩
  · rw [isInterface] at collected hroutine ⊢
    refine ⟨head'.trans head, d₂.members, [], routine, members, ?_, ?_, hroutine⟩
    · exact collected.imp fun _ _ one => one.lowered
    · rw [if_neg (by simp)]
  · rw [isClass] at collected instances hroutine ⊢
    have moved : s.table.Grows s₁.table := ((collect_moves _ _ _).run hcollect).grows
    obtain ⟨head'', kept, made, members', hkept, hmade⟩ :=
      lowerInstances_done (grown.trans moved) described instances head collected hinstances
    refine ⟨head'.trans head'', kept, made, routine, ?_, hkept, ?_, hroutine⟩
    · rw [members, members', List.append_assoc]
    · simpa using hmade

/-! ## Nested types -/

section

variable {nested : TypeDecl → Edit State Failure TypeDecl}

theorem lowerMemberTypes_done {ms ms' : List Member}
    (run : Edit.list (lowerMemberType nested) ms s = (.done ms', s')) :
    Edit.list nested (ms.filterMap Member.asType) s = (.done (ms'.filterMap Member.asType), s') ∧
      ms'.map Member.outline = ms.map Member.outline ∧
      ms'.flatMap Member.localTypes = ms.flatMap Member.localTypes := by
  induction ms generalizing ms' s with
  | nil =>
    obtain ⟨rfl, rfl⟩ := Edit.list_nil_eq_done.mp run
    exact ⟨rfl, rfl, rfl⟩
  | cons m ms ih =>
    obtain ⟨m', s₁, rest, hm, hrest, rfl⟩ := Edit.list_cons_eq_done.mp run
    obtain ⟨listed, outline, bodies⟩ := ih hrest
    cases m with
    | type d =>
      obtain ⟨d', hd, rfl⟩ := Edit.map_eq_done.mp hm
      refine ⟨Edit.list_cons_eq_done.mpr ⟨d', s₁, _, hd, listed, rfl⟩, ?_, ?_⟩
      · rw [List.map_cons, List.map_cons, outline]
        rfl
      · rw [List.flatMap_cons, List.flatMap_cons, bodies]
        rfl
    | method m | initializer i | field f =>
      obtain ⟨rfl, rfl⟩ := Edit.keep_eq_done.mp hm
      refine ⟨listed, ?_, ?_⟩
      · rw [List.map_cons, List.map_cons, outline]
      · rw [List.flatMap_cons, List.flatMap_cons, bodies]

/-- Lowering the nested types of a type lowers the types directly inside it, one after the other,
and touches nothing else. -/
theorem lowerNested_done {d d' : TypeDecl} (run : lowerNested nested d s = (.done d', s')) :
    Edit.list nested d.inner s = (.done d'.inner, s') ∧ d'.head = d.head ∧
      d'.members.map Member.outline = d.members.map Member.outline := by
  obtain ⟨d₁, s₁, hmembers, hbodies⟩ := Edit.seq_eq_done.mp run
  obtain ⟨ms, hms, rfl⟩ := Edit.map_eq_done.mp hmembers
  obtain ⟨listed, outline, bodies⟩ := lowerMemberTypes_done hms
  obtain ⟨listed', head, outline', types⟩ := TypeDecl.editLocalTypes_done hbodies
  refine ⟨?_, head, outline'.trans outline⟩
  have members : d'.memberTypes = ms.filterMap Member.asType := types
  rw [TypeDecl.inner, TypeDecl.inner, members]
  rw [bodies] at listed'
  exact Edit.list_append_done listed listed'

theorem lowerNested_memberTypes {d d' : TypeDecl}
    (run : lowerNested nested d s = (.done d', s')) :
    ∃ s₁, Edit.list nested d.memberTypes s = (.done d'.memberTypes, s₁) := by
  obtain ⟨d₁, s₁, hmembers, hbodies⟩ := Edit.seq_eq_done.mp run
  obtain ⟨ms, hms, rfl⟩ := Edit.map_eq_done.mp hmembers
  obtain ⟨listed, -, -⟩ := lowerMemberTypes_done hms
  obtain ⟨-, -, -, types⟩ := TypeDecl.editLocalTypes_done hbodies
  refine ⟨s₁, ?_⟩
  rw [types]
  exact listed

end

theorem identify_ok {d : TypeDecl} {type : TypeId} {isInterface : Bool}
    (run : (identify d).run s = (.ok (type, isInterface), s')) :
    d.head.binding = some type ∧ s' = s ∧
      ∃ descriptor, s.table.typeAt type = .ok descriptor ∧
        descriptor.isInterface = isInterface := by
  unfold identify at run
  split at run
  · exact absurd run Step.throw_ne_ok
  · rename_i id bound
    obtain ⟨isInterface', s₁, hask, hpure⟩ := Step.bind_eq_ok.mp run
    obtain ⟨h, rfl⟩ := Step.pure_eq_ok.mp hpure
    obtain ⟨rfl, rfl⟩ := Prod.mk.inj h
    obtain ⟨asked, rfl⟩ := ask_eq_ok.mp hask
    unfold BindingTable.isInterface at asked
    rcases described : s.table.typeAt id with e | descriptor
    · rw [described] at asked
      exact absurd asked (by simp [bind, Except.bind])
    · rw [described] at asked
      exact ⟨bound, rfl, descriptor,
        rfl, by simpa [bind, Except.bind, pure, Except.pure] using asked⟩

/-- A type is identified by its handle. -/
theorem identify_run {d : TypeDecl} {descriptor : TypeDescriptor}
    (bound : d.head.binding = some type) (described : s.table.typeAt type = .ok descriptor) :
    (identify d).run s = (.ok (type, descriptor.isInterface), s) := by
  unfold identify
  rw [bound]
  refine Step.bind_eq_ok.mpr ⟨descriptor.isInterface, s, ask_eq_ok.mpr ⟨?_, rfl⟩, rfl⟩
  rw [BindingTable.isInterface, described]
  rfl

theorem lowerType_eq_done {levels : Nat} {d d' : TypeDecl} :
    lowerType options (levels + 1) d s = (.done d', s') ↔
      ∃ x s₁, (identify d).run s = (.ok x, s₁) ∧
        (((lowerNested (lowerType options levels) d).seq (lowerOwn options x.1 x.2)).seq countType)
          s₁ =
          (.done d', s') := by
  unfold lowerType
  generalize ((identify d).run s : Except Failure (TypeId × Bool) × State) = r
  rcases r with ⟨e | x, s₁⟩
  · constructor
    · intro run
      exact absurd run (by simp)
    · rintro ⟨x, s₂, none, -⟩
      cases none
  · constructor
    · intro run
      exact ⟨x, s₁, rfl, run⟩
    · rintro ⟨y, s₂, found, run⟩
      cases found
      exact run

/-- The parts of a run that lowers a type. -/
theorem lowerType_steps {levels : Nat} {d d' : TypeDecl}
    (run : lowerType options (levels + 1) d s = (.done d', s')) :
    ∃ type descriptor d₁ s₁ s₂, d.head.binding = some type ∧
      s.table.typeAt type = .ok descriptor ∧
      lowerNested (lowerType options levels) d s = (.done d₁, s₁) ∧
      lowerOwn options type descriptor.isInterface d₁ s₁ = (.done d', s₂) ∧
      s' = { s₂ with stats := { s₂.stats with types := s₂.stats.types + 1 } } := by
  obtain ⟨⟨type, isInterface⟩, s₁, hrun, run⟩ := lowerType_eq_done.mp run
  obtain ⟨bound, rfl, descriptor, described, rfl⟩ := identify_ok hrun
  obtain ⟨d₂, s₂, hown, hcount⟩ := Edit.seq_eq_done.mp run
  obtain ⟨d₁, s₃, hnested, hown⟩ := Edit.seq_eq_done.mp hown
  obtain ⟨rfl, rfl⟩ := Prod.mk.inj (Edit.ofState_eq_done.mp hcount)
  exact ⟨type, descriptor, d₁, s₃, s₂, bound, described, hnested, hown, rfl⟩

/-- Lowering a type that succeeds finds the entry of the type, lowers the nested types and then the
type itself by the rules. What the table says at the start of a longer run is what counts. -/
theorem lowerType_done {t : BindingTable} {levels : Nat} {d d' : TypeDecl} (grown : t.Grows s.table)
    (run : lowerType options (levels + 1) d s = (.done d', s')) :
    ∃ type descriptor d₁ s₁, d.head.binding = some type ∧ t.typeAt type = .ok descriptor ∧
      lowerNested (lowerType options levels) d s = (.done d₁, s₁) ∧ s₁.table.Grows s'.table ∧
      TypeLowered options t descriptor.isInterface descriptor.modifiers.access d₁ d' := by
  obtain ⟨type, descriptor, d₁, s₁, s₂, bound, described, nested, own, rfl⟩ := lowerType_steps run
  rw [grown.typeAt] at described
  have moved : s.table.Grows s₁.table :=
    (lowerNested_moves (lowerType_moves options levels) d).run nested
  have moved' : s₁.table.Grows s₂.table := (lowerOwn_moves _ _ _ d₁).run own
  exact ⟨type, descriptor, d₁, s₁, bound, described, nested, moved',
    lowerOwn_done (grown.trans moved) described own⟩

/-- The rules for a type whose entry is known and whose nested types are lowered already. -/
theorem lowerType_own {levels : Nat} {d d₁ d' : TypeDecl} {s₁ : State} {descriptor : TypeDescriptor}
    (bound : d.head.binding = some type) (described : s.table.typeAt type = .ok descriptor)
    (nested : lowerNested (lowerType options levels) d s = (.done d₁, s₁))
    (run : lowerType options (levels + 1) d s = (.done d', s')) :
    TypeLowered options s.table descriptor.isInterface descriptor.modifiers.access d₁ d' := by
  obtain ⟨type', descriptor', d₂, s₂, bound', described', nested', -, lowered⟩ :=
    lowerType_done (BindingTable.Grows.refl s.table) run
  rw [bound] at bound'
  cases bound'
  rw [described] at described'
  cases described'
  rw [nested] at nested'
  cases nested'
  exact lowered

theorem isInterface_eq_false {descriptor : TypeDescriptor}
    (kind : descriptor.kind = .classType ∨ descriptor.kind = .enumType) :
    descriptor.isInterface = false := by
  unfold TypeDescriptor.isInterface
  rcases kind with kind | kind <;> rw [kind] <;> rfl

/-- A class or enum that is lowered comes out of the same type with its nested types lowered by the
rules: the initializer blocks go, instance fields lose their initializers, static ones keep them
only as literals or constants, constructors get the instance list after their call of the superclass
constructor, and a default constructor and a static routine are added where they are needed. -/
theorem lowerType_members {levels : Nat} {d d' : TypeDecl} {descriptor : TypeDescriptor}
    (bound : d.head.binding = some type) (described : s.table.typeAt type = .ok descriptor)
    (kind : descriptor.kind = .classType ∨ descriptor.kind = .enumType)
    (run : lowerType options (levels + 1) d s = (.done d', s')) :
    ∃ d₁ s₁, lowerNested (lowerType options levels) d s = (.done d₁, s₁) ∧
      TypeLowered options s.table false descriptor.modifiers.access d₁ d' := by
  obtain ⟨_, _, d₁, s₁, -, -, nested, -⟩ := lowerType_done (BindingTable.Grows.refl s.table) run
  have lowered := lowerType_own bound described nested run
  rw [isInterface_eq_false kind] at lowered
  exact ⟨d₁, s₁, nested, lowered⟩

/-- `class A { int x = 1; static int z, y = z; { ; } A() { super(); ; } A(int n) { this(); } }`. -/
def sampleClass : TypeDecl :=
  let i : ExprInfo := ⟨.unassigned, .dummy, none⟩
  let n : NodeInfo := ⟨.unassigned, .dummy⟩
  let constructor (parameters : List Parameter) (ss : List Stmt) : Member :=
    .method ⟨⟨.unassigned, .dummy, "A", .empty, .void, parameters, true, none, false⟩,
      some ⟨n, ss⟩⟩
  ⟨⟨.unassigned, .dummy, .classType, "A", .empty, none, some ⟨2⟩, []⟩,
    [.field ⟨.unassigned, .dummy, .empty, .primitive .int,
        [⟨.dummy, "x", some (.literal i (.int 1)), some ⟨0⟩⟩]⟩,
      .field ⟨.unassigned, .dummy, .of .static, .primitive .int,
        [⟨.dummy, "z", none, some ⟨1⟩⟩, ⟨.dummy, "y", some (.name i "z" (some ⟨1⟩)), some ⟨2⟩⟩]⟩,
      .initializer ⟨n, false, ⟨n, [.empty n]⟩⟩,
      constructor [] [.superCall n [] none, .empty n],
      constructor [⟨"n", .primitive .int, none⟩] [.thisCall n [] none]]⟩

/-- A state that knows the sample class. -/
def sampleState : State :=
  ⟨⟨#[BindingTable.external Names.objectType, BindingTable.external Names.stringType,
      ⟨"A", .classType, .empty, some ⟨0⟩, none⟩],
    #[⟨"x", .primitive .int, .empty, some ⟨2⟩, true, none⟩,
      ⟨"z", .primitive .int, .of .static, some ⟨2⟩, true, none⟩,
      ⟨"y", .primitive .int, .of .static, some ⟨2⟩, true, none⟩],
    #[], _, rfl⟩, .initial, .zero⟩

theorem lowerType_members_sample : ∃ d' s' d₁ s₁,
    lowerType .standard 1 sampleClass sampleState = (.done d', s') ∧
      lowerNested (lowerType .standard 0) sampleClass sampleState = (.done d₁, s₁) ∧
      TypeLowered .standard sampleState.table false .empty d₁ d' := by
  have run : ∃ d' s', lowerType .standard 1 sampleClass sampleState = (.done d', s') := ⟨_, _, rfl⟩
  obtain ⟨d', s', run⟩ := run
  obtain ⟨d₁, s₁, nested, lowered⟩ := lowerType_members rfl rfl (.inl rfl) run
  exact ⟨d', s', d₁, s₁, run, nested, lowered⟩

end ClassInit.Lowering
