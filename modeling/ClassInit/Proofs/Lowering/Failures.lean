import ClassInit.Proofs.Lowering.Refusals

/-!
# When lowering fails

A unit that is ready is lowered exactly if no type in it is refused
(`CompilationUnit.lower_fails_iff`), and a unit without handles is ready once it is bound, which
fails only for types that lie too deep (`CompilationUnit.failures_of_unbound`).
-/

set_option autoImplicit false

namespace ClassInit

namespace Lowering

/-! ## Collecting -/

section

variable {t : BindingTable} {options : Options} {name : String} {isInterface : Bool}
  {E : Failure → Prop}

/-- Collecting asks the table about variables only. -/
theorem classify_succeeds {v : VariableId} (known : v.index < t.vars.size)
    (encoding : LiteralEncoding) (e : Expr) (t' : BindingTable) (grown : t.Grows t') :
    ∃ fate, classify t' encoding e v = .ok fate ∧ True := by
  rw [grown.classify]
  unfold classify BindingTable.isPrimitiveConstant BindingTable.variableAt
  rw [Array.getElem?_eq_getElem known]
  split
  · exact ⟨_, rfl, trivial⟩
  · show ∃ fate, (if (t.vars[v.index]).isPrimitiveConstant then pure Eligibility.keep
      else pure (.ofConstant encoding (t.constantValue e)) : Except ResolveError _) =
        .ok fate ∧ True
    split
    · exact ⟨_, rfl, trivial⟩
    · exact ⟨_, rfl, trivial⟩

theorem collectFragment_keeps {once : Bool} {type : TypeRef} {lists : InitLists} {f : Fragment}
    (known : ∃ v, f.binding = some v ∧ v.index < t.vars.size) :
    Step.Keeps (State.After t) (collectFragment options name once type lists f) (fun _ => True)
      E := by
  obtain ⟨v, bound, known⟩ := known
  unfold collectFragment
  rw [bound]
  cases f.initializer with
  | none => exact .pure trivial
  | some e =>
    refine .bind (Q := fun _ => True) ?_ fun fate _ => ?_
    · unfold eligibility
      split
      · exact ask_keeps (classify_succeeds known _ _)
      · exact .pure trivial
    cases fate with
    | keep => exact .bind (count_keeps _) fun _ _ => .pure trivial
    | fold c =>
      exact .bind (mint_keeps _) fun _ _ => .bind (count_keeps _) fun _ _ => .pure trivial
    | demote =>
      exact .bind (mint_keeps _) fun _ _ => .bind (count_keeps _) fun _ _ => .pure trivial

theorem collectFragments_keeps {once : Bool} {type : TypeRef} {lists : InitLists}
    {fs : List Fragment} (known : ∀ f ∈ fs, ∃ v, f.binding = some v ∧ v.index < t.vars.size) :
    Step.Keeps (State.After t) (collectFragments options name once type lists fs) (fun _ => True)
      E := by
  induction fs generalizing lists with
  | nil => exact .pure trivial
  | cons f fs ih =>
    refine .bind (collectFragment_keeps (known f List.mem_cons_self)) fun ⟨f', lists'⟩ _ => ?_
    exact .bind (ih fun g hg => known g (List.mem_cons_of_mem _ hg)) fun _ _ => .pure trivial

/-- Collecting succeeds if the table knows the fields. -/
theorem collectMembers_ends {lists : InitLists} {ms : List Member}
    (known : ∀ s ∈ ms.flatMap Member.slots, ∃ v, s.fragment.binding = some v ∧
      v.index < t.vars.size) :
    (collectMembers options name isInterface lists ms).Ends (State.After t) (fun _ => True) E := by
  induction ms generalizing lists with
  | nil => exact Edit.Ends.keep trivial
  | cons m ms ih =>
    have rest : ∀ lists, (collectMembers options name isInterface lists ms).Ends (State.After t)
        (fun _ => True) E := fun _ => ih fun s hs => known s (List.mem_append_right _ hs)
    cases m with
    | initializer i =>
      rw [collectMembers]
      refine Edit.Ends.andThen (Q := fun _ => True) (Edit.Ends.ofState fun s after => ⟨trivial, ?_⟩)
        fun lists _ => rest lists
      exact after
    | field f =>
      rw [collectMembers]
      refine Edit.Ends.andThen (Q := fun _ => True) (editBy_ends ?_) fun (f', lists') _ =>
        Edit.Ends.map (rest lists')
      refine .bind (collectFragments_keeps fun g hg => ?_) fun _ _ => .pure trivial
      exact known ⟨f.type, g⟩ (List.mem_append_left _ (List.mem_map_of_mem hg))
    | type d | method m =>
      rw [collectMembers]
      exact Edit.Ends.map (rest lists)

end

/-! ## Types -/

section

variable {t : BindingTable} {options : Options} {type : TypeId} {descriptor : TypeDescriptor}
  {d : TypeDecl}

theorem Extending.of_parent (found : t.typeAt type = .ok descriptor)
    (parent : ∃ p, descriptor.superclass = some p ∧ p.index < t.types.size) : Extending t type := by
  obtain ⟨p, extends', below⟩ := parent
  obtain ⟨d, entry⟩ := BindingTable.typeAt_of_index_lt below
  refine ⟨⟨descriptor, found⟩, p, d, ?_, entry⟩
  rw [BindingTable.superclass, found]
  dsimp only [bind, Except.bind]
  rw [extends']

/-- What the type itself is refused for is told by what collecting leaves of it. -/
theorem collect_ends (fields : ∀ s ∈ d.slots, ∃ v, s.fragment.binding = some v ∧
      v.index < t.vars.size) {isInterface : Bool} {E : Failure → Prop} :
    (collect options isInterface d).Ends (State.After t)
      (fun r => r.1.methods = d.methods ∧
        (r.2.statics = [] ↔ initList t options.literalEncoding isInterface true d.members = []))
          E := by
  have succeeds : (collect options isInterface d).Ends (State.After t) (fun _ => True) E :=
    Edit.Ends.map (collectMembers_ends fields)
  refine (succeeds.and_done fun r s s' after run => ?_).imp (fun _ h => h.2) fun _ => id
  obtain ⟨-, collected, -, statics⟩ := collect_done after run
  exact ⟨methods_of_collected collected, statics.nil_iff⟩

/-- A type itself is lowered unless it is refused. -/
theorem lowerOwn_ends (found : t.typeAt type = .ok descriptor)
    (kind : descriptor.isInterface = d.isInterfaceLike)
    (extending : descriptor.isInterface = false → Extending t type)
    (fields : ∀ s ∈ d.slots, ∃ v, s.fragment.binding = some v ∧ v.index < t.vars.size) :
    (lowerOwn options type descriptor.isInterface d).Ends (State.After t)
      (fun _ => ∀ cause, ¬ Refuses options t d cause) fun e => Refuses options t d e.cause := by
  rw [lowerOwn, kind]
  refine (collect_ends fields).andThen fun (d₁, lists) ⟨methods, statics⟩ => ?_
  -- Instances come first, so that a body that is missing is noticed before a name that is taken.
  have instances : (if d.isInterfaceLike then Edit.keep d₁
      else lowerInstances type lists.instances d₁).Ends (State.After t)
        (fun d₂ => (d.isInterfaceLike = false → d.methods.any lacksBody = false) ∧
          d₂.methods.any (takes options.classInitializerName) =
            d.methods.any (takes options.classInitializerName))
        fun e => Refuses options t d e.cause := by
    rw [← methods]
    split
    · rename_i isInterface
      refine Edit.Ends.keep ⟨fun isClass => ?_, rfl⟩
      rw [isInterface] at isClass
      cases isClass
    · rename_i isClass
      have isClass : d.isInterfaceLike = false := Bool.eq_false_iff.mpr isClass
      refine (lowerInstances_ends (extending (kind.trans isClass)) _).imp
        (fun d₂ ⟨complete, searched⟩ => ⟨fun _ => complete, searched⟩) fun e ⟨lacks, cause⟩ => ?_
      rw [cause]
      rw [methods] at lacks
      exact .missingConstructorBody isClass (any_lacksBody.mp lacks)
  refine instances.seq fun d₂ ⟨complete, searched⟩ => ?_
  refine (lowerStatics_ends found).imp (fun _ free cause refused => ?_)
    fun e ⟨something, taken, cause⟩ => ?_
  · cases refused with
    | missingConstructorBody isClass bodyless =>
      have lacks := any_lacksBody.mpr bodyless
      rw [complete isClass] at lacks
      cases lacks
    | reservedNameCollision something taken =>
      have taken := any_takes.mpr taken
      rw [← searched, free fun nothing => something (statics.mp nothing)] at taken
      cases taken
  · rw [cause]
    refine .reservedNameCollision (fun nothing => something (statics.mpr nothing)) ?_
    rw [searched] at taken
    exact any_takes.mp taken

theorem lowerNested_ends {nested : TypeDecl → Edit State Failure TypeDecl}
    {R : TypeDecl → TypeDecl → Prop} {E : Failure → Prop}
    (types : ∀ x ∈ d.inner, (nested x).Ends (State.After t) (R x) E) :
    (lowerNested nested d).Ends (State.After t)
      (fun d' => (List.Forall₂ R d.inner d'.inner ∧ d'.head = d.head) ∧
        d'.members.map Member.outline = d.members.map Member.outline) E := by
  refine Edit.Ends.and_done (TypeDecl.walk_ends (fun m hm => ?_) fun x hx => ?_)
    fun d' s s' _ run => (lowerNested_done run).2.2
  · cases m with
    | type x =>
      have one :=
        types x (TypeDecl.mem_inner.mpr ⟨_, hm, List.mem_append_left _ List.mem_cons_self⟩)
      exact Edit.Ends.map (one.imp (fun x' related => ⟨.cons related .nil, rfl⟩) fun _ => id)
    | method m | initializer i | field f => exact Edit.Ends.keep ⟨.nil, rfl⟩
  · exact types x (List.mem_append_right _ hx)

theorem identify_ready (ready : d.Ready t) :
    ∃ type descriptor, t.typeAt type = .ok descriptor ∧
      descriptor.isInterface = d.isInterfaceLike ∧
      (descriptor.isInterface = false → Extending t type) ∧
      ∀ s, State.After t s → (identify d).run s = (.ok (type, descriptor.isInterface), s) := by
  obtain ⟨type, descriptor, bound, found, kind, parent⟩ := ready.entry
  refine ⟨type, descriptor, found, ?_, fun isClass => .of_parent found (parent isClass),
    fun s after => ?_⟩
  · rw [TypeDescriptor.isInterface, kind, TypeDecl.isInterfaceLike]
  · rw [← after.typeAt] at found
    exact identify_run bound found

/-- A type that is ready is lowered unless it or a type in it is refused. -/
theorem lowerType_ends {levels : Nat} (fits : d.Fits levels)
    (ready : ∀ x ∈ d.declarations, x.Ready t) :
    (lowerType options levels d).Ends (State.After t)
      (fun _ => NoneRefused options t d.declarations) (SomeRefused options t d.declarations) := by
  induction levels generalizing d with
  | zero => exact fits.elim
  | succ levels ih =>
    have own := ready d d.mem_declarations_self
    obtain ⟨type, descriptor, found, kind, extending, identified⟩ := identify_ready own
    rw [TypeDecl.declarations_eq] at ready ⊢
    -- The types inside come first, so that a failure may be theirs.
    have types : ∀ x ∈ d.inner, (lowerType options levels x).Ends (State.After t)
        (fun _ => NoneRefused options t x.declarations)
        (SomeRefused options t (d :: d.inner.flatMap TypeDecl.declarations)) := by
      intro x hx
      have inside : ∀ y ∈ x.declarations, y ∈ d :: d.inner.flatMap TypeDecl.declarations :=
        fun y hy => List.mem_cons_of_mem _ (List.mem_flatMap.mpr ⟨x, hx, hy⟩)
      refine (ih (fits x hx) fun y hy => ready y (inside y hy)).imp (fun _ => id) ?_
      exact fun e ⟨y, hy, refused⟩ => ⟨y, inside y hy, refused⟩
    have whole : (((lowerNested (lowerType options levels) d).seq
        (lowerOwn options type descriptor.isInterface)).seq countType).Ends (State.After t)
          (fun _ => NoneRefused options t (d :: d.inner.flatMap TypeDecl.declarations))
          (SomeRefused options t (d :: d.inner.flatMap TypeDecl.declarations)) := by
      refine Edit.Ends.seq (Edit.Ends.seq (lowerNested_ends types)
        fun d₁ ⟨⟨related, head⟩, outline⟩ => ?_)
          fun d' accepted => Edit.Ends.ofState fun _ after => ⟨accepted, after⟩
      -- Lowering the nested types has left the head and the outline, and so every reason to refuse.
      have kind₁ : descriptor.isInterface = d₁.isInterfaceLike := by
        rw [kind, TypeDecl.isInterfaceLike, TypeDecl.isInterfaceLike, head]
      have fields := own.fields
      rw [← TypeDecl.slots_of_outline outline] at fields
      refine (lowerOwn_ends found kind₁ extending fields).imp
        (fun d' accepted x hx cause refused => ?_)
        fun e refused => ⟨d, List.mem_cons_self, refused.of_outline head outline⟩
      rcases List.mem_cons.mp hx with rfl | hx
      · exact accepted cause (refused.of_outline head.symm outline.symm)
      · obtain ⟨y, hy, hx⟩ := List.mem_flatMap.mp hx
        obtain ⟨y', -, none⟩ := exists_mem_right related hy
        exact none x hx cause refused
    intro s after
    unfold lowerType
    rw [identified s after]
    exact whole s after

end

end Lowering

/-! ## Units -/

namespace CompilationUnit

variable {u : CompilationUnit} {t : BindingTable}

/-- A unit that is ready is lowered if no type in it is refused, and otherwise fails for the cause
for which some type is. -/
theorem lower_ends (ready : u.Ready t) (options : Lowering.Options) :
    match (u.lower t options).result with
    | .ok _ => Lowering.NoneRefused options t u.declarations
    | .error e => Lowering.SomeRefused options t u.declarations e := by
  have inside : ∀ d ∈ u.types, ∀ x ∈ d.declarations, x ∈ u.declarations :=
    fun d hd x hx => List.mem_flatMap.mpr ⟨d, hd, hx⟩
  have single : ∀ d ∈ u.types, (Lowering.lowerTopLevel options d).Ends (Lowering.State.After t)
      (fun _ => Lowering.NoneRefused options t d.declarations)
      (Lowering.SomeRefused options t u.declarations) := by
    intro d hd
    refine (Lowering.lowerType_ends (ready.fits d hd) fun x hx =>
      ready.types x (inside d hd x hx)).imp
      (fun _ => id) fun e ⟨x, hx, refused⟩ => ⟨x, inside d hd x hx, refused⟩
  have ended := Edit.Ends.list single ⟨t, u.supply, .zero⟩ (BindingTable.Grows.refl t)
  unfold lower
  rcases run : Edit.list (Lowering.lowerTopLevel options) u.types ⟨t, u.supply, .zero⟩ with
    ⟨⟨ds⟩ | ⟨ds, e⟩, s⟩
  · rw [run] at ended
    intro x hx cause refused
    obtain ⟨d, hd, hx⟩ := List.mem_flatMap.mp hx
    obtain ⟨d', -, none⟩ := exists_mem_right ended.1 hd
    exact none x hx cause refused
  · rw [run] at ended
    exact ended

theorem refused_of_lower (ready : u.Ready t) {options : Lowering.Options} {e : Lowering.Failure}
    (failed : (u.lower t options).result = .error e) :
    ∃ d ∈ u.declarations, Lowering.Refuses options t d e.cause := by
  have ended := lower_ends ready options
  rw [failed] at ended
  exact ended

/-- Lowering a unit that is ready fails exactly if some type in it is refused. -/
theorem lower_fails_iff (ready : u.Ready t) {options : Lowering.Options} :
    (∃ e, (u.lower t options).result = .error e) ↔
      ∃ d ∈ u.declarations, ∃ cause, Lowering.Refuses options t d cause := by
  constructor
  · rintro ⟨e, failed⟩
    obtain ⟨d, hd, refused⟩ := refused_of_lower ready failed
    exact ⟨d, hd, e.cause, refused⟩
  · rintro ⟨d, hd, cause, refused⟩
    have ended := lower_ends ready options
    cases result : (u.lower t options).result with
    | error e => exact ⟨e, rfl⟩
    | ok stats =>
      rw [result] at ended
      exact absurd refused (ended d hd cause)

/-! ## Binding and lowering -/

/-- A unit without handles is bound, with a table that was loaded, exactly if no type lies too deep
in it; and otherwise fails for a type that does. Once it is bound, its constants can be recorded,
and it is lowered exactly if no type is refused; and otherwise fails for the cause for which some
type is. -/
theorem failures_of_unbound (unbound : u.Unbound) (types : List TypeDescriptor)
    (vars : List VariableBinding) (methods : List MethodBinding) (options : Lowering.Options) :
    let t := BindingTable.load types vars methods
    let lowered := (u.bind t).unit.lower (u.knownTable t) options
    ((∃ stats, (u.bind t).result = .ok stats) ↔
      ∀ (x : TypeDecl) n, x.LiesAtLevel n u → n ≤ Limits.typeNesting) ∧
    (∀ e, (u.bind t).result = .error e →
      ∃ x : TypeDecl, x.LiesAtLevel (Limits.typeNesting + 1) u ∧ e = .nestingTooDeep x.name) ∧
    ∀ stats, (u.bind t).result = .ok stats →
      (∃ n, ((u.bind t).table.bindConstants (u.bind t).unit).1 = .ok n) ∧
      ((∃ e, lowered.result = .error e) ↔
        ∃ d ∈ (u.bind t).unit.declarations, ∃ cause,
          Lowering.Refuses options (u.knownTable t) d cause) ∧
      ∀ e, lowered.result = .error e →
        ∃ d ∈ (u.bind t).unit.declarations,
          Lowering.Refuses options (u.knownTable t) d e.cause := by
  intro t lowered
  have rooted : t.Rooted t.types.size := .load types vars methods
  refine ⟨bind_succeeds_iff unbound rooted, fun e => tooDeep_of_bind unbound rooted,
    fun stats success => ?_⟩
  obtain ⟨recorded, ready⟩ := knownTable_ready unbound rooted success
  exact ⟨recorded, lower_fails_iff ready, fun e => refused_of_lower ready⟩

/-- `class A { static { ; } void initialize() { } }`, where the method has the name of the static
routine. -/
def refusedSample : CompilationUnit :=
  let n : NodeInfo := ⟨.unassigned, .dummy⟩
  ⟨"A.java", none, [⟨⟨.unassigned, .dummy, .classType, "A", .empty, none, none, []⟩,
    [.initializer ⟨n, true, ⟨n, [.empty n]⟩⟩,
      .method ⟨⟨.unassigned, .dummy, Names.classInitializer, .empty, .void, [], false, none, false⟩,
        some ⟨n, []⟩⟩]⟩], .initial⟩

theorem failures_of_unbound_sample :
    refusedSample.Unbound ∧ (∃ stats, (refusedSample.bind .new).result = .ok stats) ∧
      ∃ e, ((refusedSample.bind .new).unit.lower (refusedSample.knownTable .new) .standard).result =
        .error e ∧ ∃ d ∈ (refusedSample.bind .new).unit.declarations,
          Lowering.Refuses .standard (refusedSample.knownTable .new) d e.cause := by
  have unbound : refusedSample.Unbound := by
    refine ⟨fun h hh => ?_, by decide⟩
    obtain rfl := List.mem_singleton.mp hh
    exact ⟨rfl, fun _ none => nomatch none⟩
  have bound : ∃ stats, (refusedSample.bind .new).result = .ok stats := ⟨_, rfl⟩
  obtain ⟨stats, success⟩ := bound
  have taken : ∃ d ∈ (refusedSample.bind .new).unit.declarations,
      (Lowering.initList (refusedSample.knownTable .new) .cpp d.isInterfaceLike true
          d.members).isEmpty = false ∧
        d.methods.any (Lowering.takes Names.classInitializer) = true := by
    decide +kernel
  obtain ⟨d, hd, something, taken⟩ := taken
  obtain ⟨-, -, lowers⟩ := failures_of_unbound unbound [] [] [] .standard
  obtain ⟨-, fails, causes⟩ := lowers stats success
  rw [List.isEmpty_eq_false_iff] at something
  obtain ⟨e, failed⟩ := fails.mpr ⟨d, hd, _, .reservedNameCollision something
    (Lowering.any_takes.mp taken)⟩
  exact ⟨unbound, ⟨stats, success⟩, e, failed, causes e failed⟩

end CompilationUnit

end ClassInit
