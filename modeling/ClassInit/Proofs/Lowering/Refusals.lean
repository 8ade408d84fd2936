import ClassInit.Proofs.Binding.Failures
import ClassInit.Proofs.Lowering.Outlines
import ClassInit.Proofs.Lowering.Types

/-!
# Reasons to refuse a type

A type can be refused for two reasons only, a constructor without a body and a method in the place
of the static routine, and both can be seen from the type as it is bound (`Lowering.Refuses`). The
steps of lowering and the passes over constructors and statics end accordingly.
-/

set_option autoImplicit false

namespace ClassInit

namespace Lowering

/-! ## Reasons to refuse a type -/

/-- The type cannot be lowered, for the given cause. -/
inductive Refuses (options : Options) (t : BindingTable) (d : TypeDecl) : Cause → Prop where
  /-- A class or enum has a constructor without body. -/
  | missingConstructorBody : d.isInterfaceLike = false → (∃ c ∈ d.constructors, c.body = none) →
      Refuses options t d .missingConstructorBody
  /-- There is something for the static routine to run, and a method of the type is in its place. -/
  | reservedNameCollision :
      initList t options.literalEncoding d.isInterfaceLike true d.members ≠ [] →
      (∃ m ∈ d.methods, m.head.isConstructor = false ∧ m.head.name = options.classInitializerName ∧
        m.head.parameters = []) →
      Refuses options t d (.reservedNameCollision options.classInitializerName)

/-- No type of the list is refused. -/
def NoneRefused (options : Options) (t : BindingTable) (ds : List TypeDecl) : Prop :=
  ∀ d ∈ ds, ∀ cause, ¬ Refuses options t d cause

/-- A type of the list is refused for the cause of the failure. -/
def SomeRefused (options : Options) (t : BindingTable) (ds : List TypeDecl) (e : Failure) : Prop :=
  ∃ d ∈ ds, Refuses options t d e.cause

/-- The method is a constructor without body. -/
def lacksBody (m : MethodDecl) : Bool := m.head.isConstructor && m.body.isNone

/-- The method is in the place of a static routine with the name. -/
def takes (name : String) (m : MethodDecl) : Bool :=
  !m.head.isConstructor && m.head.name == name && m.head.parameters.length == 0

section

variable {d d₁ : TypeDecl} {name : String}

theorem any_lacksBody :
    d.methods.any lacksBody = true ↔ ∃ c ∈ d.constructors, c.body = none := by
  simp only [List.any_eq_true, TypeDecl.constructors, List.mem_filter, lacksBody, Bool.and_eq_true,
    Option.isNone_iff_eq_none, and_assoc]

theorem any_takes :
    d.methods.any (takes name) = true ↔ ∃ m ∈ d.methods, m.head.isConstructor = false ∧
      m.head.name = name ∧ m.head.parameters = [] := by
  simp only [List.any_eq_true, takes, Bool.and_eq_true, Bool.not_eq_true', beq_iff_eq,
    List.length_eq_zero_iff, and_assoc]

theorem isSome_findMethod? : (d.findMethod? name 0).isSome = d.methods.any (takes name) := by
  rw [TypeDecl.findMethod?, List.isSome_find?]
  rfl

/-! ## Nested types do not matter -/

/-- The reasons to refuse a type are not in its nested types. -/
theorem Refuses.of_outline {options : Options} {t : BindingTable} {cause : Cause}
    (head : d₁.head = d.head) (same : d₁.members.map Member.outline = d.members.map Member.outline)
    (refused : Refuses options t d₁ cause) : Refuses options t d cause := by
  have kind : d₁.isInterfaceLike = d.isInterfaceLike := by
    rw [TypeDecl.isInterfaceLike, head, TypeDecl.isInterfaceLike]
  cases refused with
  | missingConstructorBody isClass bodyless =>
    rw [kind] at isClass
    refine .missingConstructorBody isClass ?_
    rw [← any_lacksBody] at bodyless ⊢
    rw [← any_methods_of_outline same fun _ _ _ => rfl]
    exact bodyless
  | reservedNameCollision statics taken =>
    rw [kind, Ne, initList_eq_nil_of_outline same] at statics
    refine .reservedNameCollision statics ?_
    rw [← any_takes] at taken ⊢
    rw [← any_methods_of_outline same fun _ _ _ => rfl]
    exact taken

end

/-! ## Steps of lowering -/

/-- The states that lowering leads to from a state with the table. -/
def State.After (t : BindingTable) (s : State) : Prop := t.Grows s.table

section

variable {t : BindingTable} {E : Failure → Prop} {α : Type} {name : String} {span : Span}

theorem ask_keeps {question : BindingTable → Except ResolveError α} {Q : α → Prop}
    (answers : ∀ t', t.Grows t' → ∃ a, question t' = .ok a ∧ Q a) :
    Step.Keeps (State.After t) (ask name span question) Q E := by
  intro s after
  obtain ⟨a, answer, ha⟩ := answers s.table after
  rw [ask_run, answer]
  exact ⟨ha, after⟩

theorem mint_keeps (m : Numbered α) : Step.Keeps (State.After t) (mint m) (fun _ => True) E :=
  .lift fun _ after => ⟨trivial, after⟩

theorem count_keeps (f : Stats → Stats) :
    Step.Keeps (State.After t) (liftM (count f) : Step Unit) (fun _ => True) E :=
  .lift fun _ after => ⟨trivial, after⟩

/-- An entry is made if the table knows the type that it is for. -/
theorem enter_keeps {add : BindingTable → Except ResolveError (MethodId × BindingTable)}
    (adds : ∀ t', t.Grows t' → ∃ r, add t' = .ok r ∧ t.Grows r.2) :
    Step.Keeps (State.After t) (enter name span add) (fun _ => True) E := by
  refine .bind (ask_keeps adds) fun ⟨id, table⟩ grown => ?_
  exact .bind (.modify fun _ _ => grown) fun _ _ => .pure trivial

theorem newConstructor_adds {owner : TypeId} {d : TypeDescriptor} (known : t.typeAt owner = .ok d)
    (modifiers : Modifiers) (t' : BindingTable) (grown : t.Grows t') :
    ∃ r, newConstructor t' owner modifiers = .ok r ∧ t.Grows r.2 := by
  rw [← grown.typeAt] at known
  exact ⟨_, newConstructor_eq_ok.mpr ⟨⟨d, known⟩, rfl⟩, grown.trans (.addMethod t' rfl rfl rfl)⟩

theorem newMethod_adds {owner : TypeId} {d : TypeDescriptor} (known : t.typeAt owner = .ok d)
    (name : String) (modifiers : Modifiers) (t' : BindingTable) (grown : t.Grows t') :
    ∃ r, newMethod t' owner name modifiers .void = .ok r ∧ t.Grows r.2 := by
  rw [← grown.typeAt] at known
  exact ⟨_, newMethod_eq_ok.mpr ⟨⟨d, known⟩, rfl⟩, grown.trans (.addMethod t' rfl rfl rfl)⟩

theorem editBy_ends {left : α} {m : Step α} {P : State → Prop} {Q : α → Prop}
    (h : Step.Keeps P m Q E) : (editBy left m).Ends P Q E := by
  intro s holds
  have ended := h s holds
  unfold editBy
  rcases hm : (m.run s : Except Failure α × State) with ⟨e | a, s'⟩
  · rw [hm] at ended
    exact ended
  · rw [hm] at ended
    exact ended

end

/-! ## Constructors -/

/-- The table has a type and the superclass of it. -/
structure Extending (t : BindingTable) (type : TypeId) : Prop where
  entry : ∃ d, t.typeAt type = .ok d
  parent : ∃ p d, t.superclass type = .ok p ∧ t.typeAt p = .ok d

section

variable {t : BindingTable} {E : Failure → Prop} {name : String} {type : TypeId}
  {instances : List Stmt}

theorem implicitSuperCall_keeps {span : Span} (extending : Extending t type) :
    Step.Keeps (State.After t) (implicitSuperCall name type span) (fun _ => True) E := by
  obtain ⟨p, d, parent, known⟩ := extending.parent
  refine .bind (ask_keeps (Q := fun p' => p' = p) fun t' grown => ?_) fun p' same => ?_
  · exact ⟨p, (grown.superclass type).trans parent, rfl⟩
  · subst same
    exact .bind (enter_keeps (newConstructor_adds known _)) fun _ _ => mint_keeps _

/-- A constructor is lowered if it has a body. -/
theorem lowerConstructor_keeps {m : MethodDecl} (extending : Extending t type) :
    Step.Keeps (State.After t) (lowerConstructor name type instances m)
      (fun _ => m.body.isNone = false)
      fun e => m.body.isNone = true ∧ e.cause = .missingConstructorBody := by
  unfold lowerConstructor
  cases m.body with
  | none => exact .throw ⟨rfl, rfl⟩
  | some body =>
    dsimp only
    split
    · refine .bind (Q := fun _ => True) ?_ fun _ _ => .bind (count_keeps _) fun _ _ => .pure rfl
      unfold initialized
      split
      · exact .bind (mint_keeps _) fun _ _ => .pure trivial
      · refine .bind (implicitSuperCall_keeps extending) fun _ _ => ?_
        exact .bind (mint_keeps _) fun _ _ => .pure trivial
    · exact .bind (count_keeps _) fun _ _ => .pure rfl

/-- What a member is to a search for a method is kept, and a constructor without body stops the
pass. -/
theorem lowerMember_ends {m : Member} (extending : Extending t type) (routine : String) :
    (lowerMember name type instances m).Ends (State.After t)
      (fun m' => m.asMethod.any lacksBody = false ∧
        m'.asMethod.any (takes routine) = m.asMethod.any (takes routine))
      fun e => m.asMethod.any lacksBody = true ∧ e.cause = .missingConstructorBody := by
  -- Only constructors change, and these keep their heads.
  have searched : ∀ m' s s', State.After t s →
      lowerMember name type instances m s = (.done m', s') →
        m'.asMethod.any (takes routine) = m.asMethod.any (takes routine) := by
    intro m' s s' _ run
    rcases lowerMember_steps run with ⟨-, rfl, -⟩ | ⟨c, c', rfl, rfl, isConstructor, step⟩
    · rfl
    · cases step <;> rfl
  refine Edit.Ends.and_done ?_ searched
  cases m with
  | type d | initializer i | field f => exact Edit.Ends.keep rfl
  | method c =>
    unfold lowerMember
    dsimp only
    have lacks : (Member.method c).asMethod.any lacksBody =
        (c.head.isConstructor && c.body.isNone) := rfl
    rw [lacks]
    split
    · rename_i isConstructor
      rw [isConstructor, Bool.true_and]
      exact editBy_ends (.bind (lowerConstructor_keeps extending) fun _ hasBody => .pure hasBody)
    · rename_i isMethod
      rw [Bool.eq_false_iff.mpr isMethod, Bool.false_and]
      exact Edit.Ends.keep rfl

theorem addDefaultConstructor_ends {d : TypeDecl} (extending : Extending t type)
    (routine : String) :
    (addDefaultConstructor type instances d).Ends (State.After t)
      (fun d' => d'.methods.any (takes routine) = d.methods.any (takes routine)) E := by
  obtain ⟨p, parent, asked, known⟩ := extending.parent
  obtain ⟨descriptor, found⟩ := extending.entry
  have made : (addDefaultConstructor type instances d).Ends (State.After t) (fun _ => True) E := by
    refine editBy_ends (.bind (Q := fun _ => True) ?_ fun _ _ =>
      .bind (count_keeps _) fun _ _ => .pure trivial)
    refine .bind (ask_keeps (Q := fun _ => True) fun t' grown => ?_) fun _ _ => ?_
    · exact ⟨descriptor, (grown.typeAt type).trans found, trivial⟩
    refine .bind (ask_keeps (Q := fun p' => p' = p) fun t' grown => ?_) fun p' same => ?_
    · exact ⟨p, (grown.superclass type).trans asked, rfl⟩
    subst same
    refine .bind (enter_keeps (newConstructor_adds known _)) fun _ _ => ?_
    refine .bind (enter_keeps (newConstructor_adds found _)) fun _ _ => ?_
    exact .bind (mint_keeps _) fun _ _ => mint_keeps _
  refine (made.and_done fun d' s s' _ run => ?_).imp (fun _ h => h.2) fun _ => id
  obtain ⟨_, _, -, -, rfl, -⟩ := addDefaultConstructor_ok run
  rw [appendMethod, any_methods, any_methods, List.map_append, List.any_append]
  exact Bool.or_false _

/-- Instances get their initialization unless a constructor has no body. -/
theorem lowerInstances_ends {d : TypeDecl} (extending : Extending t type) (routine : String) :
    (lowerInstances type instances d).Ends (State.After t)
      (fun d' => d.methods.any lacksBody = false ∧
        d'.methods.any (takes routine) = d.methods.any (takes routine))
      fun e => d.methods.any lacksBody = true ∧ e.cause = .missingConstructorBody := by
  have constructors : (lowerConstructors type instances d).Ends (State.After t)
      (fun d' => d.methods.any lacksBody = false ∧
        d'.methods.any (takes routine) = d.methods.any (takes routine))
      fun e => d.methods.any lacksBody = true ∧ e.cause = .missingConstructorBody := by
    rw [any_methods lacksBody]
    refine Edit.Ends.map ((Edit.Ends.list (R := fun m m' => m.asMethod.any lacksBody = false ∧
      m'.asMethod.any (takes routine) = m.asMethod.any (takes routine)) fun m hm => ?_).imp
        (fun ms related => ⟨?_, ?_⟩) fun _ => id)
    · refine (lowerMember_ends extending routine).imp (fun _ => id) fun e ⟨lacks, cause⟩ => ?_
      exact ⟨List.any_eq_true.mpr ⟨_, List.mem_map_of_mem hm, lacks⟩, cause⟩
    · rw [List.any_eq_false, List.forall_mem_map]
      intro m hm
      obtain ⟨m', -, complete, -⟩ := exists_mem_right related hm
      rw [complete]
      exact Bool.false_ne_true
    · rw [any_methods, any_methods, map_eq_of_forall₂ (related.imp fun _ _ one => one.2)]
  refine constructors.seq fun d₁ ⟨complete, searched⟩ => ?_
  split
  · refine (addDefaultConstructor_ends extending routine).imp (fun d' same => ?_) fun _ => id
    exact ⟨complete, same.trans searched⟩
  · exact Edit.Ends.keep ⟨complete, searched⟩

end

/-! ## The static routine -/

section

variable {t : BindingTable} {options : Options} {type : TypeId} {statics : List Stmt} {d : TypeDecl}

/-- The static routine is added unless its name is taken. -/
theorem lowerStatics_ends {descriptor : TypeDescriptor} (found : t.typeAt type = .ok descriptor) :
    (lowerStatics options type statics d).Ends (State.After t)
      (fun _ => statics ≠ [] → d.methods.any (takes options.classInitializerName) = false)
      fun e => statics ≠ [] ∧ d.methods.any (takes options.classInitializerName) = true ∧
        e.cause = .reservedNameCollision options.classInitializerName := by
  unfold lowerStatics
  split
  · rename_i nothing
    exact Edit.Ends.keep fun something => absurd (List.isEmpty_iff.mp nothing) something
  · rename_i something
    have something : statics ≠ [] := fun nothing => something (List.isEmpty_iff.mpr nothing)
    refine editBy_ends (.bind (Q := fun _ => d.methods.any (takes options.classInitializerName) =
      false) ?_ fun _ free => .bind (count_keeps _) fun _ _ => .pure fun _ => free)
    rw [← isSome_findMethod?]
    unfold classInitializer
    dsimp only
    cases d.findMethod? options.classInitializerName 0 with
    | some m => exact .throw ⟨something, rfl, rfl⟩
    | none =>
      refine .bind (enter_keeps (newMethod_adds found _ _)) fun _ _ => ?_
      exact (mint_keeps _).imp fun _ _ => rfl

end

end Lowering

end ClassInit
