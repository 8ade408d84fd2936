import ClassInit.Proofs.Lowering.Accounting
import ClassInit.Proofs.Lowering.Origins
import ClassInit.Proofs.Lowering.Outlines

/-!
# The entries that lowering makes

A run adds an entry for every call and every member that it makes, and what it makes carries the
handle of an entry that describes it (`EntriesMatch`). The number of the entries is told by the
counts of the run and by the constructors of the input that get a call
(`CompilationUnit.lower_entries`).
-/

set_option autoImplicit false

namespace ClassInit

/-! ## Constructors that get a call -/

/-- A designated constructor whose body does not call the superclass constructor itself. -/
def MethodDecl.isSilent (m : MethodDecl) : Bool :=
  m.isDesignated && !m.statements.any Stmt.isSuperCall

def Member.isSilent (m : Member) : Bool := m.asMethod.any MethodDecl.isSilent

/-- Whether the table has the declaration as a class or enum. -/
def BindingTable.isClass (t : BindingTable) (d : TypeDecl) : Bool :=
  d.head.binding.any fun type =>
    match t.typeAt type with
    | .ok descriptor => !descriptor.isInterface
    | .error _ => false

/-- The designated constructors of a class or enum that do not call the superclass constructor. -/
def TypeDecl.silentConstructors (t : BindingTable) (d : TypeDecl) : List MethodDecl :=
  if t.isClass d then d.methods.filter MethodDecl.isSilent else []

/-- The designated constructors of all classes and enums, at any depth, that do not call the
superclass constructor. -/
def CompilationUnit.silentConstructors (t : BindingTable) (u : CompilationUnit) : List MethodDecl :=
  u.declarations.flatMap (TypeDecl.silentConstructors t)

/-- Whether a constructor gets a call does not depend on local types. -/
theorem Member.isSilent_outline (m : Member) : m.outline.isSilent = m.isSilent := by
  rcases m with d | ⟨h, _ | ⟨i, ss⟩⟩ | ⟨i, s, ⟨b, ss⟩⟩ | f
  · rfl
  · rfl
  · have isSuper : Stmt.isSuperCall ∘ Stmt.outline = Stmt.isSuperCall :=
      funext Stmt.isSuperCall_outline
    show (_ && !(Stmt.outlineOf ss).any Stmt.isSuperCall) = (_ && !ss.any Stmt.isSuperCall)
    rw [MethodDecl.isDesignated_outline, Stmt.outlineOf_eq_map, List.any_map, isSuper]
  · rfl
  · rfl

theorem Member.silent_length (ms : List Member) :
    ((ms.filterMap Member.asMethod).filter MethodDecl.isSilent).length =
      (ms.map fun m => m.isSilent.toNat).sum := by
  induction ms with
  | nil => rfl
  | cons m ms ih =>
    rw [List.map_cons, List.sum_cons, ← ih]
    cases m with
    | method c =>
      show ((c :: ms.filterMap Member.asMethod).filter MethodDecl.isSilent).length =
        c.isSilent.toNat + _
      rw [List.filter_cons]
      cases c.isSilent with
      | true => rw [if_pos rfl, List.length_cons, Nat.add_comm, Bool.toNat_true]
      | false => rw [if_neg Bool.false_ne_true, Bool.toNat_false, Nat.zero_add]
    | type d | initializer i | field f => exact (Nat.zero_add _).symm

/-- Nor does the number of such constructors in a type. -/
theorem TypeDecl.silentConstructors_length_of_outline {t : BindingTable} {d d₁ : TypeDecl}
    (head : d₁.head = d.head)
    (same : d₁.members.map Member.outline = d.members.map Member.outline) :
    (d₁.silentConstructors t).length = (d.silentConstructors t).length := by
  have isClass : t.isClass d₁ = t.isClass d := by
    rw [BindingTable.isClass, BindingTable.isClass, head]
  have silent : ∀ m : Member, m.outline.isSilent.toNat = m.isSilent.toNat :=
    fun m => congrArg Bool.toNat m.isSilent_outline
  rw [silentConstructors, silentConstructors, isClass]
  split
  · rw [methods, methods, Member.silent_length, Member.silent_length, map_of_outline same silent]
  · rfl

/-! ## Entries that were added -/

/-- The handle is that of an entry that the second table has in addition to the first. -/
structure BindingTable.Added (t t' : BindingTable) (h : MethodId) (m : MethodBinding) : Prop where
  isNew : t.methods.size ≤ h.index
  entry : t'.methodAt h = .ok m

namespace BindingTable

variable {t t₁ t₂ t' : BindingTable} {h : MethodId} {m : MethodBinding}

/-- An entry stays in a table that grows. -/
theorem Grows.methodAt (grown : t.Grows t') (found : t.methodAt h = .ok m) :
    t'.methodAt h = .ok m := by
  obtain ⟨added, all, -⟩ := grown.addedMethods
  unfold BindingTable.methodAt at found ⊢
  cases entry : t.methods[h.index]? with
  | none =>
    rw [entry] at found
    cases found
  | some m' =>
    rw [entry] at found
    rw [← Array.getElem?_toList] at entry
    have bound := (List.getElem?_eq_some_iff.mp entry).1
    rw [← Array.getElem?_toList, all, List.getElem?_append_left bound, entry]
    exact found

/-- An entry that was added on the way was added on the whole. -/
theorem Added.mono (before : t.Grows t₁) (added : t₁.Added t₂ h m) (after : t₂.Grows t') :
    t.Added t' h m :=
  ⟨Nat.le_trans before.size_le added.isNew, after.methodAt added.entry⟩

theorem Added.push (t : BindingTable) (m : MethodBinding) :
    t.Added (t.addMethod m).2 ⟨t.methods.size⟩ m := by
  have entry : (t.addMethod m).2.methods[t.methods.size]? = some m := Array.getElem?_push_size
  refine ⟨Nat.le_refl _, ?_⟩
  rw [methodAt, entry]

end BindingTable

namespace Lowering

/-- The entry of a constructor is one that may be added. -/
theorem constructorEntry_grows (t : BindingTable) (owner : TypeId) (modifiers : Modifiers) :
    t.Grows (t.addMethod (constructorEntry owner modifiers)).2 := .addMethod t rfl rfl rfl

/-! ## What is made and its entries -/

section

variable (t t' : BindingTable) (type : TypeId)

/-- A method of a class keeps its head. If it is a constructor that gets a call of the superclass
constructor, it gets the call first, with the handle of a public constructor of the superclass. -/
def SuperCallMatches (m m' : MethodDecl) : Prop :=
  m'.head = m.head ∧
    (m.isSilent = true → ∃ superclass n handle rest, t.superclass type = .ok superclass ∧
      m'.statements = .superCall ⟨n, .dummy⟩ [] (some handle) :: rest ∧
      t.Added t' handle (constructorEntry superclass (.of .pub)))

/-- The method is a default constructor of the given visibility. It carries the handle of a
constructor of the type, and its call that of a constructor of the superclass, both equally
visible. -/
def DefaultMatches (name : String) (access : Modifiers) (m : MethodDecl) : Prop :=
  ∃ superclass n bodyId callId handle superHandle ss, t.superclass type = .ok superclass ∧
    m = madeMethod n bodyId name access true handle
      (.superCall ⟨callId, .dummy⟩ [] (some superHandle) :: ss) ∧
    t.Added t' handle (constructorEntry type access) ∧
    t.Added t' superHandle (constructorEntry superclass access)

/-- The method is a static routine and carries the handle of a public static method of the type. -/
def RoutineMatches (name : String) (m : MethodDecl) : Prop :=
  ∃ n bodyId handle ss, m = madeMethod n bodyId name routineModifiers false handle ss ∧
    t.Added t' handle (routineEntry type name)

/-- The methods of a lowered type are those of the type, then the default constructor if the type
declares no constructor, then the static routine if there is something for it to run; every call
that was put in and every method that was made carries the handle of an entry that matches it and
was added between the two tables. -/
structure EntriesMatch (options : Options) (descriptor : TypeDescriptor) (d d' : TypeDecl) :
    Prop where
  methods : ∃ kept made routine : List MethodDecl,
    d'.methods = kept ++ (made ++ routine) ∧
    (if descriptor.isInterface then kept = d.methods
    else List.Forall₂ (SuperCallMatches t t' type) d.methods kept) ∧
    (if descriptor.isInterface = false ∧ d.constructors = [] then
      ∃ m, made = [m] ∧ DefaultMatches t t' type d.name descriptor.modifiers.access m
    else made = []) ∧
    (if initList t options.literalEncoding descriptor.isInterface true d.members = [] then
      routine = []
    else ∃ m, routine = [m] ∧ RoutineMatches t t' type options.classInitializerName m)

end

variable {options : Options} {name : String} {t t' : BindingTable} {type : TypeId}
variable {descriptor : TypeDescriptor} {s s' : State}

/-- A constructor that delegates gets no call. -/
theorem isSilent_eq_false_of_delegates {h : MethodHead} {b : Block}
    (calls : delegates b.statements = true) : (MethodDecl.mk h (some b)).isSilent = false := by
  show ((h.isConstructor && !delegates b.statements) && _) = false
  rw [calls, Bool.not_true, Bool.and_false, Bool.false_and]

/-- A constructor with a call gets no second one. -/
theorem isSilent_eq_false_of_call {h : MethodHead} {i : NodeInfo} {before after : List Stmt}
    {call : Stmt} (isCall : call.isSuperCall = true) :
    (MethodDecl.mk h (some ⟨i, before ++ call :: after⟩)).isSilent = false := by
  have calls : (before ++ call :: after).any Stmt.isSuperCall = true :=
    List.any_eq_true.mpr ⟨call, List.mem_append_right _ List.mem_cons_self, isCall⟩
  show (_ && !(before ++ call :: after).any Stmt.isSuperCall) = false
  rw [calls, Bool.not_true, Bool.and_false]

/-- A constructor with neither gets one. -/
theorem isSilent_of_no_call {h : MethodHead} {i : NodeInfo} {ss : List Stmt}
    (isConstructor : h.isConstructor = true) (designated : delegates ss = false)
    (none : ∀ x ∈ ss, x.isSuperCall = false) :
    (MethodDecl.mk h (some ⟨i, ss⟩)).isSilent = true := by
  have noCall : ss.any Stmt.isSuperCall = false :=
    List.any_eq_false.mpr fun x hx => Bool.eq_false_iff.mp (none x hx)
  show ((h.isConstructor && !delegates ss) && !ss.any Stmt.isSuperCall) = true
  rw [isConstructor, designated, noCall]
  rfl

/-- The call that a constructor gets has the handle of the entry that was added for it. -/
theorem ConstructorStep.matches {instances : List Stmt} {m m' : MethodDecl}
    (before : t.Grows s.table) (after : s'.table.Grows t')
    (step : ConstructorStep type instances s m m' s') : SuperCallMatches t t' type m m' := by
  cases step with
  | delegating calls =>
    refine ⟨rfl, fun silent => ?_⟩
    rw [isSilent_eq_false_of_delegates calls] at silent
    cases silent
  | explicit _ _ isCall =>
    refine ⟨rfl, fun silent => ?_⟩
    rw [isSilent_eq_false_of_call isCall] at silent
    cases silent
  | @implicit h i ss superclass _ _ asked =>
    rw [before.superclass] at asked
    exact ⟨rfl, fun _ =>
      ⟨superclass, _, _, _, asked, rfl, (BindingTable.Added.push _ _).mono before after⟩⟩

/-- The calls that are put into the constructors of a type have matching entries. -/
theorem lowerMembers_matches {instances : List Stmt} {ms ms' : List Member}
    (before : t.Grows s.table) (after : s'.table.Grows t')
    (run : Edit.list (lowerMember name type instances) ms s = (.done ms', s')) :
    List.Forall₂ (SuperCallMatches t t' type) (ms.filterMap Member.asMethod)
      (ms'.filterMap Member.asMethod) := by
  induction ms generalizing ms' s with
  | nil =>
    obtain ⟨rfl, rfl⟩ := Edit.list_nil_eq_done.mp run
    exact .nil
  | cons m ms ih =>
    obtain ⟨m', s₁, rest, hm, hrest, rfl⟩ := Edit.list_cons_eq_done.mp run
    have moved := (lowerMember_moves name type instances m).run hm
    have moved' := (lowerMembers_moves name type instances ms).run hrest
    -- Entries are only added, so the rest of the pass leaves the entry of this member alone.
    have later := ih (before.trans moved) hrest
    rcases lowerMember_steps hm with ⟨isMethod, same, -⟩ | ⟨c, c', rfl, rfl, -, step⟩
    · subst same
      cases m' with
      | method c =>
        refine .cons ⟨rfl, fun silent => ?_⟩ later
        have isMethod : c.head.isConstructor = false := isMethod
        rw [MethodDecl.isSilent, MethodDecl.isDesignated, isMethod, Bool.false_and,
          Bool.false_and] at silent
        cases silent
      | type d | initializer i | field f => exact later
    · exact .cons (step.matches before (BindingTable.Grows.trans moved' after)) later

theorem methods_appendMethod (d : TypeDecl) (m : MethodDecl) :
    (appendMethod d m).methods = d.methods ++ [m] := by
  rw [TypeDecl.methods, appendMethod, List.filterMap_append]
  rfl

/-- What is made for the instances of a class has matching entries. -/
theorem lowerInstances_matches {instances : List Stmt} {d d' : TypeDecl}
    (described : t.typeAt type = .ok descriptor) (before : t.Grows s.table)
    (after : s'.table.Grows t') (run : lowerInstances type instances d s = (.done d', s')) :
    ∃ kept made : List MethodDecl, d'.methods = kept ++ made ∧
      List.Forall₂ (SuperCallMatches t t' type) d.methods kept ∧
      (if d.constructors = [] then
        ∃ m, made = [m] ∧ DefaultMatches t t' type d.name descriptor.modifiers.access m
      else made = []) := by
  obtain ⟨ms, s₁, hms, hmade⟩ := lowerInstances_steps run
  have grown₁ : t.Grows s₁.table := before.trans ((lowerMembers_moves _ _ _ _).run hms)
  rcases hmade with ⟨none, hmade⟩ | ⟨some, rfl, rfl⟩
  · have moved := (addDefaultConstructor_moves _ _ _).run hmade
    have kept :
        List.Forall₂ (SuperCallMatches t t' type) d.methods (TypeDecl.mk d.head ms).methods :=
      lowerMembers_matches before (BindingTable.Grows.trans moved after) hms
    obtain ⟨descriptor', superclass, described', asked, rfl, rfl⟩ := addDefaultConstructor_ok hmade
    rw [grown₁.typeAt, described] at described'
    cases described'
    rw [grown₁.superclass] at asked
    -- Two entries are made one after the other, first the one that the call refers to.
    have superAdded := BindingTable.Added.push s₁.table
      (constructorEntry superclass descriptor.modifiers.access)
    have ownAdded := BindingTable.Added.push
      (s₁.table.addMethod (constructorEntry superclass descriptor.modifiers.access)).2
      (constructorEntry type descriptor.modifiers.access)
    have size : (s₁.table.addMethod
        (constructorEntry superclass descriptor.modifiers.access)).2.methods.size =
        s₁.table.methods.size + 1 := Array.size_push _
    rw [size] at ownAdded
    refine ⟨_, _, methods_appendMethod _ _, kept, ?_⟩
    rw [if_pos none]
    refine ⟨_, rfl, superclass, _, _, _, _, _, _, asked, rfl, ?_, ?_⟩
    · exact ownAdded.mono (grown₁.trans (constructorEntry_grows _ _ _)) after
    · exact superAdded.mono grown₁ ((constructorEntry_grows _ _ _).trans after)
  · refine ⟨_, [], (List.append_nil _).symm, lowerMembers_matches before after hms, ?_⟩
    rw [if_neg some]

/-- The static routine has a matching entry. -/
theorem lowerStatics_matches {statics statics' : List Stmt} {d d' : TypeDecl}
    (same : SameStmts statics statics') (before : t.Grows s.table) (after : s'.table.Grows t')
    (run : lowerStatics options type statics d s = (.done d', s')) :
    ∃ routine, d'.methods = d.methods ++ routine ∧
      (if statics' = [] then routine = []
      else ∃ m, routine = [m] ∧ RoutineMatches t t' type options.classInitializerName m) := by
  rcases lowerStatics_cases run with ⟨nothing, rfl, rfl⟩ | ⟨something, run⟩
  · refine ⟨[], (List.append_nil _).symm, ?_⟩
    rw [if_pos (same.nil_iff.mp nothing)]
  · obtain ⟨-, rfl, rfl⟩ := addClassInitializer_ok run
    refine ⟨_, methods_appendMethod _ _, ?_⟩
    rw [if_neg fun nothing => something (same.nil_iff.mpr nothing)]
    exact ⟨_, rfl, _, _, _, _, rfl, (BindingTable.Added.push _ _).mono before after⟩

/-- What lowering a type itself makes has matching entries. -/
theorem lowerOwn_matches {d d' : TypeDecl} (described : t.typeAt type = .ok descriptor)
    (before : t.Grows s.table) (after : s'.table.Grows t')
    (run : lowerOwn options type descriptor.isInterface d s = (.done d', s')) :
    EntriesMatch t t' type options descriptor d d' := by
  obtain ⟨d₁, lists, s₁, d₂, s₂, hcollect, hinstances, hstatics⟩ := lowerOwn_steps run
  obtain ⟨head, collected, -, statics⟩ := collect_done before hcollect
  have collected_methods : d₁.methods = d.methods := methods_of_collected collected
  have name : d₁.name = d.name := congrArg TypeHead.name head
  have grown₁ : t.Grows s₁.table := before.trans ((collect_moves _ _ _).run hcollect).grows
  have moved : s₂.table.Grows s'.table := (lowerStatics_moves _ _ _ _).run hstatics
  rcases hinstances with ⟨isInterface, rfl, rfl⟩ | ⟨isClass, hinstances⟩
  · obtain ⟨routine, methods, hroutine⟩ := lowerStatics_matches statics grown₁ after hstatics
    refine ⟨d.methods, [], routine, ?_, ?_, ?_, hroutine⟩
    · rw [methods, collected_methods, List.nil_append]
    · rw [if_pos isInterface]
    · rw [if_neg fun h => Bool.eq_false_iff.mp h.1 isInterface]
  · have grown₂ : t.Grows s₂.table := grown₁.trans ((lowerInstances_moves _ _ _).run hinstances)
    obtain ⟨routine, methods, hroutine⟩ := lowerStatics_matches statics grown₂ after hstatics
    obtain ⟨kept, made, methods', hkept, hmade⟩ :=
      lowerInstances_matches described grown₁ (moved.trans after) hinstances
    rw [collected_methods] at hkept
    rw [TypeDecl.constructors, collected_methods, name] at hmade
    refine ⟨kept, made, routine, ?_, ?_, ?_, hroutine⟩
    · rw [methods, methods', List.append_assoc]
    · rw [if_neg (Bool.eq_false_iff.mp isClass)]
      exact hkept
    · rw [← TypeDecl.constructors] at hmade
      simpa [isClass] using hmade

/-! ## Counting the entries -/

/-- So many entries are made besides those of the synthesized members that are counted. -/
def EntersBesides (n : Nat) (s s' : State) : Prop :=
  s'.table.methods.size + (2 * s.stats.defaultConstructors + s.stats.classInitializers) =
    s.table.methods.size + (2 * s'.stats.defaultConstructors + s'.stats.classInitializers) + n

/-- Entries are counted step by step. -/
theorem EntersBesides.tally : Edit.Tally EntersBesides := by
  refine ⟨fun s => rfl, fun {m n a b c} first second => ?_⟩
  unfold EntersBesides at *
  omega

/-- Collecting adds no entries. -/
theorem EntersBesides.of_collects (collects : s.Collects s') : EntersBesides 0 s s' := by
  rw [EntersBesides, collects.table, collects.defaults, collects.routines]
  rfl

theorem size_addMethod (t : BindingTable) (m : MethodBinding) :
    (t.addMethod m).2.methods.size = t.methods.size + 1 := Array.size_push _

/-- A constructor adds an entry if it gets a call. -/
theorem ConstructorStep.enters {instances : List Stmt} {m m' : MethodDecl}
    (isConstructor : m.head.isConstructor = true)
    (step : ConstructorStep type instances s m m' s') : EntersBesides m.isSilent.toNat s s' := by
  cases step with
  | delegating calls =>
    rw [isSilent_eq_false_of_delegates calls]
    rfl
  | explicit _ _ isCall =>
    rw [isSilent_eq_false_of_call isCall]
    rfl
  | implicit designated none _ =>
    rw [isSilent_of_no_call isConstructor designated none, EntersBesides, size_addMethod,
      Bool.toNat_true]
    dsimp only
    omega

/-- Members add an entry for each constructor that gets a call. -/
theorem lowerMembers_enters {instances : List Stmt} {ms ms' : List Member}
    (run : Edit.list (lowerMember name type instances) ms s = (.done ms', s')) :
    EntersBesides (ms.map fun m => m.isSilent.toNat).sum s s' := by
  refine Edit.list_adds EntersBesides.tally (fun _ => True) (fun m m' s s' _ step => ⟨trivial, ?_⟩)
    trivial run
  rcases lowerMember_steps step with ⟨isMethod, -, rfl⟩ | ⟨c, c', rfl, -, isConstructor, step⟩
  · have notSilent : m.isSilent = false := by
      cases m with
      | method c =>
        have isMethod : c.head.isConstructor = false := isMethod
        show c.isSilent = false
        rw [MethodDecl.isSilent, MethodDecl.isDesignated, isMethod, Bool.false_and, Bool.false_and]
      | type d | initializer i | field f => rfl
    rw [notSilent]
    exact EntersBesides.tally.zero s'
  · exact step.enters isConstructor

/-- The pass for instances adds an entry for each constructor that gets a call; those of a default
constructor are counted with it. -/
theorem lowerInstances_enters {instances : List Stmt} {d d' : TypeDecl}
    (run : lowerInstances type instances d s = (.done d', s')) :
    EntersBesides (d.methods.filter MethodDecl.isSilent).length s s' := by
  obtain ⟨ms, s₁, hms, hmade⟩ := lowerInstances_steps run
  have declared := lowerMembers_enters hms
  rw [← Member.silent_length] at declared
  have made : EntersBesides 0 s₁ s' := by
    rcases hmade with ⟨-, hmade⟩ | ⟨-, -, rfl⟩
    · obtain ⟨descriptor, superclass, -, -, -, rfl⟩ := addDefaultConstructor_ok hmade
      rw [EntersBesides, size_addMethod, size_addMethod]
      dsimp only
      omega
    · exact EntersBesides.tally.zero s'
  exact EntersBesides.tally.add declared made

/-- The pass for the type itself adds no entry but that of the routine it counts. -/
theorem lowerStatics_enters {statics : List Stmt} {d d' : TypeDecl}
    (run : lowerStatics options type statics d s = (.done d', s')) : EntersBesides 0 s s' := by
  rcases lowerStatics_cases run with ⟨-, -, rfl⟩ | ⟨-, run⟩
  · exact EntersBesides.tally.zero s'
  · obtain ⟨-, -, rfl⟩ := addClassInitializer_ok run
    rw [EntersBesides, size_addMethod]
    dsimp only
    omega

/-- Its own lowering makes an entry for every constructor of a class that gets a call. -/
theorem lowerOwn_enters {d d' : TypeDecl} (bound : d.head.binding = some type)
    (described : t.typeAt type = .ok descriptor) (grown : t.Grows s.table)
    (run : lowerOwn options type descriptor.isInterface d s = (.done d', s')) :
    EntersBesides (d.silentConstructors t).length s s'.countedType := by
  obtain ⟨d₁, lists, s₁, d₂, s₂, hcollect, hinstances, hstatics⟩ := lowerOwn_steps run
  obtain ⟨-, collected, -, -⟩ := collect_done grown hcollect
  have collected_methods : d₁.methods = d.methods := methods_of_collected collected
  have isClass : t.isClass d = !descriptor.isInterface := by
    rw [BindingTable.isClass, bound, Option.any_some, described]
  have first : EntersBesides 0 s s₁ := .of_collects ((collect_moves _ _ _).run hcollect)
  have second : EntersBesides (d.silentConstructors t).length s₁ s₂ := by
    rw [TypeDecl.silentConstructors, isClass]
    rcases hinstances with ⟨isInterface, -, rfl⟩ | ⟨isClass, hinstances⟩
    · rw [isInterface, Bool.not_true, if_neg Bool.false_ne_true]
      exact EntersBesides.tally.zero s₂
    · rw [isClass, Bool.not_false, if_pos rfl, ← collected_methods]
      exact lowerInstances_enters hinstances
  have third : EntersBesides 0 s₂ s' := lowerStatics_enters hstatics
  have all := EntersBesides.tally.add (EntersBesides.tally.add first second) third
  rw [Nat.zero_add, Nat.add_zero] at all
  -- Counting the type makes no entry.
  exact all

/-! ## Declarations and their entries -/

/-- The second declaration comes from the first: its nested types are edited, it is lowered by the
rules with an entry for everything that is made, and possibly copied. -/
structure MatchedOrigin (options : Options) (t t' : BindingTable) (d d' : TypeDecl) : Prop where
  lowered : ∃ type descriptor d₁ d₂, d.head.binding = some type ∧
    t.typeAt type = .ok descriptor ∧ d₁.head = d.head ∧
    d₁.members.map Member.outline = d.members.map Member.outline ∧
    TypeLowered options t descriptor.isInterface descriptor.modifiers.access d₁ d₂ ∧
    EntriesMatch t t' type options descriptor d₁ d₂ ∧ d₂.erase id = d'.erase id

/-- Where a declaration comes from is known up to ids. -/
theorem MatchedOrigin.of_erase {d x y : TypeDecl} (origin : MatchedOrigin options t t' d x)
    (same : x.erase id = y.erase id) : MatchedOrigin options t t' d y := by
  obtain ⟨type, descriptor, d₁, d₂, bound, described, head, outline, lowered, entries, eq⟩ :=
    origin.lowered
  exact ⟨type, descriptor, d₁, d₂, bound, described, head, outline, lowered, entries, eq.trans same⟩

theorem lowerType_matchedOrigin {levels : Nat} {d d' : TypeDecl} (before : t.Grows s.table)
    (after : s'.table.Grows t') (run : lowerType options (levels + 1) d s = (.done d', s')) :
    MatchedOrigin options t t' d d' := by
  obtain ⟨type, descriptor, d₁, s₁, s₂, bound, described, nested, own, rfl⟩ := lowerType_steps run
  rw [before.typeAt] at described
  obtain ⟨-, head, outline⟩ := lowerNested_done nested
  have grown₁ : t.Grows s₁.table :=
    before.trans ((lowerNested_moves (lowerType_moves options levels) d).run nested)
  have after₂ : s₂.table.Grows t' := after
  exact ⟨type, descriptor, d₁, d', bound, described, head, outline,
    lowerOwn_done grown₁ described own, lowerOwn_matches described grown₁ after₂ own, rfl⟩

end Lowering

/-- What lowering a unit does to the table. Whether it succeeds or fails, types and variables stay
and entries of synthesized methods without parameters and result are added at the end. If it
succeeds, there are two for each default constructor, one for each static routine, and one for each
designated constructor of a class or enum that did not call the superclass constructor; and in every
declaration of the output, what the run made carries the handle of an added entry that matches
it. -/
theorem CompilationUnit.lower_entries (u : CompilationUnit) (t : BindingTable)
    (options : Lowering.Options) :
    t.Grows (u.lower t options).table ∧
      ∀ stats, (u.lower t options).result = .ok stats →
        (u.lower t options).table.methods.size =
          t.methods.size + (2 * stats.defaultConstructors + stats.classInitializers +
            (u.silentConstructors t).length) ∧
        ∀ x' ∈ (u.lower t options).unit.declarations, ∃ x ∈ u.declarations,
          Lowering.MatchedOrigin options t (u.lower t options).table x x' := by
  refine ⟨u.lower_grows t options, fun stats success => ⟨?_, ?_⟩⟩
  · have entered : Lowering.EntersBesides
        (u.declarations.map fun d => (d.silentConstructors t).length).sum ⟨t, u.supply, .zero⟩
        ⟨(u.lower t options).table, (u.lower t options).unit.supply, stats⟩ :=
      lower_adds success Lowering.EntersBesides.tally
        (fun _ _ head outline => TypeDecl.silentConstructors_length_of_outline head outline)
        fun _ _ _ _ _ _ bound described grown run =>
          Lowering.lowerOwn_enters bound described grown run
    have all : (u.silentConstructors t).length =
        (u.declarations.map fun d => (d.silentConstructors t).length).sum :=
      List.length_flatMap
    rw [← all] at entered
    unfold Lowering.EntersBesides Lowering.Stats.zero at entered
    dsimp only at entered
    omega
  · exact CompilationUnit.lower_declarations success (fun _ _ _ origin => origin.of_erase)
      fun _ _ _ _ _ before after run => Lowering.lowerType_matchedOrigin before after run

/-- The sample class declares its constructors, one of them designated and with a call, and has a
static initializer, so that the run makes one entry, that of the static routine. -/
theorem CompilationUnit.lower_entries_sample :
    let u : CompilationUnit := ⟨"A.java", none, [Lowering.sampleClass], .initial⟩
    let r := u.lower Lowering.sampleState.table .standard
    r.table.methods.size = 1 ∧
      ∀ x' ∈ r.unit.declarations, ∃ x ∈ u.declarations,
        Lowering.MatchedOrigin .standard Lowering.sampleState.table r.table x x' := by
  have success : ∃ stats, (CompilationUnit.lower ⟨"A.java", none, [Lowering.sampleClass], .initial⟩
      Lowering.sampleState.table .standard).result = .ok stats := ⟨_, rfl⟩
  obtain ⟨stats, success⟩ := success
  exact ⟨rfl, ((CompilationUnit.lower_entries _ _ _).2 stats success).2⟩

end ClassInit
