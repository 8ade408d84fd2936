import ClassInit.Proofs.Lowering.PassCounts

/-!
# What the counts of a run say

The counts of a run are the sum of what its declarations count (`CompilationUnit.lower_stats`), and
that can be read off each declaration of the input (`TypeDecl.counts`): every type, initializer
block, field initializer and constructor of the input is counted once, at whatever depth it stands
and however often the statements around it are copied (`CompilationUnit.lower_statistics`).
-/

set_option autoImplicit false

namespace ClassInit

open Lowering (Stats)

/-! ## What a run counts -/

section

variable {u : CompilationUnit} {t : BindingTable} {options : Lowering.Options} {stats : Stats}

/-- A number read off the counts of a run adds up over the declarations of the unit. -/
theorem CompilationUnit.lower_count (success : (u.lower t options).result = .ok stats)
    {f : Stats → Nat} (additive : Stats.Additive f) :
    f stats = (u.declarations.map fun d => f (d.counts options t)).sum := by
  have tally : Edit.Tally fun n (s s' : Lowering.State) => f s'.stats = f s.stats + n := by
    refine ⟨fun s => rfl, fun first second => ?_⟩
    rw [second, first, Nat.add_assoc]
  have counted := lower_adds success tally
    (fun _ _ head same => congrArg f (TypeDecl.counts_of_outline head same))
    fun type descriptor d d' s s' bound described grown run => by
      rw [Lowering.lowerOwn_counts bound described grown run, additive.add]
  have start : f Stats.zero = 0 := additive.zero
  rw [start, Nat.zero_add] at counted
  exact counted

/-- The counts of a run are the sum of what the declarations of the unit count. -/
theorem CompilationUnit.lower_stats (success : (u.lower t options).result = .ok stats) :
    stats = (u.declarations.map (TypeDecl.counts options t)).sum := by
  have each : ∀ f : Stats → Nat, Stats.Additive f →
      f stats = f (u.declarations.map (TypeDecl.counts options t)).sum :=
    fun f additive => (lower_count success additive).trans (additive.sum _ _).symm
  apply Stats.ext <;> exact each _ ⟨rfl, fun _ _ => rfl⟩

end

/-! ## The counts of the input -/

/-- A number read off counts that weighs what is counted by its kind alone: the initializer of a
field that belongs to the type or to each instance, a block, a constructor. -/
structure Lowering.Stats.Weighs (f : Stats → Nat) (once each block constructor : Nat) : Prop
    extends Stats.Additive f where
  static : f { (0 : Stats) with staticAssignments := 1 } = once
  kept : f { (0 : Stats) with keptLiterals := 1 } = once
  folded : f { (0 : Stats) with foldedLiterals := 1 } = once
  instances : f { (0 : Stats) with instanceAssignments := 1 } = each
  blocks : f { (0 : Stats) with initializerBlocks := 1 } = block
  designated : f { (0 : Stats) with designatedConstructors := 1 } = constructor
  delegating : f { (0 : Stats) with delegatingConstructors := 1 } = constructor

/-- The fragments with an initializer in the fields of a declaration that are picked. -/
def TypeDecl.initialized (pick : FieldDecl → Bool) (d : TypeDecl) : List Fragment :=
  (d.fields.filter pick).flatMap fun f => f.fragments.filter (·.initializer.isSome)

namespace Lowering

variable {t : BindingTable} {encoding : LiteralEncoding} {f : Stats → Nat}
variable {once each block constructor : Nat} (weighs : Stats.Weighs f once each block constructor)

include weighs

/-- A variable counts if it has an initializer. -/
theorem fragmentCounts_weighed (isStatic : Bool) (frag : Fragment) :
    f (fragmentCounts t encoding isStatic frag) =
      frag.initializer.isSome.toNat * if isStatic then once else each := by
  unfold fragmentCounts
  cases frag.initializer with
  | none => exact weighs.zero.trans (Nat.zero_mul _).symm
  | some e =>
    rw [Option.isSome_some, Bool.toNat_true, Nat.one_mul]
    cases isStatic with
    | true =>
      show f ((fateOf t encoding true frag e).counts true) = once
      cases fateOf t encoding true frag e with
      | keep => exact weighs.kept
      | fold c => exact weighs.folded
      | demote => exact weighs.static
    | false => exact weighs.instances

/-- The variables of a field count one by one. -/
theorem fragmentsCounts_weighed (isStatic : Bool) (frags : List Fragment) :
    f (frags.map (fragmentCounts t encoding isStatic)).sum =
      (frags.filter (·.initializer.isSome)).length * if isStatic then once else each := by
  rw [weighs.sum]
  induction frags with
  | nil => exact (Nat.zero_mul _).symm
  | cons frag frags ih =>
    rw [List.map_cons, List.sum_cons, ih, fragmentCounts_weighed weighs, ← Nat.add_mul,
      List.filter_cons]
    cases frag.initializer.isSome with
    | true => rw [if_pos rfl, List.length_cons, Bool.toNat_true, Nat.add_comm]
    | false => rw [if_neg Bool.false_ne_true, Bool.toNat_false, Nat.zero_add]

/-- The initializers of a type count by whether they run once or for every instance. -/
theorem initializerCounts_weighed (isInterface : Bool) (d : TypeDecl) :
    f (d.members.map (initializerCounts t encoding isInterface)).sum =
      (d.initialized (isOnce isInterface)).length * once +
        (d.initialized fun fd => !isOnce isInterface fd).length * each +
        d.initializers.length * block := by
  rw [weighs.sum, TypeDecl.initialized, TypeDecl.initialized, TypeDecl.fields,
    TypeDecl.initializers]
  induction d.members with
  | nil => simp
  | cons m ms ih =>
    rw [List.map_cons, List.sum_cons, ih]
    cases m with
    | field fd =>
      rw [initializerCounts, fragmentsCounts_weighed weighs,
        List.filterMap_cons_some (show (Member.field fd).asField = some fd from rfl),
        List.filterMap_cons_none (show (Member.field fd).asInitializer = none from rfl),
        List.filter_cons, List.filter_cons]
      cases isOnce isInterface fd with
      | true => simp [Nat.add_mul, Nat.add_assoc]
      | false => simp [Nat.add_mul, Nat.add_assoc, Nat.add_left_comm]
    | initializer i =>
      have one : f (initializerCounts t encoding isInterface (.initializer i)) = block :=
        weighs.blocks
      rw [one, List.filterMap_cons_none (show (Member.initializer i).asField = none from rfl),
        List.filterMap_cons_some (show (Member.initializer i).asInitializer = some i from rfl),
        List.length_cons, Nat.add_mul, Nat.one_mul]
      omega
    | type x | method x =>
      show f 0 + _ = _
      rw [weighs.zero, Nat.zero_add]
      rfl

/-- The constructors of a type count one by one. -/
theorem constructorCounts_weighed (d : TypeDecl) :
    f (d.members.map constructorCounts).sum = d.constructors.length * constructor := by
  rw [weighs.sum, TypeDecl.constructors, TypeDecl.methods]
  induction d.members with
  | nil => simp
  | cons m ms ih =>
    rw [List.map_cons, List.sum_cons, ih]
    cases m with
    | method c =>
      rw [List.filterMap_cons_some (show (Member.method c).asMethod = some c from rfl),
        List.filter_cons, constructorCounts]
      cases c.head.isConstructor with
      | true =>
        rw [if_pos rfl, if_pos rfl, List.length_cons, Nat.add_mul, Nat.one_mul, Nat.add_comm]
        congr 1
        split
        · exact weighs.designated
        · exact weighs.delegating
      | false =>
        rw [if_neg Bool.false_ne_true, if_neg Bool.false_ne_true, weighs.zero, Nat.zero_add]
    | type x | initializer x | field x =>
      show f 0 + _ = _
      rw [weighs.zero, Nat.zero_add]
      rfl

/-- What is read off the counts of a declaration, from what the declaration holds. -/
theorem counts_weighed (options : Options) (d : TypeDecl) :
    f (d.counts options t) =
      (d.initialized fun fd => !(t.isClass d && !fd.modifiers.isStatic)).length * once +
        (d.initialized fun fd => t.isClass d && !fd.modifiers.isStatic).length * each +
        d.initializers.length * block +
        (if t.isClass d then d.constructors.length else 0) * constructor +
        f { (0 : Stats) with
            types := 1
            defaultConstructors := (d.lacksConstructor t).toNat
            classInitializers := (d.gainsRoutine options t).toNat } := by
  have belongs : ∀ fd, isOnce (!t.isClass d) fd = !(t.isClass d && !fd.modifiers.isStatic) := by
    intro fd
    rw [isOnce]
    cases fd.modifiers.isStatic <;> cases t.isClass d <;> rfl
  rw [TypeDecl.counts, weighs.add, weighs.add, initializerCounts_weighed weighs, apply_ite f,
    constructorCounts_weighed weighs, weighs.zero, ite_mul, Nat.zero_mul]
  simp only [funext belongs, Bool.not_not]

end Lowering

/-! ## The statistics -/

theorem Lowering.countP_eq_sum {α : Type} (p : α → Bool) (as : List α) :
    as.countP p = (as.map fun a => (p a).toNat).sum := by
  induction as with
  | nil => rfl
  | cons a as ih =>
    rw [List.countP_cons, ih, List.map_cons, List.sum_cons, Nat.add_comm]
    cases p a <;> rfl

/-- The second declaration comes from the first, possibly copied: what survives of its members, a
default constructor if it lacks one, and a static routine if it gains one. -/
structure Lowering.Gained (options : Lowering.Options) (t : BindingTable) (d d' : TypeDecl) :
    Prop where
  members : ∃ d₂ : TypeDecl, ∃ kept routine : List Member, d₂.erase id = d'.erase id ∧
    d₂.members = kept ++ routine ∧
    kept.length = d.members.countP Lowering.survives + (d.lacksConstructor t).toNat ∧
    (if d.gainsRoutine options t then
      ∃ m statics, routine = [m] ∧ Lowering.StaticRoutine options.classInitializerName statics m
    else routine = [])

/-- Every output type gained what its origin calls for. -/
theorem Lowering.Origin.gained {options : Lowering.Options} {t : BindingTable} {d d' : TypeDecl}
    (origin : Lowering.Origin options t d d') : Lowering.Gained options t d d' := by
  obtain ⟨type, descriptor, d₁, d₂, bound, described, head, outline, lowered, copied⟩ :=
    origin.lowered
  obtain ⟨kept, made, routine, members, hkept, hmade, hroutine⟩ := lowered.members
  have isClass : t.isClass d = !descriptor.isInterface := by
    rw [BindingTable.isClass, bound, Option.any_some, described]
  -- `d₁` is `d` with the types inside it lowered, which decide neither what survives of its members
  -- nor what it gains.
  have survivors : kept.length = d.members.countP Lowering.survives := by
    rw [← hkept.length_eq, ← List.countP_eq_length_filter]
    exact TypeDecl.countP_of_outline outline Member.survives_outline
  refine ⟨d₂, kept ++ made, routine, copied, ?_, ?_, ?_⟩
  · rw [members, List.append_assoc]
  · have lacks :
        d.lacksConstructor t = true ↔ descriptor.isInterface = false ∧ d₁.constructors = [] := by
      rw [TypeDecl.lacksConstructor, isClass, ← TypeDecl.constructors_isEmpty_of_outline outline]
      simp
    rw [List.length_append, survivors]
    simp only [← lacks] at hmade
    cases lacking : d.lacksConstructor t with
    | true =>
      rw [if_pos lacking] at hmade
      obtain ⟨m, rfl, -⟩ := hmade
      rfl
    | false =>
      rw [if_neg (Bool.eq_false_iff.mp lacking)] at hmade
      rw [hmade]
      rfl
  · have gains : d.gainsRoutine options t = true ↔
        ¬ Lowering.initList t options.literalEncoding descriptor.isInterface true d₁.members =
          [] := by
      rw [← TypeDecl.gainsRoutine_of_outline head outline, TypeDecl.gainsRoutine,
        TypeDecl.isClass_of_head head, isClass]
      simp
    split
    · rename_i gained
      rw [if_neg (gains.mp gained)] at hroutine
      obtain ⟨m, single, made⟩ := hroutine
      exact ⟨m, _, single, made⟩
    · rename_i notGained
      rw [if_pos (Decidable.not_not.mp fun h => notGained (gains.mpr h))] at hroutine
      exact hroutine

/-- Whatever the depth at which they stand and however often they are copied, a run counts every
type, initializer block, field initializer and constructor of the input once: blocks by their
number, the initializers of instance fields of classes and enums as instance assignments, all other
field initializers as static assignments, kept or folded literals, the constructors of classes and
enums as designated or delegating ones, the classes and enums without constructor as those that get
one, and the types with something to run once as those that get a static routine; these are the
types that gain one. -/
theorem CompilationUnit.lower_statistics {u : CompilationUnit} {t : BindingTable}
    {options : Lowering.Options} {stats : Stats}
    (success : (u.lower t options).result = .ok stats) :
    stats.types = u.declarations.length ∧
    stats.initializerBlocks = (u.declarations.flatMap TypeDecl.initializers).length ∧
    stats.instanceAssignments = (u.declarations.flatMap fun d =>
      d.initialized fun f => t.isClass d && !f.modifiers.isStatic).length ∧
    stats.staticAssignments + stats.keptLiterals + stats.foldedLiterals =
      (u.declarations.flatMap fun d =>
        d.initialized fun f => !(t.isClass d && !f.modifiers.isStatic)).length ∧
    stats.designatedConstructors + stats.delegatingConstructors =
      (u.declarations.flatMap fun d => if t.isClass d then d.constructors else []).length ∧
    stats.defaultConstructors = u.declarations.countP (·.lacksConstructor t) ∧
    stats.classInitializers = u.declarations.countP (·.gainsRoutine options t) ∧
    ∀ x' ∈ (u.lower t options).unit.declarations, ∃ x ∈ u.declarations,
      Lowering.Gained options t x x' := by
  -- Each count, or sum of counts, is additive and fixed by what it takes for a static initializer,
  -- an instance initializer, a block and a constructor.
  refine ⟨?_, ?_, ?_, ?_, ?_, ?_, ?_, fun x' hx' => ?_⟩
  · have weighs : Stats.Weighs Stats.types 0 0 0 0 :=
      ⟨⟨rfl, fun _ _ => rfl⟩, rfl, rfl, rfl, rfl, rfl, rfl, rfl⟩
    rw [lower_count success weighs.toAdditive]
    simp [Lowering.counts_weighed weighs]
  · have weighs : Stats.Weighs Stats.initializerBlocks 0 0 1 0 :=
      ⟨⟨rfl, fun _ _ => rfl⟩, rfl, rfl, rfl, rfl, rfl, rfl, rfl⟩
    rw [lower_count success weighs.toAdditive]
    simp [Lowering.counts_weighed weighs, List.length_flatMap, Stats.zero_def]
  · have weighs : Stats.Weighs Stats.instanceAssignments 0 1 0 0 :=
      ⟨⟨rfl, fun _ _ => rfl⟩, rfl, rfl, rfl, rfl, rfl, rfl, rfl⟩
    rw [lower_count success weighs.toAdditive]
    simp [Lowering.counts_weighed weighs, List.length_flatMap, Stats.zero_def]
  · have weighs : Stats.Weighs (fun s => s.staticAssignments + s.keptLiterals + s.foldedLiterals)
        1 0 0 0 := by
      refine ⟨⟨rfl, fun a b => ?_⟩, rfl, rfl, rfl, rfl, rfl, rfl, rfl⟩
      simp only [Stats.add_def]
      omega
    rw [lower_count success weighs.toAdditive]
    simp [Lowering.counts_weighed weighs, List.length_flatMap, Stats.zero_def]
  · have weighs :
        Stats.Weighs (fun s => s.designatedConstructors + s.delegatingConstructors) 0 0 0 1 := by
      refine ⟨⟨rfl, fun a b => ?_⟩, rfl, rfl, rfl, rfl, rfl, rfl, rfl⟩
      simp only [Stats.add_def]
      omega
    rw [lower_count success weighs.toAdditive]
    simp [Lowering.counts_weighed weighs, List.length_flatMap, Stats.zero_def, apply_ite]
  · have weighs : Stats.Weighs Stats.defaultConstructors 0 0 0 0 :=
      ⟨⟨rfl, fun _ _ => rfl⟩, rfl, rfl, rfl, rfl, rfl, rfl, rfl⟩
    rw [lower_count success weighs.toAdditive, Lowering.countP_eq_sum]
    simp [Lowering.counts_weighed weighs]
  · have weighs : Stats.Weighs Stats.classInitializers 0 0 0 0 :=
      ⟨⟨rfl, fun _ _ => rfl⟩, rfl, rfl, rfl, rfl, rfl, rfl, rfl⟩
    rw [lower_count success weighs.toAdditive, Lowering.countP_eq_sum]
    simp [Lowering.counts_weighed weighs]
  · obtain ⟨x, hx, origin⟩ := lower_origin success x' hx'
    exact ⟨x, hx, origin.gained⟩

/-- `class A { int x = 1; { class B { int y = 2; } } A(int n) { } A(boolean b) { } }`. -/
def Lowering.copiedUnit : CompilationUnit :=
  let i : ExprInfo := ⟨.unassigned, .dummy, none⟩
  let n : NodeInfo := ⟨.unassigned, .dummy⟩
  let field (name : String) (value : Int32) (v : VariableId) : Member :=
    .field ⟨.unassigned, .dummy, .empty, .primitive .int,
      [⟨.dummy, name, some (.literal i (.int value)), some v⟩]⟩
  let head (name : String) (type : TypeId) : TypeHead :=
    ⟨.unassigned, .dummy, .classType, name, .empty, none, some type, []⟩
  let constructor (p : Parameter) : Member :=
    .method ⟨⟨.unassigned, .dummy, "A", .empty, .void, [p], true, none, false⟩, some ⟨n, []⟩⟩
  ⟨"A.java", none,
    [⟨head "A" ⟨2⟩,
      [field "x" 1 ⟨0⟩,
        .initializer ⟨n, false, ⟨n, [.localType n ⟨head "B" ⟨3⟩, [field "y" 2 ⟨1⟩]⟩]⟩⟩,
        constructor ⟨"n", .primitive .int, none⟩, constructor ⟨"b", .primitive .boolean, none⟩]⟩],
    .initial⟩

/-- A table that knows the types and fields of the unit. -/
def Lowering.copiedTable : BindingTable :=
  ⟨#[BindingTable.external Names.objectType, BindingTable.external Names.stringType,
      ⟨"A", .classType, .empty, some ⟨0⟩, none⟩, ⟨"B", .classType, .empty, some ⟨0⟩, some ⟨2⟩⟩],
    #[⟨"x", .primitive .int, .empty, some ⟨2⟩, true, none⟩,
      ⟨"y", .primitive .int, .empty, some ⟨3⟩, true, none⟩],
    #[], _, rfl⟩

/-- The local class is copied into both constructors of the class around it, and is counted once. -/
theorem CompilationUnit.lower_statistics_copied :
    let u := Lowering.copiedUnit
    (u.lower Lowering.copiedTable .standard).result = .ok ⟨2, 2, 0, 0, 0, 1, 2, 0, 1, 0⟩ ∧
      (u.lower Lowering.copiedTable .standard).unit.declarations.length = 3 ∧
      u.declarations.length = 2 ∧ (u.declarations.flatMap TypeDecl.initializers).length = 1 ∧
      u.declarations.countP (·.lacksConstructor Lowering.copiedTable) = 1 := by
  have success : (Lowering.copiedUnit.lower Lowering.copiedTable .standard).result =
      .ok ⟨2, 2, 0, 0, 0, 1, 2, 0, 1, 0⟩ := by decide +kernel
  obtain ⟨types, blocks, -, -, -, defaults, -, -⟩ := CompilationUnit.lower_statistics success
  exact ⟨success, by decide +kernel, types.symm, blocks.symm, defaults.symm⟩

end ClassInit
