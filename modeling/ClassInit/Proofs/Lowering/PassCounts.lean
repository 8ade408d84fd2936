import Mathlib.Algebra.BigOperators.Group.List.Basic
import ClassInit.Proofs.Lowering.Entries
import ClassInit.Proofs.Lowering.Failures

/-!
# What the passes count

What lowering counts for a type can be read off its declaration (`TypeDecl.counts`): the
initializers that are taken out, the constructors that get them and the members that are added. The
types inside it play no part (`TypeDecl.counts_of_outline`).
-/

set_option autoImplicit false

namespace ClassInit

namespace Lowering

/-! ## Adding counts -/

namespace Stats

theorem ext {a b : Stats} (types : a.types = b.types)
    (instances : a.instanceAssignments = b.instanceAssignments)
    (statics : a.staticAssignments = b.staticAssignments)
    (kept : a.keptLiterals = b.keptLiterals) (folded : a.foldedLiterals = b.foldedLiterals)
    (blocks : a.initializerBlocks = b.initializerBlocks)
    (designated : a.designatedConstructors = b.designatedConstructors)
    (delegating : a.delegatingConstructors = b.delegatingConstructors)
    (defaults : a.defaultConstructors = b.defaultConstructors)
    (routines : a.classInitializers = b.classInitializers) : a = b := by
  cases a
  cases b
  simp_all

instance : Zero Stats := ⟨zero⟩

instance : Add Stats where
  add a b :=
    ⟨a.types + b.types, a.instanceAssignments + b.instanceAssignments,
      a.staticAssignments + b.staticAssignments, a.keptLiterals + b.keptLiterals,
      a.foldedLiterals + b.foldedLiterals, a.initializerBlocks + b.initializerBlocks,
      a.designatedConstructors + b.designatedConstructors,
      a.delegatingConstructors + b.delegatingConstructors,
      a.defaultConstructors + b.defaultConstructors, a.classInitializers + b.classInitializers⟩

theorem zero_def : (0 : Stats) = ⟨0, 0, 0, 0, 0, 0, 0, 0, 0, 0⟩ := rfl

theorem add_def (a b : Stats) :
    a + b =
      ⟨a.types + b.types, a.instanceAssignments + b.instanceAssignments,
        a.staticAssignments + b.staticAssignments, a.keptLiterals + b.keptLiterals,
        a.foldedLiterals + b.foldedLiterals, a.initializerBlocks + b.initializerBlocks,
        a.designatedConstructors + b.designatedConstructors,
        a.delegatingConstructors + b.delegatingConstructors,
        a.defaultConstructors + b.defaultConstructors, a.classInitializers + b.classInitializers⟩ :=
  rfl

instance : AddCommMonoid Stats where
  add_assoc a b c := by
    apply ext <;> exact Nat.add_assoc ..
  zero_add a := by
    apply ext <;> exact Nat.zero_add _
  add_zero a := rfl
  add_comm a b := by
    apply ext <;> exact Nat.add_comm ..
  nsmul := nsmulRec

/-- A number that is read off counts and adds up as they do. -/
structure Additive (f : Stats → Nat) : Prop where
  zero : f 0 = 0
  add : ∀ a b, f (a + b) = f a + f b

/-- A number that is read off counts adds up over a list. -/
theorem Additive.sum {f : Stats → Nat} (additive : Additive f) {α : Type} (g : α → Stats)
    (as : List α) : f (as.map g).sum = (as.map fun a => f (g a)).sum := by
  induction as with
  | nil => exact additive.zero
  | cons a as ih =>
    rw [List.map_cons, List.sum_cons, additive.add, ih, List.map_cons, List.sum_cons]

end Stats

/-! ## What the input counts -/

/-- What a decided initializer counts. -/
def Eligibility.counts (once : Bool) : Eligibility → Stats
  | .keep => { (0 : Stats) with keptLiterals := 1 }
  | .fold _ => { (0 : Stats) with foldedLiterals := 1 }
  | .demote =>
    if once then { (0 : Stats) with staticAssignments := 1 }
    else { (0 : Stats) with instanceAssignments := 1 }

section

variable (t : BindingTable) (encoding : LiteralEncoding)

/-- What becomes of the initializer of a fragment. -/
def fateOf (once : Bool) (f : Fragment) (initializer : Expr) : Eligibility :=
  if once then
    match f.binding.map (classify t encoding initializer) with
    | some (.ok fate) => fate
    | _ => .demote
  else .demote

def fragmentCounts (once : Bool) (f : Fragment) : Stats :=
  match f.initializer with
  | some e => (fateOf t encoding once f e).counts once
  | none => 0

/-- What collecting a member counts. -/
def initializerCounts (isInterface : Bool) : Member → Stats
  | .field f => (f.fragments.map (fragmentCounts t encoding (isOnce isInterface f))).sum
  | .initializer _ => { (0 : Stats) with initializerBlocks := 1 }
  | .type _ => 0
  | .method _ => 0

end

/-- What lowering a constructor counts; other members count nothing. -/
def constructorCounts : Member → Stats
  | .method m =>
    if m.head.isConstructor then
      if m.isDesignated then { (0 : Stats) with designatedConstructors := 1 }
      else { (0 : Stats) with delegatingConstructors := 1 }
    else 0
  | _ => 0

end Lowering

open Lowering (Stats)

/-- Whether a class or enum declares no constructor. -/
def TypeDecl.lacksConstructor (t : BindingTable) (d : TypeDecl) : Bool :=
  t.isClass d && d.constructors.isEmpty

/-- Whether a declaration has something to run once, for which it gains a static routine. -/
def TypeDecl.gainsRoutine (options : Lowering.Options) (t : BindingTable) (d : TypeDecl) : Bool :=
  !(Lowering.initList t options.literalEncoding (!t.isClass d) true d.members).isEmpty

/-- What a declaration counts, without the declarations in it. -/
def TypeDecl.counts (options : Lowering.Options) (t : BindingTable) (d : TypeDecl) : Stats :=
  (d.members.map (Lowering.initializerCounts t options.literalEncoding (!t.isClass d))).sum +
    (if t.isClass d then (d.members.map Lowering.constructorCounts).sum else 0) +
    { (0 : Stats) with
      types := 1
      defaultConstructors := (d.lacksConstructor t).toNat
      classInitializers := (d.gainsRoutine options t).toNat }

namespace Lowering

variable {options : Options} {name : String} {t : BindingTable} {type : TypeId}
variable {isInterface : Bool} {s s' : State}

/-! ## What the passes count -/

/-- What collecting from a variable counts is what its initializer is classified as. -/
theorem FragmentCollected.counts {once : Bool} {fieldType : TypeRef} {lists lists' : InitLists}
    {f f' : Fragment} (grown : t.Grows s.table)
    (collected : FragmentCollected options once fieldType lists f s f' lists' s') :
    s'.stats = s.stats + fragmentCounts t options.literalEncoding once f := by
  cases collected with
  | bare init => rw [fragmentCounts, init, add_zero]
  | moved init bound once =>
    subst once
    rw [fragmentCounts, init]
    rfl
  | kept init bound once keep =>
    subst once
    rw [grown.classify] at keep
    rw [fragmentCounts, init]
    simp only [fateOf, bound, Option.map_some, keep]
    rfl
  | folded init bound once fold =>
    subst once
    rw [grown.classify] at fold
    rw [fragmentCounts, init]
    simp only [fateOf, bound, Option.map_some, fold]
    rfl
  | demoted init bound once demote =>
    subst once
    rw [grown.classify] at demote
    rw [fragmentCounts, init]
    simp only [fateOf, bound, Option.map_some, demote]
    rfl

/-- The same for the variables of a field. -/
theorem FragmentsCollected.counts {once : Bool} {fieldType : TypeRef} {lists lists' : InitLists}
    {fs fs' : List Fragment} (grown : t.Grows s.table)
    (collected : FragmentsCollected options once fieldType lists fs s fs' lists' s') :
    s'.stats = s.stats + (fs.map (fragmentCounts t options.literalEncoding once)).sum := by
  induction collected with
  | nil => rfl
  | cons one _ ih =>
    rw [ih (one.table ▸ grown), one.counts grown, List.map_cons, List.sum_cons, add_assoc]

/-- The same for the members of a type. -/
theorem MembersCollected.counts {lists lists' : InitLists} {ms ms' : List Member}
    (grown : t.Grows s.table)
    (collected : MembersCollected options isInterface lists ms s ms' lists' s') :
    s'.stats =
      s.stats + (ms.map (initializerCounts t options.literalEncoding isInterface)).sum := by
  induction collected with
  | nil => rfl
  | initializer _ ih =>
    rw [ih grown, List.map_cons, List.sum_cons, ← add_assoc]
    rfl
  | field fragments _ ih =>
    rw [ih (fragments.table ▸ grown), fragments.counts grown, List.map_cons, List.sum_cons,
      ← add_assoc]
    rfl
  | type | method =>
    rename_i ih
    rw [ih grown, List.map_cons, List.sum_cons, ← add_assoc]
    rfl

/-- A constructor is counted as one that gets the initializers or as one that delegates. -/
theorem ConstructorStep.counts {instances : List Stmt} {m m' : MethodDecl}
    (isConstructor : m.head.isConstructor = true)
    (step : ConstructorStep type instances s m m' s') :
    s'.stats = s.stats + constructorCounts (.method m) := by
  have designated : ∀ (h : MethodHead) (b : Block), h.isConstructor = true →
      (MethodDecl.mk h (some b)).isDesignated = !delegates b.statements := by
    intro h b isConstructor
    show (h.isConstructor && !delegates b.statements) = _
    rw [isConstructor, Bool.true_and]
  rw [constructorCounts, if_pos isConstructor]
  cases step with
  | delegating calls =>
    rw [designated _ _ isConstructor, calls]
    rfl
  | explicit calls =>
    rw [designated _ _ isConstructor, calls]
    rfl
  | implicit calls =>
    rw [designated _ _ isConstructor, calls]
    rfl

/-- The constructors among the members are counted one by one. -/
theorem lowerMembers_counts {instances : List Stmt} {ms ms' : List Member}
    (run : Edit.list (lowerMember name type instances) ms s = (.done ms', s')) :
    s'.stats = s.stats + (ms.map constructorCounts).sum := by
  induction ms generalizing ms' s with
  | nil =>
    obtain ⟨-, rfl⟩ := Edit.list_nil_eq_done.mp run
    rfl
  | cons m ms ih =>
    obtain ⟨m', s₁, rest, hm, hrest, -⟩ := Edit.list_cons_eq_done.mp run
    rw [ih hrest, List.map_cons, List.sum_cons, ← add_assoc]
    congr 1
    rcases lowerMember_steps hm with ⟨isMethod, -, rfl⟩ | ⟨c, c', rfl, -, isConstructor, step⟩
    · have nothing : constructorCounts m = 0 := by
        cases m with
        | method c =>
          have isMethod : c.head.isConstructor = false := isMethod
          rw [constructorCounts, isMethod, if_neg Bool.false_ne_true]
        | type d | initializer i | field f => rfl
      rw [nothing, add_zero]
    · exact step.counts isConstructor

/-- Members with the same methods have the same constructors to count. -/
theorem constructorCounts_of_methods {ms ms' : List Member}
    (same : ms'.filterMap Member.asMethod = ms.filterMap Member.asMethod) :
    (ms'.map constructorCounts).sum = (ms.map constructorCounts).sum := by
  have listed : ∀ ms : List Member, (ms.map constructorCounts).sum =
      ((ms.filterMap Member.asMethod).map fun m => constructorCounts (.method m)).sum := by
    intro ms
    induction ms with
    | nil => rfl
    | cons m ms ih =>
      cases m with
      | method c =>
        rw [List.map_cons, List.sum_cons, ih]
        rfl
      | type d | initializer i | field f =>
        rw [List.map_cons, List.sum_cons, ih]
        exact zero_add _
  rw [listed, listed, same]

/-- The pass for instances counts constructors, and the default one if it is added. -/
theorem lowerInstances_counts {instances : List Stmt} {d d' : TypeDecl}
    (run : lowerInstances type instances d s = (.done d', s')) :
    s'.stats = s.stats + (d.members.map constructorCounts).sum +
      { (0 : Stats) with defaultConstructors := d.constructors.isEmpty.toNat } := by
  obtain ⟨ms, s₁, hms, hmade⟩ := lowerInstances_steps run
  rw [← lowerMembers_counts hms]
  rcases hmade with ⟨none, hmade⟩ | ⟨some, -, rfl⟩
  · obtain ⟨_, _, -, -, -, rfl⟩ := addDefaultConstructor_ok hmade
    rw [none]
    rfl
  · rw [Bool.eq_false_iff.mpr fun none => some (List.isEmpty_iff.mp none)]
    rfl

/-- The pass for the type itself counts the routine if it is added. -/
theorem lowerStatics_counts {statics : List Stmt} {d d' : TypeDecl}
    (run : lowerStatics options type statics d s = (.done d', s')) :
    s'.stats = s.stats + { (0 : Stats) with classInitializers := (!statics.isEmpty).toNat } := by
  rcases lowerStatics_cases run with ⟨rfl, -, rfl⟩ | ⟨something, run⟩
  · rfl
  · obtain ⟨-, -, rfl⟩ := addClassInitializer_ok run
    rw [Bool.eq_false_iff.mpr fun none => something (List.isEmpty_iff.mp none)]
    rfl

theorem SameStmts.isEmpty_eq {ss ss' : List Stmt} (same : SameStmts ss ss') :
    ss.isEmpty = ss'.isEmpty := by
  rw [Bool.eq_iff_iff, List.isEmpty_iff, List.isEmpty_iff, same.nil_iff]

/-- Lowering a type whose nested types are lowered counts what the type counts. -/
theorem lowerOwn_counts {descriptor : TypeDescriptor} {d d' : TypeDecl}
    (bound : d.head.binding = some type) (described : t.typeAt type = .ok descriptor)
    (grown : t.Grows s.table)
    (run : lowerOwn options type descriptor.isInterface d s = (.done d', s')) :
    s'.countedType.stats = s.stats + d.counts options t := by
  obtain ⟨d₁, lists, s₁, d₂, s₂, hcollect, hinstances, hstatics⟩ := lowerOwn_steps run
  obtain ⟨-, collected, -, statics⟩ := collect_done grown hcollect
  obtain ⟨⟨ms, lists₁⟩, hms, -⟩ := Edit.map_eq_done.mp hcollect
  have sameMethods : d₁.methods = d.methods := methods_of_collected collected
  have isClass : t.isClass d = !descriptor.isInterface := by
    rw [BindingTable.isClass, bound, Option.any_some, described]
  -- The three steps of the run count what they lower: initializers, then constructors, then the
  -- static list.
  have first := (collectMembers_collected hms).counts grown
  have second : s₂.stats = s₁.stats +
      (if t.isClass d then (d.members.map constructorCounts).sum else 0) +
      { (0 : Stats) with defaultConstructors := (d.lacksConstructor t).toNat } := by
    rw [TypeDecl.lacksConstructor, isClass]
    rcases hinstances with ⟨isInterface, -, rfl⟩ | ⟨isClass, hinstances⟩
    · rw [isInterface]
      rfl
    · rw [isClass, lowerInstances_counts hinstances, constructorCounts_of_methods sameMethods,
        TypeDecl.constructors, sameMethods]
      rfl
  have third := lowerStatics_counts hstatics
  rw [statics.isEmpty_eq] at third
  rw [TypeDecl.counts, TypeDecl.gainsRoutine, isClass, Bool.not_not]
  rw [isClass] at second
  show s'.stats + { (0 : Stats) with types := 1 } = _
  rw [third, second, first]
  simp only [add_assoc]
  congr 3
  simp [Stats.add_def, Stats.zero_def]

/-! ## Nested types do not count for the type around them -/

/-- Local types in a member do not count for the type around them. -/
theorem initializerCounts_outline (t : BindingTable) (encoding : LiteralEncoding)
    (isInterface : Bool) (m : Member) :
    initializerCounts t encoding isInterface m.outline =
      initializerCounts t encoding isInterface m := by
  rcases m with d | ⟨h, _ | ⟨b, ss⟩⟩ | ⟨i, isStatic, ⟨b, ss⟩⟩ | f <;> rfl

theorem constructorCounts_outline (m : Member) :
    constructorCounts m.outline = constructorCounts m := by
  rcases m with d | ⟨h, _ | ⟨b, ss⟩⟩ | ⟨i, isStatic, ⟨b, ss⟩⟩ | f
  · rfl
  · rfl
  · show (if h.isConstructor then if (MethodDecl.mk h (some ⟨b, Stmt.outlineOf ss⟩)).isDesignated
      then _ else _ else _) = _
    rw [MethodDecl.isDesignated_outline]
    rfl
  · rfl
  · rfl

end Lowering

namespace TypeDecl

variable {options : Lowering.Options} {t : BindingTable} {d d₁ : TypeDecl}

theorem isClass_of_head (head : d₁.head = d.head) : t.isClass d₁ = t.isClass d := by
  rw [BindingTable.isClass, BindingTable.isClass, head]

theorem constructors_isEmpty_of_outline
    (same : d₁.members.map Member.outline = d.members.map Member.outline) :
    d₁.constructors.isEmpty = d.constructors.isEmpty := by
  have isConstructor :
      ∀ d : TypeDecl, d.constructors.isEmpty = !d.methods.any fun m => m.head.isConstructor := by
    intro d
    rw [Bool.eq_iff_iff, constructors]
    simp
  rw [isConstructor, isConstructor, Lowering.any_methods_of_outline same fun _ _ _ => rfl]

theorem gainsRoutine_of_outline (head : d₁.head = d.head)
    (same : d₁.members.map Member.outline = d.members.map Member.outline) :
    d₁.gainsRoutine options t = d.gainsRoutine options t := by
  rw [gainsRoutine, gainsRoutine, isClass_of_head head, Bool.eq_iff_iff]
  simp only [Bool.not_eq_true', Bool.eq_false_iff, ne_eq, List.isEmpty_iff,
    Lowering.initList_eq_nil_of_outline same]

/-- What is counted for a type is the same for every type with its head and outline. -/
theorem counts_of_outline (head : d₁.head = d.head)
    (same : d₁.members.map Member.outline = d.members.map Member.outline) :
    d₁.counts options t = d.counts options t := by
  rw [counts, counts, lacksConstructor, lacksConstructor, gainsRoutine_of_outline head same,
    constructors_isEmpty_of_outline same, isClass_of_head head,
    map_of_outline same (Lowering.initializerCounts_outline t _ _),
    map_of_outline same Lowering.constructorCounts_outline]

end TypeDecl

end ClassInit
