import ClassInit.Lowering.Unit
import ClassInit.Proofs.Binding.Units
import ClassInit.Proofs.Lowering.StaticRun
import Mathlib.Data.List.Flatten

/-!
# Static fields through the whole pass

Binding a unit, recording its constants and lowering it preserve the values of static `int` fields,
as long as no step of static initialization disturbs a constant initializer that is declared after
it. Without that condition they do not: a constant initializer is left in its declaration, where it
comes before everything that was written above it.
-/

set_option autoImplicit false

namespace ClassInit

/-! ## Constants of a bound type -/

namespace TypeDecl

theorem targets_sublist (d : TypeDecl) :
    ((d.staticSteps.filterMap StaticStep.target).map VariableId.index).Sublist
      (d.slots.filterMap FieldSlot.key) := by
  rw [staticSteps, slots, List.filterMap_flatMap, List.map_flatMap, List.filterMap_flatMap]
  refine List.Sublist.flatMap_right _ fun m _ => ?_
  cases m with
  | type d => exact List.Sublist.refl _
  | method m => exact List.Sublist.refl _
  | initializer i =>
    -- The statements of a block are run; none of them gives a field its first value.
    have noTargets :
        ∀ ss : List Stmt, (ss.filterMap Stmt.step).filterMap StaticStep.target = [] := by
      intro ss
      rw [List.filterMap_filterMap, List.filterMap_eq_nil_iff]
      intro s _
      cases s <;> rfl
    rw [Member.staticSteps]
    split
    · rw [noTargets]
      exact List.nil_sublist _
    · exact List.nil_sublist _
  | field f =>
    rw [Member.staticSteps, Member.slots]
    split
    · generalize f.fragments = fs
      induction fs with
      | nil => exact List.Sublist.refl _
      | cons g fs ih =>
        obtain ⟨span, name, _ | e, _ | v⟩ := g
        · exact ih
        · exact ih.cons _
        · exact ih
        · exact ih.cons_cons _
    · exact List.nil_sublist _

theorem slots_sublist {u : CompilationUnit} {d : TypeDecl} (hd : d ∈ u.declarations) :
    d.slots.Sublist u.allSlots :=
  List.sublist_flatten_of_mem (List.mem_map_of_mem hd)

theorem slot_of_field {d : TypeDecl} {f : FieldDecl} (hf : .field f ∈ d.members) {g : Fragment}
    (hg : g ∈ f.fragments) : ⟨f.type, g⟩ ∈ d.slots :=
  List.mem_flatMap.mpr ⟨_, hf, List.mem_map_of_mem hg⟩

end TypeDecl

theorem Constant.convertTo_int {c k : Constant}
    (converted : c.convertTo (.primitive .int) = some k) :
    ∃ i, k = .int i := by
  unfold Constant.convertTo at converted
  cases c <;> simp [Constant.convert, Constant.asInt] at converted <;> exact ⟨_, converted.symm⟩

/-- The table knows the constants of a type from its initializers if the handles of the unit fit. -/
theorem TypeDecl.OwnConstants.of_fit {u : CompilationUnit} {t : BindingTable} (fit : u.HandlesFit t)
    {d : TypeDecl} (hd : d ∈ u.declarations) (ints : d.IntStatics) : d.OwnConstants t := by
  have value : ∀ v ∈ d.staticHandles, ∀ k, t.variableConstant v = some k →
      ∃ e c, .init v e ∈ d.staticSteps ∧ t.constantValue e = some c ∧
        c.convertTo (.primitive .int) = some k := by
    intro v hv k known
    obtain ⟨f, hf, isStatic, g, hg, bound⟩ := mem_staticHandles.mp hv
    have recorded :=
      fit.recorded _ ((slots_sublist hd).subset (slot_of_field hf hg)) v bound k known
    obtain ⟨e, init, c, constant, converted⟩ := FieldSlot.value?_eq_some.mp recorded
    rw [(ints.field hf isStatic).1] at converted
    exact ⟨e, c, init_mem_staticSteps.mpr ⟨f, hf, isStatic, g, hg, bound, init⟩, constant,
      converted⟩
  constructor
  · refine List.Nodup.of_map VariableId.index ?_
    exact fit.distinctFields.sublist (d.targets_sublist.trans ((slots_sublist hd).filterMap _))
  · intro v hv k known
    obtain ⟨e, c, init, constant, converted⟩ := value v hv k known
    -- The initializer is a literal or names a field, whose constant was converted to `int` as well.
    have isInt : ∃ i, c = .int i := by
      rcases Expr.constant_of_isSimple (ints.simple _ init) constant with
        ⟨i, value, -, rfl⟩ | ⟨i, n, w, -, hw, known'⟩
      · exact ⟨value, rfl⟩
      · obtain ⟨_, _, _, _, converted'⟩ := value w hw c known'
        exact Constant.convertTo_int converted'
    obtain ⟨i, rfl⟩ := isInt
    cases converted
    exact ⟨e, i, init, constant, rfl⟩

/-! ## Units -/

namespace CompilationUnit

/-- A unit whose handles fit, that is bound and lowered, keeps its types; and wherever a class with
`int` statics ends up, its static initialization ends with the values that it had before, if no step
disturbs a constant initializer that is declared after it. -/
theorem static_fields_preserved {u : CompilationUnit} {t : BindingTable}
    {options : Lowering.Options} {bindStats : Binding.Stats} {n : Nat} {stats : Lowering.Stats}
    (fit : u.HandlesFit t) (bound : (u.bind t).result = .ok bindStats)
    (constants : ((u.bind t).table.bindConstants (u.bind t).unit).1 = .ok n)
    (lowered : ((u.bind t).unit.lower (u.knownTable t) options).result = .ok stats) :
    (∀ d ∈ (u.bind t).unit.types, ∀ x : TypeDecl, x.IsWithin d →
      ∃ x' ∈ ((u.bind t).unit.lower (u.knownTable t) options).unit.declarations, x'.head = x.head) ∧
    ∀ d ∈ (u.bind t).unit.declarations,
      ∀ d' ∈ ((u.bind t).unit.lower (u.knownTable t) options).unit.declarations,
        d'.head.binding = d.head.binding → d.isInterfaceLike = false → d.IntStatics →
          d.staticSteps.Pairwise (StaticStep.Respects (u.knownTable t)) →
            ∀ v ∈ d.staticHandles,
              d.staticResult (u.knownTable t) v = d.loweredStaticResult (u.knownTable t) d' v := by
  refine ⟨fun d hd x within => lower_types lowered hd within, ?_⟩
  intro d hd d' hd' sameHandle isClass ints order
  have fits : (u.bind t).unit.HandlesFit (u.knownTable t) :=
    bindConstants_fits (bind_fits fit bound) constants
  obtain ⟨x, hx, origin⟩ := lower_origin lowered d' hd'
  -- The declaration that the lowered one comes from has its handle, so it is the given one.
  obtain ⟨id, handle, handle'⟩ := origin.binding
  have distinct := fits.distinctTypes
  rw [heads, List.filterMap_map] at distinct
  obtain rfl : x = d := eq_of_nodup_keys distinct hx hd (TypeHead.key_of_binding handle)
    (TypeHead.key_of_binding (sameHandle.symm.trans handle'))
  refine origin.static_result ?_ ints (.of_fit fits hd ints) order
  intro type descriptor bound described
  obtain ⟨descriptor', described', kind⟩ :=
    fits.kinds x.head (List.mem_map_of_mem hd) type bound
  rw [described] at described'
  cases described'
  rw [TypeDescriptor.isInterface, kind]
  exact isClass

end CompilationUnit

/-! ## Samples -/

namespace StaticSample

def name (x : String) : Expr := .name ⟨.unassigned, .dummy, none⟩ x none

def int (i : Int32) : Expr := .literal ⟨.unassigned, .dummy, none⟩ (.int i)

def assign (x : String) (e : Expr) : Expr :=
  .assignment ⟨.unassigned, .dummy, none⟩ .assign (name x) e

/-- A field of type `int`. -/
def field (modifiers : List Modifier) (x : String) (e : Option Expr)
    (v : Option VariableId := none) : Member :=
  .field ⟨.unassigned, .dummy, .ofList modifiers, .primitive .int, [⟨.dummy, x, e, v⟩]⟩

/-- `static { e; }`. -/
def block (e : Expr) : Member :=
  .initializer ⟨⟨.unassigned, .dummy⟩, true, ⟨⟨.unassigned, .dummy⟩,
    [.expression ⟨.unassigned, .dummy⟩ e]⟩⟩

/-- `class A` with the members, alone in its unit. -/
def unit (ms : List Member) (handle : Option TypeId := none) : CompilationUnit :=
  ⟨"A.java", none, [⟨⟨.unassigned, .dummy, .classType, "A", .empty, none, handle, []⟩, ms⟩],
    .initial⟩

/-- `static final int a = 5; static int b = a; static int c; static { c = b; } static int e =
c;`. -/
def ordered : CompilationUnit :=
  unit [field [.static, .final] "a" (some (int 5)), field [.static] "b" (some (name "a")),
    field [.static] "c" none, block (assign "c" (name "b")), field [.static] "e" (some (name "c"))]

/-- `static { a = 3; } static int a = 5;`. -/
def assignedEarly : CompilationUnit :=
  unit [block (assign "a" (int 3)), field [.static] "a" (some (int 5))]

/-- `static int b = a; static int a = 5;`. -/
def readEarly : CompilationUnit :=
  unit [field [.static] "b" (some (name "a")), field [.static] "a" (some (int 5))]

/-- `static final int c = 5; static { c = 7; } static int a = c;`. -/
def reassigned : CompilationUnit :=
  unit [field [.static, .final] "c" (some (int 5)), block (assign "c" (int 7)),
    field [.static] "a" (some (name "c"))]

/-- `static int a = 1; static int b = 2;`, where both fields have one handle. -/
def oneHandle : CompilationUnit :=
  unit [field [.static] "a" (some (int 1)) (some ⟨0⟩),
    field [.static] "b" (some (int 2)) (some ⟨0⟩)]

/-- `static final int c = 5; static int a = c;`, where the first field has a handle. -/
def oldConstant : CompilationUnit :=
  unit [field [.static, .final] "c" (some (int 5)) (some ⟨0⟩),
    field [.static] "a" (some (name "c"))]

/-- `static int a = 1; int x = a = 7;` in a type with a handle. -/
def oldType : CompilationUnit :=
  unit [field [.static] "a" (some (int 1)), field [] "x" (some (assign "a" (int 7)))] (some ⟨2⟩)

/-- A table that has another constant for the field with the handle. -/
def oldFields : BindingTable :=
  .load [] [⟨"c", .primitive .int, .ofList [.static, .final], some ⟨2⟩, true, some (.int 7)⟩] []

/-- A table that takes the type with the handle for an interface. -/
def oldTypes : BindingTable :=
  .load [BindingTable.external Names.objectType, BindingTable.external Names.stringType,
    ⟨"A", .interfaceType, .empty, none, none⟩] [] []

end StaticSample

namespace CompilationUnit

open StaticSample

theorem static_fields_preserved_sample :
    ∃ d ∈ (ordered.bind .new).unit.declarations,
      ∃ d' ∈ ((ordered.bind .new).unit.lower (ordered.knownTable .new) .standard).unit.declarations,
        d.staticHandles = [⟨0⟩, ⟨1⟩, ⟨2⟩, ⟨3⟩] ∧ ∀ v ∈ d.staticHandles,
          d.staticResult (ordered.knownTable .new) v =
            d.loweredStaticResult (ordered.knownTable .new) d' v := by
  obtain ⟨bindStats, bound⟩ : ∃ stats, (ordered.bind .new).result = .ok stats :=
    exists_eq_ok (by decide +kernel)
  obtain ⟨n, constants⟩ :
      ∃ n, ((ordered.bind .new).table.bindConstants (ordered.bind .new).unit).1 = .ok n :=
    exists_eq_ok (by decide +kernel)
  obtain ⟨stats, lowered⟩ : ∃ stats, ((ordered.bind .new).unit.lower (ordered.knownTable .new)
      .standard).result = .ok stats := exists_eq_ok (by decide +kernel)
  have fit : ordered.HandlesFit .new := .of_unbound .new (by decide +kernel) (by decide +kernel)
  obtain ⟨d, hd, d', hd', handles, sameHandle, isClass, ints, order⟩ :
      ∃ d ∈ (ordered.bind .new).unit.declarations,
        ∃ d' ∈ ((ordered.bind .new).unit.lower (ordered.knownTable .new)
          .standard).unit.declarations,
          d.staticHandles = [⟨0⟩, ⟨1⟩, ⟨2⟩, ⟨3⟩] ∧ d'.head.binding = d.head.binding ∧
            d.isInterfaceLike = false ∧ d.IntStatics ∧
              d.staticSteps.Pairwise (StaticStep.Respects (ordered.knownTable .new)) := by
    decide +kernel
  exact ⟨d, hd, d', hd', handles,
    (static_fields_preserved fit bound constants lowered).2 d hd d' hd' sameHandle isClass
      ints order⟩

/-- The unit is bound and lowered, and a static field of a class with `int` statics ends with
another value than before. -/
structure StaticsDiffer (u : CompilationUnit) (t : BindingTable) (v : VariableId)
    (before after : Int32) : Prop where
  different : before ≠ after
  bound : ∃ stats, (u.bind t).result = .ok stats
  constants : ∃ n, ((u.bind t).table.bindConstants (u.bind t).unit).1 = .ok n
  lowered : ∃ stats, ((u.bind t).unit.lower (u.knownTable t) .standard).result = .ok stats
  values : ∃ d ∈ (u.bind t).unit.declarations,
    ∃ d' ∈ ((u.bind t).unit.lower (u.knownTable t) .standard).unit.declarations,
      d'.head.binding = d.head.binding ∧ d.isInterfaceLike = false ∧ d.IntStatics ∧
        v ∈ d.staticHandles ∧ d.staticResult (u.knownTable t) v = before ∧
          d.loweredStaticResult (u.knownTable t) d' v = after

/-- Static initialization can end differently if a step assigns a field before its constant
initializer, reads it there, or assigns the constant variable that the initializer names; and if the
handles of the unit do not fit, since two fields share one, the table has another constant, or it
takes the class for an interface. -/
theorem static_fields_differ :
    StaticsDiffer assignedEarly .new ⟨0⟩ 5 3 ∧ StaticsDiffer readEarly .new ⟨0⟩ 0 5 ∧
      StaticsDiffer reassigned .new ⟨1⟩ 7 5 ∧ StaticsDiffer oneHandle oldFields ⟨0⟩ 2 1 ∧
      StaticsDiffer oldConstant oldFields ⟨1⟩ 5 7 ∧ StaticsDiffer oldType oldTypes ⟨0⟩ 1 7 := by
  refine ⟨?_, ?_, ?_, ?_, ?_, ?_⟩ <;>
    exact ⟨by decide, exists_eq_ok (by decide +kernel), exists_eq_ok (by decide +kernel),
      exists_eq_ok (by decide +kernel), by decide +kernel⟩

end CompilationUnit

end ClassInit
