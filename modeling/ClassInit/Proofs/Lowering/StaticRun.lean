import ClassInit.Proofs.Lowering.StaticValues

/-!
# What lowering makes of static initialization

A type that is lowered by the rules starts its static fields with their constant initializers and
runs the other steps in declaration order. If no step disturbs a constant initializer that is
declared after it, its static fields end with the values that they had before lowering
(`Lowering.TypeLowered.static_result`).
-/

set_option autoImplicit false

namespace ClassInit

namespace Lowering

variable {t : BindingTable}

/-! ## Static fields and steps of a lowered type -/

section

variable {options : Options} {access : Modifiers} {d d' : TypeDecl}
variable (lowered : TypeLowered options t false access d d')
variable (ints : d.IntStatics) (own : d.OwnConstants t)

include ints own in
/-- What becomes of the fragments of the static fields. -/
theorem int_fragment {f : FieldDecl} (hf : .field f ∈ d.members)
    (isStatic : f.modifiers.isStatic = true) {g g' : Fragment} (hg : g ∈ f.fragments) {e : Expr}
    (init : g.initializer = some e)
    (fragment : FragmentLowered t options.literalEncoding (isOnce false f) f.type g g') :
    ∃ v, g.binding = some v ∧ g'.binding = some v ∧
      ((∃ c e', t.constantValue e = some (.int c) ∧ g'.initializer = some e' ∧
          t.constantValue e' = some (.int c) ∧
          hasToRun t options.literalEncoding true g e = false) ∨
        t.constantValue e = none ∧ g'.initializer = none ∧
          hasToRun t options.literalEncoding true g e = true) := by
  obtain ⟨type, simple⟩ := ints.field hf isStatic
  have constants := own.constantsOf ints
  rw [isOnce_false, isStatic, type] at fragment
  have isStep : ∀ v, g.binding = some v → .init v e ∈ d.staticSteps := fun v bound =>
    TypeDecl.init_mem_staticSteps.mpr ⟨f, hf, isStatic, g, hg, bound, init⟩
  have bound : ∃ v, g.binding = some v := by
    cases fragment with
    | bare none =>
      rw [none] at init
      cases init
    | moved _ bound _ => exact ⟨_, bound⟩
    | kept _ bound _ _ => exact ⟨_, bound⟩
    | folded _ bound _ _ => exact ⟨_, bound⟩
    | demoted _ bound _ _ => exact ⟨_, bound⟩
  obtain ⟨v, bound⟩ := bound
  exact fragment.int_cases init (simple g hg e init) (constants.int v e (isStep v bound))
    fun w bound' => constants.recorded w e (isStep w bound')

include lowered ints own

/-- An initializer that is left in a lowered type is the constant of one before. -/
theorem init_of_lowered {v : VariableId} {e' : Expr} (init : .init v e' ∈ d'.staticSteps) :
    ∃ e c, .init v e ∈ d.staticSteps ∧ t.constantValue e = some (.int c) ∧
      t.constantValue e' = some (.int c) := by
  obtain ⟨f', hf', isStatic, g', hg', bound', init'⟩ := TypeDecl.init_mem_staticSteps.mp init
  obtain ⟨f, fs, hf, rfl, fragments⟩ := lowered.exists_field hf'
  obtain ⟨g, hg, fragment⟩ := exists_mem_left fragments hg'
  cases some : g.initializer with
  | none =>
    cases fragment with
    | bare none =>
      rw [none] at init'
      cases init'
    | moved some' _ _ | kept some' _ _ _ | folded some' _ _ _ | demoted some' _ _ _ =>
      rw [some'] at some
      cases some
  | some e =>
    obtain ⟨w, bound, sameBinding, fate⟩ := int_fragment ints own hf isStatic hg some fragment
    rw [bound'] at sameBinding
    cases sameBinding
    rcases fate with ⟨c, e'', constant, init'', constant'', -⟩ | ⟨-, none, -⟩
    · rw [init'] at init''
      cases init''
      exact ⟨e, c, TypeDecl.init_mem_staticSteps.mpr ⟨f, hf, isStatic, g, hg, bound, some⟩,
        constant, constant''⟩
    · rw [init'] at none
      cases none

/-- A constant initializer is left in the lowered type. -/
theorem exists_lowered_init {v : VariableId} {e : Expr} {c : Int32}
    (init : .init v e ∈ d.staticSteps) (constant : t.constantValue e = some (.int c)) :
    ∃ e', .init v e' ∈ d'.staticSteps := by
  obtain ⟨f, hf, isStatic, g, hg, bound, some⟩ := TypeDecl.init_mem_staticSteps.mp init
  obtain ⟨fs, hf', fragments⟩ := lowered.exists_lowered_field hf
  obtain ⟨g', hg', fragment⟩ := exists_mem_right fragments hg
  obtain ⟨w, bound', sameBinding, fate⟩ := int_fragment ints own hf isStatic hg some fragment
  rw [bound] at bound'
  cases bound'
  rcases fate with ⟨-, e', -, init', -, -⟩ | ⟨none, -, -⟩
  · exact ⟨e', TypeDecl.init_mem_staticSteps.mpr
      ⟨_, hf', isStatic, g', hg', sameBinding, init'⟩⟩
  · rw [constant] at none
    cases none

omit lowered ints own in
/-- A field starts at zero, or with the value of an initializer that the lowered type has. -/
theorem declaredValue_cases (x : TypeDecl) (t : BindingTable) (v : VariableId) :
    (∀ e, .init v e ∉ x.staticSteps) ∧ x.declaredValue t v = 0 ∨
      ∃ e, .init v e ∈ x.staticSteps ∧ x.declaredValue t v = t.intValue e := by
  unfold TypeDecl.declaredValue
  cases found : x.staticSteps.find? fun s => s.target == some v with
  | none =>
    exact .inl ⟨fun e init => List.find?_eq_none.mp found _ init (beq_self_eq_true _), rfl⟩
  | some s =>
    have member := List.mem_of_find?_eq_some found
    have isTarget : s.target = some v := by simpa using List.find?_some found
    cases s with
    | run e => cases isTarget
    | init w e =>
      cases isTarget
      exact .inr ⟨e, member, rfl⟩

/-- A field with a constant initializer starts with its constant. -/
theorem declaredValue_of_constant {v : VariableId} {e : Expr} {c : Int32}
    (init : .init v e ∈ d.staticSteps) (constant : t.constantValue e = some (.int c)) :
    d'.declaredValue t v = c := by
  rcases declaredValue_cases d' t v with ⟨none, -⟩ | ⟨e', init', value⟩
  · obtain ⟨e', init'⟩ := exists_lowered_init lowered ints own init constant
    exact absurd init' (none e')
  · obtain ⟨e₁, c₁, init₁, constant₁, constant'⟩ := init_of_lowered lowered ints own init'
    rw [StaticStep.init_unique own.distinct init₁ init, constant] at constant₁
    cases constant₁
    rw [value, BindingTable.intValue, constant']

/-- Any other field starts at zero. -/
theorem declaredValue_of_not_pending {v : VariableId} (waits : ¬ Pending t d.staticSteps v) :
    d'.declaredValue t v = 0 := by
  rcases declaredValue_cases d' t v with ⟨-, zero⟩ | ⟨e', init', -⟩
  · exact zero
  · obtain ⟨e, c, init, constant, -⟩ := init_of_lowered lowered ints own init'
    refine absurd ⟨e, init, ?_⟩ waits
    rw [constant]
    rfl

omit ints own in
/-- The synthesized routine runs the static list. -/
theorem routineStatements_of_lowered :
    SameStmts (d'.routineStatements (d.members.filter survives).length)
      (initList t options.literalEncoding false true d.members) := by
  obtain ⟨kept, made, routine, members, hkept, hmade, hroutine⟩ := lowered.members
  rw [TypeDecl.routineStatements, members, hkept.length_eq, List.drop_left, List.flatMap_append]
  have nothing : made.flatMap Member.routineStatements = [] := by
    split at hmade
    · obtain ⟨m, rfl, call, ss, -, -, n, bodyId, handle, rfl⟩ := hmade
      rfl
    · rw [hmade]
      rfl
  rw [nothing, List.nil_append]
  split at hroutine
  · rename_i empty
    rw [hroutine, empty]
    exact SameStmts.refl []
  · obtain ⟨m, rfl, ss, copied, n, bodyId, handle, rfl⟩ := hroutine
    rw [List.flatMap_singleton]
    exact copied

omit lowered own in
/-- A static block of simple expressions is put in as it stands, and none of its steps is a constant
initializer. -/
theorem execute_blockInit {i : InitializerDecl} (hi : .initializer i ∈ d.members)
    (isStatic : i.isStatic = true) :
    ((blockInit i.body).filterMap Stmt.step).map StaticStep.execute =
      ((i.body.statements.filterMap Stmt.step).filter fun s => !s.isConstant t).map
        StaticStep.execute := by
  have expressions := ints.block hi isStatic
  have noNames : i.body.statements.any declaresName = false := by
    rw [List.any_eq_false]
    intro s hs
    obtain ⟨info, e, rfl, -⟩ := Stmt.eq_expression_of_isSimple (expressions s hs)
    exact Bool.false_ne_true
  have allRun : (i.body.statements.filterMap Stmt.step).filter (fun s => !s.isConstant t) =
      i.body.statements.filterMap Stmt.step := by
    rw [List.filter_eq_self]
    intro s hs
    obtain ⟨st, hst, step⟩ := List.mem_filterMap.mp hs
    obtain ⟨info, e, rfl, -⟩ := Stmt.eq_expression_of_isSimple (expressions st hst)
    cases step
    rfl
  rw [blockInit, noNames, if_neg Bool.false_ne_true, allRun]

/-- A fragment of a static field contributes its step unless that is a constant initializer. -/
theorem execute_fragmentInit {f : FieldDecl} (hf : .field f ∈ d.members)
    (isStatic : f.modifiers.isStatic = true) {g : Fragment} (hg : g ∈ f.fragments) :
    ((fragmentInit t options.literalEncoding true g).filterMap Stmt.step).map StaticStep.execute =
      (g.step.toList.filter fun s => !s.isConstant t).map StaticStep.execute := by
  obtain ⟨fs, -, fragments⟩ := lowered.exists_lowered_field hf
  obtain ⟨g', -, fragment⟩ := exists_mem_right fragments hg
  rw [fragmentInit, Fragment.step]
  cases init : g.initializer with
  | none =>
    rcases g.binding with _ | v <;> rfl
  | some e =>
    obtain ⟨v, bound, -, fate⟩ := int_fragment ints own hf isStatic hg init fragment
    have step : [StaticStep.init v e].filter (fun s => !s.isConstant t) =
        if (t.constantValue e).isSome then [] else [.init v e] := by
      rw [List.filter_singleton, StaticStep.isConstant]
      cases (t.constantValue e).isSome <;> rfl
    rw [bound]
    show ((if hasToRun t options.literalEncoding true g e then [assignmentTo g e]
        else []).filterMap Stmt.step).map StaticStep.execute =
      ([StaticStep.init v e].filter fun s => !s.isConstant t).map StaticStep.execute
    rw [step]
    rcases fate with ⟨c, -, constant, -, -, stays⟩ | ⟨none, -, runs⟩
    · rw [stays, constant]
      rfl
    · rw [runs, none, assignmentTo, bound]
      rfl

/-- What the static list does is what the steps do that are no constant initializers. -/
theorem execute_initList :
    ((initList t options.literalEncoding false true d.members).filterMap Stmt.step).map
        StaticStep.execute =
      (d.staticSteps.filter fun s => !s.isConstant t).map StaticStep.execute := by
  rw [initList, TypeDecl.staticSteps, List.filterMap_flatMap, List.map_flatMap, List.filter_flatMap,
    List.map_flatMap]
  refine List.flatMap_congr fun m hm => ?_
  cases m with
  | type d => rfl
  | method m => rfl
  | initializer i =>
    simp only [memberInit, Member.staticSteps]
    cases isStatic : i.isStatic with
    | false => rfl
    | true => exact execute_blockInit ints hm isStatic
  | field f =>
    simp only [memberInit, Member.staticSteps, isOnce_false]
    cases isStatic : f.modifiers.isStatic with
    | false => rfl
    | true =>
      have asFlatMap : f.fragments.filterMap Fragment.step =
          f.fragments.flatMap fun g => g.step.toList := List.filterMap_eq_flatMap_toList _ _
      rw [if_pos rfl, if_pos rfl, asFlatMap, List.filterMap_flatMap, List.map_flatMap,
        List.filter_flatMap, List.map_flatMap]
      exact List.flatMap_congr fun g hg => execute_fragmentInit lowered ints own hm isStatic hg

/-! ## Both orders -/

/-- Before anything runs, the values before and after lowering differ in the constant initializers
of fields that are no constant variables. -/
theorem aligned_start :
    Aligned t d.staticHandles d.staticSteps
      (fun v =>
        match t.variableConstant v with
        | some (.int c) => c
        | _ => 0)
      (d'.declaredValue t) := by
  constructor
  · intro v hv settled
    cases known : t.variableConstant v with
    | some k =>
      obtain ⟨e, c, init, constant, rfl⟩ := own.recorded v hv k known
      exact (declaredValue_of_constant lowered ints own init constant).symm
    | none =>
      rcases settled with waits | isKnown
      · exact (declaredValue_of_not_pending lowered ints own waits).symm
      · rw [known] at isKnown
        cases isKnown
  · intro v e init c constant
    exact declaredValue_of_constant lowered ints own init constant
  · intro v e init isConstant w isRead c known
    show (match t.variableConstant w with
      | some (.int c) => c
      | _ => 0) = c
    rw [known]

/-- The static fields of a lowered type end with the values that they had before, if no step
disturbs a constant initializer that is declared after it. -/
theorem TypeLowered.static_result (order : d.staticSteps.Pairwise (StaticStep.Respects t)) :
    ∀ v ∈ d.staticHandles, d.staticResult t v = d.loweredStaticResult t d' v := by
  -- The routine holds copies of the static list, whose statements do what the remaining steps do.
  have routine : StaticStep.executeAll
      ((d'.routineStatements (d.members.filter survives).length).filterMap Stmt.step) =
      StaticStep.executeAll (d.staticSteps.filter fun s => !s.isConstant t) := by
    refine StaticStep.executeAll_congr ?_
    rw [← execute_initList lowered ints own]
    have same := congrArg (List.map StaticStep.execute ∘ List.filterMap Stmt.step)
      (routineStatements_of_lowered lowered)
    have erased : ∀ ss : List Stmt,
        ((ss.map (Stmt.erase id)).filterMap Stmt.step).map StaticStep.execute =
          (ss.filterMap Stmt.step).map StaticStep.execute := by
      intro ss
      rw [Stmt.filterMap_step_erase, List.map_map]
      exact List.map_congr_left fun s _ => s.execute_erase id
    rw [Function.comp_apply, Function.comp_apply, erased, erased] at same
    exact same
  rw [TypeDecl.loweredStaticResult, routine]
  exact run_eq_runLowered ints.simple own.distinct (own.constantsOf ints) order
    (aligned_start lowered ints own)

end

/-- The same for any declaration of a lowered unit, at whatever depth and in whatever copy. -/
theorem Origin.static_result {options : Options} {d d' : TypeDecl} (origin : Origin options t d d')
    (isClass : ∀ type descriptor, d.head.binding = some type → t.typeAt type = .ok descriptor →
      descriptor.isInterface = false)
    (ints : d.IntStatics) (own : d.OwnConstants t)
    (order : d.staticSteps.Pairwise (StaticStep.Respects t)) :
    ∀ v ∈ d.staticHandles, d.staticResult t v = d.loweredStaticResult t d' v := by
  obtain ⟨type, descriptor, d₁, d₂, bound, described, -, outline, lowered, copied⟩ := origin.lowered
  rw [isClass type descriptor bound described] at lowered
  -- Its nested types were lowered first, which changes neither its steps nor its fields.
  have steps : d₁.staticSteps = d.staticSteps := TypeDecl.staticSteps_of_outline outline
  have handles : d₁.staticHandles = d.staticHandles := TypeDecl.staticHandles_of_outline outline
  have own₁ : d₁.OwnConstants t := by
    constructor
    · rw [steps]
      exact own.distinct
    · rw [steps, handles]
      exact own.recorded
  have order₁ : d₁.staticSteps.Pairwise (StaticStep.Respects t) := by
    rw [steps]
    exact order
  have result := lowered.static_result (ints.of_outline outline) own₁ order₁
  intro v hv
  rw [← handles] at hv
  have copies : d.loweredStaticResult t d' = d₁.loweredStaticResult t d₂ := by
    rw [← TypeDecl.loweredStaticResult_erase id t d d', ← copied,
      TypeDecl.loweredStaticResult_erase, TypeDecl.loweredStaticResult,
      ← TypeDecl.survivors_length_of_outline outline]
    rfl
  rw [copies, ← result v hv, TypeDecl.staticResult, TypeDecl.staticResult, steps]

end Lowering

end ClassInit
