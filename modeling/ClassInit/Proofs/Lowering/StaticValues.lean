import ClassInit.Proofs.Fold
import ClassInit.Proofs.Lowering.Outlines
import ClassInit.Proofs.Lowering.StaticOrder

/-!
# Values of static initializers

Copies of simple expressions and steps have the same values. A static field has a constant if its
initializer folds to one, and what becomes of the initializer follows from its classification: it
stays as a literal of the same value, or it becomes an assignment that runs in its place.
-/

set_option autoImplicit false

namespace ClassInit

/-! ## Copies run alike -/

section

variable (h : Option MethodId → Option MethodId)

def StaticStep.erase : StaticStep → StaticStep
  | init v e => init v (e.erase h)
  | run e => run (e.erase h)

namespace Expr

theorem evaluate_erase (e : Expr) (σ : Store) : (e.erase h).evaluate σ = e.evaluate σ := by
  fun_induction evaluate e σ with
  | case1 => rfl
  | case2 => rfl
  | case3 i j n v e σ value τ result ih => rw [erase, erase, evaluate, ih, result]
  | case4 e σ notLiteral notName notAssignment =>
    cases e with
    | literal i v =>
      cases v with
      | int value => exact absurd rfl (notLiteral i value)
      | _ => rfl
    | name i n b =>
      cases b with
      | some v => exact absurd rfl (notName i n v)
      | none => rfl
    | call i r n as b => cases r <;> rfl
    | assignment i op l e =>
      cases op with
      | assign =>
        cases l with
        | name j n b =>
          cases b with
          | some v => exact absurd rfl (notAssignment i j n v e)
          | none => rfl
        | call i r n as b => cases r <;> rfl
        | _ => rfl
      | _ => rfl
    | _ => rfl

end Expr

theorem StaticStep.execute_erase (s : StaticStep) : (s.erase h).execute = s.execute := by
  funext σ
  cases s with
  | init v e => rw [erase, execute, execute, Expr.evaluate_erase]
  | run e => rw [erase, execute, execute, Expr.evaluate_erase]

/-- Steps that have the same effects one by one end in the same values. -/
theorem StaticStep.executeAll_congr {steps steps' : List StaticStep}
    (same : steps.map execute = steps'.map execute) : executeAll steps = executeAll steps' := by
  have folded :
      ∀ ss : List StaticStep, ∀ σ, executeAll ss σ = (ss.map execute).foldl (fun σ f => f σ) σ := by
    intro ss σ
    rw [List.foldl_map]
    rfl
  funext σ
  rw [folded, same, ← folded]

theorem Fragment.step_erase (g : Fragment) :
    (g.erase h).step = g.step.map (StaticStep.erase h) := by
  obtain ⟨span, name, _ | e, _ | v⟩ := g <;> rfl

theorem Stmt.step_erase (s : Stmt) : (s.erase h).step = s.step.map (StaticStep.erase h) := by
  fun_cases Stmt.erase h s <;> rfl

theorem Stmt.filterMap_step_erase (ss : List Stmt) :
    (ss.map (Stmt.erase h)).filterMap Stmt.step =
      (ss.filterMap Stmt.step).map (StaticStep.erase h) := by
  rw [List.filterMap_map, List.map_filterMap]
  exact List.filterMap_congr fun s _ => s.step_erase h

theorem Member.staticSteps_erase (m : Member) :
    (m.erase h).staticSteps = m.staticSteps.map (StaticStep.erase h) := by
  rcases m with d | ⟨head, _ | body⟩ | ⟨i, isStatic, ⟨info, ss⟩⟩ | f
  · rfl
  · rfl
  · rfl
  · rw [Member.erase, staticSteps, staticSteps]
    split
    · rw [Block.erase, Stmt.eraseAll_eq_map, Stmt.filterMap_step_erase]
    · rfl
  · rw [Member.erase, staticSteps, staticSteps]
    have modifiers : (f.erase h).modifiers = f.modifiers := rfl
    rw [modifiers]
    split
    · show (f.fragments.map (Fragment.erase h)).filterMap Fragment.step = _
      rw [List.filterMap_map, List.map_filterMap]
      exact List.filterMap_congr fun g _ => g.step_erase h
    · rfl

namespace TypeDecl

theorem staticSteps_erase (d : TypeDecl) :
    (d.erase h).staticSteps = d.staticSteps.map (StaticStep.erase h) := by
  rw [staticSteps, staticSteps, members_erase, List.flatMap_map, List.map_flatMap]
  exact List.flatMap_congr fun m _ => m.staticSteps_erase h

theorem routineStatements_erase (n : Nat) (d : TypeDecl) :
    (d.erase h).routineStatements n = (d.routineStatements n).map (Stmt.erase h) := by
  rw [routineStatements, routineStatements, members_erase, ← List.map_drop, List.flatMap_map,
    List.map_flatMap]
  refine List.flatMap_congr fun m _ => ?_
  rcases m with d | ⟨head, _ | ⟨info, ss⟩⟩ | ⟨i, isStatic, ⟨info, ss⟩⟩ | f
  · rfl
  · show (if head.isConstructor then [] else []) =
      (if head.isConstructor then [] else []).map (Stmt.erase h)
    split <;> rfl
  · show (if head.isConstructor then [] else Stmt.eraseAll h ss) =
      (if head.isConstructor then [] else ss).map (Stmt.erase h)
    rw [Stmt.eraseAll_eq_map]
    split <;> rfl
  · rfl
  · rfl

theorem declaredValue_erase (t : BindingTable) (d : TypeDecl) :
    (d.erase h).declaredValue t = d.declaredValue t := by
  funext v
  rw [declaredValue, declaredValue, staticSteps_erase, List.find?_map]
  have sameTarget : ((fun s : StaticStep => s.target == some v) ∘ StaticStep.erase h) =
      fun s => s.target == some v := by
    funext s
    cases s <;> rfl
  rw [sameTarget]
  cases d.staticSteps.find? fun s => s.target == some v with
  | none => rfl
  | some s =>
    have sameConstant : t.constantValue (s.erase h).expr = t.constantValue s.expr := by
      cases s <;> exact Expr.foldAt_erase h _ 0
    show t.intValue (s.erase h).expr = t.intValue s.expr
    rw [BindingTable.intValue, BindingTable.intValue, sameConstant]

/-- Copies of a lowered type have the same values. -/
theorem loweredStaticResult_erase (t : BindingTable) (d d' : TypeDecl) :
    d.loweredStaticResult t (d'.erase h) = d.loweredStaticResult t d' := by
  rw [loweredStaticResult, loweredStaticResult, declaredValue_erase, routineStatements_erase,
    Stmt.filterMap_step_erase]
  refine congrFun (StaticStep.executeAll_congr ?_) _
  rw [List.map_map]
  exact List.map_congr_left fun s _ => s.execute_erase h

end TypeDecl

end

/-! ## Constants of the static fields -/

/-- The table knows the constants of the static fields of a type from their own initializers, and
every field has an initializer at most. -/
structure TypeDecl.OwnConstants (t : BindingTable) (d : TypeDecl) : Prop where
  distinct : (d.staticSteps.filterMap StaticStep.target).Nodup
  recorded : ∀ v ∈ d.staticHandles, ∀ k, t.variableConstant v = some k →
    ∃ e c, .init v e ∈ d.staticSteps ∧ t.constantValue e = some k ∧ k = .int c

namespace StaticStep

/-- Of steps with different targets only one initializes a field. -/
theorem init_unique {steps : List StaticStep} (distinct : (steps.filterMap target).Nodup)
    {v : VariableId} {e e' : Expr} (first : .init v e ∈ steps) (second : .init v e' ∈ steps) :
    e = e' := by
  cases eq_of_nodup_keys distinct first second rfl rfl
  rfl

end StaticStep

namespace TypeDecl

variable {t : BindingTable} {d : TypeDecl}

theorem mem_staticHandles {v : VariableId} :
    v ∈ d.staticHandles ↔
      ∃ f, .field f ∈ d.members ∧ f.modifiers.isStatic = true ∧
        ∃ g ∈ f.fragments, g.binding = some v := by
  constructor
  · intro h
    obtain ⟨m, hm, hv⟩ := List.mem_flatMap.mp h
    unfold Member.staticHandles at hv
    split at hv
    · rename_i f
      split at hv
      · rename_i isStatic
        obtain ⟨g, hg, bound⟩ := List.mem_filterMap.mp hv
        exact ⟨f, hm, isStatic, g, hg, bound⟩
      · exact absurd hv List.not_mem_nil
    · exact absurd hv List.not_mem_nil
  · rintro ⟨f, hf, isStatic, g, hg, bound⟩
    refine List.mem_flatMap.mpr ⟨_, hf, ?_⟩
    simp only [Member.staticHandles, isStatic, if_true]
    exact List.mem_filterMap.mpr ⟨g, hg, bound⟩

theorem mem_staticHandles_of_init {v : VariableId} {e : Expr} (init : .init v e ∈ d.staticSteps) :
    v ∈ d.staticHandles := by
  obtain ⟨f, hf, isStatic, g, hg, bound, -⟩ := init_mem_staticSteps.mp init
  exact mem_staticHandles.mpr ⟨f, hf, isStatic, g, hg, bound⟩

/-- In a type with `int` statics every constant expression is an `int`, and constant variables have
the values of their initializers. -/
theorem OwnConstants.constantsOf (own : d.OwnConstants t) (ints : d.IntStatics) :
    ConstantsOf t d.staticSteps := by
  constructor
  · intro v e init k constant
    rcases Expr.constant_of_isSimple (ints.simple _ init) constant with
      ⟨i, value, -, rfl⟩ | ⟨i, n, w, -, hw, known⟩
    · exact ⟨value, rfl⟩
    · obtain ⟨-, c, -, -, rfl⟩ := own.recorded w hw k known
      exact ⟨c, rfl⟩
  · intro v e init k known
    obtain ⟨e', -, init', constant, -⟩ :=
      own.recorded v (mem_staticHandles_of_init init) k known
    rw [StaticStep.init_unique own.distinct init init']
    exact constant

end TypeDecl

/-! ## What becomes of the initializers -/

namespace Lowering

variable {t : BindingTable}

theorem variableConstant_of_isPrimitiveConstant {v : VariableId}
    (answer : t.isPrimitiveConstant v = .ok true) : (t.variableConstant v).isSome = true := by
  unfold BindingTable.isPrimitiveConstant BindingTable.variableAt at answer
  unfold BindingTable.variableConstant
  rcases entry : t.vars[v.index]? with _ | b
  · rw [entry] at answer
    cases answer
  · rw [entry] at answer
    have constant : b.isPrimitiveConstant = true := Except.ok.inj answer
    unfold VariableBinding.isPrimitiveConstant at constant
    rw [Bool.and_eq_true] at constant
    exact constant.2

/-- Of the initializers of `int` fields the constant ones stay or are folded, and the others are
demoted. -/
theorem classify_simple {encoding : LiteralEncoding} {own : List VariableId} {e : Expr}
    {v : VariableId} {fate : Eligibility} (simple : e.isSimple own = true)
    (int : ∀ k, t.constantValue e = some k → ∃ c, k = .int c)
    (recorded : ∀ k, t.variableConstant v = some k → t.constantValue e = some k)
    (decided : classify t encoding e v = .ok fate) :
    (∃ c, t.constantValue e = some (.int c) ∧ (fate = .keep ∨ fate = .fold (.int c))) ∨
      t.constantValue e = none ∧ fate = .demote := by
  cases literal : e.asLiteral with
  | some value =>
    cases e <;> cases literal
    cases value with
    | int c =>
      cases decided
      exact .inl ⟨c, rfl, .inl rfl⟩
    | _ => cases simple
  | none =>
    rcases classify_of_not_literal literal decided with ⟨isConstant, rfl⟩ | rfl
    · obtain ⟨k, known⟩ := Option.isSome_iff_exists.mp
        (variableConstant_of_isPrimitiveConstant isConstant)
      have constant := recorded k known
      obtain ⟨c, rfl⟩ := int k constant
      exact .inl ⟨c, constant, .inl rfl⟩
    · cases constant : t.constantValue e with
      | none => exact .inr ⟨rfl, rfl⟩
      | some k =>
        obtain ⟨c, rfl⟩ := int k constant
        exact .inl ⟨c, rfl, .inr rfl⟩

/-- A fragment of a static `int` field keeps a constant initializer, as it is or folded; any other
initializer has to run. -/
theorem FragmentLowered.int_cases {encoding : LiteralEncoding} {own : List VariableId}
    {g g' : Fragment} {e : Expr} (fragment : FragmentLowered t encoding true (.primitive .int) g g')
    (init : g.initializer = some e) (simple : e.isSimple own = true)
    (int : ∀ k, t.constantValue e = some k → ∃ c, k = .int c)
    (recorded : ∀ v, g.binding = some v → ∀ k, t.variableConstant v = some k →
      t.constantValue e = some k) :
    ∃ v, g.binding = some v ∧ g'.binding = some v ∧
      ((∃ c e', t.constantValue e = some (.int c) ∧ g'.initializer = some e' ∧
          t.constantValue e' = some (.int c) ∧ hasToRun t encoding true g e = false) ∨
        t.constantValue e = none ∧ g'.initializer = none ∧
          hasToRun t encoding true g e = true) := by
  -- What is decided of an initializer agrees with whether it is a constant, so that in each case
  -- only one of the two answers is left.
  cases fragment with
  | bare none =>
    rw [none] at init
    cases init
  | moved _ _ isInstance => cases isInstance
  | @kept e' v init' bound _ decided =>
    rw [init'] at init
    cases init
    rcases classify_simple simple int (recorded v bound) decided with
      ⟨c, constant, -⟩ | ⟨-, fate⟩
    · exact ⟨v, bound, bound,
        .inl ⟨c, e, constant, init', constant, hasToRun_of_classify bound decided⟩⟩
    · cases fate
  | @folded e' v k n init' bound _ decided =>
    rw [init'] at init
    cases init
    rcases classify_simple simple int (recorded v bound) decided with
      ⟨c, constant, fate⟩ | ⟨-, fate⟩
    · rcases fate with fate | fate
      · cases fate
      · cases fate
        exact ⟨v, bound, bound, .inl ⟨c, _, constant, rfl, rfl, hasToRun_of_classify bound decided⟩⟩
    · cases fate
  | @demoted e' v init' bound _ decided =>
    rw [init'] at init
    cases init
    rcases classify_simple simple int (recorded v bound) decided with
      ⟨c, constant, fate⟩ | ⟨constant, -⟩
    · rcases fate with fate | fate <;> cases fate
    · exact ⟨v, bound, bound, .inr ⟨constant, rfl, hasToRun_of_classify bound decided⟩⟩

theorem isOnce_false (f : FieldDecl) : isOnce false f = f.modifiers.isStatic := Bool.or_false _

end Lowering

end ClassInit
