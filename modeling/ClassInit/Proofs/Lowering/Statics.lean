import ClassInit.Binding.Constants
import ClassInit.Proofs.Tree.Erase
import Mathlib.Logic.Function.Basic

/-!
# What static initialization does

A small language of static initialization, in which its order can be told: expressions are `int`
literals, names of static `int` fields and plain assignments to them. A type initializes its static
fields by the steps that it declares, in declaration order. Of these, lowering leaves the constant
initializers in the declarations, where they have run before anything else. The main statement is
that both orders end in the same values as long as no step disturbs a constant initializer further
down (`run_eq_runLowered`).
-/

set_option autoImplicit false

namespace ClassInit

/-! ## Expressions -/

/-- The values of the static fields, by handle. -/
abbrev Store := VariableId → Int32

namespace Expr

/-- Whether the expression is built from `int` literals, names and plain assignments, with only the
given variables in it. -/
def isSimple (own : List VariableId) : Expr → Bool
  | .literal _ (.int _) => true
  | .name _ _ (some v) => v ∈ own
  | .assignment _ .assign (.name _ _ (some v)) e => v ∈ own && e.isSimple own
  | _ => false

/-- The value of a simple expression and the values of the fields after it. -/
def evaluate : Expr → Store → Int32 × Store
  | .literal _ (.int i), σ => (i, σ)
  | .name _ _ (some v), σ => (σ v, σ)
  | .assignment _ .assign (.name _ _ (some v)) e, σ =>
    let (value, σ) := e.evaluate σ
    (value, Function.update σ v value)
  | _, σ => (0, σ)

/-- The variables that a simple expression reads. -/
def reads : Expr → List VariableId
  | .name _ _ (some v) => [v]
  | .assignment _ _ _ e => e.reads
  | _ => []

/-- The variables that a simple expression assigns. -/
def assigns : Expr → List VariableId
  | .assignment _ _ (.name _ _ (some v)) e => v :: e.assigns
  | _ => []

/-- Simple expressions one form at a time. -/
theorem isSimple_rec {own : List VariableId} {P : Expr → Prop}
    (literal : ∀ i value, P (.literal i (.int value)))
    (name : ∀ i n v, v ∈ own → P (.name i n (some v)))
    (assignment : ∀ i j n v e, v ∈ own → e.isSimple own = true → P e →
      P (.assignment i .assign (.name j n (some v)) e))
    {e : Expr} (simple : e.isSimple own = true) : P e := by
  fun_induction isSimple own e with
  | case1 i value => exact literal i value
  | case2 i n v => exact name i n v (of_decide_eq_true simple)
  | case3 i j n v e ih =>
    rw [Bool.and_eq_true] at simple
    exact assignment i j n v e (of_decide_eq_true simple.1) simple.2 (ih simple.2)
  | case4 => cases simple

/-- Evaluating a simple expression in two stores that agree on what it reads gives the same value,
and the stores still agree wherever they did. -/
theorem evaluate_agree {own : List VariableId} {e : Expr} (simple : e.isSimple own = true)
    {σ τ : Store} (agree : ∀ v ∈ own, v ∈ e.reads → σ v = τ v) :
    (e.evaluate σ).1 = (e.evaluate τ).1 ∧
      ∀ v, σ v = τ v → (e.evaluate σ).2 v = (e.evaluate τ).2 v := by
  revert agree
  refine isSimple_rec (P := fun e => (∀ v ∈ own, v ∈ e.reads → σ v = τ v) →
    (e.evaluate σ).1 = (e.evaluate τ).1 ∧
      ∀ v, σ v = τ v → (e.evaluate σ).2 v = (e.evaluate τ).2 v) ?_ ?_ ?_ simple
  · intro i value _
    exact ⟨rfl, fun v same => same⟩
  · intro i n v hv agree
    exact ⟨agree v hv List.mem_cons_self, fun w same => same⟩
  · intro i j n v e _ _ ih agree
    obtain ⟨value, rest⟩ := ih agree
    refine ⟨value, fun w same => ?_⟩
    show Function.update (e.evaluate σ).2 v (e.evaluate σ).1 w =
      Function.update (e.evaluate τ).2 v (e.evaluate τ).1 w
    by_cases target : w = v
    · rw [target, Function.update_self, Function.update_self, value]
    · rw [Function.update_of_ne target, Function.update_of_ne target]
      exact rest w same

/-- What an expression does not assign keeps its value. -/
theorem evaluate_of_not_assigns {own : List VariableId} {e : Expr} (simple : e.isSimple own = true)
    {v : VariableId} (kept : v ∉ e.assigns) (σ : Store) : (e.evaluate σ).2 v = σ v := by
  revert kept
  refine isSimple_rec (P := fun e => v ∉ e.assigns → (e.evaluate σ).2 v = σ v) ?_ ?_ ?_ simple
  · intro i value _
    rfl
  · intro i n w _ _
    rfl
  · intro i j n w e _ _ ih kept
    have parts : v ≠ w ∧ v ∉ e.assigns := by
      simpa [assigns] using kept
    show Function.update (e.evaluate σ).2 w (e.evaluate σ).1 v = σ v
    rw [Function.update_of_ne parts.1]
    exact ih parts.2

/-- A simple expression that is a constant is a literal or the name of a constant variable. -/
theorem constant_of_isSimple {own : List VariableId} {e : Expr} (simple : e.isSimple own = true)
    {t : BindingTable} {c : Constant} (constant : t.constantValue e = some c) :
    (∃ i value, e = .literal i (.int value) ∧ c = .int value) ∨
      ∃ i n v, e = .name i n (some v) ∧ v ∈ own ∧ t.variableConstant v = some c := by
  revert constant
  refine isSimple_rec (P := fun e => t.constantValue e = some c →
    (∃ i value, e = .literal i (.int value) ∧ c = .int value) ∨
      ∃ i n v, e = .name i n (some v) ∧ v ∈ own ∧ t.variableConstant v = some c) ?_ ?_ ?_ simple
  · intro i value constant
    refine .inl ⟨i, value, rfl, ?_⟩
    exact (Option.some.inj constant).symm
  · intro i n v hv constant
    exact .inr ⟨i, n, v, rfl, hv, constant⟩
  · intro i j n v e _ _ _ constant
    cases constant

end Expr

/-! ## Steps -/

/-- A step of static initialization: the initializer of a field, or an expression that is a
statement of a block. -/
inductive StaticStep where
  | init (field : VariableId) (value : Expr)
  | run (e : Expr)

namespace StaticStep

def expr : StaticStep → Expr
  | init _ e => e
  | run e => e

/-- The values of the fields after a step. -/
def execute : StaticStep → Store → Store
  | init v e, σ => Function.update (e.evaluate σ).2 v (e.evaluate σ).1
  | run e, σ => (e.evaluate σ).2

/-- Whether a step is a constant initializer. -/
def isConstant (t : BindingTable) : StaticStep → Bool
  | init _ e => (t.constantValue e).isSome
  | run _ => false

/-- The field that a step initializes. -/
def target : StaticStep → Option VariableId
  | init v _ => some v
  | run _ => none

/-- The first step, which is before the second, does not disturb it: if the second is a constant
initializer, the first assigns neither its field nor the constant variable that it names, and reads
the field only if it is a constant variable. -/
def Respects (t : BindingTable) (first : StaticStep) : StaticStep → Prop
  | init v e => (t.constantValue e).isSome = true →
    v ∉ first.expr.assigns ∧
      (v ∈ first.expr.reads → (t.variableConstant v).isSome = true) ∧
      ∀ w ∈ e.reads, w ∉ first.expr.assigns
  | run _ => True

instance (t : BindingTable) (first : StaticStep) :
    (second : StaticStep) → Decidable (first.Respects t second)
  | init v e =>
    inferInstanceAs (Decidable ((t.constantValue e).isSome = true →
      v ∉ first.expr.assigns ∧
        (v ∈ first.expr.reads → (t.variableConstant v).isSome = true) ∧
        ∀ w ∈ e.reads, w ∉ first.expr.assigns))
  | run _ => isTrue trivial

/-- A step that reads the same in two stores has the same effect: they still agree wherever they
did. -/
theorem execute_agree {own : List VariableId} {s : StaticStep} (simple : s.expr.isSimple own = true)
    {σ τ : Store} (reads : ∀ v ∈ own, v ∈ s.expr.reads → σ v = τ v) {v : VariableId}
    (same : σ v = τ v) : s.execute σ v = s.execute τ v := by
  obtain ⟨value, stores⟩ := Expr.evaluate_agree simple reads
  cases s with
  | init w e =>
    show Function.update (e.evaluate σ).2 w (e.evaluate σ).1 v =
      Function.update (e.evaluate τ).2 w (e.evaluate τ).1 v
    by_cases isTarget : v = w
    · rw [isTarget, Function.update_self, Function.update_self]
      exact value
    · rw [Function.update_of_ne isTarget, Function.update_of_ne isTarget]
      exact stores v same
  | run e => exact stores v same

/-- What a step neither assigns nor initializes keeps its value. -/
theorem execute_of_not_assigns {own : List VariableId} {s : StaticStep}
    (simple : s.expr.isSimple own = true) {v : VariableId} (kept : v ∉ s.expr.assigns)
    (notTarget : s.target ≠ some v) (σ : Store) : s.execute σ v = σ v := by
  cases s with
  | init w e =>
    show Function.update (e.evaluate σ).2 w (e.evaluate σ).1 v = σ v
    have different : v ≠ w := fun eq => notTarget (congrArg some eq.symm)
    rw [Function.update_of_ne different]
    exact Expr.evaluate_of_not_assigns simple kept σ
  | run e => exact Expr.evaluate_of_not_assigns simple kept σ

end StaticStep

/-- Steps run in their order. -/
def StaticStep.executeAll (steps : List StaticStep) (σ : Store) : Store :=
  steps.foldl (fun σ s => s.execute σ) σ

/-- The value that a constant initializer gives a field of type `int` before anything runs; any
other initializer leaves it at zero. -/
def BindingTable.intValue (t : BindingTable) (e : Expr) : Int32 :=
  match t.constantValue e with
  | some (.int c) => c
  | _ => 0

/-- The constants of the table are those of the steps: what is a constant expression is an `int`,
and a constant variable has the value of its initializer. -/
structure ConstantsOf (t : BindingTable) (steps : List StaticStep) : Prop where
  int : ∀ v e, .init v e ∈ steps → ∀ k, t.constantValue e = some k → ∃ c, k = .int c
  recorded : ∀ v e, .init v e ∈ steps → ∀ k, t.variableConstant v = some k →
    t.constantValue e = some k

namespace ConstantsOf

variable {t : BindingTable} {s : StaticStep} {rest : List StaticStep}

theorem tail (constants : ConstantsOf t (s :: rest)) : ConstantsOf t rest :=
  ⟨fun v e h => constants.int v e (List.mem_cons_of_mem _ h),
    fun v e h => constants.recorded v e (List.mem_cons_of_mem _ h)⟩

end ConstantsOf

/-! ## Both orders -/

/-- Whether a constant initializer of a field is among the steps. -/
def Pending (t : BindingTable) (steps : List StaticStep) (v : VariableId) : Prop :=
  ∃ e, .init v e ∈ steps ∧ (t.constantValue e).isSome = true

/-- How the values of the fields compare when the given steps are still to come: in the first store
they run in declaration order, in the second the constant initializers have run already. -/
structure Aligned (t : BindingTable) (own : List VariableId) (steps : List StaticStep)
    (σ τ : Store) : Prop where
  /-- Only fields that still wait for their constant and are no constant variables may differ. -/
  agree : ∀ v ∈ own, ¬ Pending t steps v ∨ (t.variableConstant v).isSome = true → σ v = τ v
  /-- Fields with a constant initializer to come have their value in the second store. -/
  early : ∀ v e, .init v e ∈ steps → ∀ c, t.constantValue e = some (.int c) → τ v = c
  /-- A constant variable that a constant initializer names still has its constant. -/
  named : ∀ v e, .init v e ∈ steps → (t.constantValue e).isSome = true →
    ∀ w ∈ e.reads, ∀ c, t.variableConstant w = some (.int c) → σ w = c

section

variable {t : BindingTable} {own : List VariableId} {s : StaticStep} {rest : List StaticStep}
variable {σ τ : Store}

/-- A constant initializer gives its field its constant, and nothing else happens. -/
theorem Aligned.execute_constant {v : VariableId} {e : Expr} {c : Int32}
    (simple : e.isSimple own = true) (constant : t.constantValue e = some (.int c))
    (aligned : Aligned t own (.init v e :: rest) σ τ) :
    (StaticStep.init v e).execute σ = Function.update σ v c := by
  have member : StaticStep.init v e ∈ StaticStep.init v e :: rest := List.mem_cons_self
  rcases Expr.constant_of_isSimple simple constant with
    ⟨i, value, rfl, same⟩ | ⟨i, n, w, rfl, -, recorded⟩
  · cases same
    rfl
  · have named := aligned.named v _ member (by rw [constant]; rfl) w
      List.mem_cons_self c recorded
    show Function.update σ v (σ w) = Function.update σ v c
    rw [named]

/-- One constant initializer, which only the first store still has to run. -/
theorem Aligned.step_constant {v : VariableId} {e : Expr} {c : Int32}
    (simple : e.isSimple own = true) (constant : t.constantValue e = some (.int c))
    (constants : ConstantsOf t (.init v e :: rest))
    (aligned : Aligned t own (.init v e :: rest) σ τ) :
    Aligned t own rest ((StaticStep.init v e).execute σ) τ := by
  have member : StaticStep.init v e ∈ StaticStep.init v e :: rest := List.mem_cons_self
  rw [aligned.execute_constant simple constant]
  -- The field waits no longer: the first store gets the constant that the second has had all along.
  refine ⟨fun u hu settled => ?_, fun u f hf => ?_, fun u f hf isConstant w reads k recorded => ?_⟩
  · by_cases isTarget : u = v
    · rw [isTarget, Function.update_self]
      exact (aligned.early v e member c constant).symm
    · rw [Function.update_of_ne isTarget]
      refine aligned.agree u hu (settled.imp_left fun waits pending => ?_)
      obtain ⟨f, hf, isConstant⟩ := pending
      rcases List.mem_cons.mp hf with same | hf
      · cases same
        exact isTarget rfl
      · exact waits ⟨f, hf, isConstant⟩
  · exact aligned.early u f (List.mem_cons_of_mem _ hf)
  · by_cases isTarget : w = v
    · rw [isTarget, Function.update_self]
      rw [isTarget] at recorded
      have value := constants.recorded v e member _ recorded
      rw [constant] at value
      cases value
      rfl
    · rw [Function.update_of_ne isTarget]
      exact aligned.named u f (List.mem_cons_of_mem _ hf) isConstant w reads k recorded

/-- One step that both stores run. -/
theorem Aligned.step_common (simple : s.expr.isSimple own = true) (runs : s.isConstant t = false)
    (constants : ConstantsOf t (s :: rest))
    (distinct : ∀ v, s.target = some v → ∀ e, .init v e ∉ rest)
    (respects : ∀ s' ∈ rest, s.Respects t s') (aligned : Aligned t own (s :: rest) σ τ) :
    Aligned t own rest (s.execute σ) (s.execute τ) := by
  have pending : ∀ v, Pending t (s :: rest) v → Pending t rest v := by
    rintro v ⟨e, he, isConstant⟩
    rcases List.mem_cons.mp he with same | he
    · rw [← same] at runs
      have notConstant : (t.constantValue e).isSome = false := runs
      rw [isConstant] at notConstant
      cases notConstant
    · exact ⟨e, he, isConstant⟩
  -- What the step reads is the same in both stores: a field that still waits for its constant is
  -- read only if it is a constant variable.
  have reads : ∀ v ∈ own, v ∈ s.expr.reads → σ v = τ v := by
    intro v hv isRead
    refine aligned.agree v hv ?_
    by_cases waits : Pending t rest v
    · obtain ⟨e, he, isConstant⟩ := waits
      exact .inr ((respects _ he isConstant).2.1 isRead)
    · exact .inl fun h => waits (pending v h)
  refine ⟨fun v hv settled => ?_, fun v e he c constant => ?_,
    fun v e he isConstant w isRead c recorded => ?_⟩
  · exact StaticStep.execute_agree simple reads
      (aligned.agree v hv (settled.imp_left fun waits h => waits (pending v h)))
  · have isConstant : (t.constantValue e).isSome = true := by
      rw [constant]
      rfl
    have notTarget : s.target ≠ some v := fun isTarget => distinct v isTarget e he
    rw [StaticStep.execute_of_not_assigns simple (respects _ he isConstant).1 notTarget]
    exact aligned.early v e (List.mem_cons_of_mem _ he) c constant
  · -- A constant variable is initialized by its constant, so this step is not its initializer.
    have notTarget : s.target ≠ some w := by
      intro isTarget
      cases s with
      | init w' e' =>
        cases isTarget
        have value := constants.recorded w e' List.mem_cons_self _ recorded
        have notConstant : (t.constantValue e').isSome = false := runs
        rw [value] at notConstant
        cases notConstant
      | run e' => cases isTarget
    rw [StaticStep.execute_of_not_assigns simple ((respects _ he isConstant).2.2 w isRead)
      notTarget]
    exact aligned.named v e (List.mem_cons_of_mem _ he) isConstant w isRead c recorded

end

/-- Running the steps in declaration order ends in the same values as running the constant
initializers first, if no step disturbs a constant initializer that is declared after it. -/
theorem run_eq_runLowered {t : BindingTable} {own : List VariableId} {steps : List StaticStep}
    (simple : ∀ s ∈ steps, s.expr.isSimple own = true)
    (distinct : (steps.filterMap StaticStep.target).Nodup) (constants : ConstantsOf t steps)
    (order : steps.Pairwise (StaticStep.Respects t)) {σ τ : Store}
    (aligned : Aligned t own steps σ τ) :
    ∀ v ∈ own, StaticStep.executeAll steps σ v =
      StaticStep.executeAll (steps.filter fun s => !s.isConstant t) τ v := by
  -- `Aligned` is the invariant: constant initializers run on the left only, any other step on both
  -- sides.
  induction steps generalizing σ τ with
  | nil =>
    intro v hv
    refine aligned.agree v hv (.inl ?_)
    rintro ⟨e, he, -⟩
    cases he
  | cons s rest ih =>
    obtain ⟨respects, orderRest⟩ := List.pairwise_cons.mp order
    have simpleRest : ∀ s' ∈ rest, s'.expr.isSimple own = true :=
      fun s' hs' => simple s' (List.mem_cons_of_mem _ hs')
    have simpleStep := simple s List.mem_cons_self
    have distinctRest : (rest.filterMap StaticStep.target).Nodup := by
      rw [List.filterMap_cons] at distinct
      split at distinct
      · exact distinct
      · exact (List.nodup_cons.mp distinct).2
    have notLater : ∀ v, s.target = some v → ∀ e, StaticStep.init v e ∉ rest := by
      intro v isTarget e he
      rw [List.filterMap_cons, isTarget] at distinct
      exact (List.nodup_cons.mp distinct).1 (List.mem_filterMap.mpr ⟨_, he, rfl⟩)
    by_cases isConstant : s.isConstant t = true
    · cases s with
      | run e => cases isConstant
      | init v e =>
        obtain ⟨k, constant⟩ := Option.isSome_iff_exists.mp isConstant
        obtain ⟨c, rfl⟩ := constants.int v e List.mem_cons_self k constant
        have filtered : (StaticStep.init v e :: rest).filter (fun s => !s.isConstant t) =
            rest.filter fun s => !s.isConstant t := by
          rw [List.filter_cons, isConstant]
          rfl
        rw [filtered]
        exact ih simpleRest distinctRest constants.tail orderRest
          (aligned.step_constant simpleStep constant constants)
    · have runs : s.isConstant t = false := Bool.eq_false_iff.mpr isConstant
      have filtered : (s :: rest).filter (fun s => !s.isConstant t) =
          s :: rest.filter fun s => !s.isConstant t := by
        rw [List.filter_cons, runs]
        rfl
      rw [filtered]
      exact ih simpleRest distinctRest constants.tail orderRest
        (aligned.step_common simpleStep runs constants notLater respects)

end ClassInit
