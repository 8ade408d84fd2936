import ClassInit.Proofs.Lowering.Literals
import ClassInit.Proofs.Lowering.Statics

/-!
# Static initialization before and after

What static initialization of a type is, read off the declaration before lowering and after it:
before, its steps in declaration order (`staticSteps`); after, what is left of the initializers and
then the statements of the synthesized routine (`routineStatements`).
-/

set_option autoImplicit false

namespace ClassInit

/-! ## Reading declarations -/

/-- The step that a fragment declares. -/
def Fragment.step (g : Fragment) : Option StaticStep :=
  match g.binding, g.initializer with
  | some v, some e => some (.init v e)
  | _, _ => none

/-- The step that a statement of a block is. -/
def Stmt.step : Stmt → Option StaticStep
  | .expression _ e => some (.run e)
  | _ => none

/-- The static steps that a member declares. -/
def Member.staticSteps : Member → List StaticStep
  | .field f => if f.modifiers.isStatic then f.fragments.filterMap Fragment.step else []
  | .initializer i => if i.isStatic then i.body.statements.filterMap Stmt.step else []
  | .type _ => []
  | .method _ => []

/-- The handles of the static fields that a member declares. -/
def Member.staticHandles : Member → List VariableId
  | .field f => if f.modifiers.isStatic then f.fragments.filterMap (·.binding) else []
  | _ => []

/-- Whether a statement is a simple expression. -/
def Stmt.isSimple (own : List VariableId) : Stmt → Bool
  | .expression _ e => e.isSimple own
  | _ => false

/-- Whether a member is a static field of type `int` with simple initializers, a static block of
simple expressions, or nothing that static initialization is about. -/
def Member.isIntStatic (own : List VariableId) : Member → Bool
  | .field f =>
    !f.modifiers.isStatic ||
      (f.type == .primitive .int && f.fragments.all fun g => g.initializer.all (Expr.isSimple own))
  | .initializer i => !i.isStatic || i.body.statements.all (Stmt.isSimple own)
  | .type _ => true
  | .method _ => true

/-- The statements of a member that is a method and no constructor. -/
def Member.routineStatements : Member → List Stmt
  | .method m => if m.head.isConstructor then [] else m.statements
  | _ => []

namespace TypeDecl

/-- What static initialization does before lowering, in declaration order. -/
def staticSteps (d : TypeDecl) : List StaticStep := d.members.flatMap Member.staticSteps

/-- The handles of the static fields. -/
def staticHandles (d : TypeDecl) : List VariableId := d.members.flatMap Member.staticHandles

/-- The values of the static fields before lowering: constant variables start with their constant,
the others at zero, and then the steps run. -/
def staticResult (t : BindingTable) (d : TypeDecl) : Store :=
  StaticStep.executeAll d.staticSteps fun v =>
    match t.variableConstant v with
    | some (.int c) => c
    | _ => 0

/-- The value that a field starts with after lowering: that of the initializer that is left in its
declaration. -/
def declaredValue (t : BindingTable) (d : TypeDecl) (v : VariableId) : Int32 :=
  match d.staticSteps.find? fun s => s.target == some v with
  | some s => t.intValue s.expr
  | none => 0

/-- The statements of the methods that stand after the given number of members. -/
def routineStatements (n : Nat) (d : TypeDecl) : List Stmt :=
  (d.members.drop n).flatMap Member.routineStatements

/-- The values of the static fields after lowering: fields start with what is left in their
declarations, and then the synthesized routine runs, which stands behind the members that
survived. -/
def loweredStaticResult (t : BindingTable) (d d' : TypeDecl) : Store :=
  StaticStep.executeAll
    ((d'.routineStatements (d.members.filter Lowering.survives).length).filterMap Stmt.step)
    (d'.declaredValue t)

/-- A type whose static fields are `int`s and whose static initializers and blocks are made of
simple expressions over these fields. -/
def IntStatics (d : TypeDecl) : Prop := d.members.all (Member.isIntStatic d.staticHandles) = true

instance (d : TypeDecl) : Decidable d.IntStatics :=
  inferInstanceAs (Decidable (d.members.all (Member.isIntStatic d.staticHandles) = true))

end TypeDecl

/-- A simple statement is an expression. -/
theorem Stmt.eq_expression_of_isSimple {own : List VariableId} {s : Stmt}
    (simple : s.isSimple own = true) :
    ∃ info e, s = .expression info e ∧ e.isSimple own = true := by
  cases s with
  | expression info e => exact ⟨info, e, rfl, simple⟩
  | _ => cases simple

theorem Fragment.step_eq_some {g : Fragment} {s : StaticStep} :
    g.step = some s ↔ ∃ v e, g.binding = some v ∧ g.initializer = some e ∧ s = .init v e := by
  unfold Fragment.step
  rcases g.binding with _ | v <;> rcases g.initializer with _ | e <;> simp [eq_comm]

/-- The steps of a type are those of the fragments and the statements of its static members. -/
theorem TypeDecl.mem_staticSteps {d : TypeDecl} {s : StaticStep} :
    s ∈ d.staticSteps ↔
      (∃ f, .field f ∈ d.members ∧ f.modifiers.isStatic = true ∧
        ∃ g ∈ f.fragments, g.step = some s) ∨
        ∃ i, .initializer i ∈ d.members ∧ i.isStatic = true ∧
        ∃ st ∈ i.body.statements, st.step = some s := by
  rw [TypeDecl.staticSteps, List.mem_flatMap]
  constructor
  · rintro ⟨m, hm, hs⟩
    cases m with
    | type | method => exact absurd hs List.not_mem_nil
    | field f =>
      obtain ⟨isStatic, hs⟩ := List.mem_ite_nil_right.mp hs
      exact .inl ⟨f, hm, isStatic, List.mem_filterMap.mp hs⟩
    | initializer i =>
      obtain ⟨isStatic, hs⟩ := List.mem_ite_nil_right.mp hs
      exact .inr ⟨i, hm, isStatic, List.mem_filterMap.mp hs⟩
  · rintro (⟨f, hf, isStatic, step⟩ | ⟨i, hi, isStatic, step⟩)
    · exact ⟨_, hf, List.mem_ite_nil_right.mpr ⟨isStatic, List.mem_filterMap.mpr step⟩⟩
    · exact ⟨_, hi, List.mem_ite_nil_right.mpr ⟨isStatic, List.mem_filterMap.mpr step⟩⟩

namespace TypeDecl.IntStatics

variable {d : TypeDecl}

/-- The static fields are integers with simple initializers. -/
theorem field (ints : d.IntStatics) {f : FieldDecl} (hf : .field f ∈ d.members)
    (isStatic : f.modifiers.isStatic = true) :
    f.type = .primitive .int ∧ ∀ g ∈ f.fragments, ∀ e, g.initializer = some e →
      e.isSimple d.staticHandles = true := by
  have member := List.all_eq_true.mp ints _ hf
  rw [Member.isIntStatic, isStatic, Bool.not_true, Bool.false_or, Bool.and_eq_true,
    List.all_eq_true] at member
  refine ⟨eq_of_beq member.1, fun g hg e init => ?_⟩
  have simple := member.2 g hg
  rw [init] at simple
  exact simple

/-- The static blocks consist of simple statements. -/
theorem block (ints : d.IntStatics) {i : InitializerDecl} (hi : .initializer i ∈ d.members)
    (isStatic : i.isStatic = true) :
    ∀ s ∈ i.body.statements, s.isSimple d.staticHandles = true := by
  have member := List.all_eq_true.mp ints _ hi
  rw [Member.isIntStatic, isStatic, Bool.not_true, Bool.false_or, List.all_eq_true] at member
  exact member

/-- All steps of the type are simple. -/
theorem simple (ints : d.IntStatics) :
    ∀ s ∈ d.staticSteps, s.expr.isSimple d.staticHandles = true := by
  intro s hs
  rcases TypeDecl.mem_staticSteps.mp hs with
    ⟨f, hf, isStatic, g, hg, step⟩ | ⟨i, hi, isStatic, st, hst, step⟩
  · obtain ⟨v, e, -, init, rfl⟩ := Fragment.step_eq_some.mp step
    exact (ints.field hf isStatic).2 g hg e init
  · obtain ⟨info, e, rfl, simple⟩ := Stmt.eq_expression_of_isSimple (ints.block hi isStatic st hst)
    cases step
    exact simple

end TypeDecl.IntStatics

/-- The initializers among the steps. -/
theorem TypeDecl.init_mem_staticSteps {d : TypeDecl} {v : VariableId} {e : Expr} :
    .init v e ∈ d.staticSteps ↔
      ∃ f, .field f ∈ d.members ∧ f.modifiers.isStatic = true ∧
        ∃ g ∈ f.fragments, g.binding = some v ∧ g.initializer = some e := by
  rw [TypeDecl.mem_staticSteps]
  constructor
  · rintro (⟨f, hf, isStatic, g, hg, step⟩ | ⟨i, -, -, st, -, step⟩)
    · obtain ⟨_, _, bound, init, ⟨⟩⟩ := Fragment.step_eq_some.mp step
      exact ⟨f, hf, isStatic, g, hg, bound, init⟩
    · -- A statement of a block is no initializer.
      cases st <;> cases step
  · rintro ⟨f, hf, isStatic, g, hg, bound, init⟩
    exact .inl ⟨f, hf, isStatic, g, hg, Fragment.step_eq_some.mpr ⟨v, e, bound, init, rfl⟩⟩

/-! ## Nested types play no part -/

/-- What a simple statement does does not depend on local types. -/
theorem Stmt.step_outline (s : Stmt) : s.outline.step = s.step := by
  fun_cases Stmt.outline s <;> rfl

theorem Stmt.filterMap_step_outlineOf (ss : List Stmt) :
    (Stmt.outlineOf ss).filterMap Stmt.step = ss.filterMap Stmt.step := by
  induction ss with
  | nil => rfl
  | cons s ss ih =>
    rw [Stmt.outlineOf, List.filterMap_cons, List.filterMap_cons, ih, s.step_outline]

theorem Stmt.isSimple_outline (own : List VariableId) (s : Stmt) :
    s.outline.isSimple own = s.isSimple own := by
  fun_cases Stmt.outline s <;> rfl

theorem Stmt.all_isSimple_outlineOf (own : List VariableId) (ss : List Stmt) :
    (Stmt.outlineOf ss).all (Stmt.isSimple own) = ss.all (Stmt.isSimple own) := by
  induction ss with
  | nil => rfl
  | cons s ss ih => rw [Stmt.outlineOf, List.all_cons, List.all_cons, ih, s.isSimple_outline]

namespace Member

theorem staticSteps_outline (m : Member) : m.outline.staticSteps = m.staticSteps := by
  rcases m with d | ⟨h, _ | ⟨i, ss⟩⟩ | ⟨i, isStatic, ⟨b, ss⟩⟩ | f
  · rfl
  · rfl
  · rfl
  · simp only [outline, staticSteps, Stmt.filterMap_step_outlineOf]
  · rfl

theorem staticHandles_outline (m : Member) : m.outline.staticHandles = m.staticHandles := by
  rcases m with d | ⟨h, _ | ⟨i, ss⟩⟩ | ⟨i, isStatic, ⟨b, ss⟩⟩ | f <;> rfl

theorem isIntStatic_outline (own : List VariableId) (m : Member) :
    m.outline.isIntStatic own = m.isIntStatic own := by
  rcases m with d | ⟨h, _ | ⟨i, ss⟩⟩ | ⟨i, isStatic, ⟨b, ss⟩⟩ | f
  · rfl
  · rfl
  · rfl
  · simp only [outline, isIntStatic, Stmt.all_isSimple_outlineOf]
  · rfl

end Member

section

variable {d d₁ : TypeDecl}

namespace TypeDecl

variable (same : d₁.members.map Member.outline = d.members.map Member.outline)

include same

/-- Types with the same outline take the same steps. -/
theorem staticSteps_of_outline : d₁.staticSteps = d.staticSteps :=
  congrArg List.flatten (map_of_outline same Member.staticSteps_outline)

theorem staticHandles_of_outline : d₁.staticHandles = d.staticHandles :=
  congrArg List.flatten (map_of_outline same Member.staticHandles_outline)

/-- Whether a type is of this kind depends on its outline only. -/
theorem IntStatics.of_outline (ints : d.IntStatics) : d₁.IntStatics := by
  have simple : ∀ own, ∀ ms : List Member, ms.all (Member.isIntStatic own) =
      (ms.map (Member.isIntStatic own)).all id := by
    intro own ms
    rw [List.all_map]
    rfl
  rw [IntStatics, staticHandles_of_outline same, simple,
    map_of_outline same (Member.isIntStatic_outline d.staticHandles), ← simple]
  exact ints

end TypeDecl

end

end ClassInit
