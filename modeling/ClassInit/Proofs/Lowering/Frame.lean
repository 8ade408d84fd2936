import ClassInit.Lowering.Unit
import ClassInit.Proofs.Lowering.Steps
import ClassInit.Proofs.Tree.Outline

/-!
# What lowering leaves of the table

However far it comes, lowering a type only adds entries of synthesized methods (`lowerType_moves`,
`CompilationUnit.lower_grows`), so that what it decides from types and variables it decides alike at
any point of the run (`BindingTable.Grows.classify`).
-/

set_option autoImplicit false

namespace ClassInit

namespace Lowering

open Edit (Moves)

/-! ## Collecting -/

/-- What collecting may do to the state: it takes node ids and counts initializers. -/
structure State.Collects (s s' : State) : Prop where
  table : s'.table = s.table
  types : s'.stats.types = s.stats.types
  designated : s'.stats.designatedConstructors = s.stats.designatedConstructors
  delegating : s'.stats.delegatingConstructors = s.stats.delegatingConstructors
  defaults : s'.stats.defaultConstructors = s.stats.defaultConstructors
  routines : s'.stats.classInitializers = s.stats.classInitializers

theorem State.Collects.refl (s : State) : s.Collects s := ⟨rfl, rfl, rfl, rfl, rfl, rfl⟩

theorem State.Collects.trans (a b c : State) (first : a.Collects b) (second : b.Collects c) :
    a.Collects c :=
  ⟨second.table.trans first.table, second.types.trans first.types,
    second.designated.trans first.designated, second.delegating.trans first.delegating,
    second.defaults.trans first.defaults, second.routines.trans first.routines⟩

/-- Collecting adds no methods, so the table only grows. -/
theorem State.Collects.grows {s s' : State} (collects : s.Collects s') : s.Grows s' := by
  unfold State.Grows
  rw [collects.table]
  exact BindingTable.Grows.refl s.table

/-- Drawing ids leaves the table alone. -/
theorem collects_of_mint {α : Type} (m : Numbered α) : Step.Moves State.Collects (mint m) :=
  fun _ => ⟨rfl, rfl, rfl, rfl, rfl, rfl⟩

/-- A question to the table leaves it alone. -/
theorem collects_of_ask {α : Type} (name : String) (span : Span)
    (question : BindingTable → Except ResolveError α) :
    Step.Moves State.Collects (ask name span question) := by
  intro s
  rw [ask_run]
  rcases question s.table with e | a <;> exact State.Collects.refl s

/-- Collecting from a variable draws ids and counts; it leaves the table alone. -/
theorem collectFragment_moves (options : Options) (name : String) (once : Bool) (type : TypeRef)
    (lists : InitLists) (f : Fragment) :
    Step.Moves State.Collects (collectFragment options name once type lists f) := by
  unfold collectFragment
  split
  · exact Step.Moves.pure State.Collects.refl _
  · exact Step.Moves.throw State.Collects.refl _
  · refine Step.Moves.bind State.Collects.trans ?_ fun fate => ?_
    · unfold eligibility
      split
      · exact collects_of_ask _ _ _
      · exact Step.Moves.pure State.Collects.refl _
    cases fate with
    | keep =>
      exact Step.Moves.bind State.Collects.trans (fun _ => ⟨rfl, rfl, rfl, rfl, rfl, rfl⟩) fun _ =>
        Step.Moves.pure State.Collects.refl _
    | fold value =>
      exact Step.Moves.bind State.Collects.trans (collects_of_mint _) fun _ =>
        Step.Moves.bind State.Collects.trans (fun _ => ⟨rfl, rfl, rfl, rfl, rfl, rfl⟩) fun _ =>
          Step.Moves.pure State.Collects.refl _
    | demote =>
      refine Step.Moves.bind State.Collects.trans (collects_of_mint _) fun _ =>
        Step.Moves.bind State.Collects.trans (fun _ => ?_) fun _ =>
          Step.Moves.pure State.Collects.refl _
      cases once <;> exact ⟨rfl, rfl, rfl, rfl, rfl, rfl⟩

theorem collectFragments_moves (options : Options) (name : String) (once : Bool) (type : TypeRef)
    (lists : InitLists) (fs : List Fragment) :
    Step.Moves State.Collects (collectFragments options name once type lists fs) := by
  induction fs generalizing lists with
  | nil => exact Step.Moves.pure State.Collects.refl _
  | cons f fs ih =>
    exact Step.Moves.bind State.Collects.trans (collectFragment_moves _ _ _ _ _ _) fun _ =>
      Step.Moves.bind State.Collects.trans (ih _) fun _ => Step.Moves.pure State.Collects.refl _

theorem collectField_moves (options : Options) (name : String) (isInterface : Bool)
    (lists : InitLists) (f : FieldDecl) :
    Step.Moves State.Collects (collectField options name isInterface lists f) :=
  Step.Moves.bind State.Collects.trans (collectFragments_moves _ _ _ _ _ _) fun _ =>
    Step.Moves.pure State.Collects.refl _

/-- So does collecting from members. -/
theorem collectMembers_moves (options : Options) (name : String) (isInterface : Bool)
    (lists : InitLists) (ms : List Member) :
    (collectMembers options name isInterface lists ms).Moves State.Collects := by
  induction ms generalizing lists with
  | nil => exact Moves.keep State.Collects.refl _
  | cons m ms ih =>
    cases m with
    | initializer i =>
      have block : (Edit.ofState (collectBlock lists i) : Edit State Failure InitLists).Moves
          State.Collects :=
        fun _ => ⟨rfl, rfl, rfl, rfl, rfl, rfl⟩
      exact block.andThen State.Collects.trans fun _ => ih _
    | field f =>
      exact (editBy_moves (collectField_moves _ _ _ _ _)).andThen State.Collects.trans fun _ =>
        (ih _).map _
    | type d => exact (ih _).map _
    | method m => exact (ih _).map _

/-- So does collecting from a type. -/
theorem collect_moves (options : Options) (isInterface : Bool) (d : TypeDecl) :
    (collect options isInterface d).Moves State.Collects :=
  (collectMembers_moves _ _ _ _ _).map _

/-! ## Constructors and synthesized members -/

/-- A call that is added gets a new entry for the constructor that it calls, and no other is
added. -/
theorem implicitSuperCall_moves (name : String) (type : TypeId) (span : Span) :
    Step.Moves State.Grows (implicitSuperCall name type span) :=
  Step.Moves.bind State.Grows.trans (ask_moves _ _ _) fun _ =>
    Step.Moves.bind State.Grows.trans (enter_moves _ _ (newConstructor_grows _ _)) fun _ =>
      mint_moves _

/-- Lowering a constructor only adds methods to the table. -/
theorem lowerConstructor_moves (name : String) (type : TypeId) (instances : List Stmt)
    (m : MethodDecl) : Step.Moves State.Grows (lowerConstructor name type instances m) := by
  unfold lowerConstructor
  split
  · exact Step.Moves.throw State.Grows.refl _
  · split
    · refine Step.Moves.bind State.Grows.trans ?_ fun _ =>
        Step.Moves.bind State.Grows.trans (count_moves _) fun _ =>
          Step.Moves.pure State.Grows.refl _
      unfold initialized
      split
      · exact Step.Moves.bind State.Grows.trans (mint_moves _) fun _ =>
          Step.Moves.pure State.Grows.refl _
      · exact Step.Moves.bind State.Grows.trans (implicitSuperCall_moves _ _ _) fun _ =>
          Step.Moves.bind State.Grows.trans (mint_moves _) fun _ =>
            Step.Moves.pure State.Grows.refl _
    · exact Step.Moves.bind State.Grows.trans (count_moves _) fun _ =>
        Step.Moves.pure State.Grows.refl _

theorem lowerMember_moves (name : String) (type : TypeId) (instances : List Stmt) (m : Member) :
    (lowerMember name type instances m).Moves State.Grows := by
  unfold lowerMember
  split
  · split
    · exact editBy_moves (Step.Moves.bind State.Grows.trans (lowerConstructor_moves _ _ _ _)
        fun _ => Step.Moves.pure State.Grows.refl _)
    · exact Moves.keep State.Grows.refl _
  · exact Moves.keep State.Grows.refl _

theorem lowerMembers_moves (name : String) (type : TypeId) (instances : List Stmt)
    (ms : List Member) : (Edit.list (lowerMember name type instances) ms).Moves State.Grows :=
  Moves.list State.Grows.refl State.Grows.trans fun m _ => lowerMember_moves _ _ _ m

/-- So does lowering all constructors of a type. -/
theorem lowerConstructors_moves (type : TypeId) (instances : List Stmt) (d : TypeDecl) :
    (lowerConstructors type instances d).Moves State.Grows :=
  (lowerMembers_moves _ _ _ _).map _

/-- So does adding a default constructor. -/
theorem addDefaultConstructor_moves (type : TypeId) (instances : List Stmt) (d : TypeDecl) :
    (addDefaultConstructor type instances d).Moves State.Grows := by
  refine editBy_moves (Step.Moves.bind State.Grows.trans ?_ fun _ =>
    Step.Moves.bind State.Grows.trans (count_moves _) fun _ =>
      Step.Moves.pure State.Grows.refl _)
  exact Step.Moves.bind State.Grows.trans (ask_moves _ _ _) fun _ =>
    Step.Moves.bind State.Grows.trans (ask_moves _ _ _) fun _ =>
      Step.Moves.bind State.Grows.trans (enter_moves _ _ (newConstructor_grows _ _)) fun _ =>
        Step.Moves.bind State.Grows.trans (enter_moves _ _ (newConstructor_grows _ _)) fun _ =>
          Step.Moves.bind State.Grows.trans (mint_moves _) fun _ => mint_moves _

/-- So does adding the static routine. -/
theorem addClassInitializer_moves (options : Options) (type : TypeId) (statics : List Stmt)
    (d : TypeDecl) : (addClassInitializer options type statics d).Moves State.Grows := by
  refine editBy_moves (Step.Moves.bind State.Grows.trans ?_ fun _ =>
    Step.Moves.bind State.Grows.trans (count_moves _) fun _ =>
      Step.Moves.pure State.Grows.refl _)
  unfold classInitializer
  dsimp only
  split
  · exact Step.Moves.throw State.Grows.refl _
  · exact Step.Moves.bind State.Grows.trans (enter_moves _ _ (newMethod_grows _ _ _)) fun _ =>
      mint_moves _

/-! ## Types and units -/

theorem lowerInstances_moves (type : TypeId) (instances : List Stmt) (d : TypeDecl) :
    (lowerInstances type instances d).Moves State.Grows := by
  refine (lowerConstructors_moves _ _ _).andThen State.Grows.trans fun d => ?_
  split
  · exact addDefaultConstructor_moves _ _ _
  · exact Moves.keep State.Grows.refl _

theorem lowerStatics_moves (options : Options) (type : TypeId) (statics : List Stmt)
    (d : TypeDecl) :
    (lowerStatics options type statics d).Moves State.Grows := by
  unfold lowerStatics
  split
  · exact Moves.keep State.Grows.refl _
  · exact addClassInitializer_moves _ _ _ _

/-- So do all passes over one type. -/
theorem lowerOwn_moves (options : Options) (type : TypeId) (isInterface : Bool) (d : TypeDecl) :
    (lowerOwn options type isInterface d).Moves State.Grows := by
  refine ((collect_moves _ _ _).imp fun _ _ => State.Collects.grows).andThen State.Grows.trans
    fun (d, lists) => Moves.andThen State.Grows.trans ?_ fun d => lowerStatics_moves _ _ _ d
  split
  · exact Moves.keep State.Grows.refl _
  · exact lowerInstances_moves _ _ _

/-- So does lowering the type in a member, if lowering nested types does. -/
theorem lowerMemberType_moves {nested : TypeDecl → Edit State Failure TypeDecl}
    (single : ∀ d, (nested d).Moves State.Grows) (m : Member) :
    (lowerMemberType nested m).Moves State.Grows := by
  unfold lowerMemberType
  split
  · exact (single _).map _
  · exact Moves.keep State.Grows.refl _

/-- So does lowering the types inside a type. -/
theorem lowerNested_moves {nested : TypeDecl → Edit State Failure TypeDecl}
    (single : ∀ d, (nested d).Moves State.Grows) (d : TypeDecl) :
    (lowerNested nested d).Moves State.Grows :=
  ((Moves.list State.Grows.refl State.Grows.trans fun m _ => lowerMemberType_moves single m).map
    _).andThen State.Grows.trans
      (TypeDecl.editLocalTypes_moves State.Grows.refl State.Grows.trans single)

/-- Lowering a type and the types in it, whether it succeeds or fails, only adds synthesized
methods to the table. -/
theorem lowerType_moves (options : Options) (levels : Nat) (d : TypeDecl) :
    (lowerType options levels d).Moves State.Grows := by
  induction levels generalizing d with
  | zero => exact Moves.stop State.Grows.refl _ _
  | succ levels ih =>
    intro s
    have counted : ∀ d, (countType d).Moves State.Grows :=
      fun d s => BindingTable.Grows.refl s.table
    have identified : Step.Moves State.Grows (identify d) := by
      unfold identify
      split
      · exact Step.Moves.throw State.Grows.refl _
      · exact Step.Moves.bind State.Grows.trans (ask_moves _ _ _) fun _ =>
          Step.Moves.pure State.Grows.refl _
    have first := identified s
    unfold lowerType
    revert first
    generalize ((identify d).run s : Except Failure (TypeId × Bool) × State) = r
    rcases r with ⟨e | ⟨type, isInterface⟩, s₁⟩
    · exact id
    · intro first
      refine State.Grows.trans _ _ _ first ?_
      exact (((lowerNested_moves ih d).andThen State.Grows.trans fun d =>
        lowerOwn_moves options type isInterface d).andThen State.Grows.trans counted) s₁

end Lowering

/-- Lowering a unit, whether it succeeds or fails, only adds synthesized methods to the table. -/
theorem CompilationUnit.lower_grows (u : CompilationUnit) (t : BindingTable)
    (options : Lowering.Options) : t.Grows (u.lower t options).table := by
  have moved := Edit.Moves.list Lowering.State.Grows.refl Lowering.State.Grows.trans
    (fun d (_ : d ∈ u.types) => Lowering.lowerType_moves options (Limits.typeNesting + 1) d)
    ⟨t, u.supply, .zero⟩
  unfold CompilationUnit.lower
  split
  · rename_i run
    rw [Lowering.lowerTopLevel] at run
    rw [run] at moved
    exact moved
  · rename_i run
    rw [Lowering.lowerTopLevel] at run
    rw [run] at moved
    exact moved

/-- What a run that succeeds leaves is the unit, the table and the counts of its last state. -/
theorem CompilationUnit.lower_run {u : CompilationUnit} {t : BindingTable}
    {options : Lowering.Options} {stats : Lowering.Stats}
    (success : (u.lower t options).result = .ok stats) :
    Edit.list (Lowering.lowerTopLevel options) u.types ⟨t, u.supply, .zero⟩ =
      (.done (u.lower t options).unit.types,
        ⟨(u.lower t options).table, (u.lower t options).unit.supply, stats⟩) := by
  unfold CompilationUnit.lower at success ⊢
  generalize Edit.list (Lowering.lowerTopLevel options) u.types ⟨t, u.supply, .zero⟩ =
    r at success ⊢
  rcases r with ⟨types | ⟨types, e⟩, s⟩
  · cases success
    rfl
  · cases success

/-! ## Decisions from types and variables -/

namespace BindingTable.Grows

variable {t t' : BindingTable} (grown : t.Grows t')

include grown

/-- Types are read as before from a table with more methods. -/
theorem typeAt (id : TypeId) : t'.typeAt id = t.typeAt id := by
  rw [BindingTable.typeAt, grown.sameTypes, BindingTable.typeAt]

theorem superclass (id : TypeId) : t'.superclass id = t.superclass id := by
  rw [BindingTable.superclass, grown.typeAt, BindingTable.superclass]

theorem variableAt (id : VariableId) : t'.variableAt id = t.variableAt id := by
  rw [BindingTable.variableAt, grown.sameVariables, BindingTable.variableAt]

/-- Constants are folded as before with more methods in the table. -/
theorem constantValue (e : Expr) : t'.constantValue e = t.constantValue e := by
  have same : t'.variableConstant = t.variableConstant := by
    funext id
    rw [BindingTable.variableConstant, grown.sameVariables, BindingTable.variableConstant]
  rw [BindingTable.constantValue, same, BindingTable.constantValue]

/-- What becomes of an initializer does not depend on when it is asked during a run. -/
theorem classify (encoding : LiteralEncoding) (e : Expr) (field : VariableId) :
    Lowering.classify t' encoding e field = Lowering.classify t encoding e field := by
  unfold Lowering.classify BindingTable.isPrimitiveConstant
  rw [grown.variableAt]
  simp only [grown.constantValue]

end BindingTable.Grows

end ClassInit
