import ClassInit.Proofs.Lowering.Alike
import ClassInit.Proofs.Lowering.Origins
import ClassInit.Proofs.Lowering.Outlines

/-!
# The order of lowered types

Lowering moves the types in initializer blocks: those in blocks for instances go into every
designated constructor, or into the default constructor, and those in blocks for the type go into
the static routine. `TypeDecl.placed` lists the declarations of a type in the order in which what
becomes of them stands in the lowered type, each as often as it stands there. Members that
correspond keep that order for the types inside them (`Member.Corresponds`).
-/

set_option autoImplicit false

namespace ClassInit

/-! ## The order of the declarations -/

/-- The types in the initializer blocks of one kind. -/
def blockTypes (once : Bool) (ms : List Member) : List TypeDecl :=
  ms.flatMap fun
    | .initializer i => if i.isStatic = once then Stmt.localTypesOf i.body.statements else []
    | .type _ | .method _ | .field _ => []

/-- The number of statements of a designated constructor that stay before the instance list. -/
def MethodDecl.statementsBefore (m : MethodDecl) : Nat :=
  match m.superCallIndex with
  | some index => index + 1
  | none => 0

/-- The types in the body of a member, with those of the instance list in designated
constructors. -/
def Member.placed (isInterface : Bool) (instances : List TypeDecl) : Member → List TypeDecl
  | .method m =>
    if !isInterface && m.isDesignated then
      Stmt.localTypesOf (m.statements.take m.statementsBefore) ++
        (instances ++ Stmt.localTypesOf (m.statements.drop m.statementsBefore))
    else Stmt.localTypesOf m.statements
  | .type _ | .initializer _ | .field _ => []

namespace TypeDecl

/-- The types directly inside a type, in the order in which they stand in the lowered type. -/
def placedInner (isInterface : Bool) (d : TypeDecl) : List TypeDecl :=
  d.memberTypes ++
    (d.members.flatMap (Member.placed isInterface (blockTypes false d.members)) ++
      ((if isInterface = false ∧ d.constructors = [] then blockTypes false d.members else []) ++
        blockTypes true d.members))

/-- Whether a type is interface-like by its entry. -/
def isInterfaceIn (t : BindingTable) (d : TypeDecl) : Bool :=
  match d.head.binding.map t.isInterface with
  | some (.ok isInterface) => isInterface
  | _ => false

/-- A type and the declarations in it, in the order in which they stand in the lowered type. -/
def placed (t : BindingTable) : Nat → TypeDecl → List TypeDecl
  | 0, _ => []
  | levels + 1, d => d :: (d.placedInner (d.isInterfaceIn t)).flatMap (placed t levels)

/-- Whether a lowered type has the statements for its instances anywhere. -/
def InitializesInstances (t : BindingTable) (d : TypeDecl) : Prop :=
  d.isInterfaceIn t = false ∧ (d.constructors = [] ∨ ∃ m ∈ d.constructors, m.isDesignated = true)

/-- The second declaration stands in a block for instances of the first, which initializes none. -/
def Drops (t : BindingTable) (d x : TypeDecl) : Prop :=
  ¬ d.InitializesInstances t ∧ ∃ c ∈ blockTypes false d.members, x ∈ c.declarations

end TypeDecl

/-- The declarations of a unit in the order in which they stand in the lowered unit. -/
def CompilationUnit.placed (u : CompilationUnit) (t : BindingTable) : List TypeDecl :=
  u.types.flatMap (TypeDecl.placed t (Limits.typeNesting + 1))

/-! ## Members that correspond -/

theorem Stmt.length_localTypesOf_outlineOf (ss : List Stmt) :
    (Stmt.localTypesOf (Stmt.outlineOf ss)).length = (Stmt.localTypesOf ss).length := by
  have listed := Edit.done_of_map (Stmt.editLocalTypesOf_map refill _) (Stmt.refill_outlineOf ss [])
  exact (Edit.forall₂_of_done (R := fun _ _ => True) (fun _ _ _ _ _ => trivial) listed).length_eq

/-- Statements with the same outline declare as many local types. -/
theorem Stmt.length_localTypesOf {ss ss' : List Stmt}
    (outline : ss'.map Stmt.outline = ss.map Stmt.outline) :
    (Stmt.localTypesOf ss).length = (Stmt.localTypesOf ss').length := by
  rw [← Stmt.length_localTypesOf_outlineOf ss, ← Stmt.length_localTypesOf_outlineOf ss',
    Stmt.outlineOf_eq_map, Stmt.outlineOf_eq_map, outline]

/-- The members are the same but for the types directly inside them, which are related. -/
inductive Member.Corresponds (R : TypeDecl → TypeDecl → Prop) : Member → Member → Prop where
  | type {d d' : TypeDecl} : R d d' → Corresponds R (.type d) (.type d')
  | field (f : FieldDecl) : Corresponds R (.field f) (.field f)
  | bodiless (h : MethodHead) : Corresponds R (.method ⟨h, none⟩) (.method ⟨h, none⟩)
  | method {h : MethodHead} {b : NodeInfo} {ss ss' : List Stmt} :
      Stmt.outlineOf ss' = Stmt.outlineOf ss →
      List.Forall₂ R (Stmt.localTypesOf ss) (Stmt.localTypesOf ss') →
      Corresponds R (.method ⟨h, some ⟨b, ss⟩⟩) (.method ⟨h, some ⟨b, ss'⟩⟩)
  | initializer {i b : NodeInfo} {once : Bool} {ss ss' : List Stmt} :
      List.Forall₂ R (Stmt.localTypesOf ss) (Stmt.localTypesOf ss') →
      Corresponds R (.initializer ⟨i, once, ⟨b, ss⟩⟩) (.initializer ⟨i, once, ⟨b, ss'⟩⟩)

/-- Lists that are related as a whole are related part by part if the first parts are of one
length. -/
theorem forall₂_of_append {α β : Type} {R : α → β → Prop} {as bs : List α} {as' bs' : List β}
    (length : as.length = as'.length) (related : List.Forall₂ R (as ++ bs) (as' ++ bs')) :
    List.Forall₂ R as as' ∧ List.Forall₂ R bs bs' := by
  have first := List.forall₂_take as.length related
  have second := List.forall₂_drop as.length related
  rw [List.take_left, length, List.take_left] at first
  rw [List.drop_left, length, List.drop_left] at second
  exact ⟨first, second⟩

section

variable {R : TypeDecl → TypeDecl → Prop} {isInterface : Bool}
  {instances instances' : List TypeDecl}

/-- The call of the superclass constructor does not depend on local types. -/
theorem MethodDecl.superCallIndex_outline (h : MethodHead) (b : NodeInfo) (ss : List Stmt) :
    (MethodDecl.mk h (some ⟨b, Stmt.outlineOf ss⟩)).superCallIndex =
      (MethodDecl.mk h (some ⟨b, ss⟩)).superCallIndex := by
  show (Stmt.outlineOf ss).findIdx? Stmt.isSuperCall = ss.findIdx? Stmt.isSuperCall
  rw [Stmt.outlineOf_eq_map, List.findIdx?_map]
  exact congrArg (fun p => ss.findIdx? p) (funext Stmt.isSuperCall_outline)

/-- Parts of bodies of one outline have related types if the bodies do. -/
theorem Stmt.localTypesOf_splitAt {ss ss' : List Stmt}
    (outline : Stmt.outlineOf ss' = Stmt.outlineOf ss)
    (related : List.Forall₂ R (Stmt.localTypesOf ss) (Stmt.localTypesOf ss')) (n : Nat) :
    List.Forall₂ R (Stmt.localTypesOf (ss.take n)) (Stmt.localTypesOf (ss'.take n)) ∧
      List.Forall₂ R (Stmt.localTypesOf (ss.drop n)) (Stmt.localTypesOf (ss'.drop n)) := by
  rw [Stmt.outlineOf_eq_map, Stmt.outlineOf_eq_map] at outline
  refine forall₂_of_append (Stmt.length_localTypesOf ?_) ?_
  · rw [List.map_take, outline, List.map_take]
  · rw [← Stmt.localTypesOf_append, ← Stmt.localTypesOf_append, List.take_append_drop,
      List.take_append_drop]
    exact related

/-- Bodies of one outline are spliced at the same place. -/
theorem MethodDecl.splice_outline {h : MethodHead} {b : NodeInfo} {ss ss' : List Stmt}
    (outline : Stmt.outlineOf ss' = Stmt.outlineOf ss) :
    (MethodDecl.mk h (some ⟨b, ss'⟩)).isDesignated = (MethodDecl.mk h (some ⟨b, ss⟩)).isDesignated ∧
      (MethodDecl.mk h (some ⟨b, ss'⟩)).statementsBefore =
        (MethodDecl.mk h (some ⟨b, ss⟩)).statementsBefore := by
  constructor
  · rw [← MethodDecl.isDesignated_outline, outline, MethodDecl.isDesignated_outline]
  · unfold MethodDecl.statementsBefore
    rw [← MethodDecl.superCallIndex_outline, outline, MethodDecl.superCallIndex_outline]

/-- In a designated constructor the copied types stand between those before and those after the
place of the copy. -/
theorem Member.placed_designated {m : MethodDecl}
    (designated : (!isInterface && m.isDesignated) = true) :
    (Member.method m).placed isInterface instances =
      Stmt.localTypesOf (m.statements.take m.statementsBefore) ++
        (instances ++ Stmt.localTypesOf (m.statements.drop m.statementsBefore)) := if_pos designated

/-- The types in any other method stand where they are. -/
theorem Member.placed_method {m : MethodDecl} (aside : (!isInterface && m.isDesignated) = false) :
    (Member.method m).placed isInterface instances = Stmt.localTypesOf m.statements :=
  if_neg (by rw [aside]; exact Bool.false_ne_true)

/-- Members that correspond place types that do. -/
theorem Member.Corresponds.placed {m m' : Member} (one : Member.Corresponds R m m')
    (lists : List.Forall₂ R instances instances') :
    List.Forall₂ R (m.placed isInterface instances) (m'.placed isInterface instances') := by
  cases one with
  | type | field | initializer => exact .nil
  | bodiless h =>
    cases designated : !isInterface && (MethodDecl.mk h none).isDesignated with
    | true =>
      rw [placed_designated designated, placed_designated designated]
      exact List.rel_append .nil (List.rel_append lists .nil)
    | false =>
      rw [placed_method designated, placed_method designated]
      exact .nil
  | @method h b ss ss' outline locals =>
    obtain ⟨same, before⟩ := MethodDecl.splice_outline (h := h) (b := b) outline
    cases designated : !isInterface && (MethodDecl.mk h (some ⟨b, ss⟩)).isDesignated with
    | true =>
      rw [placed_designated designated, placed_designated (by rw [same, designated]), before]
      obtain ⟨first, rest⟩ := Stmt.localTypesOf_splitAt outline locals
        (MethodDecl.mk h (some ⟨b, ss⟩)).statementsBefore
      exact List.rel_append first (List.rel_append lists rest)
    | false =>
      rw [placed_method designated, placed_method (by rw [same, designated])]
      exact locals

/-- The types in blocks correspond block by block. -/
theorem blockTypes_corresponds (once : Bool) {ms ms' : List Member}
    (all : List.Forall₂ (Member.Corresponds R) ms ms') :
    List.Forall₂ R (blockTypes once ms) (blockTypes once ms') := by
  refine List.rel_flatMap all fun m m' one => ?_
  cases one with
  | type | field | bodiless | method => exact .nil
  | initializer locals =>
    dsimp only
    split
    · exact locals
    · exact .nil

/-- Methods that correspond have the same heads. -/
theorem TypeDecl.methods_corresponds {d d' : TypeDecl}
    (all : List.Forall₂ (Member.Corresponds R) d.members d'.members) :
    d.methods.map (·.head) = d'.methods.map (·.head) := by
  unfold methods
  generalize d.members = ms at all
  generalize d'.members = ms' at all
  induction all with
  | nil => rfl
  | cons one _ ih =>
    cases one with
    | type | field | initializer => exact ih
    | bodiless h | @method h => exact congrArg (h :: ·) ih

/-- The member types correspond one by one. -/
theorem TypeDecl.memberTypes_corresponds {d d' : TypeDecl}
    (all : List.Forall₂ (Member.Corresponds R) d.members d'.members) :
    List.Forall₂ R d.memberTypes d'.memberTypes := by
  unfold memberTypes
  generalize d.members = ms at all
  generalize d'.members = ms' at all
  induction all with
  | nil => exact .nil
  | cons one _ ih =>
    cases one with
    | type related => exact .cons related ih
    | field | initializer | bodiless | method => exact ih

/-- Whether a type has constructors depends on the heads of its methods. -/
theorem TypeDecl.constructors_eq_nil {d d' : TypeDecl}
    (heads : d.methods.map (·.head) = d'.methods.map (·.head)) :
    d.constructors = [] ↔ d'.constructors = [] := by
  have through : ∀ d : TypeDecl, d.constructors = [] ↔
      ∀ h ∈ d.methods.map (·.head), ¬ h.isConstructor = true := by
    intro d
    rw [constructors, List.filter_eq_nil_iff, List.forall_mem_map]
  rw [through, heads, ← through]

/-- Types whose members correspond have corresponding types inside them. -/
theorem TypeDecl.placedInner_corresponds {d d' : TypeDecl}
    (all : List.Forall₂ (Member.Corresponds R) d.members d'.members) :
    List.Forall₂ R (d.placedInner isInterface) (d'.placedInner isInterface) := by
  have instances := blockTypes_corresponds false all
  refine List.rel_append (memberTypes_corresponds all)
    (List.rel_append (List.rel_flatMap all fun _ _ one => one.placed instances)
      (List.rel_append ?_ (blockTypes_corresponds true all)))
  simp only [constructors_eq_nil (methods_corresponds all)]
  split
  · exact instances
  · exact .nil

end

end ClassInit
