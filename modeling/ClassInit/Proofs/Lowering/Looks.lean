import ClassInit.Proofs.Lowering.Outlines
import ClassInit.Proofs.Lowering.Types

/-!
# Members without what is inside the types in them

The look of a statement is what is left of it without node ids and without the contents of its local
types: of these the heads stay, in the order of the walk. Method handles are passed through a
function, so that handles may be told apart or not. Members are alike if they look the same, where
fields may be compared in a way of their own (`Member.Alike`). Lowering the types inside a type
leaves its members alike (`Lowering.lowerNested_alike`).
-/

set_option autoImplicit false

namespace ClassInit

section

variable (h : Option MethodId → Option MethodId)

/-! ## Looks -/

/-- The statement without node ids and contents of local types, and the heads of its local types. -/
def Stmt.look (s : Stmt) : Stmt × List TypeHead :=
  (s.outline.erase h, s.localTypes.map fun d => d.head.erase h)

/-- The method without node ids and contents of local types. -/
def MethodDecl.look (m : MethodDecl) :
    MethodHead × Option (NodeInfo × List (Stmt × List TypeHead)) :=
  (m.head.erase h, m.body.map fun b => (b.info.erase, b.statements.map (Stmt.look h)))

mutual

/-- A statement may be erased before or after the contents of its local types are left out. -/
theorem Stmt.outline_erase : ∀ s : Stmt, (s.erase h).outline = s.outline.erase h
  | .localType _ _ => rfl
  | .block i ⟨b, ss⟩ => by simp [Stmt.erase, Block.erase, Stmt.outline, Stmt.outlineOf_erase ss]
  | .ifElse i c t none => by simp [Stmt.erase, Stmt.outline, Stmt.outline_erase t]
  | .ifElse i c t (some e) => by
    simp [Stmt.erase, Stmt.outline, Stmt.outline_erase t, Stmt.outline_erase e]
  | .whileLoop i c b => by simp [Stmt.erase, Stmt.outline, Stmt.outline_erase b]
  | .forLoop i init c us b => by
    simp [Stmt.erase, Stmt.outline, Stmt.outlineOf_erase init, Stmt.outline_erase b]
  | .tryCatch i ⟨b, ss⟩ cs none => by
    simp [Stmt.erase, Block.erase, Stmt.outline, Stmt.outlineOf_erase ss,
      CatchClause.outlineOf_erase cs]
  | .tryCatch i ⟨b, ss⟩ cs (some ⟨fb, fs⟩) => by
    simp [Stmt.erase, Block.erase, Stmt.outline, Stmt.outlineOf_erase ss,
      CatchClause.outlineOf_erase cs, Stmt.outlineOf_erase fs]
  | .expression .. => rfl
  | .localVariable .. => rfl
  | .returnValue .. => rfl
  | .throwValue .. => rfl
  | .superCall .. => rfl
  | .thisCall .. => rfl
  | .empty _ => rfl

theorem Stmt.outlineOf_erase : ∀ ss : List Stmt,
    Stmt.outlineOf (Stmt.eraseAll h ss) = Stmt.eraseAll h (Stmt.outlineOf ss)
  | [] => rfl
  | s :: ss => by
    simp [Stmt.eraseAll, Stmt.outlineOf, Stmt.outline_erase s, Stmt.outlineOf_erase ss]

theorem CatchClause.outlineOf_erase :
    ∀ cs : List CatchClause, CatchClause.outlineOf (CatchClause.eraseAll h cs) =
      CatchClause.eraseAll h (CatchClause.outlineOf cs)
  | [] => rfl
  | ⟨sp, x, ⟨b, ss⟩⟩ :: cs => by
    simp [CatchClause.eraseAll, CatchClause.outlineOf, Block.erase, Stmt.outlineOf_erase ss,
      CatchClause.outlineOf_erase cs]

end

theorem TypeDecl.head_erase (d : TypeDecl) : (d.erase h).head = d.head.erase h := by
  cases d
  rfl

/-- Erasing node ids changes no look. -/
theorem Stmt.look_erase (s : Stmt) : (s.erase id).look h = s.look h := by
  refine Prod.ext ?_ ?_
  · show (s.erase id).outline.erase h = s.outline.erase h
    rw [Stmt.outline_erase, Stmt.erase_erase]
    rfl
  · show (s.erase id).localTypes.map _ = s.localTypes.map _
    rw [Stmt.localTypes_erase, List.map_map]
    refine List.map_congr_left fun d _ => ?_
    show (d.erase id).head.erase h = d.head.erase h
    rw [TypeDecl.head_erase, TypeHead.erase_erase]
    rfl

variable {h}

/-- Statements that differ in node ids at most look the same. -/
theorem Stmt.map_look_of_erase {ss ss' : List Stmt}
    (same : ss.map (Stmt.erase id) = ss'.map (Stmt.erase id)) :
    ss.map (Stmt.look h) = ss'.map (Stmt.look h) := by
  have erased :
      ∀ ss : List Stmt, (ss.map (Stmt.erase id)).map (Stmt.look h) = ss.map (Stmt.look h) := by
    intro ss
    rw [List.map_map]
    exact List.map_congr_left fun s _ => s.look_erase h
  rw [← erased ss, same, erased]

/-- Methods that are the same up to ids look the same. -/
theorem MethodDecl.look_of_erase {m m' : MethodDecl} (same : m.erase id = m'.erase id) :
    m.look h = m'.look h := by
  have erased : ∀ m : MethodDecl, (m.erase id).look h = m.look h := by
    rintro ⟨head, _ | ⟨i, ss⟩⟩
    · rfl
    · refine Prod.ext rfl (congrArg some (Prod.ext rfl ?_))
      show (Stmt.eraseAll id ss).map (Stmt.look h) = ss.map (Stmt.look h)
      rw [Stmt.eraseAll_eq_map, List.map_map]
      exact List.map_congr_left fun s _ => s.look_erase h
  rw [← erased m, same, erased]

/-! ## What a look tells -/

/-- Whether a statement calls the superclass constructor can be seen. -/
theorem Stmt.isSuperCall_look (s : Stmt) : (s.look h).1.isSuperCall = s.isSuperCall :=
  (Stmt.isSuperCall_erase h _).trans s.isSuperCall_outline

theorem Stmt.isThisCall_look (s : Stmt) : (s.look h).1.isThisCall = s.isThisCall :=
  (Stmt.isThisCall_erase h _).trans s.isThisCall_outline

/-- A block looks as its statements do. -/
theorem Stmt.look_block {i i' bi bi' : NodeInfo} {ss ss' : List Stmt} (outer : i.erase = i'.erase)
    (inner : bi.erase = bi'.erase) (same : ss.map (Stmt.look h) = ss'.map (Stmt.look h)) :
    (Stmt.block i ⟨bi, ss⟩).look h = (Stmt.block i' ⟨bi', ss'⟩).look h := by
  have outlines : Stmt.eraseAll h (Stmt.outlineOf ss) = Stmt.eraseAll h (Stmt.outlineOf ss') := by
    have first := congrArg (List.map Prod.fst) same
    rw [List.map_map, List.map_map] at first
    rw [Stmt.eraseAll_eq_map, Stmt.eraseAll_eq_map, Stmt.outlineOf_eq_map, Stmt.outlineOf_eq_map,
      List.map_map, List.map_map]
    exact first
  have heads : (Stmt.localTypesOf ss).map (fun d => d.head.erase h) =
      (Stmt.localTypesOf ss').map fun d => d.head.erase h := by
    have second := congrArg (List.flatMap Prod.snd) same
    rw [List.flatMap_map, List.flatMap_map] at second
    rw [Stmt.localTypesOf_eq_flatMap, Stmt.localTypesOf_eq_flatMap, List.map_flatMap,
      List.map_flatMap]
    exact second
  refine Prod.ext ?_ heads
  show Stmt.block i.erase ⟨bi.erase, _⟩ = Stmt.block i'.erase ⟨bi'.erase, _⟩
  rw [outer, inner, outlines]

namespace MethodDecl

variable {m m' : MethodDecl}

/-- Methods that look the same have statements that do, one by one. -/
theorem statements_of_look (same : m.look h = m'.look h) :
    m.statements.map (Stmt.look h) = m'.statements.map (Stmt.look h) := by
  have bodies := congrArg (fun l => (l.2.map Prod.snd).getD []) same
  have told :
      ∀ m : MethodDecl, ((m.look h).2.map Prod.snd).getD [] = m.statements.map (Stmt.look h) := by
    rintro ⟨head, _ | b⟩ <;> rfl
  rw [← told, ← told]
  exact bodies

/-- Methods that look the same have the same heads. -/
theorem head_of_look (same : m.look h = m'.look h) : m.head.erase h = m'.head.erase h :=
  congrArg Prod.fst same

theorem isConstructor_of_look (same : m.look h = m'.look h) :
    m.head.isConstructor = m'.head.isConstructor := by
  have kinds := congrArg MethodHead.isConstructor (head_of_look same)
  exact kinds

/-- Whether a constructor is designated can be seen. -/
theorem isDesignated_of_look (same : m.look h = m'.look h) : m.isDesignated = m'.isDesignated := by
  have first :=
    congrArg (fun l => (l.head?.map fun x => x.1.isThisCall).getD false) (statements_of_look same)
  have told : ∀ ss : List Stmt, ((ss.map (Stmt.look h)).head?.map fun x => x.1.isThisCall).getD
      false =
        (ss.head?.map Stmt.isThisCall).getD false := by
    rintro (_ | ⟨s, ss⟩)
    · rfl
    · exact Stmt.isThisCall_look s
  simp only [told] at first
  rw [isDesignated, isDesignated, isConstructor_of_look same, first]

/-- Where the superclass constructor is called can be seen. -/
theorem superCallIndex_of_look (same : m.look h = m'.look h) :
    m.superCallIndex = m'.superCallIndex := by
  have through : ∀ ss : List Stmt,
      (ss.map (Stmt.look h)).findIdx? (fun x => x.1.isSuperCall) =
        ss.findIdx? Stmt.isSuperCall := by
    intro ss
    rw [List.findIdx?_map]
    exact congrArg (fun p => ss.findIdx? p) (funext Stmt.isSuperCall_look)
  rw [superCallIndex, superCallIndex, ← through, statements_of_look same, through]

end MethodDecl

end

/-! ## Created handles -/

/-- Takes the handles of all methods that the table does not have for one. -/
def BindingTable.mergeAdded (t : BindingTable) : Option MethodId → Option MethodId
  | some m => if t.methods.size ≤ m.index then some ⟨t.methods.size⟩ else some m
  | none => none

/-- The handles of added methods are taken for one. -/
theorem BindingTable.mergeAdded_eq {t : BindingTable} {m m' : MethodId}
    (added : t.methods.size ≤ m.index) (added' : t.methods.size ≤ m'.index) :
    t.mergeAdded (some m) = t.mergeAdded (some m') := by
  rw [mergeAdded, mergeAdded, if_pos added, if_pos added']

/-! ## Members -/

/-- The members look the same, except that fields are compared by `R`. -/
inductive Member.Alike (h : Option MethodId → Option MethodId) (R : FieldDecl → FieldDecl → Prop) :
    Member → Member → Prop where
  | type {d d' : TypeDecl} : d.head.erase h = d'.head.erase h → Alike h R (.type d) (.type d')
  | field {f f' : FieldDecl} : R f f' → Alike h R (.field f) (.field f')
  | method {m m' : MethodDecl} : m.look h = m'.look h → Alike h R (.method m) (.method m')
  | initializer {i i' bi bi' : NodeInfo} {once : Bool} {ss ss' : List Stmt} :
      bi.erase = bi'.erase → ss.map (Stmt.look h) = ss'.map (Stmt.look h) →
      Alike h R (.initializer ⟨i, once, ⟨bi, ss⟩⟩) (.initializer ⟨i', once, ⟨bi', ss'⟩⟩)

namespace Member.Alike

variable {h : Option MethodId → Option MethodId} {R : FieldDecl → FieldDecl → Prop} {a b c : Member}

theorem refl : ∀ m : Member, Alike h Eq m m
  | .type _ => .type rfl
  | .field _ => .field rfl
  | .method _ => .method rfl
  | .initializer ⟨_, _, ⟨_, _⟩⟩ => .initializer rfl rfl

theorem symm (alike : Alike h Eq a b) : Alike h Eq b a := by
  cases alike with
  | type heads => exact .type heads.symm
  | field same => exact .field same.symm
  | method looks => exact .method looks.symm
  | initializer info looks => exact .initializer info.symm looks.symm

theorem trans (first : Alike h Eq a b) (second : Alike h Eq b c) : Alike h Eq a c := by
  cases first with
  | type heads =>
    cases second with
    | type heads' => exact .type (heads.trans heads')
  | field same =>
    cases second with
    | field same' => exact .field (same.trans same')
  | method looks =>
    cases second with
    | method looks' => exact .method (looks.trans looks')
  | initializer info looks =>
    cases second with
    | initializer info' looks' => exact .initializer (info.trans info') (looks.trans looks')

end Member.Alike

namespace TypeDecl

variable {h : Option MethodId → Option MethodId} {R : FieldDecl → FieldDecl → Prop}
  {d d' : TypeDecl}

/-- Types with members that are alike have methods that look the same. -/
theorem methods_of_alike (alike : List.Forall₂ (Member.Alike h R) d.members d'.members) :
    d.methods.map (MethodDecl.look h) = d'.methods.map (MethodDecl.look h) := by
  unfold methods
  generalize d.members = ms at alike
  generalize d'.members = ms' at alike
  induction alike with
  | nil => rfl
  | cons one _ ih =>
    cases one with
    | type | field | initializer => exact ih
    | method looks => exact congrArg₂ List.cons looks ih

/-- Types with members that are alike have fields that are related. -/
theorem fields_of_alike (alike : List.Forall₂ (Member.Alike h R) d.members d'.members) :
    List.Forall₂ R d.fields d'.fields := by
  unfold fields
  generalize d.members = ms at alike
  generalize d'.members = ms' at alike
  induction alike with
  | nil => exact .nil
  | cons one _ ih =>
    cases one with
    | type | method | initializer => exact ih
    | field related => exact .cons related ih

end TypeDecl

/-! ## Edits that keep heads -/

section

variable {σ ε : Type} {f : TypeDecl → Edit σ ε TypeDecl} {h : Option MethodId → Option MethodId}
  (keeps : ∀ d d' a b, f d a = (.done d', b) → d'.head = d.head)

include keeps

/-- An edit of the local types of a statement cannot be seen from outside if it keeps the heads of
types. -/
theorem Stmt.editLocalTypes_look {s s' : Stmt} {a b : σ}
    (run : Stmt.editLocalTypes f s a = (.done s', b)) :
    s'.look h = s.look h := by
  obtain ⟨listed, outline⟩ := Stmt.editLocalTypes_done run
  have heads := Edit.forall₂_of_done (R := fun d d' => d'.head.erase h = d.head.erase h)
    (fun d d' a b step => by rw [keeps d d' a b step]) listed
  exact Prod.ext (congrArg (Stmt.erase h) outline) (map_eq_of_forall₂ heads)

theorem Stmt.editLocalTypesOf_look {ss ss' : List Stmt} {a b : σ}
    (run : Stmt.editLocalTypesOf f ss a = (.done ss', b)) :
    ss'.map (Stmt.look h) = ss.map (Stmt.look h) := by
  induction ss generalizing ss' a with
  | nil =>
    obtain ⟨rfl, -⟩ := Edit.keep_eq_done.mp run
    rfl
  | cons s ss ih =>
    rw [Stmt.editLocalTypesOf] at run
    obtain ⟨s₁, a₁, first, rest⟩ := Edit.andThen_eq_done.mp run
    obtain ⟨ss₁, others, rfl⟩ := Edit.map_eq_done.mp rest
    rw [List.map_cons, List.map_cons, Stmt.editLocalTypes_look keeps first, ih others]

/-- An edit of the local types of a member leaves a member that is alike. -/
theorem Member.editLocalTypes_alike {m m' : Member} {a b : σ}
    (run : Member.editLocalTypes f m a = (.done m', b)) : Member.Alike h Eq m m' := by
  rcases m with d | ⟨head, _ | ⟨i, ss⟩⟩ | ⟨i, once, ⟨bi, ss⟩⟩ | field <;>
    simp only [Member.editLocalTypes] at run
  case method.some =>
    obtain ⟨ss', edited, rfl⟩ := Edit.map_eq_done.mp run
    refine .method (Prod.ext rfl (congrArg some (Prod.ext rfl ?_)))
    exact (Stmt.editLocalTypesOf_look keeps edited).symm
  case initializer =>
    obtain ⟨ss', edited, rfl⟩ := Edit.map_eq_done.mp run
    exact .initializer rfl (Stmt.editLocalTypesOf_look keeps edited).symm
  all_goals
    obtain ⟨rfl, -⟩ := Edit.keep_eq_done.mp run
    exact .refl _

end

namespace Lowering

/-! ## Lowering nested types -/

variable {h : Option MethodId → Option MethodId} {options : Options} {levels : Nat}
  {d d' : TypeDecl} {s s' : State}

/-- A lowered type keeps its head. -/
theorem lowerType_head (run : lowerType options levels d s = (.done d', s')) :
    d'.head = d.head := by
  cases levels with
  | zero => exact absurd run Edit.stop_ne_done
  | succ levels =>
    obtain ⟨_, _, d₁, s₁, -, -, nested, -, lowered⟩ :=
      lowerType_done (BindingTable.Grows.refl s.table) run
    obtain ⟨-, head, -⟩ := lowerNested_done nested
    exact lowered.head.trans head

/-- Lowering nested types leaves members that are alike. -/
theorem lowerNested_alike {nested : TypeDecl → Edit State Failure TypeDecl}
    (keeps : ∀ d d' a b, nested d a = (.done d', b) → d'.head = d.head)
    (run : lowerNested nested d s = (.done d', s')) :
    List.Forall₂ (Member.Alike h Eq) d.members d'.members := by
  obtain ⟨d₁, s₁, members, bodies⟩ := Edit.seq_eq_done.mp run
  obtain ⟨ms, listed, rfl⟩ := Edit.map_eq_done.mp members
  obtain ⟨ms', edited, rfl⟩ := Edit.map_eq_done.mp bodies
  have types : List.Forall₂ (Member.Alike h Eq) d.members ms := by
    refine Edit.forall₂_of_done (fun m m' a b step => ?_) listed
    cases m with
    | type x =>
      obtain ⟨x', made, rfl⟩ := Edit.map_eq_done.mp step
      refine .type ?_
      rw [keeps x x' a b made]
    | method | initializer | field =>
      obtain ⟨rfl, -⟩ := Edit.keep_eq_done.mp step
      exact .refl _
  have locals : List.Forall₂ (Member.Alike h Eq) ms ms' := by
    refine Edit.forall₂_of_done (fun m m' a b step => ?_) edited
    exact Member.editLocalTypes_alike keeps step
  exact forall₂_trans (fun _ _ _ first second => first.trans second) types locals

end Lowering

end ClassInit
