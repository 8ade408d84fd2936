import ClassInit.Proofs.Lowering.Alike
import ClassInit.Proofs.Lowering.Following
import ClassInit.Proofs.Lowering.Looks

/-!
# Collecting for two encodings

Whatever text the plain encoding admits, the narrow one admits too (`LiteralEncoding.admits_mono`).
What is kept or folded for the plain encoding is therefore kept or folded for the narrow one, and
what is demoted for the one and not for the other is a text (`classify_mono`). Collecting for the
narrow encoding leaves at least the initializers that collecting for the plain one leaves, and the
statements for the static routine are fewer by assignments of texts (`collect_follows`).
-/

set_option autoImplicit false

namespace ClassInit

/-! ## Characters -/

namespace LiteralEncoding

/-- ASCII characters are among those that the wider encoding admits. -/
theorem isNarrow_of_isPlain {c : Char} (plain : isPlain c = true) : isNarrow c = true := by
  have codes : c.toNat = 9 ∨ c.toNat = 10 ∨ c.toNat = 13 ∨ (32 ≤ c.toNat ∧ c.toNat ≤ 126) := by
    simp only [isPlain, Bool.or_eq_true, beq_iff_eq, Bool.and_eq_true, decide_eq_true_eq] at plain
    rcases plain with ((rfl | rfl) | rfl) | ⟨low, high⟩
    · exact .inl rfl
    · exact .inr (.inl rfl)
    · exact .inr (.inr (.inl rfl))
    · exact .inr (.inr (.inr ⟨low, high⟩))
  simp only [isNarrow]
  by_cases control : 0x07 ≤ c.toNat ∧ c.toNat ≤ 0x0D
  · rw [if_pos control]
  · have printable : ¬ c.toNat ≤ 0x1F := by omega
    have below : c.toNat ≤ 0x7E := by omega
    rw [if_neg control, if_neg printable, if_pos below]

/-- A text of plain characters is a text of narrow ones. -/
theorem admits_mono {text : String} (admitted : ascii.admits text = true) :
    cpp.admits text = true := by
  rw [admits, List.all_eq_true] at admitted ⊢
  intro c listed
  exact isNarrow_of_isPlain (admitted c listed)

end LiteralEncoding

namespace Lowering

/-! ## Classification -/

/-- The expression is a string literal or folds to a string. -/
def IsText (t : BindingTable) (e : Expr) : Prop :=
  (∃ i text, e = .literal i (.string text)) ∨ ∃ text, t.constantValue e = some (.string text)

/-- How what becomes of an initializer for the plain encoding compares with what becomes of it for
the narrow one. -/
def Relaxes (t : BindingTable) (e : Expr) (plain narrow : Eligibility) : Prop :=
  narrow = plain ∨ plain = .demote ∧ IsText t e

section

variable {t : BindingTable} {e : Expr}

/-- A literal that is kept under ASCII is kept under the wider encoding. -/
theorem relaxes_literal {i : ExprInfo} {v : Literal} :
    Relaxes t (.literal i v) (if spells .ascii v then .keep else .demote)
      (if spells .cpp v then .keep else .demote) := by
  cases v with
  | string text =>
    by_cases admitted : LiteralEncoding.ascii.admits text = true
    · have admitted' := LiteralEncoding.admits_mono admitted
      simp only [spells, admitted, admitted', if_true]
      exact .inl rfl
    · simp only [spells, admitted, Bool.false_eq_true, if_false]
      exact .inr ⟨rfl, .inl ⟨i, text, rfl⟩⟩
  | boolean _ | char _ | null | int _ | long _ | float _ | double _ => exact .inl rfl

/-- A constant that is written under ASCII is written under the wider encoding. -/
theorem relaxes_constant :
    Relaxes t e (.ofConstant .ascii (t.constantValue e))
      (.ofConstant .cpp (t.constantValue e)) := by
  rcases value : t.constantValue e with _ | c
  · exact .inl rfl
  cases c with
  | string text =>
    by_cases admitted : LiteralEncoding.ascii.admits text = true
    · have admitted' := LiteralEncoding.admits_mono admitted
      simp only [Eligibility.ofConstant, admitted, admitted', if_true]
      exact .inl rfl
    · simp only [Eligibility.ofConstant, admitted, Bool.false_eq_true, if_false]
      exact .inr ⟨rfl, .inr ⟨text, value⟩⟩
  | boolean _ | char _ | byte _ | short _ | int _ | long _ | float _ | double _ => exact .inl rfl

/-- The wider encoding never takes out an initializer that ASCII keeps. -/
theorem classify_mono {v : VariableId} {fate : Eligibility}
    (decided : classify t .ascii e v = .ok fate) :
    ∃ fate', classify t .cpp e v = .ok fate' ∧ Relaxes t e fate fate' := by
  unfold classify at decided ⊢
  split at decided
  · cases decided
    exact ⟨_, rfl, relaxes_literal⟩
  · -- Whether the variable is a primitive constant does not depend on the encoding.
    rcases asked : t.isPrimitiveConstant v with error | primitive
    · rw [asked] at decided
      cases decided
    · rw [asked] at decided
      cases primitive with
      | true =>
        cases decided
        exact ⟨_, rfl, .inl rfl⟩
      | false =>
        cases decided
        exact ⟨_, rfl, relaxes_constant⟩

end

/-! ## Fields -/

/-- The second fragment has the initializer that the first has, if that has one. -/
structure FragmentKeeps (p q : Fragment) : Prop where
  name : q.name = p.name
  binding : q.binding = p.binding
  initializer : ∀ e, p.initializer = some e → ∃ e', q.initializer = some e' ∧
    e'.erase id = e.erase id

/-- The second field has the initializers that the first has. -/
structure FieldKeeps (f g : FieldDecl) : Prop where
  modifiers : g.modifiers = f.modifiers
  type : g.type = f.type
  fragments : List.Forall₂ FragmentKeeps f.fragments g.fragments

theorem FragmentKeeps.refl (p : Fragment) : FragmentKeeps p p :=
  ⟨rfl, rfl, fun e found => ⟨e, found, rfl⟩⟩

/-- A fragment without initializer asks for nothing. -/
theorem FragmentKeeps.of_bare {p q : Fragment} (name : q.name = p.name)
    (binding : q.binding = p.binding) (bare : p.initializer = none) : FragmentKeeps p q := by
  refine ⟨name, binding, fun e found => ?_⟩
  rw [bare] at found
  cases found

/-! ## Lists that are thinned -/

/-- The statement assigns a text to the variable of one of the fragments, which it initializes. -/
def AssignsText (t : BindingTable) (fs : List Fragment) (s : Stmt) : Prop :=
  ∃ f ∈ fs, ∃ e, f.initializer = some e ∧ IsText t e ∧ s.erase id = (assignmentTo f e).erase id

/-- The second list is the first with some statements left out of which `P` holds; the others look
the same. -/
inductive Thinned (h : Option MethodId → Option MethodId) (P : Stmt → Prop) :
    List Stmt → List Stmt → Prop where
  | nil : Thinned h P [] []
  | keep {s s' : Stmt} {ss ss' : List Stmt} :
      s.look h = s'.look h → Thinned h P ss ss' → Thinned h P (s :: ss) (s' :: ss')
  | leave {s : Stmt} {ss ss' : List Stmt} : P s → Thinned h P ss ss' → Thinned h P (s :: ss) ss'

namespace Thinned

variable {h : Option MethodId → Option MethodId} {P : Stmt → Prop} {ss ss' rest rest' : List Stmt}

/-- Lists that look the same are thinned by nothing. -/
theorem of_look (same : ss.map (Stmt.look h) = ss'.map (Stmt.look h)) : Thinned h P ss ss' := by
  induction ss generalizing ss' with
  | nil =>
    obtain rfl := List.map_eq_nil_iff.mp same.symm
    exact .nil
  | cons s ss ih =>
    obtain ⟨s', ss'', rfl, one, others⟩ := List.map_eq_cons_iff.mp same.symm
    exact .keep one.symm (ih others.symm)

/-- Lists are thinned part by part. -/
theorem append (first : Thinned h P ss ss') (second : Thinned h P rest rest') :
    Thinned h P (ss ++ rest) (ss' ++ rest') := by
  induction first with
  | nil => exact second
  | keep same _ ih => exact .keep same ih
  | leave holds _ ih => exact .leave holds ih

/-- An empty list cannot be thinned. -/
theorem eq_nil (thinned : Thinned h P [] ss') : ss' = [] := by
  cases thinned
  rfl

end Thinned

/-- The lists for instances look the same, and the one for the type is thinned by assignments of
texts. -/
structure InitLists.Thins (t : BindingTable) (fs : List Fragment) (l l' : InitLists) : Prop where
  instances : l.instances.map (Stmt.look t.mergeAdded) = l'.instances.map (Stmt.look t.mergeAdded)
  statics : Thinned t.mergeAdded (AssignsText t fs) l.statics l'.statics

section

variable {t : BindingTable} {fs : List Fragment} {l l' : InitLists}

/-- Statements that look the same in both runs keep the lists thinned. -/
theorem InitLists.Thins.add (thins : l.Thins t fs l') (once : Bool) {ss ss' : List Stmt}
    (same : ss.map (Stmt.look t.mergeAdded) = ss'.map (Stmt.look t.mergeAdded)) :
    (l.add once ss).Thins t fs (l'.add once ss') := by
  cases once with
  | true => exact ⟨thins.instances, thins.statics.append (.of_look same)⟩
  | false =>
    refine ⟨?_, thins.statics⟩
    show (l.instances ++ ss).map _ = (l'.instances ++ ss').map _
    rw [List.map_append, List.map_append, thins.instances, same]

/-- The assignment of a text may be left out. -/
theorem InitLists.Thins.add_text (thins : l.Thins t fs l') {s : Stmt}
    (assigns : AssignsText t fs s) :
    (l.add true [s]).Thins t fs l' := by
  refine ⟨thins.instances, ?_⟩
  have statics := thins.statics.append (.leave assigns .nil)
  rw [List.append_nil] at statics
  exact statics

/-! ## Collecting -/

variable {routine name : String}

/-- Static initializers are classified, and the others are demoted without asking. -/
theorem eligibility_follows (once : Bool) (f : Fragment) (v : VariableId) (e : Expr) :
    StepFollows t (fun fate fate' => fate' = fate ∨ once = true ∧ fate = .demote ∧ IsText t e)
      (eligibility ⟨routine, .ascii⟩ name once f v e)
        (eligibility ⟨routine, .cpp⟩ name once f v e) := by
  cases once with
  | false => exact .pure (.inl rfl)
  | true =>
    refine .ask (fun _ grown => grown.classify _ _ _) (fun _ grown => grown.classify _ _ _)
      fun fate decided => ?_
    obtain ⟨fate', decided', relaxes⟩ := classify_mono decided
    exact ⟨fate', decided', relaxes.imp_right fun demoted => ⟨rfl, demoted⟩⟩

theorem assignmentOf_look {f : Fragment} {v : VariableId} (bound : f.binding = some v) (e : Expr)
    (s s' : IdSupply) : [(assignmentOf f v e s).1].map (Stmt.look t.mergeAdded) =
      [(assignmentOf f v e s').1].map (Stmt.look t.mergeAdded) :=
  Stmt.map_look_of_erase ((assignmentOf_same bound e s).trans (assignmentOf_same bound e s').symm)

/-- What collecting a fragment for the two encodings leaves. -/
def Collected (t : BindingTable) (fs : List Fragment) (x x' : Fragment × InitLists) : Prop :=
  FragmentKeeps x.1 x'.1 ∧ x.2.Thins t fs x'.2

/-- Collecting from one variable under both encodings keeps the relation between fields and
lists. -/
theorem collectFragment_follows (once : Bool) (type : TypeRef) {f : Fragment} (listed : f ∈ fs)
    (before : l.Thins t fs l') :
    StepFollows t (Collected t fs) (collectFragment ⟨routine, .ascii⟩ name once type l f)
      (collectFragment ⟨routine, .cpp⟩ name once type l' f) := by
  unfold collectFragment
  cases init : f.initializer with
  | none => exact .pure ⟨.refl f, before⟩
  | some e =>
  cases bound : f.binding with
  | none => exact .throw
  | some v =>
  have assigns : IsText t e → ∀ s, AssignsText t fs (assignmentOf f v e s).1 := fun text s =>
    ⟨f, listed, e, init, text, (List.singleton_inj.mp (assignmentOf_same bound e s))⟩
  refine .bind (eligibility_follows once f v e) fun fate fate' relaxes => ?_
  -- The encodings agree on the fate, or the first demotes a text that the second keeps or folds.
  cases fate' with
  | keep =>
    rcases relaxes with rfl | ⟨rfl, rfl, text⟩
    · exact .bind (.count _ _) fun _ _ _ => .pure ⟨.refl f, before⟩
    · refine .mint_left fun s => .bind (.count _ _) fun _ _ _ => .pure ⟨.of_bare rfl bound rfl, ?_⟩
      exact before.add_text (assigns text s)
  | fold c =>
    rcases relaxes with rfl | ⟨rfl, rfl, text⟩
    · refine .bind (R := fun p q : Expr => q.erase id = p.erase id) (.mint fun s s' => rfl)
        fun p q folded => ?_
      refine .bind (.count _ _) fun _ _ _ => .pure ⟨⟨rfl, rfl, fun e found => ?_⟩, before⟩
      cases found
      exact ⟨q, rfl, folded⟩
    · refine .bind (R := fun p _ => AssignsText t fs p) (.mint fun s _ => assigns text s)
        fun p q assigned => ?_
      exact .bind (.count _ _) fun _ _ _ => .pure ⟨.of_bare rfl rfl rfl, before.add_text assigned⟩
  | demote =>
    obtain rfl : fate = .demote := by
      rcases relaxes with same | ⟨-, demoted, -⟩
      · exact same.symm
      · exact demoted
    refine .bind (R := fun p q => [p].map (Stmt.look t.mergeAdded) =
      [q].map (Stmt.look t.mergeAdded))
      (.mint (assignmentOf_look bound e)) fun p q assigned => ?_
    exact .bind (.count _ _) fun _ _ _ => .pure ⟨.of_bare rfl rfl rfl, before.add once assigned⟩

theorem collectFragments_follows (once : Bool) (type : TypeRef) {gs : List Fragment}
    (listed : gs ⊆ fs) (before : l.Thins t fs l') :
    StepFollows t (fun x x' => List.Forall₂ FragmentKeeps x.1 x'.1 ∧ x.2.Thins t fs x'.2)
      (collectFragments ⟨routine, .ascii⟩ name once type l gs)
      (collectFragments ⟨routine, .cpp⟩ name once type l' gs) := by
  induction gs generalizing l l' with
  | nil => exact .pure ⟨.nil, before⟩
  | cons g gs ih =>
    obtain ⟨first, others⟩ := List.cons_subset.mp listed
    refine .bind (collectFragment_follows once type first before) fun x x' ⟨keeps, thins⟩ => ?_
    exact .bind (ih others thins) fun y y' ⟨rest, lists⟩ => .pure ⟨.cons keeps rest, lists⟩

/-- So does collecting from a field. -/
theorem collectField_follows (isInterface : Bool) {f : FieldDecl} (listed : f.fragments ⊆ fs)
    (before : l.Thins t fs l') :
    StepFollows t (fun x x' => FieldKeeps x.1 x'.1 ∧ x.2.Thins t fs x'.2)
      (collectField ⟨routine, .ascii⟩ name isInterface l f)
        (collectField ⟨routine, .cpp⟩ name isInterface l' f) :=
  .bind (collectFragments_follows _ _ listed before) fun _ _ ⟨keeps, thins⟩ =>
    .pure ⟨⟨rfl, rfl, keeps⟩, thins⟩

theorem declaresName_look (s : Stmt) : declaresName (s.look t.mergeAdded).1 = declaresName s :=
  (declaresName_erase _ _).trans (declaresName_outline s)

/-- Blocks that look the same contribute statements that look the same. -/
theorem contribution_look {i i' : NodeInfo} {ss ss' : List Stmt} (info : i.erase = i'.erase)
    (same : ss.map (Stmt.look t.mergeAdded) = ss'.map (Stmt.look t.mergeAdded)) (s s' : IdSupply) :
    ((contribution ⟨i, ss⟩ s).1).map (Stmt.look t.mergeAdded) =
      ((contribution ⟨i', ss'⟩ s').1).map (Stmt.look t.mergeAdded) := by
  rw [Stmt.map_look_of_erase (contribution_same ⟨i, ss⟩ s),
    Stmt.map_look_of_erase (contribution_same ⟨i', ss'⟩ s')]
  have declares : ∀ ss : List Stmt,
      (ss.map (Stmt.look t.mergeAdded)).any (fun x => declaresName x.1) = ss.any declaresName := by
    intro ss
    rw [List.any_map]
    exact congrArg ss.any (funext declaresName_look)
  have span : i.span = i'.span := by
    have spans := congrArg NodeInfo.span info
    exact spans
  simp only [blockInit, ← declares, same]
  split
  · refine congrArg (· :: []) (Stmt.look_block ?_ info same)
    rw [span]
  · exact same

/-- So does collecting an initializer block. -/
theorem collectBlock_follows {i i' bi bi' : NodeInfo} {once : Bool} {ss ss' : List Stmt}
    (info : bi.erase = bi'.erase)
    (same : ss.map (Stmt.look t.mergeAdded) = ss'.map (Stmt.look t.mergeAdded))
    (before : l.Thins t fs l') :
    EditFollows t (fun x x' => x.Thins t fs x') (Edit.ofState (collectBlock l ⟨i, once, ⟨bi, ss⟩⟩))
      (Edit.ofState (collectBlock l' ⟨i', once, ⟨bi', ss'⟩⟩)) :=
  .ofState (fun _ => rfl) (fun _ => rfl) fun _ _ =>
    before.add once (contribution_look info same _ _)

/-- What collecting members for the two encodings leaves. -/
def CollectedMembers (t : BindingTable) (fs : List Fragment) (x x' : List Member × InitLists) :
    Prop :=
  List.Forall₂ (Member.Alike t.mergeAdded FieldKeeps) x.1 x'.1 ∧ x.2.Thins t fs x'.2

/-- So does collecting from members. -/
theorem collectMembers_follows (isInterface : Bool) {ms ms' : List Member}
    (alike : List.Forall₂ (Member.Alike t.mergeAdded Eq) ms ms')
    (listed : ∀ f, .field f ∈ ms → f.fragments ⊆ fs) (before : l.Thins t fs l') :
    EditFollows t (CollectedMembers t fs) (collectMembers ⟨routine, .ascii⟩ name isInterface l ms)
      (collectMembers ⟨routine, .cpp⟩ name isInterface l' ms') := by
  induction alike generalizing l l' with
  | nil => exact .keep ⟨.nil, before⟩
  | cons one _ ih =>
    have rest := fun {l l' : InitLists} (before : l.Thins t fs l') =>
      ih (fun f found => listed f (List.mem_cons_of_mem _ found)) before
    cases one with
    | type heads =>
      exact .map (rest before) fun _ _ ⟨members, lists⟩ => ⟨.cons (.type heads) members, lists⟩
    | method looks =>
      exact .map (rest before) fun _ _ ⟨members, lists⟩ => ⟨.cons (.method looks) members, lists⟩
    | initializer info looks =>
      exact .andThen (collectBlock_follows info looks before) fun _ _ thins => rest thins
    | field same =>
      subst same
      refine .andThen
        (.editBy (collectField_follows isInterface (listed _ List.mem_cons_self) before))
        fun x x' ⟨keeps, thins⟩ => ?_
      exact .map (rest thins) fun _ _ ⟨members, lists⟩ => ⟨.cons (.field keeps) members, lists⟩

/-- The fragments of all fields of a type. -/
def fragmentsOf (d : TypeDecl) : List Fragment := d.fields.flatMap (·.fragments)

/-- Collecting from a type under both encodings leaves related types and thinned lists. -/
theorem collect_follows (isInterface : Bool) {d d' : TypeDecl} (head : d'.head = d.head)
    (alike : List.Forall₂ (Member.Alike t.mergeAdded Eq) d.members d'.members) :
    EditFollows t
      (fun x x' => x'.1.head = x.1.head ∧
        List.Forall₂ (Member.Alike t.mergeAdded FieldKeeps) x.1.members x'.1.members ∧
        x.2.Thins t (fragmentsOf d) x'.2)
      (collect ⟨routine, .ascii⟩ isInterface d) (collect ⟨routine, .cpp⟩ isInterface d') := by
  have listed : ∀ f, .field f ∈ d.members → f.fragments ⊆ fragmentsOf d := by
    intro f found g hg
    exact List.mem_flatMap.mpr ⟨f, List.mem_filterMap.mpr ⟨_, found, rfl⟩, hg⟩
  have name : d'.name = d.name := congrArg TypeHead.name head
  unfold collect
  rw [name]
  exact .map (collectMembers_follows isInterface alike listed ⟨rfl, .nil⟩)
    fun _ _ ⟨members, lists⟩ => ⟨head, members, lists⟩

end

end Lowering

end ClassInit
