import ClassInit.Proofs.Fold
import ClassInit.Proofs.Lowering.Settled

/-!
# Lowering twice

What lowering leaves is settled: the rules make a type that they leave alone
(`TypeLowered.settled`), a copy of a settled type is settled, and nothing in the output lies deeper
than it lay before. Lowering the output once more therefore changes nothing
(`CompilationUnit.lower_idempotent`).
-/

set_option autoImplicit false

namespace ClassInit

namespace Lowering

variable {options : Options} {t : BindingTable} {encoding : LiteralEncoding}
variable {type : TypeId} {descriptor : TypeDescriptor}

/-! ## The rules settle a type -/

/-- A fragment keeps what the rules leave of it. -/
theorem FragmentLowered.staysPut {once : Bool} {type : TypeRef} {f g : Fragment}
    (lowered : FragmentLowered t encoding once type f g) : StaysPut t encoding once g := by
  intro e init
  cases lowered with
  | bare none =>
    rw [none] at init
    cases init
  | moved _ _ _ => cases init
  | kept init' bound isOnce keep =>
    rw [init'] at init
    cases init
    exact ⟨isOnce, _, bound, keep⟩
  | @folded _ v c n _ bound isOnce fold =>
    cases init
    -- The fold left a literal that can be spelled, and such a literal is kept.
    have spelled : Spellable encoding (.ofConstant (foldedValue c type)) :=
      SafeInitializer.of_fold (f := f) (n := n) fold
    refine ⟨isOnce, v, bound, ?_⟩
    rw [literalFor, classify, if_pos (spells_iff.mpr spelled)]
  | demoted _ _ _ _ => cases init

theorem ConstructorLowered.callsConstructor {instances : List Stmt} {m m' : MethodDecl}
    (lowered : ConstructorLowered instances m m') : isComplete (.method m') = true := by
  cases lowered with
  | delegating calls =>
    show (_ || (delegates _ || _)) = true
    rw [calls, Bool.true_or, Bool.or_true]
  | @explicit h i before after copies call _ _ isCall _ =>
    have anySuper : (before ++ call :: (copies ++ after)).any Stmt.isSuperCall = true :=
      List.any_eq_true.mpr ⟨call, List.mem_append_right _ List.mem_cons_self, isCall⟩
    show (_ || (_ || (before ++ call :: (copies ++ after)).any Stmt.isSuperCall)) = true
    rw [anySuper, Bool.or_true, Bool.or_true]
  | implicit _ _ implied _ =>
    obtain ⟨n, handle, rfl⟩ := implied
    show (_ || (_ || (true || _))) = true
    rw [Bool.true_or, Bool.or_true, Bool.or_true]

/-- What is left of a member of a class is complete. -/
theorem MemberLowered.isComplete {instances : List Stmt} {m m' : Member}
    (lowered : MemberLowered t encoding false instances m m') :
    Lowering.isComplete m' = true := by
  cases lowered with
  | type d => rfl
  | field _ => rfl
  | @method m isMethod =>
    rcases isMethod with isInterface | notConstructor
    · cases isInterface
    · obtain ⟨h, _ | b⟩ := m
      · show (!h.isConstructor) = true
        rw [notConstructor]
        rfl
      · show (!h.isConstructor || _) = true
        rw [notConstructor]
        rfl
  | constructor _ _ made => exact made.callsConstructor

/-- A class has a constructor after lowering: one that it declares, or the default one. -/
theorem TypeLowered.exists_constructor {access : Modifiers} {d d' : TypeDecl}
    (lowered : TypeLowered options t false access d d') :
    ∃ m ∈ d'.members, Member.isConstructor m = true := by
  by_cases none : d.constructors = []
  · obtain ⟨kept, made, routine, members, -, hmade, -⟩ := lowered.members
    rw [if_pos ⟨rfl, none⟩] at hmade
    obtain ⟨m, rfl, call, ss, -, -, n, bodyId, handle, rfl⟩ := hmade
    rw [members]
    exact ⟨_, List.mem_append_right _ List.mem_cons_self, rfl⟩
  · have declared : ∃ m ∈ d.members, Member.isConstructor m = true := by
      by_contra no
      refine none (constructors_eq_nil_iff.mpr fun m hm => ?_)
      exact Bool.eq_false_iff.mpr fun isConstructor => no ⟨m, hm, isConstructor⟩
    obtain ⟨m, hm, isConstructor⟩ := declared
    have survivor : survives m = true := by
      cases m with
      | initializer i => cases isConstructor
      | type d | method m | field f => rfl
    obtain ⟨m', hm', one⟩ := lowered.exists_lowered hm survivor
    exact ⟨m', hm', one.isConstructor_eq.trans isConstructor⟩

/-- Every constructor of a class calls another one after lowering. -/
theorem TypeLowered.isComplete {access : Modifiers} {d d' : TypeDecl}
    (lowered : TypeLowered options t false access d d') :
    ∀ m ∈ d'.members, isComplete m = true := by
  intro m' hm'
  rcases lowered.mem_cases hm' with
    ⟨m, -, one⟩ | ⟨call, ss, ⟨n', handle', rfl⟩, -, n, bodyId, handle, rfl⟩ |
    ⟨ss, -, n, bodyId, handle, rfl⟩
  · exact one.isComplete
  · rfl
  · rfl

/-- A type that is lowered by the rules is settled. -/
theorem TypeLowered.settled {d d' : TypeDecl} (bound : d.head.binding = some type)
    (described : t.typeAt type = .ok descriptor)
    (lowered : TypeLowered options t descriptor.isInterface descriptor.modifiers.access d d') :
    Settled options t type descriptor d' := by
  refine ⟨?_, described, (lowered.literalSafe bound described).noBlocks, ?_, ?_⟩
  · rw [lowered.head]
    exact bound
  · intro f' hf' g' hg'
    obtain ⟨f, fs, -, rfl, fragments⟩ := lowered.exists_field hf'
    obtain ⟨g, -, fragment⟩ := exists_mem_left fragments hg'
    exact fragment.staysPut
  · intro isClass
    rw [isClass] at lowered
    exact ⟨lowered.exists_constructor, lowered.isComplete⟩

/-! ## Copies -/

theorem classify_erase (h : Option MethodId → Option MethodId) (e : Expr) (v : VariableId) :
    classify t encoding (e.erase h) v = classify t encoding e v := by
  cases literal : e.asLiteral with
  | some value =>
    cases e <;> cases literal
    rfl
  | none =>
    have literal' : (e.erase h).asLiteral = none := (asLiteral_erase h e).trans literal
    -- A fold reads neither ids nor the handles of methods.
    have same : t.constantValue (e.erase h) = t.constantValue e := Expr.foldAt_erase h e 0
    rw [classify_eq_of_not_literal literal', classify_eq_of_not_literal literal, same]

theorem StaysPut.of_erase {once : Bool} {g g' : Fragment} (h : Option MethodId → Option MethodId)
    (stays : StaysPut t encoding once g) (same : g.erase h = g'.erase h) :
    StaysPut t encoding once g' := by
  simp only [Fragment.erase, Fragment.mk.injEq] at same
  obtain ⟨-, -, erased, binding⟩ := same
  intro e' init
  rw [init, Option.map_some, Option.map_eq_some_iff] at erased
  obtain ⟨e, init', erased⟩ := erased
  obtain ⟨isOnce, v, bound, keep⟩ := stays e init'
  refine ⟨isOnce, v, binding ▸ bound, ?_⟩
  rw [← classify_erase h, ← erased, classify_erase]
  exact keep

theorem isConstructor_erase (h : Option MethodId → Option MethodId) (m : Member) :
    Member.isConstructor (m.erase h) = Member.isConstructor m := by
  rcases m with d | ⟨head, _ | b⟩ | ⟨i, s, b⟩ | f <;> rfl

theorem callsConstructor_erase (h : Option MethodId → Option MethodId) (ss : List Stmt) :
    callsConstructor (Stmt.eraseAll h ss) = callsConstructor ss := by
  have isSuper : Stmt.isSuperCall ∘ Stmt.erase h = Stmt.isSuperCall :=
    funext fun s => s.isSuperCall_erase h
  have isThis : Stmt.isThisCall ∘ Stmt.erase h = Stmt.isThisCall :=
    funext fun s => s.isThisCall_erase h
  rw [callsConstructor, callsConstructor, delegates, delegates, Stmt.eraseAll_eq_map,
    List.head?_map, Option.map_map, isThis, List.any_map, isSuper]

theorem isComplete_erase (h : Option MethodId → Option MethodId) (m : Member) :
    isComplete (m.erase h) = isComplete m := by
  rcases m with d | ⟨head, _ | ⟨i, ss⟩⟩ | ⟨i, s, b⟩ | f
  · rfl
  · rfl
  · exact congrArg (!head.isConstructor || ·) (callsConstructor_erase h ss)
  · rfl
  · rfl

/-- A copy of a settled type is settled. -/
theorem Settled.of_erase {d d' : TypeDecl} (settled : Settled options t type descriptor d)
    (same : d.erase id = d'.erase id) : Settled options t type descriptor d' := by
  refine ⟨?_, settled.described, ?_, ?_, ?_⟩
  · exact (TypeDecl.binding_of_erase id same).symm.trans settled.bound
  · intro m' hm'
    obtain ⟨m, hm, erased⟩ := TypeDecl.exists_member_of_erase id same hm'
    rw [← asInitializer_erase id, ← erased, asInitializer_erase]
    exact settled.noBlocks m hm
  · intro f' hf' g' hg'
    obtain ⟨f, hf, modifiers, g, hg, sameFragment⟩ := exists_fragment_of_erase same hf' hg'
    have stays := settled.fields f hf g hg
    rw [isOnce, modifiers] at stays
    exact stays.of_erase id sameFragment
  · intro isClass
    obtain ⟨⟨m, hm, isConstructor⟩, complete⟩ := settled.constructors isClass
    constructor
    · obtain ⟨m', hm', erased⟩ := TypeDecl.exists_member_of_erase id same.symm hm
      refine ⟨m', hm', ?_⟩
      rw [← isConstructor_erase id, erased, isConstructor_erase]
      exact isConstructor
    · intro m' hm'
      obtain ⟨m, hm, erased⟩ := TypeDecl.exists_member_of_erase id same hm'
      rw [← isComplete_erase id, ← erased, isComplete_erase]
      exact complete m hm

/-- What is settled with a table is settled with any table that lowering leaves of it. -/
theorem Settled.of_grows {t' : BindingTable} (grown : t.Grows t') {d : TypeDecl}
    (settled : Settled options t type descriptor d) : Settled options t' type descriptor d := by
  refine ⟨settled.bound, ?_, settled.noBlocks, ?_, settled.constructors⟩
  · rw [grown.typeAt]
    exact settled.described
  · intro f hf g hg e init
    obtain ⟨isOnce, v, bound, keep⟩ := settled.fields f hf g hg e init
    exact ⟨isOnce, v, bound, (grown.classify _ _ _).trans keep⟩

/-- Lowering makes no type that lies deeper than the types did. -/
theorem lowerType_fits {levels : Nat} {d d' : TypeDecl} {s s' : State}
    (run : lowerType options levels d s = (.done d', s')) : d'.Fits levels := by
  induction levels generalizing d d' s s' with
  | zero => exact absurd run Edit.stop_ne_done
  | succ levels ih =>
    intro x' hx'
    -- What the rules leave inside are copies of the nested types as they were lowered.
    obtain ⟨_, -, _, _, _, -, step, -, same⟩ := lowerType_inner (.refl _) (.refl _) run hx'
    exact (ih step).of_erase id same

end Lowering

/-! ## Units -/

/-- Every declaration of a lowered unit is settled, at whatever depth it stands. -/
theorem CompilationUnit.lower_settled {u : CompilationUnit} {t : BindingTable}
    {options : Lowering.Options} {stats : Lowering.Stats}
    (success : (u.lower t options).result = .ok stats) {x' : TypeDecl}
    (hx' : x' ∈ (u.lower t options).unit.declarations) :
    ∃ type descriptor, Lowering.Settled options (u.lower t options).table type descriptor x' := by
  obtain ⟨x, -, origin⟩ := u.lower_origin success x' hx'
  obtain ⟨type, descriptor, d₁, d₂, bound, described, head, -, lowered, same⟩ := origin.lowered
  have bound₁ : d₁.head.binding = some type := by
    rw [head]
    exact bound
  exact ⟨type, descriptor,
    ((lowered.settled bound₁ described).of_erase same).of_grows (u.lower_grows t options)⟩

theorem CompilationUnit.lower_fits {u : CompilationUnit} {t : BindingTable}
    {options : Lowering.Options} {stats : Lowering.Stats}
    (success : (u.lower t options).result = .ok stats) {d' : TypeDecl}
    (hd' : d' ∈ (u.lower t options).unit.types) : d'.Fits (Limits.typeNesting + 1) := by
  have related := Edit.forall₂_of_done (R := fun _ b => b.Fits (Limits.typeNesting + 1))
    (fun _ _ _ _ step => Lowering.lowerType_fits step) (lower_run success)
  obtain ⟨_, -, fits⟩ := exists_mem_left related hd'
  exact fits

/-- Lowering what was lowered succeeds and leaves the unit, with all its node ids and the supply,
and the table as they are. It makes no assignment, folds nothing, finds no block and synthesizes
nothing. -/
theorem CompilationUnit.lower_idempotent {u : CompilationUnit} {t : BindingTable}
    {options : Lowering.Options} {stats : Lowering.Stats}
    (success : (u.lower t options).result = .ok stats) :
    ∃ again : Lowering.Stats,
      (u.lower t options).unit.lower (u.lower t options).table options =
        ⟨(u.lower t options).unit, (u.lower t options).table, .ok again⟩ ∧
      again.instanceAssignments = 0 ∧ again.staticAssignments = 0 ∧ again.foldedLiterals = 0 ∧
      again.initializerBlocks = 0 ∧ again.defaultConstructors = 0 ∧
      again.classInitializers = 0 := by
  have stay : (Edit.list (Lowering.lowerTopLevel options) (u.lower t options).unit.types).Returns
      (Lowering.State.Quiet ⟨(u.lower t options).table, (u.lower t options).unit.supply, .zero⟩)
      (u.lower t options).unit.types :=
    Edit.Returns.list fun d hd => Lowering.lowerType_returns (lower_fits success hd) fun x hx =>
      lower_settled success (List.mem_flatMap.mpr ⟨d, hd, hx⟩)
  -- The second run starts with all counts at zero and may only count what stays.
  obtain ⟨s', run, same⟩ := stay _ (Lowering.State.Quiet.refl _)
  generalize u.lower t options = r at run same ⊢
  refine ⟨s'.stats, ?_, ?_⟩
  · unfold CompilationUnit.lower
    rw [run]
    dsimp only
    rw [same.table, same.supply]
  · have changes : s'.stats.changes = [0, 0, 0, 0, 0, 0] := same.changes
    simpa [Lowering.Stats.changes] using changes

theorem CompilationUnit.lower_idempotent_sample :
    let u : CompilationUnit := ⟨"A.java", none, [Lowering.sampleClass], .initial⟩
    let r := u.lower Lowering.sampleState.table .standard
    ∃ again : Lowering.Stats,
      r.unit.lower r.table .standard = ⟨r.unit, r.table, .ok again⟩ ∧
      again.instanceAssignments = 0 ∧ again.staticAssignments = 0 ∧ again.foldedLiterals = 0 ∧
      again.initializerBlocks = 0 ∧ again.defaultConstructors = 0 ∧
      again.classInitializers = 0 := by
  have success : ∃ stats, (CompilationUnit.lower ⟨"A.java", none, [Lowering.sampleClass], .initial⟩
      Lowering.sampleState.table .standard).result = .ok stats := ⟨_, rfl⟩
  obtain ⟨stats, success⟩ := success
  exact CompilationUnit.lower_idempotent success

end ClassInit
