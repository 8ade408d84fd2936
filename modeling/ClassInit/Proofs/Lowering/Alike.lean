import ClassInit.Proofs.Lowering.Comparison
import ClassInit.Proofs.Lowering.Idempotence
import ClassInit.Proofs.Lowering.Members

/-!
# Types are lowered alike

Two runs that lower types which look the same, up to node ids and the handles that the mask merges,
leave types that look the same, and add the same entries to the table. Here this is shown for a type
whose nested types are lowered already (`Comparison.lowerOwn_alike`).
-/

set_option autoImplicit false

namespace ClassInit

namespace Lowering

/-! ## Looking at lists -/

variable {h : Option MethodId → Option MethodId}

/-- Whether a statement declares a name does not depend on ids and handles. -/
theorem declaresName_erase (h : Option MethodId → Option MethodId) (s : Stmt) :
    declaresName (s.erase h) = declaresName s := by
  fun_cases Stmt.erase h s <;> rfl

/-- Lists that look the same do so item by item. -/
theorem forall₂_of_map_eq {α β : Type} {look : α → β} {as bs : List α}
    (same : as.map look = bs.map look) : List.Forall₂ (fun a b => look a = look b) as bs := by
  have all : List.Forall₂ (fun x y => x = y) (as.map look) (bs.map look) := by
    rw [same]
    exact List.forall₂_same.mpr fun _ _ => rfl
  exact List.forall₂_map_right_iff.mp (List.forall₂_map_left_iff.mp all)

/-- Lists with the same statements up to ids are alike. -/
theorem SameStmts.erase {ss ss' : List Stmt} (same : SameStmts ss ss') :
    ss.map (Stmt.erase h) = ss'.map (Stmt.erase h) := by
  have again :
      ∀ ss : List Stmt, ss.map (Stmt.erase h) = (ss.map (Stmt.erase id)).map (Stmt.erase h) := by
    intro ss
    rw [List.map_map]
    refine List.map_congr_left fun s _ => ?_
    exact (Stmt.erase_erase id h s).symm
  rw [again ss, same, ← again ss']

def InitLists.erase (h : Option MethodId → Option MethodId) (l : InitLists) : InitLists :=
  ⟨l.instances.map (Stmt.erase h), l.statics.map (Stmt.erase h)⟩

/-- Erasing goes through the collected lists. -/
theorem InitLists.erase_add (l : InitLists) (once : Bool) (ss : List Stmt) :
    (l.add once ss).erase h = (l.erase h).add once (ss.map (Stmt.erase h)) := by
  cases once <;> simp [InitLists.add, InitLists.erase]

/-- Lists that are alike stay so when statements that are alike are added. -/
theorem InitLists.erase_add_congr {l l' : InitLists} (once : Bool) {ss ss' : List Stmt}
    (lists : l.erase h = l'.erase h) (added : ss.map (Stmt.erase h) = ss'.map (Stmt.erase h)) :
    (l.add once ss).erase h = (l'.add once ss').erase h := by
  rw [InitLists.erase_add, InitLists.erase_add, lists, added]

/-- Assignments to one variable are alike if their values are. -/
theorem assignmentTo_erase {f f' : Fragment} {e e' : Expr} (span : f.span = f'.span)
    (name : f.name = f'.name) (binding : f.binding = f'.binding) (value : e.erase h = e'.erase h) :
    (assignmentTo f e).erase h = (assignmentTo f' e').erase h := by
  simp only [assignmentTo, Stmt.erase, Expr.erase, span, name, binding, value]

/-- Blocks that are alike leave statements that are alike. -/
theorem blockInit_erase {b b' : Block} (same : b.erase h = b'.erase h) :
    (blockInit b).map (Stmt.erase h) = (blockInit b').map (Stmt.erase h) := by
  obtain ⟨i, ss⟩ := b
  obtain ⟨i', ss'⟩ := b'
  simp only [Block.erase, Block.mk.injEq, Stmt.eraseAll_eq_map] at same
  obtain ⟨info, statements⟩ := same
  have declares : ss.any declaresName = ss'.any declaresName := by
    have erased : declaresName ∘ Stmt.erase h = declaresName := funext (declaresName_erase h)
    rw [← erased, ← List.any_map, statements, List.any_map]
  have span : i.span = i'.span := by
    have spans := congrArg NodeInfo.span info
    exact spans
  simp only [blockInit, declares]
  split
  · simp only [List.map_cons, List.map_nil, Stmt.erase, Block.erase, Stmt.eraseAll_eq_map, info,
      span, statements]
  · exact statements

namespace Comparison

variable {c : Comparison} {options : Options} {name : String} {type : TypeId}

/-! ## Collecting -/

/-- The decision about an initializer is the same for expressions that are alike. -/
theorem eligibility_alike (once : Bool) (v : VariableId) {f f' : Fragment} {e e' : Expr}
    (value : e.erase c.mask = e'.erase c.mask) :
    c.Steps (fun fate : Eligibility => fate) (eligibility options name once f v e)
      (eligibility options name once f' v e') := by
  unfold eligibility
  cases once with
  | false => exact .pure rfl
  | true =>
    rw [if_pos rfl, if_pos rfl]
    refine .ask (fun t' grown => grown.classify _ _ _) fun t' grown => ?_
    rw [← classify_erase c.mask e', ← value, classify_erase]
    exact grown.classify _ _ _

/-- Collecting from variables that are alike leaves variables and lists that are alike. -/
theorem collectFragment_alike (once : Bool) (type : TypeRef) {lists lists' : InitLists}
    {f f' : Fragment} (before : lists.erase c.mask = lists'.erase c.mask)
    (same : f.erase c.mask = f'.erase c.mask) :
    c.Steps (fun x => (x.1.erase c.mask, x.2.erase c.mask))
      (collectFragment options name once type lists f)
      (collectFragment options name once type lists' f') := by
  obtain ⟨span, x, init, binding⟩ := f
  obtain ⟨span', x', init', binding'⟩ := f'
  simp only [Fragment.erase, Fragment.mk.injEq] at same
  obtain ⟨rfl, rfl, value, rfl⟩ := same
  rcases init with _ | e <;> rcases init' with _ | e'
  · exact .pure (Prod.ext rfl before)
  · cases value
  · cases value
  cases binding with
  | none => exact .throw
  | some v =>
    have value : e.erase c.mask = e'.erase c.mask := Option.some.inj value
    refine .bind (eligibility_alike once v value) fun fate _ same => ?_
    subst same
    -- Both runs decide alike, and what they make of the fragment is the same once masked.
    cases fate with
    | keep =>
      refine .bind (.count _ _) fun _ _ _ => .pure (Prod.ext ?_ before)
      simp only [Fragment.erase, Option.map_some, value]
    | fold k =>
      refine .bind (.mint fun s s' => rfl)
        fun l l' (literal : l.erase c.mask = l'.erase c.mask) => ?_
      refine .bind (.count _ _) fun _ _ _ => .pure (Prod.ext ?_ before)
      simp only [Fragment.erase, Option.map_some, literal]
    | demote =>
      refine .bind (v := fun a => [a].map (Stmt.erase c.mask)) (.mint fun s s' => ?_)
        fun a a' assigned => ?_
      · rw [(assignmentOf_same (f := ⟨span, x, some e, some v⟩) rfl e s).erase,
          (assignmentOf_same (f := ⟨span, x, some e', some v⟩) rfl e' s').erase]
        exact congrArg (fun a => [a]) (assignmentTo_erase rfl rfl rfl value)
      · refine .bind (.count _ _) fun _ _ _ => .pure (Prod.ext rfl ?_)
        exact InitLists.erase_add_congr once before assigned

theorem collectFragments_alike (once : Bool) (type : TypeRef) {lists lists' : InitLists}
    {fs fs' : List Fragment} (before : lists.erase c.mask = lists'.erase c.mask)
    (same : List.Forall₂ (fun f f' => f.erase c.mask = f'.erase c.mask) fs fs') :
    c.Steps (fun x => (x.1.map (Fragment.erase c.mask), x.2.erase c.mask))
      (collectFragments options name once type lists fs)
      (collectFragments options name once type lists' fs') := by
  induction same generalizing lists lists' with
  | nil => exact .pure (Prod.ext rfl before)
  | cons one _ ih =>
    refine .bind (collectFragment_alike once type before one) fun x x' first => ?_
    obtain ⟨fragment, lists⟩ := Prod.ext_iff.mp first
    refine .bind (ih lists) fun y y' rest => .pure ?_
    obtain ⟨fragments, lists⟩ := Prod.ext_iff.mp rest
    exact Prod.ext (congrArg₂ List.cons fragment fragments) lists

/-- The same for all variables of a field. -/
theorem collectField_alike (isInterface : Bool) {lists lists' : InitLists} {f f' : FieldDecl}
    (before : lists.erase c.mask = lists'.erase c.mask) (same : f.erase c.mask = f'.erase c.mask) :
    c.Steps (fun x => (x.1.erase c.mask, x.2.erase c.mask))
      (collectField options name isInterface lists f)
      (collectField options name isInterface lists' f') := by
  obtain ⟨i, span, modifiers, type, fs⟩ := f
  obtain ⟨i', span', modifiers', type', fs'⟩ := f'
  simp only [FieldDecl.erase, FieldDecl.mk.injEq] at same
  obtain ⟨-, rfl, rfl, rfl, fragments⟩ := same
  refine .bind (collectFragments_alike _ type before (forall₂_of_map_eq fragments))
    fun x x' same => .pure ?_
  obtain ⟨fragments, lists⟩ := Prod.ext_iff.mp same
  refine Prod.ext ?_ lists
  simp only [FieldDecl.erase, FieldDecl.mk.injEq, true_and]
  exact fragments

/-- The same for an initializer block. -/
theorem collectBlock_alike {lists lists' : InitLists} {i i' : NodeInfo} {isStatic : Bool}
    {b b' : Block} (before : lists.erase c.mask = lists'.erase c.mask)
    (same : b.erase c.mask = b'.erase c.mask) :
    c.Edits (InitLists.erase c.mask) (Edit.ofState (collectBlock lists ⟨i, isStatic, b⟩))
      (Edit.ofState (collectBlock lists' ⟨i', isStatic, b'⟩)) := by
  refine .ofState (fun _ => rfl) (fun _ => rfl) fun s s' => ?_
  have added : ((contribution b s.supply).1).map (Stmt.erase c.mask) =
      ((contribution b' s'.supply).1).map (Stmt.erase c.mask) := by
    rw [(contribution_same b s.supply).erase, (contribution_same b' s'.supply).erase]
    exact blockInit_erase same
  exact InitLists.erase_add_congr isStatic before added

/-- The same for members one after the other. -/
theorem collectMembers_alike (isInterface : Bool) {lists lists' : InitLists} {ms ms' : List Member}
    (before : lists.erase c.mask = lists'.erase c.mask)
    (same : List.Forall₂ (fun m m' => m.erase c.mask = m'.erase c.mask) ms ms') :
    c.Edits (fun x => (x.1.map (Member.erase c.mask), x.2.erase c.mask))
      (collectMembers options name isInterface lists ms)
      (collectMembers options name isInterface lists' ms') := by
  induction same generalizing lists lists' with
  | nil => exact .keep (Prod.ext rfl before)
  | @cons m m' _ _ one _ ih =>
    -- A member that stays comes before what is left of the others.
    have stays : ∀ {m m' : Member}, m.erase c.mask = m'.erase c.mask →
        ∀ x x' : List Member × InitLists,
          (x.1.map (Member.erase c.mask), x.2.erase c.mask) =
              (x'.1.map (Member.erase c.mask), x'.2.erase c.mask) →
            ((m :: x.1).map (Member.erase c.mask), x.2.erase c.mask) =
              ((m' :: x'.1).map (Member.erase c.mask), x'.2.erase c.mask) := by
      intro m m' one x x' rest
      obtain ⟨members, lists⟩ := Prod.ext_iff.mp rest
      exact Prod.ext (congrArg₂ List.cons one members) lists
    cases Member.eraseAlike_of_eq one with
    | type => exact .map (ih before) (stays one)
    | method => exact .map (ih before) (stays one)
    | initializer same => exact .andThen (collectBlock_alike before same) fun _ _ lists => ih lists
    | field same =>
      refine .andThen (.editBy (collectField_alike isInterface before same))
        fun x x' collected => ?_
      obtain ⟨field, lists⟩ := Prod.ext_iff.mp collected
      refine .map (ih lists) (stays ?_)
      rw [Member.erase_field, Member.erase_field]
      exact congrArg Member.field field

/-- Collecting from types that are alike leaves types and lists that are alike. -/
theorem collect_alike (isInterface : Bool) {d d' : TypeDecl}
    (same : d.erase c.mask = d'.erase c.mask) :
    c.Edits (fun x => (x.1.erase c.mask, x.2.erase c.mask)) (collect options isInterface d)
      (collect options isInterface d') := by
  obtain ⟨heads, members⟩ := TypeDecl.erase_eq_iff.mp same
  unfold collect
  rw [TypeDecl.name_of_erase same]
  refine .map (collectMembers_alike isInterface rfl (forall₂_of_map_eq members)) fun x x' same => ?_
  obtain ⟨members, lists⟩ := Prod.ext_iff.mp same
  exact Prod.ext (TypeDecl.erase_eq_iff.mpr ⟨heads, members⟩) lists

/-! ## Constructors and synthesized members -/

/-- Two runs give a new constructor handles that the comparison takes for one. -/
theorem newConstructor_alike (span span' : Span) (owner : TypeId) (modifiers : Modifiers) :
    c.Steps (fun id => c.mask (some id)) (enter name span (newConstructor · owner modifiers))
      (enter name span' (newConstructor · owner modifiers)) :=
  .enter (fun _ _ _ => newConstructor_eq_ok) (fun _ _ _ => newConstructor_eq_ok) ⟨rfl, rfl, rfl⟩

/-- Two runs read the same superclass. -/
theorem superclass_alike (span span' : Span) (type : TypeId) :
    c.Steps (fun id : TypeId => id) (ask name span (·.superclass type))
      (ask name span' (·.superclass type)) :=
  .ask (fun _ grown => grown.superclass type) fun _ grown => grown.superclass type

/-- Calls of constructors that the comparison takes for one are alike. -/
theorem superCall_alike {id id' : MethodId} (handle : c.mask (some id) = c.mask (some id')) :
    c.Steps (Stmt.erase c.mask) (mint (Make.superCall id)) (mint (Make.superCall id')) := by
  refine .mint fun s s' => ?_
  show Stmt.superCall _ [] (c.mask (some id)) = Stmt.superCall _ [] (c.mask (some id'))
  rw [handle]
  rfl

/-- The call that is put in front of a constructor is alike in both runs. -/
theorem implicitSuperCall_alike (span span' : Span) :
    c.Steps (Stmt.erase c.mask) (implicitSuperCall name type span)
      (implicitSuperCall name type span') := by
  refine .bind (superclass_alike span span' type) fun superclass _ same => ?_
  subst same
  exact .bind (newConstructor_alike span span' superclass _) fun _ _ handle =>
    superCall_alike handle

variable {instances instances' : List Stmt}

/-- Copies of statements that are alike are alike. -/
theorem copyAll_alike
    (same : instances.map (Stmt.erase c.mask) = instances'.map (Stmt.erase c.mask)) :
    c.Steps (List.map (Stmt.erase c.mask)) (mint (Stmt.copyAll instances))
      (mint (Stmt.copyAll instances')) := by
  refine .mint fun s s' => ?_
  rw [(SameStmts.copyAll instances s).erase, same, (SameStmts.copyAll instances' s').erase]

/-- What is put into lists that look the same, item by item, leaves lists that do. -/
theorem map_insertAfter {β : Type} {look : Stmt → β} {index : Nat}
    {inserted inserted' ss ss' : List Stmt} (put : inserted.map look = inserted'.map look)
    (same : ss.map look = ss'.map look) :
    (insertAfter index inserted ss).map look = (insertAfter index inserted' ss').map look := by
  simp only [insertAfter, List.map_append, List.map_take, List.map_drop, put, same]

/-- Constructors that are alike are lowered to ones that are. -/
theorem lowerConstructor_alike
    (list : instances.map (Stmt.erase c.mask) = instances'.map (Stmt.erase c.mask))
    {m m' : MethodDecl} (same : m.erase c.mask = m'.erase c.mask) :
    c.Steps (MethodDecl.erase c.mask) (lowerConstructor name type instances m)
      (lowerConstructor name type instances' m') := by
  have designated : m.isDesignated = m'.isDesignated := by
    rw [← m.isDesignated_erase c.mask, same, m'.isDesignated_erase]
  have index : m.superCallIndex = m'.superCallIndex := by
    rw [← m.superCallIndex_erase c.mask, same, m'.superCallIndex_erase]
  obtain ⟨head, body⟩ := m
  obtain ⟨head', body'⟩ := m'
  simp only [MethodDecl.erase, MethodDecl.mk.injEq] at same
  obtain ⟨heads, bodies⟩ := same
  -- Bodies that are the same once masked are both there or both missing.
  rcases body with _ | ⟨i, ss⟩ <;> rcases body' with _ | ⟨i', ss'⟩
  · exact .throw
  · cases bodies
  · cases bodies
  simp only [Option.map_some, Option.some.injEq, Block.erase, Block.mk.injEq,
    Stmt.eraseAll_eq_map] at bodies
  obtain ⟨info, statements⟩ := bodies
  have rebuilt : ∀ ss ss' : List Stmt, ss.map (Stmt.erase c.mask) = ss'.map (Stmt.erase c.mask) →
      (MethodDecl.mk head (some ⟨i, ss⟩)).erase c.mask =
        (MethodDecl.mk head' (some ⟨i', ss'⟩)).erase c.mask := by
    intro ss ss' all
    simp only [MethodDecl.erase, Option.map_some, Block.erase, Stmt.eraseAll_eq_map, heads,
      info, all]
  simp only [lowerConstructor, designated]
  split
  · refine .bind (v := List.map (Stmt.erase c.mask)) ?_ fun ss ss' all =>
      .bind (.count _ _) fun _ _ _ => .pure (rebuilt ss ss' all)
    simp only [initialized, index]
    split
    · exact .bind (copyAll_alike list) fun copies copies' copied =>
        .pure (map_insertAfter copied statements)
    · refine .bind (implicitSuperCall_alike _ _) fun call call' calls => ?_
      refine .bind (copyAll_alike list) fun copies copies' copied => .pure ?_
      exact map_insertAfter copied (congrArg₂ List.cons calls statements)
  · exact .bind (.count _ _) fun _ _ _ => .pure (rebuilt ss ss' statements)

/-- Members that are alike are lowered to ones that are. -/
theorem lowerMember_alike
    (list : instances.map (Stmt.erase c.mask) = instances'.map (Stmt.erase c.mask)) {m m' : Member}
    (same : m.erase c.mask = m'.erase c.mask) :
    c.Edits (Member.erase c.mask) (lowerMember name type instances m)
      (lowerMember name type instances' m') := by
  cases Member.eraseAlike_of_eq same with
  | type | initializer | field => exact .keep same
  | @method m m' methods =>
    have kinds : m.head.isConstructor = m'.head.isConstructor := by
      have kinds := congrArg (fun m => m.head.isConstructor) methods
      exact kinds
    simp only [lowerMember, kinds]
    split
    · refine .editBy (.bind (lowerConstructor_alike list methods) fun m m' lowered => .pure ?_)
      rw [Member.erase_method, Member.erase_method, lowered]
    · exact .keep same

/-- The constructors of types that are alike are lowered alike. -/
theorem lowerConstructors_alike
    (list : instances.map (Stmt.erase c.mask) = instances'.map (Stmt.erase c.mask))
    {d d' : TypeDecl} (same : d.erase c.mask = d'.erase c.mask) :
    c.Edits (TypeDecl.erase c.mask) (lowerConstructors type instances d)
      (lowerConstructors type instances' d') := by
  obtain ⟨heads, members⟩ := TypeDecl.erase_eq_iff.mp same
  unfold lowerConstructors
  rw [TypeDecl.name_of_erase same]
  exact .map (.list ((forall₂_of_map_eq members).imp fun _ _ => lowerMember_alike list))
    fun ms ms' all => TypeDecl.erase_eq_iff.mpr ⟨heads, all⟩

/-- Synthesized methods are alike if their handles and statements are. -/
theorem syntheticMethod_alike {x : String} {modifiers : Modifiers} {isConstructor : Bool}
    {id id' : MethodId} {ss ss' : List Stmt} (handle : c.mask (some id) = c.mask (some id'))
    (same : ss.map (Stmt.erase c.mask) = ss'.map (Stmt.erase c.mask)) :
    c.Steps (MethodDecl.erase c.mask)
      (mint (Make.syntheticMethod x modifiers .void isConstructor id ss))
      (mint (Make.syntheticMethod x modifiers .void isConstructor id' ss')) := by
  have made : ∀ (ss : List Stmt) (id : MethodId) (s : IdSupply),
      ((Make.syntheticMethod x modifiers .void isConstructor id ss s).1).erase c.mask =
        ⟨⟨.unassigned, .dummy, x, modifiers, .void, [], isConstructor, c.mask (some id), true⟩,
          some ⟨⟨.unassigned, .dummy⟩, Stmt.eraseAll c.mask ss⟩⟩ := fun _ _ _ => rfl
  refine .mint fun s s' => ?_
  rw [made, made, handle, Stmt.eraseAll_eq_map, Stmt.eraseAll_eq_map, same]

/-- Types that are alike stay so when methods that are alike are added. -/
theorem appendMethod_erase {d d' : TypeDecl} {m m' : MethodDecl} (same : d.erase h = d'.erase h)
    (methods : m.erase h = m'.erase h) :
    (appendMethod d m).erase h = (appendMethod d' m').erase h := by
  obtain ⟨heads, members⟩ := TypeDecl.erase_eq_iff.mp same
  refine TypeDecl.erase_eq_iff.mpr ⟨heads, ?_⟩
  simp only [appendMethod, List.map_append, List.map_cons, List.map_nil, Member.erase_method,
    members, methods]

/-- Types that are alike get default constructors that are. -/
theorem addDefaultConstructor_alike
    (list : instances.map (Stmt.erase c.mask) = instances'.map (Stmt.erase c.mask))
    {d d' : TypeDecl} (same : d.erase c.mask = d'.erase c.mask) :
    c.Edits (TypeDecl.erase c.mask) (addDefaultConstructor type instances d)
      (addDefaultConstructor type instances' d') := by
  refine .editBy (.bind (v := MethodDecl.erase c.mask) ?_ fun m m' made =>
    .bind (.count _ _) fun _ _ _ => .pure (appendMethod_erase same made))
  unfold defaultConstructor
  rw [TypeDecl.name_of_erase same]
  refine .bind (.ask (fun _ grown => grown.typeAt type) fun _ grown => grown.typeAt type)
    fun descriptor _ found => ?_
  subst found
  refine .bind (superclass_alike _ _ type) fun superclass _ found => ?_
  subst found
  refine .bind (newConstructor_alike _ _ superclass _) fun _ _ superHandle => ?_
  refine .bind (newConstructor_alike _ _ type _) fun _ _ handle => ?_
  refine .bind (superCall_alike superHandle) fun _ _ call => ?_
  exact syntheticMethod_alike handle (congrArg₂ List.cons call list)

/-- Types that are alike get static routines that are. -/
theorem addClassInitializer_alike {statics statics' : List Stmt}
    (list : statics.map (Stmt.erase c.mask) = statics'.map (Stmt.erase c.mask)) {d d' : TypeDecl}
    (same : d.erase c.mask = d'.erase c.mask) :
    c.Edits (TypeDecl.erase c.mask) (addClassInitializer options type statics d)
      (addClassInitializer options type statics' d') := by
  refine .editBy (.bind (v := MethodDecl.erase c.mask) ?_ fun m m' made =>
    .bind (.count _ _) fun _ _ _ => .pure (appendMethod_erase same made))
  have taken : (d.findMethod? options.classInitializerName 0).isSome =
      (d'.findMethod? options.classInitializerName 0).isSome := by
    rw [← d.isSome_findMethod?_erase c.mask, same, d'.isSome_findMethod?_erase]
  unfold classInitializer
  dsimp only
  rw [TypeDecl.name_of_erase same]
  cases found : d.findMethod? options.classInitializerName 0 with
  | some m => exact .throw
  | none =>
    rw [found, eq_comm, Option.isSome_none, Option.isSome_eq_false_iff,
      Option.isNone_iff_eq_none] at taken
    rw [taken]
    exact .bind
      (.enter (fun _ _ _ => newMethod_eq_ok) (fun _ _ _ => newMethod_eq_ok) ⟨rfl, rfl, rfl⟩)
      fun _ _ handle => syntheticMethod_alike handle list

/-! ## Types -/

/-- The pass for instances keeps types alike. -/
theorem lowerInstances_alike
    (list : instances.map (Stmt.erase c.mask) = instances'.map (Stmt.erase c.mask))
    {d d' : TypeDecl} (same : d.erase c.mask = d'.erase c.mask) :
    c.Edits (TypeDecl.erase c.mask) (lowerInstances type instances d)
      (lowerInstances type instances' d') := by
  refine .seq (lowerConstructors_alike list same) fun d d' same => ?_
  rw [← d.constructors_isEmpty_erase c.mask, same, d'.constructors_isEmpty_erase]
  split
  · exact addDefaultConstructor_alike list same
  · exact .keep same

/-- The pass for the type itself keeps types alike. -/
theorem lowerStatics_alike {statics statics' : List Stmt}
    (list : statics.map (Stmt.erase c.mask) = statics'.map (Stmt.erase c.mask)) {d d' : TypeDecl}
    (same : d.erase c.mask = d'.erase c.mask) :
    c.Edits (TypeDecl.erase c.mask) (lowerStatics options type statics d)
      (lowerStatics options type statics' d') := by
  unfold lowerStatics
  rw [← List.isEmpty_map (f := Stmt.erase c.mask), list, List.isEmpty_map]
  split
  · exact .keep same
  · exact addClassInitializer_alike list same

/-- All passes over one type keep types alike, apart from the types inside it. -/
theorem lowerOwn_alike (isInterface : Bool) {d d' : TypeDecl}
    (same : d.erase c.mask = d'.erase c.mask) :
    c.Edits (TypeDecl.erase c.mask) (lowerOwn options type isInterface d)
      (lowerOwn options type isInterface d') := by
  refine .andThen (collect_alike isInterface same) fun (d, lists) (d', lists') collected => ?_
  obtain ⟨same, lists⟩ := Prod.ext_iff.mp collected
  obtain ⟨instances, statics⟩ := InitLists.mk.inj lists
  refine .seq (v := TypeDecl.erase c.mask) ?_ fun d d' same => lowerStatics_alike statics same
  split
  · exact .keep same
  · exact lowerInstances_alike instances same

end Comparison

end Lowering

end ClassInit
