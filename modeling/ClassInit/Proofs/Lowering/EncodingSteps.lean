import ClassInit.Proofs.Lowering.Encodings
import ClassInit.Proofs.Lowering.Entries
import ClassInit.Proofs.Lowering.Failures
import ClassInit.Proofs.Lowering.Placement

/-!
# Lowering for two encodings

Where a type is lowered for the plain encoding, a type with the same members is lowered for the
narrow one, and the two runs leave what compares as `EncodingOrdered` says
(`Lowering.lowerOwn_follows`, `Lowering.lowerType_follows`). Each pass is followed by the same pass
of the other run; fewer statements for the static routine are no reason to fail.
-/

set_option autoImplicit false

namespace ClassInit

namespace Lowering

/-- The statements of the static routine with the name; a type without one has none. -/
def routineStatements (routine : String) (d : TypeDecl) : List Stmt :=
  ((d.findMethod? routine 0).map MethodDecl.statements).getD []

/-- How what becomes of a type for the plain encoding compares with what becomes of it for the
narrow one. -/
structure EncodingOrdered (t : BindingTable) (routine : String) (d a c : TypeDecl) : Prop where
  head : c.head.erase id = a.head.erase id
  constructors : a.constructors.map (MethodDecl.look t.mergeAdded) =
    c.constructors.map (MethodDecl.look t.mergeAdded)
  fields : List.Forall₂ FieldKeeps a.fields c.fields
  statics : Thinned t.mergeAdded (AssignsText t (fragmentsOf d)) (routineStatements routine a)
    (routineStatements routine c)

/-- Two types of one head with members that are alike, the second with the initializers of the
first. -/
structure TypeKeeps (t : BindingTable) (d d' : TypeDecl) : Prop where
  head : d'.head = d.head
  members : List.Forall₂ (Member.Alike t.mergeAdded FieldKeeps) d.members d'.members

variable {t : BindingTable} {options : Options} {type : TypeId} {routine name : String}
  {d d' : TypeDecl} {s s' : State}

/-! ## What types that are alike have in common -/

/-- Types whose methods look the same have constructors that do. -/
theorem constructors_look {h : Option MethodId → Option MethodId}
    (same : d.methods.map (MethodDecl.look h) = d'.methods.map (MethodDecl.look h)) :
    d.constructors.map (MethodDecl.look h) = d'.constructors.map (MethodDecl.look h) := by
  have through : ∀ d : TypeDecl, d.constructors.map (MethodDecl.look h) =
      (d.methods.map (MethodDecl.look h)).filter fun l => l.1.isConstructor := by
    intro d
    rw [List.filter_map]
    rfl
  rw [through, same, ← through]

/-- They have methods of one name and arity that look the same. -/
theorem findMethod?_look {h : Option MethodId → Option MethodId}
    (same : d.methods.map (MethodDecl.look h) = d'.methods.map (MethodDecl.look h)) (name : String)
    (arity : Nat) :
    (d.findMethod? name arity).map (MethodDecl.look h) =
      (d'.findMethod? name arity).map (MethodDecl.look h) := by
  have through : ∀ d : TypeDecl, (d.findMethod? name arity).map (MethodDecl.look h) =
      (d.methods.map (MethodDecl.look h)).find? fun l =>
        !l.1.isConstructor && l.1.name == name && l.1.parameters.length == arity := by
    intro d
    rw [List.find?_map]
    rfl
  rw [through, same, ← through]

/-- Their static routines look the same. -/
theorem routineStatements_look {h : Option MethodId → Option MethodId}
    (same : d.methods.map (MethodDecl.look h) = d'.methods.map (MethodDecl.look h)) :
    (routineStatements routine d).map (Stmt.look h) =
      (routineStatements routine d').map (Stmt.look h) := by
  have found := findMethod?_look same routine 0
  unfold routineStatements
  rcases one : d.findMethod? routine 0 with _ | m
    <;> rcases other : d'.findMethod? routine 0 with _ | m'
  · rfl
  · rw [one, other] at found
    cases found
  · rw [one, other] at found
    cases found
  · rw [one, other] at found
    exact MethodDecl.statements_of_look (Option.some.inj found)

/-- The static routine is not a constructor. -/
theorem constructors_appendMethod {m : MethodDecl} (isMethod : m.head.isConstructor = false) :
    (appendMethod d m).constructors = d.constructors := by
  rw [TypeDecl.constructors, methods_appendMethod, List.filter_append, List.filter_cons, isMethod]
  exact List.append_nil _

theorem fields_appendMethod (d : TypeDecl) (m : MethodDecl) :
    (appendMethod d m).fields = d.fields := by
  rw [TypeDecl.fields, appendMethod, List.filterMap_append]
  exact List.append_nil _

/-- Where the name of the routine is free there is none yet. -/
theorem routineStatements_of_free (free : d.findMethod? routine 0 = none) :
    routineStatements routine d = [] := by
  rw [routineStatements, free]
  rfl

/-- A static routine is found if no method was in its place. -/
theorem routineStatements_appendMethod (free : d.findMethod? routine 0 = none) (n bodyId : NodeId)
    (handle : MethodId) (ss : List Stmt) :
    routineStatements routine
      (appendMethod d (madeMethod n bodyId routine routineModifiers false handle ss)) = ss := by
  unfold TypeDecl.findMethod? at free
  rw [routineStatements, TypeDecl.findMethod?, methods_appendMethod, List.find?_append, free,
    Option.none_or, List.find?_cons_of_pos]
  · rfl
  · show (!false && routine == routine && (0 : Nat) == 0) = true
    rw [beq_self_eq_true]
    rfl

theorem TypeKeeps.constructors (keeps : TypeKeeps t d d') :
    d.constructors.map (MethodDecl.look t.mergeAdded) =
      d'.constructors.map (MethodDecl.look t.mergeAdded) :=
  constructors_look (TypeDecl.methods_of_alike keeps.members)

theorem TypeKeeps.name_eq (keeps : TypeKeeps t d d') : d'.name = d.name :=
  congrArg TypeHead.name keeps.head

/-- The name of the routine is free in both types or in neither. -/
theorem TypeKeeps.free (keeps : TypeKeeps t d d') (free : d.findMethod? routine 0 = none) :
    d'.findMethod? routine 0 = none := by
  have found := findMethod?_look (TypeDecl.methods_of_alike keeps.members) routine 0
  rw [free, Option.map_none] at found
  exact Option.map_eq_none_iff.mp found.symm

/-! ## Constructors -/

section

variable {instances instances' : List Stmt}
  (list : instances.map (Stmt.look t.mergeAdded) = instances'.map (Stmt.look t.mergeAdded))

/-- Both runs enter constructors after the entries of the table that they start from. -/
theorem newConstructor_follows (span : Span) (owner : TypeId) (modifiers : Modifiers) :
    StepFollows t (fun id id' => t.methods.size ≤ id.index ∧ t.methods.size ≤ id'.index)
      (enter name span (newConstructor · owner modifiers))
        (enter name span (newConstructor · owner modifiers)) :=
  .enter (fun _ _ _ => newConstructor_eq_ok) ⟨rfl, rfl, rfl⟩

/-- Calls with new handles look the same. -/
theorem superCall_follows {id id' : MethodId} (added : t.methods.size ≤ id.index)
    (added' : t.methods.size ≤ id'.index) :
    StepFollows t (fun s s' => s.look t.mergeAdded = s'.look t.mergeAdded)
      (mint (Make.superCall id)) (mint (Make.superCall id')) := by
  refine .mint fun s s' => Prod.ext ?_ rfl
  show Stmt.superCall _ [] (t.mergeAdded (some id)) = Stmt.superCall _ [] (t.mergeAdded (some id'))
  rw [BindingTable.mergeAdded_eq added added']
  rfl

/-- The call that is added looks the same in both runs. -/
theorem implicitSuperCall_follows (span : Span) :
    StepFollows t (fun s s' => s.look t.mergeAdded = s'.look t.mergeAdded)
      (implicitSuperCall name type span) (implicitSuperCall name type span) := by
  refine .bind (.ask_same fun _ grown => grown.superclass type)
    fun superclass superclass' ⟨_, same⟩ => ?_
  rw [same]
  exact .bind (newConstructor_follows span superclass _) fun _ _ ⟨added, added'⟩ =>
    superCall_follows added added'

include list

theorem copyAll_follows :
    StepFollows t (fun ss ss' => ss.map (Stmt.look t.mergeAdded) = ss'.map (Stmt.look t.mergeAdded))
      (mint (Stmt.copyAll instances)) (mint (Stmt.copyAll instances')) := by
  refine .mint fun s s' => ?_
  rw [Stmt.map_look_of_erase (SameStmts.copyAll instances s), list,
    Stmt.map_look_of_erase (SameStmts.copyAll instances' s')]

/-- Constructors that look the same still do after both runs. -/
theorem lowerConstructor_follows {m m' : MethodDecl}
    (same : m.look t.mergeAdded = m'.look t.mergeAdded) :
    StepFollows t (fun m m' => m.look t.mergeAdded = m'.look t.mergeAdded)
      (lowerConstructor name type instances m) (lowerConstructor name type instances' m') := by
  have designated := MethodDecl.isDesignated_of_look same
  have index := MethodDecl.superCallIndex_of_look same
  have span : m.head.span = m'.head.span := by
    have spans := congrArg MethodHead.span (MethodDecl.head_of_look same)
    exact spans
  obtain ⟨head, body⟩ := m
  obtain ⟨head', body'⟩ := m'
  obtain ⟨heads, bodies⟩ := Prod.ext_iff.mp same
  -- Bodies that look the same are both there or both missing.
  rcases body with _ | ⟨i, ss⟩ <;> rcases body' with _ | ⟨i', ss'⟩
  · exact .throw
  · cases bodies
  · cases bodies
  obtain ⟨info, statements⟩ := Prod.ext_iff.mp (Option.some.inj bodies)
  have statements : ss.map (Stmt.look t.mergeAdded) = ss'.map (Stmt.look t.mergeAdded) := statements
  have rebuilt : ∀ ss ss' : List Stmt,
      ss.map (Stmt.look t.mergeAdded) = ss'.map (Stmt.look t.mergeAdded) →
        (MethodDecl.mk head (some ⟨i, ss⟩)).look t.mergeAdded =
          (MethodDecl.mk head' (some ⟨i', ss'⟩)).look t.mergeAdded :=
    fun _ _ all => Prod.ext heads (congrArg some (Prod.ext info all))
  simp only [lowerConstructor, designated]
  split
  · refine .bind (R := fun ss ss' => ss.map (Stmt.look t.mergeAdded) =
      ss'.map (Stmt.look t.mergeAdded)) ?_
      fun ss ss' all => .bind (.count _ _) fun _ _ _ => .pure (rebuilt ss ss' all)
    simp only [initialized, index]
    split
    · exact .bind (copyAll_follows list) fun copies copies' copied =>
        .pure (Comparison.map_insertAfter copied statements)
    · rw [span]
      refine .bind (implicitSuperCall_follows _) fun call call' calls => ?_
      refine .bind (copyAll_follows list) fun copies copies' copied => .pure ?_
      exact Comparison.map_insertAfter copied (congrArg₂ List.cons calls statements)
  · exact .bind (.count _ _) fun _ _ _ => .pure same

/-- So do members. -/
theorem lowerMember_follows {m m' : Member} (alike : Member.Alike t.mergeAdded FieldKeeps m m') :
    EditFollows t (Member.Alike t.mergeAdded FieldKeeps) (lowerMember name type instances m)
      (lowerMember name type instances' m') := by
  cases alike with
  | type heads => exact .keep (.type heads)
  | field keeps => exact .keep (.field keeps)
  | initializer info looks => exact .keep (.initializer info looks)
  | method looks =>
    simp only [lowerMember, MethodDecl.isConstructor_of_look looks]
    split
    · exact .editBy (.bind (lowerConstructor_follows list looks) fun _ _ lowered =>
        .pure (.method lowered))
    · exact .keep (.method looks)

/-- Lowering the constructors keeps the relation between the types. -/
theorem lowerConstructors_follows (keeps : TypeKeeps t d d') :
    EditFollows t (TypeKeeps t) (lowerConstructors type instances d)
      (lowerConstructors type instances' d') := by
  unfold lowerConstructors
  rw [keeps.name_eq]
  exact .map (.list (keeps.members.imp fun _ _ => lowerMember_follows list)) fun _ _ all =>
    ⟨keeps.head, all⟩

/-! ## Default constructors -/

/-- The default constructors look the same. -/
theorem defaultConstructor_follows (keeps : TypeKeeps t d d') :
    StepFollows t (fun m m' => m.look t.mergeAdded = m'.look t.mergeAdded)
      (defaultConstructor d type instances) (defaultConstructor d' type instances') := by
  unfold defaultConstructor
  rw [keeps.head, keeps.name_eq]
  refine .bind (.ask_same fun _ grown => grown.typeAt type)
    fun descriptor descriptor' ⟨_, same⟩ => ?_
  rw [same]
  refine .bind (.ask_same fun _ grown => grown.superclass type)
    fun superclass superclass' ⟨_, same⟩ => ?_
  rw [same]
  refine .bind (newConstructor_follows _ superclass _) fun id id' ⟨super, super'⟩ => ?_
  refine .bind (newConstructor_follows _ type _) fun own own' ⟨added, added'⟩ => ?_
  refine .bind (superCall_follows super super') fun call call' calls => .mint fun s s' => ?_
  -- The handle of the constructor is new, too.
  refine Prod.ext ?_ (congrArg some (Prod.ext rfl (congrArg₂ List.cons calls list)))
  show MethodHead.mk _ _ _ _ _ _ _ (t.mergeAdded (some own)) _ =
    MethodHead.mk _ _ _ _ _ _ _ (t.mergeAdded (some own')) _
  rw [BindingTable.mergeAdded_eq added added']
  rfl

/-- Adding default constructors keeps the relation between the types. -/
theorem addDefaultConstructor_follows (keeps : TypeKeeps t d d') :
    EditFollows t (TypeKeeps t) (addDefaultConstructor type instances d)
      (addDefaultConstructor type instances' d') := by
  refine .editBy (.bind (defaultConstructor_follows list keeps) fun m m' made => ?_)
  refine .bind (.count _ _) fun _ _ _ => .pure ⟨keeps.head, ?_⟩
  exact List.rel_append keeps.members (.cons (.method made) .nil)

/-- So does the pass for instances. -/
theorem lowerInstances_follows (keeps : TypeKeeps t d d') :
    EditFollows t (TypeKeeps t) (lowerInstances type instances d)
      (lowerInstances type instances' d') := by
  refine .seq (lowerConstructors_follows list keeps) fun d d' keeps => ?_
  have declared : d.constructors.isEmpty = d'.constructors.isEmpty := by
    rw [← List.isEmpty_map (f := MethodDecl.look t.mergeAdded), keeps.constructors,
      List.isEmpty_map]
  rw [declared]
  split
  · exact addDefaultConstructor_follows list keeps
  · exact .keep keeps

end

/-! ## The static routine -/

/-- What a type is left with when it has its static routine: only a method is added, and its name
was free. -/
theorem lowerStatics_routine {statics : List Stmt}
    (run : lowerStatics options type statics d s = (.done d', s')) :
    d'.head = d.head ∧ d'.constructors = d.constructors ∧ d'.fields = d.fields ∧
      (if statics = [] then d' = d
      else d.findMethod? options.classInitializerName 0 = none ∧
        routineStatements options.classInitializerName d' = statics) := by
  rcases lowerStatics_cases run with ⟨nothing, rfl, -⟩ | ⟨something, run⟩
  · rw [if_pos nothing]
    exact ⟨rfl, rfl, rfl, rfl⟩
  · obtain ⟨free, rfl, -⟩ := addClassInitializer_ok run
    rw [if_neg something]
    exact ⟨rfl, constructors_appendMethod rfl, fields_appendMethod _ _, free,
      routineStatements_appendMethod free _ _ _ _⟩

/-- A static routine is added if its name is free. -/
theorem lowerStatics_done_of_free (options : Options) {descriptor : TypeDescriptor}
    (found : t.typeAt type = .ok descriptor)
    (free : d.findMethod? options.classInitializerName 0 = none) (grown : t.Grows s.table)
    (statics : List Stmt) :
    ∃ d' s', lowerStatics options type statics d s = (.done d', s') := by
  have ended : (lowerStatics options type statics d).Ends (State.After t) _ _ :=
    lowerStatics_ends found
  rcases run : lowerStatics options type statics d s with ⟨⟨d'⟩ | ⟨d', e⟩, s'⟩
  · exact ⟨d', s', rfl⟩
  · obtain ⟨-, taken, -⟩ := ended.of_stopped grown run
    rw [← isSome_findMethod?, free] at taken
    cases taken

/-- A name that is free for the first type is free for the second, so that fewer statements for the
static routine are no reason to fail. -/
theorem lowerStatics_follows {x : TypeDecl} {descriptor : TypeDescriptor}
    {statics statics' : List Stmt} (found : t.typeAt type = .ok descriptor)
    (keeps : TypeKeeps t d d')
    (thinned : Thinned t.mergeAdded (AssignsText t (fragmentsOf x)) statics statics') :
    EditFollows t (EncodingOrdered t routine x) (lowerStatics ⟨routine, .ascii⟩ type statics d)
      (lowerStatics ⟨routine, .cpp⟩ type statics' d') := by
  intro s a s₁ s' grown grown' run
  refine ⟨grown.trans ((lowerStatics_moves _ _ _ _).run run), ?_⟩
  obtain ⟨head, constructors, fields, added⟩ := lowerStatics_routine run
  have follows : ∃ c s₁', lowerStatics ⟨routine, .cpp⟩ type statics' d' s' = (.done c, s₁') ∧
      Thinned t.mergeAdded (AssignsText t (fragmentsOf x)) (routineStatements routine a)
        (routineStatements routine c) := by
    split at added
    · rename_i nothing
      subst nothing added
      obtain rfl := thinned.eq_nil
      exact ⟨d', s', rfl,
        .of_look (routineStatements_look (TypeDecl.methods_of_alike keeps.members))⟩
    · obtain ⟨free, runs⟩ := added
      have free' : d'.findMethod? routine 0 = none := keeps.free free
      obtain ⟨c, s₁', run'⟩ := lowerStatics_done_of_free ⟨routine, .cpp⟩ found free' grown' statics'
      refine ⟨c, s₁', run', ?_⟩
      obtain ⟨-, -, -, added'⟩ := lowerStatics_routine run'
      rw [runs]
      split at added'
      · rename_i nothing
        rw [added', routineStatements_of_free free', ← nothing]
        exact thinned
      · rw [added'.2]
        exact thinned
  obtain ⟨c, s₁', run', statics⟩ := follows
  obtain ⟨head', constructors', fields', -⟩ := lowerStatics_routine run'
  refine ⟨c, s₁', run', ⟨?_, ?_, ?_, statics⟩, grown'.trans ((lowerStatics_moves _ _ _ _).run run')⟩
  · rw [head, head', keeps.head]
  · rw [constructors, constructors']
    exact keeps.constructors
  · rw [fields, fields']
    exact TypeDecl.fields_of_alike keeps.members

/-! ## Types -/

/-- Types with the members of one and the same type, up to the contents of the types inside, are
lowered for both encodings if they are for the plain one. -/
theorem lowerOwn_follows {x d e : TypeDecl} {descriptor : TypeDescriptor}
    (found : t.typeAt type = .ok descriptor) (head : d.head = x.head) (head' : e.head = x.head)
    (alike : List.Forall₂ (Member.Alike t.mergeAdded Eq) x.members d.members)
    (alike' : List.Forall₂ (Member.Alike t.mergeAdded Eq) x.members e.members)
    (isInterface : Bool) :
    EditFollows t (EncodingOrdered t routine x) (lowerOwn ⟨routine, .ascii⟩ type isInterface d)
      (lowerOwn ⟨routine, .cpp⟩ type isInterface e) := by
  have both : List.Forall₂ (Member.Alike t.mergeAdded Eq) d.members e.members :=
    forall₂_trans (fun _ _ _ first second => first.symm.trans second) alike.flip alike'
  have fields : d.fields = x.fields :=
    (List.forall₂_eq_eq_eq ▸ TypeDecl.fields_of_alike alike : x.fields = d.fields).symm
  have fragments : fragmentsOf d = fragmentsOf x := by
    rw [fragmentsOf, fields, fragmentsOf]
  refine .andThen (collect_follows isInterface (head'.trans head.symm) both)
    fun (d, lists) (e, lists')
    ⟨heads, members, thins⟩ => ?_
  rw [fragments] at thins
  have keeps : TypeKeeps t d e := ⟨heads, members⟩
  refine .seq (R := TypeKeeps t) ?_ fun d e keeps => lowerStatics_follows found keeps thins.statics
  split
  · exact .keep keeps
  · exact lowerInstances_follows thins.instances keeps

/-- A type that is lowered for the plain encoding is lowered for the narrow one. -/
theorem lowerType_follows (levels : Nat) (d : TypeDecl) :
    EditFollows t (fun _ _ => True) (lowerType ⟨routine, .ascii⟩ levels d)
      (lowerType ⟨routine, .cpp⟩ levels d) := by
  induction levels generalizing d with
  | zero => exact fun _ _ _ _ _ _ run => absurd run Edit.stop_ne_done
  | succ levels ih =>
    intro s a s₁ s' grown grown' run
    refine ⟨grown.trans ((lowerType_moves _ _ _).run run), ?_⟩
    obtain ⟨type, descriptor, d₁, s₂, s₃, bound, described, nested, own, -⟩ := lowerType_steps run
    obtain ⟨listed, head, -⟩ := lowerNested_done nested
    have grown₂ : t.Grows s₂.table :=
      grown.trans ((lowerNested_moves (lowerType_moves _ levels) d).run nested)
    -- The types inside were lowered for the plain encoding, so none of them fails for the narrow
    -- one.
    have inside : ∀ x ∈ d.inner, (lowerType ⟨routine, .cpp⟩ levels x).Ends (State.After t)
        (fun _ => True)
          fun _ => False := by
      intro x hx s after
      obtain ⟨y, s₄, s₅, before, step, -⟩ :=
        Edit.exists_run_of_mem State.Grows.refl State.Grows.trans
        (lowerType_moves _ levels) listed hx
      obtain ⟨-, e, s₆, run', -, grown₆⟩ := ih x (grown.trans before) after step
      rw [run']
      exact ⟨trivial, grown₆⟩
    have ended := lowerNested_ends inside s' grown'
    rcases nested' : lowerNested (lowerType ⟨routine, .cpp⟩ levels) d s' with ⟨⟨e₁⟩ | ⟨e₁, e⟩, s₄⟩
    · rw [nested'] at ended
      obtain ⟨⟨⟨-, head'⟩, -⟩, grown₄⟩ := ended
      rw [grown.typeAt] at described
      obtain ⟨-, c, s₅, own', -, grown₅⟩ := lowerOwn_follows described head head'
        (lowerNested_alike (fun _ _ _ _ => lowerType_head) nested)
        (lowerNested_alike (fun _ _ _ _ => lowerType_head) nested') _ grown₂ grown₄ own
      rw [← grown'.typeAt] at described
      refine ⟨c, { s₅ with stats := { s₅.stats with types := s₅.stats.types + 1 } }, ?_, trivial,
        grown₅⟩
      refine lowerType_eq_done.mpr
        ⟨(type, descriptor.isInterface), s', identify_run bound described, ?_⟩
      exact Edit.seq_eq_done.mpr ⟨c, s₅, Edit.seq_eq_done.mpr ⟨e₁, s₄, nested', own'⟩, rfl⟩
    · rw [nested'] at ended
      exact ended.elim

end Lowering

end ClassInit
