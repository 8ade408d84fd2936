import ClassInit.Proofs.Lowering.Frame
import ClassInit.Proofs.Lowering.Rules

/-!
# What collecting does to the members

Collecting takes the members apart as `FragmentLowered` and `initList` say: what is left of them is
told by `MemberCollected`, and the two lists are, up to node ids, those of `initList`
(`collect_done`).
-/

set_option autoImplicit false

namespace ClassInit.Lowering

/-! ## Collecting -/

namespace InitLists

@[simp] theorem add_nil (l : InitLists) (once : Bool) : l.add once [] = l := by
  cases once <;> simp [add]

theorem add_add (l : InitLists) (once : Bool) (a b : List Stmt) :
    (l.add once a).add once b = l.add once (a ++ b) := by
  cases once <;> simp [add]

/-- The list for instances, or for the type. -/
def get (l : InitLists) (once : Bool) : List Stmt := if once then l.statics else l.instances

theorem get_add (l : InitLists) (once once' : Bool) (ss : List Stmt) :
    (l.add once ss).get once' = l.get once' ++ if once = once' then ss else [] := by
  cases once <;> cases once' <;> simp [add, get]

end InitLists

theorem eligibility_eq_ok {options : Options} {name : String} {once : Bool} {f : Fragment}
    {v : VariableId} {e : Expr} {fate : Eligibility} {s s' : State} :
    (eligibility options name once f v e).run s = (.ok fate, s') ↔
      (if once then classify s.table options.literalEncoding e v = .ok fate
        else fate = .demote) ∧ s = s' := by
  unfold eligibility
  cases once with
  | true =>
    rw [if_pos rfl, if_pos rfl]
    exact ask_eq_ok
  | false =>
    rw [if_neg Bool.false_ne_true, if_neg Bool.false_ne_true, Step.pure_eq_ok, eq_comm (a := fate)]

/-- The assignment that is made for a demoted initializer. -/
theorem assignmentOf_same {f : Fragment} {v : VariableId} (bound : f.binding = some v) (e : Expr)
    (s : IdSupply) : SameStmts [(assignmentOf f v e s).1] [assignmentTo f e] := by
  unfold SameStmts
  rw [List.map_singleton, List.map_singleton, assignmentTo, bound]
  rfl

variable {t : BindingTable} {options : Options} {name : String} {isInterface : Bool}
variable {s s' : State}

/-- What collecting a fragment does: the fragment and the lists that it leaves, and the state. -/
inductive FragmentCollected (options : Options) (once : Bool) (type : TypeRef) (lists : InitLists)
    (f : Fragment) (s : State) : Fragment → InitLists → State → Prop where
  | bare : f.initializer = none → FragmentCollected options once type lists f s f lists s
  | moved {e : Expr} {v : VariableId} : f.initializer = some e → f.binding = some v → once = false →
      FragmentCollected options once type lists f s { f with initializer := none }
        (lists.add once [(assignmentOf f v e s.supply).1])
        { s with supply := (assignmentOf f v e s.supply).2
                 stats := { s.stats with instanceAssignments := s.stats.instanceAssignments + 1 } }
  | kept {e : Expr} {v : VariableId} : f.initializer = some e → f.binding = some v → once = true →
      classify s.table options.literalEncoding e v = .ok .keep →
      FragmentCollected options once type lists f s f lists
        { s with stats := { s.stats with keptLiterals := s.stats.keptLiterals + 1 } }
  | folded {e : Expr} {v : VariableId} {c : Constant} : f.initializer = some e →
    f.binding = some v → once = true →
      classify s.table options.literalEncoding e v = .ok (.fold c) →
      FragmentCollected options once type lists f s
        { f with initializer := some (literalFor ⟨s.supply.next⟩ c type) } lists
        { s with supply := ⟨s.supply.next + 1⟩
                 stats := { s.stats with foldedLiterals := s.stats.foldedLiterals + 1 } }
  | demoted {e : Expr} {v : VariableId} : f.initializer = some e → f.binding = some v →
    once = true →
      classify s.table options.literalEncoding e v = .ok .demote →
      FragmentCollected options once type lists f s { f with initializer := none }
        (lists.add once [(assignmentOf f v e s.supply).1])
        { s with supply := (assignmentOf f v e s.supply).2
                 stats := { s.stats with staticAssignments := s.stats.staticAssignments + 1 } }

theorem collectFragment_collected {once : Bool} {type : TypeRef} {lists lists' : InitLists}
    {f f' : Fragment}
    (run : (collectFragment options name once type lists f).run s = (.ok (f', lists'), s')) :
    FragmentCollected options once type lists f s f' lists' s' := by
  unfold collectFragment at run
  split at run
  · rename_i bare
    obtain ⟨same, rfl⟩ := Step.pure_eq_ok.mp run
    cases same
    exact .bare bare
  · exact absurd run Step.throw_ne_ok
  · rename_i e v init bound
    obtain ⟨fate, s₁, asked, run⟩ := Step.bind_eq_ok.mp run
    obtain ⟨decided, rfl⟩ := eligibility_eq_ok.mp asked
    cases once with
    | false =>
      -- Instance initializers are demoted unasked.
      cases decided
      cases run
      exact .moved init bound rfl
    | true =>
      rw [if_pos rfl] at decided
      cases fate with
      | keep =>
        cases run
        exact .kept init bound rfl decided
      | fold c =>
        cases run
        exact .folded init bound rfl decided
      | demote =>
        cases run
        exact .demoted init bound rfl decided

theorem FragmentCollected.table {once : Bool} {type : TypeRef} {lists lists' : InitLists}
    {f f' : Fragment} (collected : FragmentCollected options once type lists f s f' lists' s') :
    s'.table = s.table := by
  cases collected <;> rfl

/-- What collecting the fragments of a declaration does, one after the other. -/
inductive FragmentsCollected (options : Options) (once : Bool) (type : TypeRef) :
    InitLists → List Fragment → State → List Fragment → InitLists → State → Prop where
  | nil (lists : InitLists) (s : State) : FragmentsCollected options once type lists [] s [] lists s
  | cons {lists lists₁ lists' : InitLists} {f f' : Fragment} {fs fs' : List Fragment}
    {s s₁ s' : State} :
      FragmentCollected options once type lists f s f' lists₁ s₁ →
      FragmentsCollected options once type lists₁ fs s₁ fs' lists' s' →
      FragmentsCollected options once type lists (f :: fs) s (f' :: fs') lists' s'

theorem FragmentsCollected.table {once : Bool} {type : TypeRef} {lists lists' : InitLists}
    {fs fs' : List Fragment}
    (collected : FragmentsCollected options once type lists fs s fs' lists' s') :
    s'.table = s.table := by
  induction collected with
  | nil => rfl
  | cons one _ ih => exact ih.trans one.table

theorem collectFragments_collected {once : Bool} {type : TypeRef} {lists lists' : InitLists}
    {fs fs' : List Fragment}
    (run : (collectFragments options name once type lists fs).run s = (.ok (fs', lists'), s')) :
    FragmentsCollected options once type lists fs s fs' lists' s' := by
  induction fs generalizing lists fs' s with
  | nil =>
    obtain ⟨same, rfl⟩ := Step.pure_eq_ok.mp run
    cases same
    exact .nil _ _
  | cons f fs ih =>
    obtain ⟨⟨f', lists₁⟩, s₁, one, run⟩ := Step.bind_eq_ok.mp run
    obtain ⟨⟨fs', lists₂⟩, s₂, rest, run⟩ := Step.bind_eq_ok.mp run
    obtain ⟨same, rfl⟩ := Step.pure_eq_ok.mp run
    cases same
    exact .cons (collectFragment_collected one) (ih rest)

/-- What collecting the members of a type does, one after the other. -/
inductive MembersCollected (options : Options) (isInterface : Bool) :
    InitLists → List Member → State → List Member → InitLists → State → Prop where
  | nil (lists : InitLists) (s : State) : MembersCollected options isInterface lists [] s [] lists s
  | initializer {lists lists' : InitLists} {i : InitializerDecl} {ms ms' : List Member}
    {s s' : State} :
      MembersCollected options isInterface
        (lists.add i.isStatic (contribution i.body s.supply).1) ms
        { s with supply := (contribution i.body s.supply).2
                 stats := { s.stats with initializerBlocks := s.stats.initializerBlocks + 1 } } ms'
                   lists' s' →
      MembersCollected options isInterface lists (.initializer i :: ms) s ms' lists' s'
  | field {lists lists₁ lists' : InitLists} {f : FieldDecl} {fs : List Fragment}
    {ms ms' : List Member}
      {s s₁ s' : State} :
      FragmentsCollected options (isOnce isInterface f) f.type lists f.fragments s fs lists₁ s₁ →
      MembersCollected options isInterface lists₁ ms s₁ ms' lists' s' →
      MembersCollected options isInterface lists (.field f :: ms) s
        (.field { f with fragments := fs } :: ms')
        lists' s'
  | type (d : TypeDecl) {lists lists' : InitLists} {ms ms' : List Member} {s s' : State} :
      MembersCollected options isInterface lists ms s ms' lists' s' →
      MembersCollected options isInterface lists (.type d :: ms) s (.type d :: ms') lists' s'
  | method (m : MethodDecl) {lists lists' : InitLists} {ms ms' : List Member} {s s' : State} :
      MembersCollected options isInterface lists ms s ms' lists' s' →
      MembersCollected options isInterface lists (.method m :: ms) s (.method m :: ms') lists' s'

theorem collectMembers_collected {lists lists' : InitLists} {ms ms' : List Member}
    (run : collectMembers options name isInterface lists ms s = (.done (ms', lists'), s')) :
    MembersCollected options isInterface lists ms s ms' lists' s' := by
  induction ms generalizing lists ms' s with
  | nil =>
    obtain ⟨same, rfl⟩ := Edit.keep_eq_done.mp run
    cases same
    exact .nil _ _
  | cons m ms ih =>
    cases m with
    | initializer i =>
      obtain ⟨lists₁, s₁, block, rest⟩ := Edit.andThen_eq_done.mp run
      cases Edit.ofState_eq_done.mp block
      exact .initializer (ih rest)
    | field f =>
      obtain ⟨⟨g, lists₁⟩, s₁, field, run⟩ := Edit.andThen_eq_done.mp run
      obtain ⟨⟨ms₁, lists₂⟩, rest, same⟩ := Edit.map_eq_done.mp run
      cases same
      obtain ⟨⟨fs, lists₃⟩, s₂, fragments, run⟩ := Step.bind_eq_ok.mp (editBy_eq_done.mp field)
      obtain ⟨same, rfl⟩ := Step.pure_eq_ok.mp run
      cases same
      exact .field (collectFragments_collected fragments) (ih rest)
    | type d =>
      obtain ⟨⟨ms₁, lists₁⟩, rest, same⟩ := Edit.map_eq_done.mp run
      cases same
      exact .type d (ih rest)
    | method m =>
      obtain ⟨⟨ms₁, lists₁⟩, rest, same⟩ := Edit.map_eq_done.mp run
      cases same
      exact .method m (ih rest)

/-! ## What is collected -/

/-- A collected fragment comes out by the rules, and its initializer goes to the list of its
kind. -/
theorem FragmentCollected.lowered {once : Bool} {type : TypeRef} {lists lists' : InitLists}
    {f f' : Fragment} (grown : t.Grows s.table)
    (collected : FragmentCollected options once type lists f s f' lists' s') :
    FragmentLowered t options.literalEncoding once type f f' ∧
      ∃ added, lists' = lists.add once added ∧
        SameStmts added (fragmentInit t options.literalEncoding once f) := by
  cases collected with
  | bare init =>
    refine ⟨.bare init, [], (InitLists.add_nil _ _).symm, ?_⟩
    rw [fragmentInit, init]
    exact SameStmts.refl []
  | @moved e v init bound once =>
    have runs : fragmentInit t options.literalEncoding false f = [assignmentTo f e] := by
      simp only [fragmentInit, init, hasToRun, Bool.not_false, Bool.true_or, if_true]
    subst once
    exact ⟨.moved init bound rfl, _, rfl, runs ▸ assignmentOf_same bound e _⟩
  | kept init bound once keep =>
    subst once
    rw [grown.classify] at keep
    refine ⟨.kept init bound rfl keep, [], (InitLists.add_nil _ _).symm, ?_⟩
    simp only [fragmentInit, init, hasToRun_of_classify bound keep, Bool.false_eq_true, if_false]
    exact SameStmts.refl []
  | folded init bound once fold =>
    subst once
    rw [grown.classify] at fold
    refine ⟨.folded init bound rfl fold, [], (InitLists.add_nil _ _).symm, ?_⟩
    simp only [fragmentInit, init, hasToRun_of_classify bound fold, Bool.false_eq_true, if_false]
    exact SameStmts.refl []
  | @demoted e v init bound once demote =>
    subst once
    rw [grown.classify] at demote
    have runs : fragmentInit t options.literalEncoding true f = [assignmentTo f e] := by
      simp only [fragmentInit, init, hasToRun_of_classify bound demote, if_true]
    exact ⟨.demoted init bound rfl demote, _, rfl, runs ▸ assignmentOf_same bound e _⟩

theorem FragmentsCollected.lowered {once : Bool} {type : TypeRef} {lists lists' : InitLists}
    {fs fs' : List Fragment} (grown : t.Grows s.table)
    (collected : FragmentsCollected options once type lists fs s fs' lists' s') :
    List.Forall₂ (FragmentLowered t options.literalEncoding once type) fs fs' ∧
      ∃ added, lists' = lists.add once added ∧
        SameStmts added (fs.flatMap (fragmentInit t options.literalEncoding once)) := by
  induction collected with
  | nil => exact ⟨.nil, [], (InitLists.add_nil _ _).symm, SameStmts.refl []⟩
  | cons one _ ih =>
    obtain ⟨lowered, added, rfl, same⟩ := one.lowered grown
    obtain ⟨rest, added', rfl, same'⟩ := ih (one.table ▸ grown)
    exact ⟨.cons lowered rest, added ++ added', InitLists.add_add _ _ _ _, same.append same'⟩

/-- What a pass over members keeps of a member: a surviving member has lowered fields. -/
inductive MemberCollected (t : BindingTable) (encoding : LiteralEncoding) (isInterface : Bool) :
    Member → Member → Prop where
  | type (d : TypeDecl) : MemberCollected t encoding isInterface (.type d) (.type d)
  | method (m : MethodDecl) : MemberCollected t encoding isInterface (.method m) (.method m)
  | field {f : FieldDecl} {fs : List Fragment} :
      List.Forall₂ (FragmentLowered t encoding (isOnce isInterface f) f.type) f.fragments fs →
      MemberCollected t encoding isInterface (.field f) (.field { f with fragments := fs })

/-- Collecting leaves the methods as they are. -/
theorem methods_of_collected {encoding : LiteralEncoding} {ms ms' : List Member}
    (collected : List.Forall₂ (MemberCollected t encoding isInterface) (ms.filter survives) ms') :
    ms'.filterMap Member.asMethod = ms.filterMap Member.asMethod := by
  induction ms generalizing ms' with
  | nil =>
    cases collected
    rfl
  | cons m ms ih =>
    cases m with
    | initializer i => exact ih collected
    | method c =>
      cases collected with
      | cons one rest =>
        cases one
        exact congrArg (c :: ·) (ih rest)
    | type d | field f =>
      cases collected with
      | cons one rest =>
        cases one
        have later := ih rest
        exact later

theorem contribution_same (b : Block) (s : IdSupply) :
    SameStmts (contribution b s).1 (blockInit b) := by
  unfold contribution blockInit
  split
  · exact SameStmts.refl _
  · exact SameStmts.refl _

/-- Collecting drops the initializer blocks, lowers the fields, and lists what has to run in
declaration order. -/
theorem MembersCollected.lowered {lists lists' : InitLists} {ms ms' : List Member}
    (grown : t.Grows s.table)
    (collected : MembersCollected options isInterface lists ms s ms' lists' s') :
    List.Forall₂ (MemberCollected t options.literalEncoding isInterface)
        (ms.filter survives) ms' ∧
      ∀ once, ∃ added, lists'.get once = lists.get once ++ added ∧
        SameStmts added (initList t options.literalEncoding isInterface once ms) := by
  induction collected with
  | nil => exact ⟨.nil, fun once => ⟨[], (List.append_nil _).symm, SameStmts.refl []⟩⟩
  | @initializer _ _ i _ _ s _ _ ih =>
    obtain ⟨kept, listed⟩ := ih grown
    refine ⟨kept, fun once => ?_⟩
    obtain ⟨added, hadded, same⟩ := listed once
    -- A block goes to the list of its own kind and adds nothing to the other.
    refine ⟨_ ++ added, ?_, SameStmts.append (a := if i.isStatic = once then
      (contribution i.body s.supply).1 else []) ?_ same⟩
    · rw [hadded, InitLists.get_add, List.append_assoc]
    · simp only [memberInit]
      split
      · exact contribution_same _ _
      · exact SameStmts.refl []
  | @field _ _ _ f _ _ _ _ _ _ fragments _ ih =>
    obtain ⟨lowered, added, rfl, same⟩ := fragments.lowered grown
    obtain ⟨kept, listed⟩ := ih (fragments.table ▸ grown)
    refine ⟨.cons (.field lowered) kept, fun once => ?_⟩
    obtain ⟨added', hadded', same'⟩ := listed once
    refine ⟨_ ++ added', ?_, SameStmts.append
      (a := if isOnce isInterface f = once then added else []) ?_ same'⟩
    · rw [hadded', InitLists.get_add, List.append_assoc]
    · simp only [memberInit]
      split
      · rename_i eq
        rw [← eq]
        exact same
      · exact SameStmts.refl []
  | type d _ ih =>
    obtain ⟨kept, listed⟩ := ih grown
    exact ⟨.cons (.type d) kept, listed⟩
  | method m _ ih =>
    obtain ⟨kept, listed⟩ := ih grown
    exact ⟨.cons (.method m) kept, listed⟩

theorem collect_done {d d' : TypeDecl} {lists : InitLists} (grown : t.Grows s.table)
    (run : collect options isInterface d s = (.done (d', lists), s')) : d'.head = d.head ∧
      List.Forall₂ (MemberCollected t options.literalEncoding isInterface)
        (d.members.filter survives) d'.members ∧
      SameStmts lists.instances
        (initList t options.literalEncoding isInterface false d.members) ∧
      SameStmts lists.statics
        (initList t options.literalEncoding isInterface true d.members) := by
  obtain ⟨⟨ms, lists₁⟩, hms, h⟩ := Edit.map_eq_done.mp run
  obtain ⟨rfl, rfl⟩ := Prod.mk.inj h
  obtain ⟨kept, listed⟩ := (collectMembers_collected hms).lowered grown
  obtain ⟨instances, hinstances, same⟩ := listed false
  obtain ⟨statics, hstatics, same'⟩ := listed true
  refine ⟨rfl, kept, ?_, ?_⟩
  · have eq : lists₁.instances = instances := hinstances
    rw [eq]
    exact same
  · have eq : lists₁.statics = statics := hstatics
    rw [eq]
    exact same'

end ClassInit.Lowering
