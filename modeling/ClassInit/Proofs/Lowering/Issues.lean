import ClassInit.Proofs.Lowering.Entries
import ClassInit.Proofs.Tree.InnerIds

/-!
# The ids that lowering a type takes

Lowering moves, copies, makes and drops nodes. Its ledger (`IdSupply.Issues`) says how many ids a
step takes from the supply and that the nodes it leaves have no more than these and the ids of the
nodes it was given, each of them as often as it was there. How many ids a type takes is told by its
members and by the statements that initialize it (`ownTaken`).
-/

set_option autoImplicit false

namespace ClassInit

theorem Stmt.idsOf_append (ss ss' : List Stmt) :
    Stmt.idsOf (ss ++ ss') = Stmt.idsOf ss ++ Stmt.idsOf ss' := by
  induction ss with
  | nil => rfl
  | cons s ss ih => rw [List.cons_append, Stmt.idsOf, Stmt.idsOf, ih, List.append_assoc]

theorem Member.idsOf_append (ms ms' : List Member) :
    Member.idsOf (ms ++ ms') = Member.idsOf ms ++ Member.idsOf ms' := by
  induction ms with
  | nil => rfl
  | cons m ms ih => rw [List.cons_append, Member.idsOf, Member.idsOf, ih, List.append_assoc]

/-! ## The ledger -/

/-- So many ids are taken from the supply, and together with the ids of the first list they make up
those of the second. -/
structure IdSupply.Issues (n : Nat) (ids ids' : List NodeId) (s s' : IdSupply) : Prop where
  supply : s' = s.after n
  counts : ∀ j, ids'.count j ≤ ids.count j + (s.handOut n).count j

namespace IdSupply.Issues

variable {m n : Nat} {a b c d before after : List NodeId} {s s₁ s' : IdSupply}

/-- Nothing is taken where ids are only dropped. -/
theorem none (fewer : ∀ j, after.count j ≤ before.count j) (s : IdSupply) :
    Issues 0 before after s s := ⟨rfl, fun j => fewer j⟩

/-- What a step does to some of the ids, among others that it leaves alone. -/
theorem within (step : Issues n a b s s')
    (balance : ∀ j, after.count j + a.count j ≤ before.count j + b.count j) :
    Issues n before after s s' := by
  refine ⟨step.supply, fun j => ?_⟩
  have balanced := balance j
  have counted := step.counts j
  omega

/-- What two steps do, one after the other. -/
theorem both (first : Issues m a b s s₁) (second : Issues n c d s₁ s')
    (balance : ∀ j, after.count j + (a.count j + c.count j) ≤
      before.count j + (b.count j + d.count j)) :
    Issues (m + n) before after s s' := by
  obtain ⟨rfl, counted⟩ := first
  obtain ⟨rfl, counted'⟩ := second
  refine ⟨(after_add s m n).symm, fun j => ?_⟩
  have balanced := balance j
  have firstCount := counted j
  have secondCount := counted' j
  rw [handOut_add, List.count_append]
  omega

/-- What two steps take from the supply adds up. -/
theorem trans (first : Issues m a b s s₁) (second : Issues n b c s₁ s') :
    Issues (m + n) a c s s' := first.both second fun _ => by omega

end IdSupply.Issues

open IdSupply (Issues)

/-- The sum of what single edits of a list cost, each in the state in which it starts. -/
def Edit.total {σ ε α : Type} (cost : α → σ → Nat) (f : α → Edit σ ε α) : List α → σ → Nat
  | [], _ => 0
  | a :: as, s => cost a s + Edit.total cost f as (f a s).2

namespace Lowering

/-- A list of edits takes what the single edits take. -/
theorem list_issues {α : Type} {f : α → Edit State Failure α} {cost : α → State → Nat}
    (ids : α → List NodeId) (Inv : State → Prop)
    (step : ∀ a b s s', Inv s → f a s = (.done b, s') →
      Inv s' ∧ Issues (cost a s) (ids a) (ids b) s.supply s'.supply)
    {as bs : List α} {s s' : State} (start : Inv s) (run : Edit.list f as s = (.done bs, s')) :
    Issues (Edit.total cost f as s) (as.flatMap ids) (bs.flatMap ids) s.supply s'.supply := by
  induction as generalizing bs s with
  | nil =>
    obtain ⟨rfl, rfl⟩ := Edit.list_nil_eq_done.mp run
    exact .none (fun _ => Nat.le_refl _) _
  | cons a as ih =>
    obtain ⟨b, s₁, cs, hb, hcs, rfl⟩ := Edit.list_cons_eq_done.mp run
    obtain ⟨inv, first⟩ := step a b s s₁ start hb
    rw [Edit.total, hb]
    refine first.both (ih inv hcs) fun j => ?_
    rw [List.flatMap_cons, List.flatMap_cons, List.count_append, List.count_append]
    omega

theorem SameStmts.length_idsOf {ss ss' : List Stmt} (same : SameStmts ss ss') :
    (Stmt.idsOf ss).length = (Stmt.idsOf ss').length := by
  unfold SameStmts at same
  rw [← Stmt.length_idsOf_erase id ss, Stmt.eraseAll_eq_map, same, ← Stmt.eraseAll_eq_map,
    Stmt.length_idsOf_erase]

/-! ## What is taken -/

/-- An assignment takes an id for its target, for itself and for its statement. -/
def Eligibility.taken : Eligibility → Nat
  | .keep => 0
  | .fold _ => 1
  | .demote => 3

section

variable (t : BindingTable) (encoding : LiteralEncoding)

def fragmentTaken (once : Bool) (f : Fragment) : Nat :=
  match f.initializer, f.binding with
  | some e, some v =>
    if once then
      match classify t encoding e v with
      | .ok fate => fate.taken
      | .error _ => 0
    else Eligibility.demote.taken
  | _, _ => 0

/-- A block that declares names is wrapped. -/
def blockTaken (b : Block) : Nat := if b.statements.any declaresName then 1 else 0

def memberTaken (isInterface : Bool) : Member → Nat
  | .field f => (f.fragments.map (fragmentTaken t encoding (isOnce isInterface f))).sum
  | .initializer i => blockTaken i.body
  | .type _ => 0
  | .method _ => 0

/-- A designated constructor gets a copy of the instance list, with so many nodes, and a call if it
has none. -/
def constructorTaken (listed : Nat) (m : MethodDecl) : Nat :=
  if m.isDesignated then m.isSilent.toNat + listed else 0

end

/-- The number of ids that a class or enum takes for its instances, where `listed` is the number of
nodes of its instance list. A default constructor takes one for its call, its body and itself. -/
def instancesTaken (listed : Nat) (d : TypeDecl) : Nat :=
  (d.methods.map (constructorTaken listed)).sum + if d.constructors = [] then 3 else 0

/-- The number of ids that lowering a type takes, apart from the types in it. A static routine takes
one for its body and one for itself. -/
def ownTaken (options : Options) (t : BindingTable) (isInterface : Bool) (d : TypeDecl) : Nat :=
  (d.members.map (memberTaken t options.literalEncoding isInterface)).sum +
    ((if isInterface then 0
      else instancesTaken
        (Stmt.idsOf (initList t options.literalEncoding isInterface false d.members)).length d) +
    if initList t options.literalEncoding isInterface true d.members = [] then 0 else 2)

/-! ## Collecting -/

def InitLists.ids (l : InitLists) : List NodeId := Stmt.idsOf l.instances ++ Stmt.idsOf l.statics

/-- An id is listed as often as it was and as it is in the statements added. -/
theorem InitLists.count_ids_add (l : InitLists) (once : Bool) (ss : List Stmt) (j : NodeId) :
    (l.add once ss).ids.count j = l.ids.count j + (Stmt.idsOf ss).count j := by
  cases once with
  | true =>
    show (Stmt.idsOf l.instances ++ Stmt.idsOf (l.statics ++ ss)).count j = _
    rw [Stmt.idsOf_append, ← List.append_assoc, List.count_append, InitLists.ids]
  | false =>
    show (Stmt.idsOf (l.instances ++ ss) ++ Stmt.idsOf l.statics).count j = _
    rw [Stmt.idsOf_append, InitLists.ids, List.count_append, List.count_append, List.count_append]
    omega

/-- A block takes ids for what it adds to its statements. -/
theorem contribution_issues (b : Block) (s : IdSupply) :
    Issues (blockTaken b) b.ids (Stmt.idsOf (contribution b s).1) s (contribution b s).2 := by
  obtain ⟨i, ss⟩ := b
  unfold contribution blockTaken
  dsimp only
  split
  · refine ⟨rfl, fun j => ?_⟩
    show (((Block.mk i ss).ids ++ [NodeId.mk s.next]) ++ []).count j ≤
      (Block.mk i ss).ids.count j + [NodeId.mk s.next].count j
    exact Nat.le_of_eq (by rw [List.append_nil, List.count_append])
  · refine .none (fun j => ?_) s
    rw [Block.ids]
    exact List.count_le_count_cons

/-- An assignment takes three ids besides those of its value. -/
theorem assignmentOf_issues (f : Fragment) (v : VariableId) (e : Expr) (s : IdSupply) :
    Issues 3 e.ids (assignmentOf f v e s).1.ids s (assignmentOf f v e s).2 := by
  refine ⟨rfl, fun j => ?_⟩
  show (([NodeId.mk s.next] ++ (e.ids ++ [NodeId.mk (s.next + 1)])) ++
      [NodeId.mk (s.next + 1 + 1)]).count j ≤
    e.ids.count j +
      ([NodeId.mk s.next] ++ ([NodeId.mk (s.next + 1)] ++ [NodeId.mk (s.next + 1 + 1)])).count j
  simp only [List.count_append]
  omega

variable {t : BindingTable} {options : Options} {name : String} {isInterface : Bool}
variable {type : TypeId} {s s' : State}

/-- An initializer that becomes an assignment hands its ids on to the list. -/
theorem demote_issues {f : Fragment} {e : Expr} (init : f.initializer = some e) (v : VariableId)
    (once : Bool) (lists : InitLists) (s : IdSupply) : Issues 3 (f.ids ++ lists.ids)
      (({ f with initializer := none } : Fragment).ids ++
        (lists.add once [(assignmentOf f v e s).1]).ids) s
      (assignmentOf f v e s).2 := by
  refine (assignmentOf_issues f v e s).within fun j => ?_
  show ([] ++ (lists.add once _).ids).count j + _ ≤ _
  rw [List.nil_append, InitLists.count_ids_add, List.count_append, Stmt.idsOf, Stmt.idsOf,
    List.append_nil, Fragment.ids, init, Expr.idsOption]
  omega

/-- Collecting from a variable accounts for all ids it takes. -/
theorem FragmentCollected.issues {once : Bool} {fieldType : TypeRef} {lists lists' : InitLists}
    {f f' : Fragment} (grown : t.Grows s.table)
    (collected : FragmentCollected options once fieldType lists f s f' lists' s') :
    Issues (fragmentTaken t options.literalEncoding once f) (f.ids ++ lists.ids)
      (f'.ids ++ lists'.ids) s.supply s'.supply := by
  -- The table has only grown from `t`, which leaves the verdict on the fragment as it is
  -- (`Grows.classify`).
  cases collected with
  | bare init =>
    rw [fragmentTaken, init]
    exact .none (fun _ => Nat.le_refl _) _
  | @moved e v init bound once =>
    have taken : fragmentTaken t options.literalEncoding false f = 3 := by
      simp [fragmentTaken, init, bound, Eligibility.taken]
    subst once
    rw [taken]
    exact demote_issues init v false lists s.supply
  | kept init bound once keep =>
    have taken : fragmentTaken t options.literalEncoding true f = 0 := by
      rw [grown.classify] at keep
      simp [fragmentTaken, init, bound, keep, Eligibility.taken]
    subst once
    rw [taken]
    exact .none (fun _ => Nat.le_refl _) _
  | @folded e v c init bound once fold =>
    have taken : fragmentTaken t options.literalEncoding true f = 1 := by
      rw [grown.classify] at fold
      simp [fragmentTaken, init, bound, fold, Eligibility.taken]
    subst once
    rw [taken]
    refine ⟨rfl, fun j => ?_⟩
    show ([NodeId.mk s.supply.next] ++ lists.ids).count j ≤
      (f.ids ++ lists.ids).count j + [NodeId.mk s.supply.next].count j
    rw [List.count_append, List.count_append]
    omega
  | @demoted e v init bound once demote =>
    have taken : fragmentTaken t options.literalEncoding true f = 3 := by
      rw [grown.classify] at demote
      simp [fragmentTaken, init, bound, demote, Eligibility.taken]
    subst once
    rw [taken]
    exact demote_issues init v true lists s.supply

theorem FragmentsCollected.issues {once : Bool} {fieldType : TypeRef} {lists lists' : InitLists}
    {fs fs' : List Fragment} (grown : t.Grows s.table)
    (collected : FragmentsCollected options once fieldType lists fs s fs' lists' s') :
    Issues (fs.map (fragmentTaken t options.literalEncoding once)).sum
      (fs.flatMap Fragment.ids ++ lists.ids) (fs'.flatMap Fragment.ids ++ lists'.ids) s.supply
      s'.supply := by
  induction collected with
  | nil => exact .none (fun _ => Nat.le_refl _) _
  | cons one _ ih =>
    rw [List.map_cons, List.sum_cons]
    refine (one.issues grown).both (ih (one.table ▸ grown)) fun j => ?_
    simp only [List.flatMap_cons, List.count_append]
    omega

/-- A block hands the ids of its statements on to the list. -/
theorem block_issues (i : InitializerDecl) (lists : InitLists) (s : IdSupply) :
    Issues (blockTaken i.body) ((Member.initializer i).ids ++ lists.ids)
      (lists.add i.isStatic (contribution i.body s).1).ids s (contribution i.body s).2 := by
  obtain ⟨id, once, body⟩ := i
  refine (contribution_issues body s).within fun j => ?_
  show (lists.add once (contribution body s).1).ids.count j + _ ≤ _
  rw [InitLists.count_ids_add, Member.ids, List.count_append, List.count_cons]
  omega

/-- Collecting from members accounts for all ids they take. -/
theorem MembersCollected.issues {lists lists' : InitLists} {ms ms' : List Member}
    (grown : t.Grows s.table)
    (collected : MembersCollected options isInterface lists ms s ms' lists' s') :
    Issues (ms.map (memberTaken t options.literalEncoding isInterface)).sum
      (Member.idsOf ms ++ lists.ids) (Member.idsOf ms' ++ lists'.ids) s.supply s'.supply := by
  induction collected with
  | nil => exact .none (fun _ => Nat.le_refl _) _
  | @initializer lists _ i _ _ s _ _ ih =>
    rw [List.map_cons, List.sum_cons]
    refine (block_issues i lists s.supply).both (ih grown) fun j => ?_
    simp only [Member.idsOf, List.count_append]
    omega
  | field fragments _ ih =>
    rw [List.map_cons, List.sum_cons]
    refine (fragments.issues grown).both (ih (fragments.table ▸ grown)) fun j => ?_
    simp only [Member.idsOf, Member.ids, FieldDecl.ids, List.count_append, List.count_cons]
    omega
  | type | method =>
    rename_i ih
    rw [List.map_cons, List.sum_cons, memberTaken, Nat.zero_add]
    refine (ih grown).within fun j => ?_
    simp only [Member.idsOf, List.count_append]
    omega

theorem collect_issues {d d' : TypeDecl} {lists : InitLists} (grown : t.Grows s.table)
    (run : collect options isInterface d s = (.done (d', lists), s')) :
    Issues (d.members.map (memberTaken t options.literalEncoding isInterface)).sum d.ids
      (d'.ids ++ lists.ids) s.supply s'.supply := by
  obtain ⟨head, ms⟩ := d
  obtain ⟨⟨ms', lists'⟩, hms, h⟩ := Edit.map_eq_done.mp run
  obtain ⟨rfl, rfl⟩ := Prod.mk.inj h
  refine ((collectMembers_collected hms).issues grown).within fun j => ?_
  show (TypeDecl.ids ⟨head, ms'⟩ ++ lists'.ids).count j + (Member.idsOf ms ++ []).count j ≤
    (TypeDecl.ids ⟨head, ms⟩).count j + _
  simp only [TypeDecl.ids, List.count_append, List.append_nil]
  omega

/-! ## Instances -/

/-- A constructor that delegates takes no ids. -/
theorem constructorTaken_of_delegates {listed : Nat} {h : MethodHead} {b : Block}
    (delegating : delegates b.statements = true) : constructorTaken listed ⟨h, some b⟩ = 0 := by
  have designated : (MethodDecl.mk h (some b)).isDesignated = false := by
    show (h.isConstructor && !delegates b.statements) = false
    rw [delegating, Bool.not_true, Bool.and_false]
  rw [constructorTaken, designated, if_neg Bool.false_ne_true]

/-- A constructor takes ids for the copies in it and for the call that is added. -/
theorem ConstructorStep.issues {instances : List Stmt} {m m' : MethodDecl}
    (isConstructor : m.head.isConstructor = true)
    (step : ConstructorStep type instances s m m' s') :
    Issues (constructorTaken (Stmt.idsOf instances).length m) (Member.method m).ids
      (Member.method m').ids s.supply s'.supply := by
  have designated {h : MethodHead} {i : NodeInfo} {ss : List Stmt}
      (isConstructor : h.isConstructor = true)
        (runs : delegates ss = false) : (MethodDecl.mk h (some ⟨i, ss⟩)).isDesignated = true := by
    show (h.isConstructor && !delegates ss) = true
    rw [isConstructor, runs, Bool.not_false, Bool.and_true]
  cases step with
  | delegating runs =>
    rw [constructorTaken_of_delegates runs]
    exact .none (fun _ => Nat.le_refl _) _
  | @explicit h i before after call runs first isCall =>
    obtain ⟨copied, rest⟩ := Stmt.copyAll_draws instances s.supply
    rw [constructorTaken, designated isConstructor runs, if_pos rfl,
      isSilent_eq_false_of_call isCall, Bool.toNat_false, Nat.zero_add]
    refine ⟨rest, fun j => ?_⟩
    rw [← copied]
    simp only [Member.ids, Block.ids, Stmt.idsOf_append, Stmt.idsOf, List.count_append,
      List.count_cons]
    omega
  | @implicit h i ss superclass runs noCall _ =>
    -- The call takes its id before the instance list is copied.
    obtain ⟨copied, rest⟩ := Stmt.copyAll_draws instances ⟨s.supply.next + 1⟩
    rw [constructorTaken, designated isConstructor runs, if_pos rfl,
      isSilent_of_no_call isConstructor runs noCall, Bool.toNat_true]
    refine ⟨?_, fun j => ?_⟩
    · rw [IdSupply.after_add]
      exact rest
    · rw [IdSupply.handOut_add]
      show _ ≤ _ + ([NodeId.mk s.supply.next] ++
        IdSupply.handOut ⟨s.supply.next + 1⟩ (Stmt.idsOf instances).length).count j
      rw [← copied]
      simp only [Member.ids, Block.ids, Stmt.ids, Expr.idsOf, Stmt.idsOf_append, Stmt.idsOf,
        List.nil_append, List.count_append, List.count_cons]
      omega

theorem isDesignated_eq_false {m : MethodDecl} (isMethod : m.head.isConstructor = false) :
    m.isDesignated = false := by
  rw [MethodDecl.isDesignated, isMethod, Bool.false_and]

theorem lowerMembers_issues {instances : List Stmt} {ms ms' : List Member}
    (run : Edit.list (lowerMember name type instances) ms s = (.done ms', s')) : Issues
      ((ms.filterMap Member.asMethod).map (constructorTaken (Stmt.idsOf instances).length)).sum
      (Member.idsOf ms) (Member.idsOf ms') s.supply s'.supply := by
  induction ms generalizing ms' s with
  | nil =>
    obtain ⟨rfl, rfl⟩ := Edit.list_nil_eq_done.mp run
    exact .none (fun _ => Nat.le_refl _) _
  | cons m ms ih =>
    obtain ⟨m', s₁, rest, hm, hrest, rfl⟩ := Edit.list_cons_eq_done.mp run
    rcases lowerMember_steps hm with ⟨isMethod, rfl, rfl⟩ | ⟨c, c', rfl, rfl, isConstructor, step⟩
    · have nothing : (((m' :: ms).filterMap Member.asMethod).map
            (constructorTaken (Stmt.idsOf instances).length)).sum =
          ((ms.filterMap Member.asMethod).map
            (constructorTaken (Stmt.idsOf instances).length)).sum := by
        cases m' with
        | method c =>
          show constructorTaken _ c + _ = _
          rw [constructorTaken, isDesignated_eq_false isMethod, if_neg Bool.false_ne_true,
            Nat.zero_add]
          rfl
        | type d | initializer i | field f => rfl
      rw [nothing]
      refine (ih hrest).within fun j => ?_
      simp only [Member.idsOf, List.count_append]
      omega
    · refine (step.issues isConstructor).both (ih hrest) fun j => ?_
      simp only [Member.idsOf, List.count_append]
      omega

/-- A default constructor takes the initializers themselves, and ids for itself, its body and its
call. -/
theorem addDefaultConstructor_issues {instances : List Stmt} {d d' : TypeDecl}
    (run : addDefaultConstructor type instances d s = (.done d', s')) :
    Issues 3 (d.ids ++ Stmt.idsOf instances) d'.ids s.supply s'.supply := by
  obtain ⟨descriptor, superclass, -, -, rfl, rfl⟩ := addDefaultConstructor_ok run
  obtain ⟨head, ms⟩ := d
  refine ⟨rfl, fun j => ?_⟩
  show (TypeDecl.ids ⟨head, ms ++ [_]⟩).count j ≤ (TypeDecl.ids ⟨head, ms⟩ ++ _).count j +
    ([NodeId.mk s.supply.next] ++ ([NodeId.mk (s.supply.next + 1)] ++
      [NodeId.mk (s.supply.next + 1 + 1)])).count j
  simp only [TypeDecl.ids, Member.idsOf_append, Member.idsOf, Member.ids, madeMethod, Block.ids,
    Stmt.idsOf, Stmt.ids, Expr.idsOf, List.nil_append, List.append_nil, List.count_append,
    List.count_cons, List.count_nil]
  omega

/-- The nodes of the instance list are moved into a default constructor, copied, or dropped. -/
theorem lowerInstances_issues {instances : List Stmt} {d d' : TypeDecl}
    (run : lowerInstances type instances d s = (.done d', s')) :
    Issues (instancesTaken (Stmt.idsOf instances).length d) (d.ids ++ Stmt.idsOf instances) d'.ids
      s.supply s'.supply := by
  obtain ⟨ms, s₁, hms, hmade⟩ := lowerInstances_steps run
  have members : Issues (d.methods.map (constructorTaken (Stmt.idsOf instances).length)).sum d.ids
      (TypeDecl.mk d.head ms).ids s.supply s₁.supply := by
    obtain ⟨head, ms₀⟩ := d
    refine (lowerMembers_issues hms).within fun j => ?_
    simp only [TypeDecl.ids, List.count_append]
    omega
  rw [instancesTaken]
  rcases hmade with ⟨none, hmade⟩ | ⟨some, rfl, rfl⟩
  · rw [if_pos none]
    refine members.both (addDefaultConstructor_issues hmade) fun j => ?_
    rw [List.count_append, List.count_append]
    omega
  · rw [if_neg some]
    refine members.within fun j => ?_
    rw [List.count_append]
    omega

/-! ## The static routine -/

/-- The static routine takes two ids, for itself and for its body. -/
theorem lowerStatics_issues {statics : List Stmt} {d d' : TypeDecl}
    (run : lowerStatics options type statics d s = (.done d', s')) :
    Issues (if statics = [] then 0 else 2) (d.ids ++ Stmt.idsOf statics) d'.ids s.supply
      s'.supply := by
  rcases lowerStatics_cases run with ⟨nothing, rfl, rfl⟩ | ⟨something, run⟩
  · rw [if_pos nothing]
    refine .none (fun j => ?_) _
    rw [List.count_append]
    omega
  · rw [if_neg something]
    obtain ⟨-, rfl, rfl⟩ := addClassInitializer_ok run
    obtain ⟨head, ms⟩ := d
    refine ⟨rfl, fun j => ?_⟩
    show (TypeDecl.ids ⟨head, ms ++ [_]⟩).count j ≤ (TypeDecl.ids ⟨head, ms⟩ ++ _).count j +
      ([NodeId.mk s.supply.next] ++ [NodeId.mk (s.supply.next + 1)]).count j
    simp only [TypeDecl.ids, Member.idsOf_append, Member.idsOf, Member.ids, madeMethod, Block.ids,
      List.append_nil, List.count_append, List.count_cons, List.count_nil]
    omega

/-! ## The whole type -/

/-- Lowering a type itself takes the ids that it is said to take, and no node is left twice. -/
theorem lowerOwn_issues {d d' : TypeDecl} (grown : t.Grows s.table)
    (run : lowerOwn options type isInterface d s = (.done d', s')) :
    Issues (ownTaken options t isInterface d) d.ids d'.ids s.supply s'.supply := by
  obtain ⟨d₁, lists, s₁, d₂, s₂, hcollect, hinstances, hstatics⟩ := lowerOwn_steps run
  obtain ⟨-, collected, instances, statics⟩ := collect_done grown hcollect
  have methods : d₁.methods = d.methods := methods_of_collected collected
  -- The lists that were collected are those that the members tell, up to ids.
  have routine : (if lists.statics = [] then 0 else 2) =
      if initList t options.literalEncoding isInterface true d.members = [] then 0 else 2 :=
    if_congr statics.nil_iff rfl rfl
  have own : Issues
      (if isInterface then 0
        else instancesTaken
          (Stmt.idsOf (initList t options.literalEncoding isInterface false d.members)).length d)
      (d₁.ids ++ Stmt.idsOf lists.instances) d₂.ids s₁.supply s₂.supply := by
    rcases hinstances with ⟨isInterface, rfl, rfl⟩ | ⟨isClass, hinstances⟩
    · rw [if_pos isInterface]
      refine .none (fun j => ?_) _
      rw [List.count_append]
      omega
    · rw [if_neg (Bool.eq_false_iff.mp isClass), ← instances.length_idsOf]
      have taken := lowerInstances_issues hinstances
      rw [instancesTaken, TypeDecl.constructors, methods] at taken
      exact taken
  have rest := lowerStatics_issues hstatics
  rw [routine] at rest
  have initialized : Issues _ (d₁.ids ++ lists.ids) d'.ids s₁.supply s'.supply :=
    own.both rest fun j => by
      rw [InitLists.ids, List.count_append, List.count_append, List.count_append, List.count_append]
      omega
  exact (collect_issues grown hcollect).trans initialized

end Lowering

end ClassInit
