import ClassInit.Lowering.Unit
import ClassInit.Proofs.Lowering.Members

/-!
# What becomes of the constructors

Lowering a constructor is one of three steps (`ConstructorStep`), each of which makes of it what
`ConstructorLowered` says, so that the collected members come out as `MemberLowered` says
(`lowerMembers_done`).
-/

set_option autoImplicit false

namespace ClassInit.Lowering

variable {options : Options} {name : String} {type : TypeId} {s s' : State}

/-! ## Declared constructors -/

/-- A search for an index takes a list apart at the first item that is found. -/
theorem exists_split_of_findIdx? {p : Stmt → Bool} {ss : List Stmt} {i : Nat}
    (found : ss.findIdx? p = some i) :
    ∃ before at' after, ss = before ++ at' :: after ∧ before.length = i ∧ p at' = true ∧
      ∀ s ∈ before, p s = false := by
  obtain ⟨bound, holds, first⟩ := List.findIdx?_eq_some_iff_getElem.mp found
  refine ⟨ss.take i, ss[i], ss.drop (i + 1), ?_, ?_, holds, fun s hs => ?_⟩
  · rw [← List.drop_eq_getElem_cons bound, List.take_append_drop]
  · rw [List.length_take, Nat.min_eq_left (Nat.le_of_lt bound)]
  · obtain ⟨j, hj, rfl⟩ := List.getElem_of_mem hs
    rw [List.length_take] at hj
    rw [List.getElem_take]
    exact Bool.eq_false_iff.mpr (first j (by omega))

theorem insertAfter_append (before : List Stmt) (at' : Stmt) (after inserted : List Stmt) :
    insertAfter before.length inserted (before ++ at' :: after) =
      before ++ at' :: (inserted ++ after) := by
  have left : (before ++ at' :: after).take (before.length + 1) = before ++ [at'] := by
    rw [List.take_length_add_append]
    rfl
  have right : (before ++ at' :: after).drop (before.length + 1) = after := by
    rw [List.drop_length_add_append]
    rfl
  rw [insertAfter, left, right, List.append_assoc, List.append_assoc]
  rfl

def Member.isConstructor (m : Member) : Bool := m.asMethod.any (·.head.isConstructor)

/-- The entry of a constructor that is made. -/
def constructorEntry (owner : TypeId) (modifiers : Modifiers) : MethodBinding :=
  ⟨Names.constructor, owner, modifiers, .void, [], true, true⟩

theorem enter_newConstructor_ok {span : Span} {owner : TypeId} {modifiers : Modifiers}
    {handle : MethodId}
    (run : (enter name span (newConstructor · owner modifiers)).run s = (.ok handle, s')) :
    handle = ⟨s.table.methods.size⟩ ∧
      s' = { s with table := (s.table.addMethod (constructorEntry owner modifiers)).2 } := by
  obtain ⟨table, added, rfl⟩ := enter_eq_ok.mp run
  obtain ⟨-, added⟩ := newConstructor_eq_ok.mp added
  obtain ⟨rfl, rfl⟩ := Prod.mk.inj added
  exact ⟨rfl, rfl⟩

theorem implicitSuperCall_ok {span : Span} {call : Stmt}
    (run : (implicitSuperCall name type span).run s = (.ok call, s')) :
    ∃ superclass, s.table.superclass type = .ok superclass ∧
      call = .superCall ⟨⟨s.supply.next⟩, .dummy⟩ [] (some ⟨s.table.methods.size⟩) ∧
      s' = { s with
        table := (s.table.addMethod (constructorEntry superclass (.of .pub))).2
        supply := ⟨s.supply.next + 1⟩ } := by
  obtain ⟨superclass, s₁, hask, run⟩ := Step.bind_eq_ok.mp run
  obtain ⟨asked, rfl⟩ := ask_eq_ok.mp hask
  obtain ⟨handle, s₂, henter, hmint⟩ := Step.bind_eq_ok.mp run
  obtain ⟨rfl, rfl⟩ := enter_newConstructor_ok henter
  obtain ⟨rfl, rfl⟩ := mint_eq_ok.mp hmint
  exact ⟨superclass, asked, rfl, rfl⟩

/-- What lowering a constructor makes of it, and of the state. -/
inductive ConstructorStep (type : TypeId) (instances : List Stmt) (s : State) :
    MethodDecl → MethodDecl → State → Prop where
  | delegating {h : MethodHead} {b : Block} : delegates b.statements = true →
      ConstructorStep type instances s ⟨h, some b⟩ ⟨h, some b⟩
        { s with
          stats := { s.stats with delegatingConstructors := s.stats.delegatingConstructors + 1 } }
  | explicit {h : MethodHead} {i : NodeInfo} {before after : List Stmt} {call : Stmt} :
      delegates (before ++ call :: after) = false → (∀ x ∈ before, x.isSuperCall = false) →
      call.isSuperCall = true →
      ConstructorStep type instances s ⟨h, some ⟨i, before ++ call :: after⟩⟩
        ⟨h, some ⟨i, before ++ call :: ((Stmt.copyAll instances s.supply).1 ++ after)⟩⟩
        { s with
          supply := (Stmt.copyAll instances s.supply).2
          stats := { s.stats with designatedConstructors := s.stats.designatedConstructors + 1 } }
  | implicit {h : MethodHead} {i : NodeInfo} {ss : List Stmt} {superclass : TypeId} :
      delegates ss = false → (∀ x ∈ ss, x.isSuperCall = false) →
      s.table.superclass type = .ok superclass →
      ConstructorStep type instances s ⟨h, some ⟨i, ss⟩⟩
        ⟨h, some ⟨i, .superCall ⟨⟨s.supply.next⟩, .dummy⟩ [] (some ⟨s.table.methods.size⟩) ::
          ((Stmt.copyAll instances ⟨s.supply.next + 1⟩).1 ++ ss)⟩⟩
        { table := (s.table.addMethod (constructorEntry superclass (.of .pub))).2
          supply := (Stmt.copyAll instances ⟨s.supply.next + 1⟩).2
          stats := { s.stats with designatedConstructors := s.stats.designatedConstructors + 1 } }

theorem lowerConstructor_ok {instances : List Stmt} {m m' : MethodDecl}
    (isConstructor : m.head.isConstructor = true)
    (run : (lowerConstructor name type instances m).run s = (.ok m', s')) :
    ConstructorStep type instances s m m' s' := by
  obtain ⟨h, _ | ⟨i, ss⟩⟩ := m
  · exact absurd run Step.throw_ne_ok
  have isConstructor : h.isConstructor = true := isConstructor
  have designated : (MethodDecl.mk h (some ⟨i, ss⟩)).isDesignated = !delegates ss := by
    show (h.isConstructor && !delegates ss) = _
    rw [isConstructor, Bool.true_and]
  simp only [lowerConstructor, designated] at run
  split at run
  · rename_i hdesignated
    have hdesignated : delegates ss = false := by simpa using hdesignated
    obtain ⟨ss', s₁, hss, run⟩ := Step.bind_eq_ok.mp run
    obtain ⟨u, s₂, hcount, hpure⟩ := Step.bind_eq_ok.mp run
    obtain ⟨rfl, rfl⟩ := Step.pure_eq_ok.mp hpure
    obtain ⟨-, rfl⟩ := Prod.mk.inj (Step.lift_eq_ok.mp hcount)
    -- The list goes after the first call of a superclass constructor, or after a new one in front.
    unfold initialized at hss
    split at hss
    · rename_i index hindex
      obtain ⟨copies, s₃, hmint, hpure⟩ := Step.bind_eq_ok.mp hss
      obtain ⟨rfl, rfl⟩ := mint_eq_ok.mp hmint
      obtain ⟨rfl, rfl⟩ := Step.pure_eq_ok.mp hpure
      obtain ⟨before, call, after, rfl, rfl, isCall, first⟩ := exists_split_of_findIdx? hindex
      rw [insertAfter_append]
      exact .explicit hdesignated first isCall
    · rename_i hindex
      obtain ⟨call, s₃, hcall, hss⟩ := Step.bind_eq_ok.mp hss
      obtain ⟨superclass, asked, rfl, rfl⟩ := implicitSuperCall_ok hcall
      obtain ⟨copies, s₄, hmint, hpure⟩ := Step.bind_eq_ok.mp hss
      obtain ⟨rfl, rfl⟩ := mint_eq_ok.mp hmint
      obtain ⟨rfl, rfl⟩ := Step.pure_eq_ok.mp hpure
      have none : ∀ x ∈ ss, x.isSuperCall = false := List.findIdx?_eq_none_iff.mp hindex
      have inserted := insertAfter_append []
        (.superCall ⟨⟨s.supply.next⟩, .dummy⟩ [] (some ⟨s.table.methods.size⟩)) ss
        (Stmt.copyAll instances ⟨s.supply.next + 1⟩).1
      rw [List.nil_append, List.nil_append, List.length_nil] at inserted
      rw [inserted]
      exact .implicit hdesignated none asked
  · rename_i hdelegating
    obtain ⟨u, s₁, hcount, hpure⟩ := Step.bind_eq_ok.mp run
    obtain ⟨rfl, rfl⟩ := Step.pure_eq_ok.mp hpure
    obtain ⟨-, rfl⟩ := Prod.mk.inj (Step.lift_eq_ok.mp hcount)
    exact .delegating (by simpa using hdelegating)

/-- A constructor comes out by the rules. -/
theorem ConstructorStep.lowered {instances instances' : List Stmt}
    (same : SameStmts instances instances') {m m' : MethodDecl}
    (step : ConstructorStep type instances s m m' s') : ConstructorLowered instances' m m' := by
  cases step with
  | delegating delegates => exact .delegating delegates
  | explicit designated first call =>
    exact .explicit designated first call ((SameStmts.copyAll _ _).trans same)
  | implicit designated none _ =>
    exact .implicit designated none ⟨_, _, rfl⟩ ((SameStmts.copyAll _ _).trans same)

/-- A member that is no constructor is left alone, and a constructor takes its step. -/
theorem lowerMember_steps {instances : List Stmt} {m m' : Member}
    (run : lowerMember name type instances m s = (.done m', s')) :
    (Member.isConstructor m = false ∧ m' = m ∧ s' = s) ∨
      ∃ c c', m = .method c ∧ m' = .method c' ∧ c.head.isConstructor = true ∧
        ConstructorStep type instances s c c' s' := by
  cases m with
  | type d | initializer i | field f =>
    obtain ⟨rfl, rfl⟩ := Edit.keep_eq_done.mp run
    exact .inl ⟨rfl, rfl, rfl⟩
  | method c =>
    unfold lowerMember at run
    dsimp only at run
    split at run
    · rename_i isConstructor
      obtain ⟨c', s₁, hc, hpure⟩ := Step.bind_eq_ok.mp (editBy_eq_done.mp run)
      obtain ⟨rfl, rfl⟩ := Step.pure_eq_ok.mp hpure
      exact .inr ⟨c, c', rfl, rfl, isConstructor, lowerConstructor_ok isConstructor hc⟩
    · rename_i isMethod
      obtain ⟨rfl, rfl⟩ := Edit.keep_eq_done.mp run
      exact .inl ⟨Bool.eq_false_iff.mpr isMethod, rfl, rfl⟩

/-- A collected member comes out of the pass over the constructors by the rules. -/
theorem lowerMember_done {t : BindingTable} {encoding : LiteralEncoding}
    {instances instances' : List Stmt} (same : SameStmts instances instances') {m₀ m m' : Member}
    (collected : MemberCollected t encoding false m₀ m)
    (run : lowerMember name type instances m s = (.done m', s')) :
    MemberLowered t encoding false instances' m₀ m' := by
  rcases lowerMember_steps run with ⟨isMethod, rfl, -⟩ | ⟨c, c', rfl, rfl, isConstructor, step⟩
  · cases collected with
    | type d => exact .type d
    | field fragments => exact .field fragments
    | method m => exact .method (.inr isMethod)
  · cases collected with
    | method m => exact .constructor rfl isConstructor (step.lowered same)

/-- The members of an interface-like type are not touched again. -/
theorem MemberCollected.lowered {t : BindingTable} {encoding : LiteralEncoding}
    {instances : List Stmt} {m m' : Member} (collected : MemberCollected t encoding true m m') :
    MemberLowered t encoding true instances m m' := by
  cases collected with
  | type d => exact .type d
  | field fragments => exact .field fragments
  | method m => exact .method (.inl rfl)

/-- The collected members of a type come out of the pass over the constructors by the rules. -/
theorem lowerMembers_done {t : BindingTable} {encoding : LiteralEncoding}
    {instances instances' : List Stmt} (same : SameStmts instances instances')
    {ms₀ ms ms' : List Member} (collected : List.Forall₂ (MemberCollected t encoding false) ms₀ ms)
    (run : Edit.list (lowerMember name type instances) ms s = (.done ms', s')) :
    List.Forall₂ (MemberLowered t encoding false instances') ms₀ ms' := by
  induction collected generalizing ms' s with
  | nil =>
    obtain ⟨rfl, -⟩ := Edit.list_nil_eq_done.mp run
    exact .nil
  | cons one rest ih =>
    obtain ⟨m', s₁, rest', hm, hrest, rfl⟩ := Edit.list_cons_eq_done.mp run
    exact .cons (lowerMember_done same one hm) (ih hrest)

/-! ## Which types declare a constructor -/

theorem constructors_eq_nil_iff {d : TypeDecl} :
    d.constructors = [] ↔ ∀ m ∈ d.members, Member.isConstructor m = false := by
  unfold TypeDecl.constructors TypeDecl.methods
  rw [List.filter_eq_nil_iff]
  constructor
  · intro none m hm
    cases m with
    | method c =>
      exact Bool.eq_false_iff.mpr (none c (List.mem_filterMap.mpr ⟨.method c, hm, rfl⟩))
    | type d => rfl
    | initializer i => rfl
    | field f => rfl
  · intro none c hc
    obtain ⟨m, hm, asMethod⟩ := List.mem_filterMap.mp hc
    have notConstructor := none m hm
    rw [Member.isConstructor, asMethod] at notConstructor
    exact Bool.eq_false_iff.mp notConstructor

/-- A member is a constructor exactly if its lowered form is one. -/
theorem MemberLowered.isConstructor_eq {t : BindingTable} {encoding : LiteralEncoding}
    {isInterface : Bool} {instances : List Stmt} {m m' : Member}
    (lowered : MemberLowered t encoding isInterface instances m m') :
    Member.isConstructor m' = Member.isConstructor m := by
  cases lowered with
  | type d => rfl
  | field fragments => rfl
  | method h => rfl
  | constructor _ _ lowered => cases lowered <;> rfl

/-- The pass over the constructors leaves them constructors and makes no others. -/
theorem constructors_eq_nil_of_run {instances : List Stmt} {d : TypeDecl} {ms : List Member}
    (run : Edit.list (lowerMember name type instances) d.members s = (.done ms, s')) :
    (TypeDecl.mk d.head ms).constructors = [] ↔ d.constructors = [] := by
  have same :
      List.Forall₂ (fun m m' => Member.isConstructor m' = Member.isConstructor m) d.members ms := by
    refine Edit.forall₂_of_done (fun m m' s s' step => ?_) run
    rcases lowerMember_steps step with ⟨-, rfl, -⟩ | ⟨c, c', rfl, rfl, -, step⟩
    · rfl
    · cases step <;> rfl
  rw [constructors_eq_nil_iff, constructors_eq_nil_iff]
  have all := map_eq_of_forall₂ same
  rw [← List.forall_mem_map (P := fun b => b = false), all, List.forall_mem_map]

end ClassInit.Lowering
