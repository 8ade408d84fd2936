import ClassInit.Proofs.Binding.FillingSteps

/-!
# Filling in handles

A superclass clause is resolved by looking up its class, which is added to the table if it is
missing, and recorded. With that and what resolving does to statements, resolving a type fills in
the handles that are missing in it and does to the state what `Binding.Steps` says
(`TypeDecl.resolve_fills`, `resolveTypes_filled`).
-/

set_option autoImplicit false

namespace ClassInit

open Binding

/-! ## Superclass clauses -/

/-- A superclass is found in the table, or an external class is added for it. -/
theorem resolveSuperclass_cases (name : String) (s : Binding.State) :
    ∃ t, (Binding.resolveSuperclass name s).2 = { s with table := t } ∧
      (t = s.table ∨
        ∃ superclass, t = (s.table.pushType { BindingTable.external name with superclass }).2) := by
  rcases resolveSuperclass_finds name s with ⟨id, -, found⟩ | interned
  · rw [found]
    exact ⟨s.table, rfl, .inl rfl⟩
  · rw [interned]
    refine ⟨_, rfl, ?_⟩
    rcases s.table.internClass_cases name with ⟨id, -, same⟩ | ⟨superclass, -, -, pushed⟩
    · exact .inl (congrArg Prod.snd same)
    · exact .inr ⟨superclass, congrArg Prod.snd pushed⟩

/-- Setting a superclass changes the superclass of the one type. -/
theorem BindingTable.superclass?_of_set {t t' : BindingTable} {id superclass : TypeId}
    (set : t.setSuperclass id superclass = .ok t') (other : TypeId) :
    t'.superclass? other = if other = id then some superclass else t.superclass? other := by
  obtain ⟨known, rfl⟩ := BindingTable.setSuperclass_eq_ok.mp set
  unfold BindingTable.superclass?
  rw [BindingTable.withSuperclass_types, Array.getElem?_modify]
  obtain ⟨i⟩ := id
  obtain ⟨j⟩ := other
  by_cases same : i = j
  · subst same
    simp [Array.getElem?_eq_getElem known]
  · have different : j ≠ i := fun eq => same eq.symm
    simp [same, different]

/-- A new type leaves the superclasses of the others. -/
theorem BindingTable.superclass?_pushType {t : BindingTable} (d : TypeDescriptor) {id : TypeId}
    (old : id.index < t.types.size) : (t.pushType d).2.superclass? id = t.superclass? id := by
  show (t.types.push _)[id.index]?.bind _ = t.types[id.index]?.bind _
  rw [Array.getElem?_push_lt old, Array.getElem?_eq_getElem old]

/-- Setting the superclass that a clause names records the clause. -/
theorem BindingTable.Records.of_set {t₀ t t' : BindingTable} {h : TypeHead} {id p : TypeId}
    (clause : h.clause? = some (id, p)) (set : t.setSuperclass id p = .ok t')
    (old : ∀ other : TypeId, other.index < t₀.types.size →
    t.superclass? other = t₀.superclass? other) :
    t₀.Records t' [h] where
  written other q last := by
    rw [lastClause_singleton clause] at last
    rw [superclass?_of_set set]
    split at last
    · rename_i same
      rw [if_pos same]
      exact last
    · cases last
  others other last below := by
    rw [lastClause_singleton clause] at last
    rw [superclass?_of_set set]
    split at last
    · cases last
    · rename_i different
      rw [if_neg different]
      exact old other below

/-- A clause with a handle keeps it; for any other the superclass is looked up. -/
theorem superclassOf_cases (c : TypeName) (s : Binding.State) :
    ∃ p t, superclassOf c s = (p, { s with table := t }) ∧ (∀ q, c.binding = some q → p = q) ∧
      (t = s.table ∨ c.binding = none ∧
        ∃ superclass, t =
          (s.table.pushType { BindingTable.external c.name with superclass }).2) := by
  obtain ⟨name, _ | p⟩ := c
  · obtain ⟨t, state, table⟩ := resolveSuperclass_cases name s
    exact ⟨_, t, Prod.ext rfl state, fun _ bound => (Option.some_ne_none _ bound.symm).elim,
      table.imp_right fun new => ⟨rfl, new⟩⟩
  · exact ⟨p, s.table, rfl, fun q bound => Option.some.inj bound, .inl rfl⟩

/-- A superclass that is recorded is written to the table. -/
theorem TypeHead.recordSuperclass_eq_ok {id superclass : TypeId} {h h' : TypeHead}
    {s s' : Binding.State} (run : (do match (← get).table.setSuperclass id superclass with
      | .error e => throw e
      | .ok table =>
        modify fun s : Binding.State => { s with table }
        return h : Resolving TypeHead).run s = (.ok h', s')) :
    ∃ t', s.table.setSuperclass id superclass = .ok t' ∧ s' = { s with table := t' } ∧ h' = h := by
  obtain ⟨s₁, s₂, hget, run⟩ := Step.bind_eq_ok.mp run
  obtain ⟨rfl, rfl⟩ := Step.get_eq_ok.mp hget
  cases set : s.table.setSuperclass id superclass with
  | error e =>
    rw [set] at run
    exact absurd run Step.throw_ne_ok
  | ok t' =>
    rw [set] at run
    obtain ⟨_, s₃, hset, hpure⟩ := Step.bind_eq_ok.mp run
    obtain rfl := Step.modify_eq_ok.mp hset
    obtain ⟨rfl, rfl⟩ := Step.pure_eq_ok.mp hpure
    exact ⟨t', rfl, rfl, rfl⟩

/-- A head that is resolved has no clause, or it has one that is recorded. -/
theorem TypeHead.resolveSuperclass_eq_ok {h h' : TypeHead} {id : TypeId} {s s' : Binding.State}
    (run : (h.resolveSuperclass id).run s = (.ok h', s')) :
    h.superclass = none ∧ h' = h ∧ s' = s ∨
      ∃ c p t t', h.superclass = some c ∧ superclassOf c s = (p, { s with table := t }) ∧
        t.setSuperclass id p = .ok t' ∧ s' = { s with table := t' } ∧
        h' = { h with superclass := some { c with binding := some p } } := by
  unfold TypeHead.resolveSuperclass at run
  split at run
  · rename_i none
    obtain ⟨rfl, rfl⟩ := Step.pure_eq_ok.mp run
    exact .inl ⟨none, rfl, rfl⟩
  · rename_i c written
    obtain ⟨p, t, found, -, -⟩ := superclassOf_cases c s
    -- However the superclass is found, it is then recorded.
    obtain ⟨t', set, after, value⟩ : ∃ t', t.setSuperclass id p = .ok t' ∧
      s' = { s with table := t' } ∧
        h' = { h with superclass := some { c with binding := some p } } := by
      obtain ⟨name, _ | q⟩ := c
      · obtain ⟨q, s₁, hfind, run⟩ := Step.bind_eq_ok.mp run
        cases (Step.lift_eq_ok.mp hfind).symm.trans found
        exact TypeHead.recordSuperclass_eq_ok run
      · obtain ⟨r, s₁, hfind, run⟩ := Step.bind_eq_ok.mp run
        obtain ⟨rfl, rfl⟩ := Step.pure_eq_ok.mp hfind
        obtain ⟨rfl, state⟩ := Prod.mk.inj found
        obtain rfl : s.table = t := congrArg Binding.State.table state
        exact TypeHead.recordSuperclass_eq_ok run
    exact .inr ⟨c, p, t, t', written, found, set, after, value⟩

/-- Resolving the clause of a type records it, after an external class was added for it if need
be. -/
theorem TypeHead.resolveSuperclass_steps {h h' : TypeHead} {id : TypeId} {s s' : Binding.State}
    (handle : h.binding = some id) (run : (h.resolveSuperclass id).run s = (.ok h', s')) :
    Steps s s' [] [] [h] [h'] ∧ h'.bare = h.bare ∧ h'.binding = h.binding ∧
      h'.enumConstants = h.enumConstants ∧
      List.Forall₂ Handle.Keeps (h.superclass.toList.map TypeName.handle)
        (h'.superclass.toList.map TypeName.handle) := by
  rcases TypeHead.resolveSuperclass_eq_ok run with ⟨none, rfl, rfl⟩ |
    ⟨c, p, t, t', written, found, set, rfl, rfl⟩
  · refine ⟨?_, rfl, rfl, rfl, List.forall₂_same.mpr fun _ _ => .same _⟩
    obtain ⟨table, methods, stats, size, locals, entries, -, -, -⟩ := Steps.refl s'
    refine ⟨table, methods, stats, size, locals, entries, fun k hk c written =>
      ?_, ⟨fun id p last => ?_,
      fun _ _ _ => rfl⟩, fun i low high => absurd high (Nat.not_lt_of_le low)⟩
    · rw [List.mem_singleton.mp hk, none] at written
      cases written
    · rw [lastClause_eq_none (List.forall_mem_singleton.mpr fun _ => none)] at last
      cases last
  · obtain ⟨p', t₁, found', kept, new⟩ := superclassOf_cases c s
    rw [found] at found'
    obtain ⟨rfl, state⟩ := Prod.mk.inj found'
    obtain rfl : t = t₁ := congrArg Binding.State.table state
    obtain ⟨known, types⟩ := BindingTable.setSuperclass_eq_ok.mp set
    -- The table has at most the external class more than it had, and else differs in superclasses.
    have before :
        s.table.ResolvesTo t ∧ t.methods = s.table.methods ∧ t.vars = s.table.vars := by
      rcases new with rfl | ⟨-, superclass, rfl⟩
      · exact ⟨.refl _, rfl, rfl⟩
      · exact ⟨⟨.of_eq rfl, .pushType _ _⟩, rfl, rfl⟩
    obtain ⟨grown, methods, sameVariables⟩ := before
    have size : t'.vars.size = s.table.vars.size := by
      rw [types, BindingTable.withSuperclass_variables, sameVariables]
    have clause : TypeHead.clause? { h with superclass := some { c with binding := some p } } =
      some (id, p) :=
      TypeHead.clause?_eq_some.mpr ⟨handle, _, rfl, rfl⟩
    have old : ∀ other : TypeId, other.index < s.table.types.size →
        t.superclass? other = s.table.superclass? other := by
      intro other below
      rcases new with rfl | ⟨-, superclass, rfl⟩
      · rfl
      · exact BindingTable.superclass?_pushType _ below
    refine ⟨⟨grown.trans ⟨setSuperclass_adds set, .setSuperclass set⟩, ?_, ⟨rfl, rfl, rfl, rfl⟩,
      size, .nil,
      fun _ hl => absurd hl List.not_mem_nil, fun k hk c' written' => ?_, .of_set clause set old,
      fun i low high => ?_⟩, ?_, rfl, rfl, ?_⟩
    · show t'.methods = s.table.methods
      rw [types]
      exact methods
    · rw [List.mem_singleton.mp hk] at written'
      cases written'
      exact ⟨p, rfl⟩
    · rcases new with rfl | ⟨unbound, superclass, rfl⟩
      · have same : t'.types.size = s.table.types.size := by
          rw [types, BindingTable.withSuperclass_types, Array.size_modify]
        exact absurd (show i < t'.types.size from high) (by omega)
      · have added : t'.types.size = s.table.types.size + 1 := by
          rw [types, BindingTable.withSuperclass_types, Array.size_modify]
          exact Array.size_push _
        obtain rfl : i = s.table.types.size := by
          have : i < t'.types.size := high
          omega
        refine ⟨h, List.mem_singleton.mpr rfl, c, written, unbound, ?_⟩
        obtain ⟨superclass', entry⟩ := (BindingTable.Extends.setSuperclass set).oldTypes
          ⟨s.table.types.size⟩ _ (BindingTable.typeAt_pushType s.table _)
        exact ⟨superclass', BindingTable.typeAt_eq_ok.mp entry⟩
    · simp [TypeHead.bare, written]
    · rw [written]
      refine .cons ?_ .nil
      obtain ⟨name, _ | q⟩ := c
      · exact .ofType name _
      · rw [kept q rfl]
        exact .same _

/-! ## Statements and declarations -/

/-- A type is resolved once its head and its members are. -/
theorem Binding.Resolves.type {s s₁ s' : Binding.State} {h h' : TypeHead} {ms ms' : List Member}
    (head : Steps s s₁ [] [] [h] [h']) (filled : h.FillsTo h')
    (members : Resolves s₁ s' (TypeDecl.contents ⟨h, ms⟩) (TypeDecl.contents ⟨h', ms'⟩)) :
    Resolves s s' (.ofTypes [⟨h, ms⟩] (TypeDecl.preorder ⟨h, ms⟩))
      (.ofTypes [⟨h', ms'⟩] (TypeDecl.preorder ⟨h', ms'⟩)) := by
  rw [TypeDecl.preorder, TypeDecl.preorder]
  exact ⟨⟨.nil, .nil, .nil, .nil⟩, .cons filled .nil,
    .cons ⟨filled, members.contents, members.inner⟩ members.types, head.append members.steps⟩

mutual

/-- Resolving a statement fills in the handles in it. -/
theorem Stmt.resolve_fills : ∀ s : Stmt, Fills s.resolve s.contents Stmt.contents
  | .expression i e => by
    rw [Stmt.resolve]
    exact .bind e.resolve_fills fun _ => .pure rfl
  | .localVariable i m t fs => by
    rw [Stmt.resolve]
    exact .bind (Fragment.resolveLocals_fills t m fs) fun _ => .pure rfl
  | .block i ⟨b, ss⟩ => by
    rw [Stmt.resolve]
    exact .bind (.inScope (Stmt.resolveAll_fills ss)) fun _ => .pure rfl
  | .ifElse i c t none => by
    rw [Stmt.resolve]
    refine .bind c.resolve_fills fun _ => ?_
    exact .bind (.inScope (Stmt.resolve_fills t)) fun _ => .pure rfl
  | .ifElse i c t (some e) => by
    rw [Stmt.resolve]
    refine .bind c.resolve_fills fun _ => ?_
    refine .bind (.inScope (Stmt.resolve_fills t)) fun _ => ?_
    exact .bind (.inScope (Stmt.resolve_fills e)) fun _ => .pure rfl
  | .whileLoop i c b => by
    rw [Stmt.resolve]
    refine .bind c.resolve_fills fun _ => ?_
    exact .bind (.inScope (Stmt.resolve_fills b)) fun _ => .pure rfl
  | .forLoop i init c us b => by
    rw [Stmt.resolve]
    refine .inScope (.bind (Stmt.resolveAll_fills init) fun _ => ?_)
    refine .bind (Expr.resolveOption_fills c) fun _ => ?_
    refine .bind (Expr.resolveAll_fills us) fun _ => ?_
    exact .bind (.inScope (Stmt.resolve_fills b)) fun _ => .pure rfl
  | .tryCatch i ⟨b, ss⟩ cs none => by
    rw [Stmt.resolve]
    refine .bind (.inScope (Stmt.resolveAll_fills ss)) fun _ => ?_
    exact .bind (CatchClause.resolveAll_fills cs) fun _ => .pure rfl
  | .tryCatch i ⟨b, ss⟩ cs (some ⟨fb, fs⟩) => by
    rw [Stmt.resolve]
    refine .bind (.inScope (Stmt.resolveAll_fills ss)) fun _ => ?_
    refine .bind (CatchClause.resolveAll_fills cs) fun _ => ?_
    exact .bind (.inScope (Stmt.resolveAll_fills fs)) fun _ => .pure rfl
  | .returnValue i e => by
    rw [Stmt.resolve]
    exact .bind (Expr.resolveOption_fills e) fun _ => .pure rfl
  | .throwValue i e => by
    rw [Stmt.resolve]
    exact .bind e.resolve_fills fun _ => .pure rfl
  | .superCall i as b => by
    rw [Stmt.resolve]
    exact .then (Expr.resolveAll_fills as) _ fun _ => rfl
  | .thisCall i as b => by
    rw [Stmt.resolve]
    exact .then (Expr.resolveAll_fills as) _ fun _ => rfl
  | .localType i d => by
    rw [Stmt.resolve]
    exact .bind (TypeDecl.resolve_fills d) fun _ => .pure rfl
  | .empty i => by
    rw [Stmt.resolve]
    exact .pure rfl

theorem Stmt.resolveAll_fills : ∀ ss : List Stmt,
    Fills (Stmt.resolveAll ss) (Stmt.contentsOf ss) Stmt.contentsOf
  | [] => by
    rw [Stmt.resolveAll]
    exact .pure rfl
  | s :: ss => by
    rw [Stmt.resolveAll]
    refine .bind (Stmt.resolve_fills s) fun _ => ?_
    exact .bind (Stmt.resolveAll_fills ss) fun _ => .pure rfl

/-- Resolving catch clauses fills in the handles in them. -/
theorem CatchClause.resolveAll_fills : ∀ cs : List CatchClause,
    Fills (CatchClause.resolveAll cs) (CatchClause.contentsOf cs) CatchClause.contentsOf
  | [] => by
    rw [CatchClause.resolveAll]
    exact .pure rfl
  | ⟨sp, x, ⟨b, ss⟩⟩ :: cs => by
    rw [CatchClause.resolveAll]
    have one : Fills (inScope do
        let x ← declareParameter x
        let ss ← inScope (Stmt.resolveAll ss)
        return (⟨sp, x, ⟨b, ss⟩⟩ : CatchClause)) (x.contents ++ Stmt.contentsOf ss)
        fun c => c.exception.contents ++ Stmt.contentsOf c.body.statements := by
      refine .inScope (.bind (declareParameter_fills x) fun _ => ?_)
      exact .bind (.inScope (Stmt.resolveAll_fills ss)) fun _ => .pure rfl
    refine .bind one fun c => ?_
    obtain ⟨sp', x', ⟨b', ss'⟩⟩ := c
    exact .bind (CatchClause.resolveAll_fills cs) fun _ => .pure rfl

/-- Resolving a member fills in the handles in it, the clauses of types inside it included. -/
theorem Member.resolve_fills : ∀ m : Member, Fills m.resolve m.contents Member.contents
  | .type d => by
    rw [Member.resolve]
    exact .bind (TypeDecl.resolve_fills d) fun _ => .pure rfl
  | .field f => by
    rw [Member.resolve]
    exact .bind f.resolve_fills fun _ => .pure rfl
  | .initializer ⟨i, s, ⟨b, ss⟩⟩ => by
    rw [Member.resolve]
    exact .bind (.inScope (Stmt.resolveAll_fills ss)) fun _ => .pure rfl
  | .method ⟨h, none⟩ => by
    rw [Member.resolve]
    exact .inScope (.parameters h fun _ => .pure rfl)
  | .method ⟨h, some ⟨b, ss⟩⟩ => by
    rw [Member.resolve]
    refine .inScope (.parameters h fun _ => ?_)
    exact .bind (Stmt.resolveAll_fills ss) fun _ => .pure rfl

theorem Member.resolveAll_fills : ∀ ms : List Member,
    Fills (Member.resolveAll ms) (Member.contentsOf ms) Member.contentsOf
  | [] => by
    rw [Member.resolveAll]
    exact .pure rfl
  | m :: ms => by
    rw [Member.resolveAll]
    refine .bind (Member.resolve_fills m) fun _ => ?_
    exact .bind (Member.resolveAll_fills ms) fun _ => .pure rfl

/-- Resolving a type fills in the handles that are missing in it and does to the state what `Steps`
says. -/
theorem TypeDecl.resolve_fills : ∀ d : TypeDecl,
    Fills d.resolve (.ofTypes [d] d.preorder) fun d' => .ofTypes [d'] d'.preorder
  | ⟨h, ms⟩ => by
    intro s d' s' run
    obtain ⟨id, h', s₁, cs, s₂, ms', s₃, bound, hsuper, hcs, hms, rfl, rfl⟩ :=
      TypeDecl.resolve_eq_ok run
    obtain ⟨head, bare, binding, constants, clause⟩ := TypeHead.resolveSuperclass_steps bound hsuper
    have contents := (EnumConstant.resolveAll_fills h'.enumConstants _ _ _ hcs).append
      (Member.resolveAll_fills ms _ _ _ hms)
    rw [constants] at contents
    -- The clause is recorded for the head, which then takes its enum constants.
    have filled : h.FillsTo { h' with enumConstants := cs } := by
      refine ⟨bare, fun id bound => binding.trans bound, .cons ?_ clause⟩
      have name : h'.bare.name = h.bare.name := congrArg TypeHead.name bare
      replace name : h'.name = h.name := name
      show Handle.Keeps (.ofType h.name h.binding) (.ofType h'.name h'.binding)
      rw [name, binding]
      exact .same _
    have head : Steps s s₁ [] [] [h] [{ h' with enumConstants := cs }] := by
      obtain ⟨table, methods, stats, size, locals, entries, recorded, clauses, new⟩ := head
      exact ⟨table, methods, stats, size, locals, entries,
        List.forall_mem_singleton.mpr (List.forall_mem_singleton.mp recorded),
        ⟨clauses.written, clauses.others⟩, new⟩
    exact .type head filled (contents.of_eq ⟨rfl, rfl⟩ ⟨rfl, rfl⟩)

end

/-- Resolving several types fills in the handles in all of them. -/
theorem resolveTypes_fills (ds : List TypeDecl) :
    Fills (ds.mapM TypeDecl.resolve) (.ofTypes ds (ds.flatMap TypeDecl.preorder))
      fun ds' => .ofTypes ds' (ds'.flatMap TypeDecl.preorder) := by
  induction ds with
  | nil => exact .pure rfl
  | cons d ds ih =>
    rw [List.mapM_cons]
    refine .bind d.resolve_fills fun _ => ?_
    exact .bind ih fun _ => .pure rfl

/-- Resolving types fills in the handles in all types inside them. -/
theorem resolveTypes_filled {ds ds' : List TypeDecl} {s s' : Binding.State}
    (run : (ds.mapM TypeDecl.resolve).run s = (.ok ds', s')) :
    List.Forall₂ (fun d d' => d.head.FillsTo d'.head) ds ds' ∧
      List.Forall₂ TypeDecl.FillsTo (ds.flatMap TypeDecl.preorder) (ds'.flatMap TypeDecl.preorder) ∧
      Steps s s' ((ds.flatMap TypeDecl.preorder).flatMap (·.contents.locals))
        ((ds'.flatMap TypeDecl.preorder).flatMap (·.contents.locals))
        ((ds.flatMap TypeDecl.preorder).map (·.head))
          ((ds'.flatMap TypeDecl.preorder).map (·.head)) := by
  obtain ⟨-, inner, filled, steps⟩ := resolveTypes_fills ds s ds' s' run
  exact ⟨inner, filled, steps⟩

end ClassInit
