import ClassInit.Proofs.Binding.FieldNames
import ClassInit.Proofs.Binding.Ranges

/-!
# When types are resolved

Types are resolved in the order in which they are written, each before the types inside it. So when
a type that lies in no body is resolved, no superclass is recorded afterwards but by the clauses of
types that come after it (`TypeDecl.MemberStands.resolvedBefore`), and none but by those of the
types inside it meanwhile (`TypeHead.follows_recording`).
-/

set_option autoImplicit false

namespace ClassInit

open Binding

/-! ## Types outside bodies -/

/-- The last type is the first or a member type of a type that stands so in the first, around which
are the types `outer`; `types` are those around its members, its own handle first. -/
inductive TypeDecl.MemberStands : List TypeId → TypeDecl → List TypeId → TypeDecl → Prop where
  | self {outer : List TypeId} {d : TypeDecl} {id : TypeId} (handle : d.head.binding = some id) :
      MemberStands outer d (id :: outer) d
  | inside {outer types : List TypeId} {d c x : TypeDecl} {id : TypeId}
      (handle : d.head.binding = some id) (member : Member.type c ∈ d.members)
      (stands : MemberStands (id :: outer) c types x) :
      MemberStands outer d types x

/-- The type stands in the unit outside all bodies, with the types around its members. -/
def CompilationUnit.MemberStands (u : CompilationUnit) (types : List TypeId) (x : TypeDecl) :
    Prop :=
  ∃ d ∈ u.types, TypeDecl.MemberStands [] d types x

/-- No handle is written in the type where resolving would look one up. -/
structure TypeDecl.Fresh (d : TypeDecl) : Prop where
  unresolved : d.Unresolved
  constants : ∀ x ∈ d.preorder, ∀ c ∈ x.head.enumConstants, Unnamed (Expr.namesOf c.arguments)
  clauses : ∀ x ∈ d.preorder, ∀ c, x.head.superclass = some c → c.binding = none

theorem TypeDecl.Fresh.inside {d c : TypeDecl} (fresh : d.Fresh)
    (member : Member.type c ∈ d.members) : c.Fresh := by
  have below := TypeDecl.preorder_subset_of_member member
  have unresolved := TypeDecl.unresolved_iff.mp fresh.unresolved _ member
  rw [Member.Unresolved] at unresolved
  exact ⟨unresolved, fun x hx => fresh.constants x (below hx), fun x hx =>
    fresh.clauses x (below hx)⟩

/-! ## What is recorded meanwhile -/

/-- The trail of resolving that keeps types in range and records superclasses of the described types
only. -/
def BindingTable.recording (start : BindingTable) (late : TypeId → Prop) : Trail where
  leads a b := a.ResolvesTo b ∧ (a.InRange → b.InRange) ∧
    ∀ id, ¬ late id → id.index < a.types.size → b.superclass? id = a.superclass? id
  start
  refl t := ⟨.refl t, id, fun _ _ _ => rfl⟩
  trans :=
    fun first second => ⟨first.1.trans second.1, fun inRange => second.2.1 (first.2.1 inRange),
    fun id other below =>
      (second.2.2 id other (Nat.lt_of_lt_of_le below first.1.grown.moreTypes)).trans
      (first.2.2 id other below)⟩
  resolves := And.left
  locals _ := fun _ _ _ _ leads => ⟨start.trail.locals _ _ _ _ _ leads.1,
    fun inRange => BindingTable.admitsLocals_inRange _ _ _ _ (leads.2.1 inRange), leads.2.2⟩

/-- A head whose clause has no handle goes along the trail, if the clause, where there is one, is
about a type that is described. -/
theorem TypeHead.follows_recording {h : TypeHead} {late : TypeId → Prop} (start : BindingTable)
    (free : ∀ c, h.superclass = some c → c.binding = none)
    (isLate : ∀ id, h.binding = some id → h.superclass ≠ none → late id) :
    h.Follows (start.recording late) := by
  refine fun t => ⟨fun _ => trivial, fun id bound s leads => ?_⟩
  have inRange := (TypeHead.resolvable_inRange free).superclass id bound
  generalize run : ((h.resolveSuperclass id).run s : Except ResolveError TypeHead × Binding.State) =
    result
  rcases result with ⟨e | h', s'⟩
  · trivial
  · have same := ((h.follows_trail start t).superclass id bound).of_ok leads.1 run
    obtain ⟨steps, bare, -⟩ := TypeHead.resolveSuperclass_steps bound run
    refine ⟨same.1,
      (start.recording late).trans leads
        ⟨steps.table, fun known => ?_, fun other notLate below => ?_⟩⟩
    · exact (inRange.of_ok known run).2
    · refine steps.clauses.others other
        (lastClause_eq_none (List.forall_mem_singleton.mpr fun bound' => ?_)) below
      rw [same.1.1] at bound'
      have unwritten : h.superclass = none := by
        by_contra written
        exact notLate (isLate other bound' written)
      have clauses := congrArg TypeHead.superclass bare
      rw [TypeHead.bare, TypeHead.bare, unwritten] at clauses
      exact Option.map_eq_none_iff.mp clauses

/-! ## What is recorded afterwards -/

/-- Steps in a list that leave the scopes as they are. -/
theorem Binding.Binds.mapM {α β : Type} {w : Trail} {types : List TypeId} {scopes : List Scope}
    {f : α → Resolving β} {as : List α} {fact : β → BindingTable → Prop}
    (single : ∀ a ∈ as, Binds w types scopes (f a) (fun _ l => l = scopes) fact) :
    Binds w types scopes (as.mapM f) (fun _ l => l = scopes) fun bs t => ∀ b ∈ bs, fact b t := by
  induction as with
  | nil => exact .pure rfl fun _ _ hb => absurd hb List.not_mem_nil
  | cons a as ih =>
    obtain ⟨first, rest⟩ := List.forall_mem_cons.mp single
    rw [List.mapM_cons]
    refine .bind first fun b l same => ?_
    subst same
    exact .bind (ih rest) fun bs l' same => .pure same fun t others own =>
      List.forall_mem_cons.mpr ⟨own, others⟩

theorem Member.resolveAll_eq_mapM (ms : List Member) :
    Member.resolveAll ms = ms.mapM Member.resolve := by
  induction ms with
  | nil => rw [Member.resolveAll, List.mapM_nil]
  | cons m ms ih => rw [Member.resolveAll, List.mapM_cons, ih]

/-- The types in members, one member after the other. -/
theorem Member.contentsOf_types (ms : List Member) :
    (Member.contentsOf ms).types = ms.flatMap fun m => m.inner.flatMap TypeDecl.preorder := by
  rw [(Member.contentsOf_nests ms).types, List.flatMap_assoc]

/-- Before a member type come the type around it and the types in the members before it, after it
those in the members after it. -/
theorem TypeDecl.preorder_of_member (h : TypeHead) (earlier later : List Member) (c : TypeDecl) :
    TypeDecl.preorder ⟨h, earlier ++ .type c :: later⟩ =
      (⟨h, earlier ++ .type c :: later⟩ :: (Member.contentsOf earlier).types) ++
        (c.preorder ++ (Member.contentsOf later).types) := by
  have own : (Member.type c).inner.flatMap TypeDecl.preorder = c.preorder := List.append_nil _
  rw [TypeDecl.preorder, Member.contentsOf_types, Member.contentsOf_types, Member.contentsOf_types,
    List.flatMap_append, List.flatMap_cons, own, List.cons_append]

/-- A member that is resolved to a type was one. -/
theorem Member.resolve_type_eq_ok {m : Member} {c' : TypeDecl} {s s' : Binding.State}
    (run : m.resolve.run s = (.ok (.type c'), s')) :
    ∃ c, m = .type c ∧ c.resolve.run s = (.ok c', s') := by
  have kept := ((Member.resolve_yields (admitsLocals_of_extends s.table) m
    (fun x _ => x.head.resolvable_of_extends s.table)
    fun x _ => x.head.resolvable_of_extends s.table).of_ok (.refl _) run).1.types
  have listed : c' ∈ Member.typeDeclarations [.type c'] := by
    obtain ⟨h, ms⟩ := c'
    rw [Member.typeDeclarations, TypeDecl.declarations]
    exact List.mem_append_left _ List.mem_cons_self
  cases m with
  | type d =>
    rw [Member.resolve] at run
    obtain ⟨d', s₁, hd, hpure⟩ := Step.bind_eq_ok.mp run
    obtain ⟨same, rfl⟩ := Step.pure_eq_ok.mp hpure
    cases same
    exact ⟨d, rfl, hd⟩
  | method m => exact absurd (exists_mem_left kept listed) fun ⟨_, hx, _⟩ => List.not_mem_nil hx
  | initializer i =>
    exact absurd (exists_mem_left kept listed) fun ⟨_, hx, _⟩ => List.not_mem_nil hx
  | field f => exact absurd (exists_mem_left kept listed) fun ⟨_, hx, _⟩ => List.not_mem_nil hx

/-- The second type is what the first is resolved to on the trail, inside the types and outside
bodies; from then on to the last table, the clauses of the types in `rest` are recorded and no
others. -/
def TypeDecl.ResolvedBefore (w : Trail) (types : List TypeId) (rest : List TypeDecl)
    (last : BindingTable) (d d' : TypeDecl) : Prop :=
  ∃ s s' : Binding.State, s.Inside w types [] ∧ d.resolve.run s = (.ok d', s') ∧
    s'.table.ResolvesTo last ∧
    s'.table.Records last (rest.map (·.head))

/-- After a member type come the types in the members after it, and what comes after the type
itself. -/
theorem TypeDecl.ResolvedBefore.inside {w : Trail} {types : List TypeId} {rest : List TypeDecl}
    {last : BindingTable} {d d' c' : TypeDecl} (resolved : d.ResolvedBefore w types rest last d')
    (fresh : d.Fresh) (heads : ∀ x ∈ d.preorder, x.head.Follows w)
    (member : Member.type c' ∈ d'.members) :
    ∃ id c pre post, d'.head.binding = some id ∧ Member.type c ∈ d.members ∧
      d'.preorder = pre ++ (c'.preorder ++ post) ∧
      c.ResolvedBefore w (id :: types) (post ++ rest) last c' := by
  obtain ⟨s, s', inside, run, before, records⟩ := resolved
  obtain ⟨h, ms⟩ := d
  obtain ⟨id, h', s₁, cs, s₂, ms', s₃, bound, hsuper, hcs, hms, rfl, rfl⟩ :=
    TypeDecl.resolve_eq_ok run
  obtain ⟨-, ⟨_, inside₁, rfl⟩, same⟩ :=
    TypeHead.resolveSuperclass_names bound (heads _ (TypeDecl.mem_preorder_self _)) s h' s₁
      inside hsuper
  have entered : State.Inside w (id :: types) [] { s₁ with typeScopes := id :: s₁.typeScopes } :=
    ⟨inside₁.since, inside₁.locals, congrArg (id :: ·) inside₁.types, inside₁.scopes⟩
  obtain ⟨-, ⟨_, inside₂, rfl⟩, -⟩ :=
    EnumConstant.resolveAll_names h'.enumConstants _ _ _ entered hcs
  rw [Member.resolveAll_eq_mapM] at hms
  obtain ⟨earlier, m, later, earlier', later', a, b, rfl, rfl, early, hm, late⟩ :=
    Step.mapM_eq_ok_of_mem hms member
  obtain ⟨c, rfl, hc⟩ := Member.resolve_type_eq_ok hm
  rw [← Member.resolveAll_eq_mapM] at early late
  have unresolved := TypeDecl.unresolved_iff.mp fresh.unresolved
  -- The members before it go along the trail and leave the scopes as they are.
  have declared : ∀ x ∈ Member.typeDeclarations earlier ++ Member.bodyDeclarations earlier,
      x.head.Follows w := by
    intro x hx
    refine heads x ?_
    rw [TypeDecl.preorder_of_member]
    exact List.mem_append_left
      _ (List.mem_cons_of_mem _ ((Member.contentsOf_perm earlier).mem_iff.mpr hx))
  have leaves := Member.resolveAll_names earlier
    (Member.unresolvedAll_iff.mpr fun m hm => unresolved m (List.mem_append_left _ hm))
    (fun x hx => declared x (List.mem_append_left _ hx))
      (fun x hx => declared x (List.mem_append_right _ hx))
  obtain ⟨-, ⟨_, inside₃, rfl⟩, -⟩ := leaves (id :: types) [] s₂ earlier' a inside₂ early
  have after := (Member.resolveAll_fills later b later' s₃ late).steps
  refine ⟨id, c, _, (Member.contentsOf later').types, (same _ (w.refl _)).trans bound,
    List.mem_append_right _ List.mem_cons_self, TypeDecl.preorder_of_member _ earlier' later' c', a,
    b, inside₃, hc,
    after.table.trans before, ?_⟩
  rw [List.map_append]
  exact after.clauses.append records after.table.grown.moreTypes

/-- Of the types at the top each is resolved before those after it. -/
theorem resolveTypes_before {w : Trail} {ds ds' : List TypeDecl} {s s' : Binding.State}
    (inside : s.Inside w [] []) (unresolved : ∀ d ∈ ds, d.Unresolved)
    (heads : ∀ d ∈ ds, ∀ x ∈ d.preorder, x.head.Follows w)
    (run : (ds.mapM TypeDecl.resolve).run s = (.ok ds', s')) {d' : TypeDecl} (hd : d' ∈ ds') :
    ∃ d pre post, d ∈ ds ∧ ds'.flatMap TypeDecl.preorder = pre ++ (d'.preorder ++ post) ∧
      d.ResolvedBefore w [] post s'.table d' := by
  obtain ⟨earlier, d, later, earlier', later', a, b, rfl, rfl, early, run, late⟩ :=
    Step.mapM_eq_ok_of_mem run hd
  have leaves : Binds w [] [] (earlier.mapM TypeDecl.resolve) _ _ :=
    .mapM fun c hc => c.resolve_names (unresolved c (List.mem_append_left _ hc))
      (fun x hx => heads c (List.mem_append_left _ hc) x (c.preorder_perm.mem_iff.mpr hx)) [] []
  obtain ⟨-, ⟨_, inside', rfl⟩, -⟩ := leaves s earlier' a inside early
  obtain ⟨-, -, after⟩ := resolveTypes_filled late
  refine ⟨d, earlier'.flatMap TypeDecl.preorder, later'.flatMap TypeDecl.preorder,
    List.mem_append_right _ List.mem_cons_self, ?_, a, b, inside', run, after.table, after.clauses⟩
  rw [List.flatMap_append, List.flatMap_cons]

/-- A type outside all bodies is resolved before the types that come after those inside it. -/
theorem TypeDecl.MemberStands.resolvedBefore {start last : BindingTable} {outer types : List TypeId}
    {rest : List TypeDecl} {d d' x' : TypeDecl} (stands : TypeDecl.MemberStands outer d' types x')
    (fresh : d.Fresh)
    (resolved : d.ResolvedBefore (start.recording fun _ => True) outer rest last d') :
    ∃ id around, ∃ x : TypeDecl, ∃ pre post, types = id :: around ∧ x'.head.binding = some id ∧
      x.Fresh ∧
      d'.preorder ++ rest = pre ++ (x'.preorder ++ post) ∧
      x.ResolvedBefore (start.recording fun _ => True) around post last x' := by
  induction stands generalizing d rest with
  | self handle => exact ⟨_, _, d, [], rest, rfl, handle, fresh, rfl, resolved⟩
  | inside handle member stands ih =>
    have heads : ∀ x ∈ d.preorder, x.head.Follows (start.recording fun _ => True) :=
      fun x hx => TypeHead.follows_recording start (fresh.clauses x hx) fun _ _ _ => trivial
    obtain ⟨id, c, pre, post, handle', member', order, resolved'⟩ :=
      resolved.inside fresh heads member
    rw [handle] at handle'
    cases handle'
    obtain ⟨id', around, x, pre', post', same, handle', fresh', order', resolved''⟩ :=
      ih (fresh.inside member') resolved'
    refine ⟨id', around, x, pre ++ pre', post', same, handle', fresh', ?_, resolved''⟩
    rw [order, List.append_assoc, List.append_assoc, order', List.append_assoc]

end ClassInit
