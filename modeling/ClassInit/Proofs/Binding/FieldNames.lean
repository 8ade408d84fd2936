import ClassInit.Proofs.Binding.ExplainedNames

/-!
# Names that mean fields

Resolving a tree in which no name and no local has a handle gives every local the handle of a local,
and every name the handle that is looked up for it where it stands, in a table on the way
(`TypeDecl.resolve_names`). So it is in a bound unit (`CompilationUnit.bind_lookedUp`), and the
simple names in every type, wherever it stands, have the handles of the locals and fields that they
mean inside the types around them (`CompilationUnit.bind_names`).
-/

set_option autoImplicit false

namespace ClassInit

open Binding

section

variable {w : Trail} {types : List TypeId} {scopes : List Scope} {scope : Scope}

/-! ## Statements and declarations -/

theorem TypeHead.handle_names (h : TypeHead) :
    Binds w types scopes h.handle (fun id l => l = scopes ∧ h.binding = some id) fun _ _ =>
      True := by
  unfold TypeHead.handle
  split
  · rename_i id bound
    exact .pure ⟨rfl, bound⟩ fun _ => trivial
  · exact fun _ _ _ _ run => absurd run Step.throw_ne_ok

theorem TypeHead.resolveSuperclass_names {id : TypeId} {h : TypeHead} (bound : h.binding = some id)
    (follows : h.Follows w) :
    Binds w types scopes (h.resolveSuperclass id) (fun _ l => l = scopes)
      fun h' _ => h'.binding = h.binding :=
  .of_kept (fun _ => h.resolveSuperclass_stacks id) (fun t => (follows t).superclass id bound)
    fun _ _ _ _ _ same _ _ _ => same.1

mutual

/-- Resolving a statement in which no name and no local has a handle. -/
theorem Stmt.resolve_names : ∀ (s : Stmt), s.Unresolved → (∀ x ∈ s.declarations, x.head.Follows w) →
    ∀ (types : List TypeId) (scope : Scope) (scopes : List Scope),
      Binds w types (scope :: scopes) s.resolve (fun s' l => l = (s'.declares ++ scope) :: scopes)
        fun s' t => Explained w t types (Stmt.uses (scope :: scopes).flatten s')
          (Stmt.localTypesIn (scope :: scopes).flatten s')
  | .expression i e, free, _, types, scope, scopes => by
    rw [Stmt.Unresolved] at free
    rw [Stmt.resolve]
    exact .bind (e.resolve_names free) fun e' l same => .pure same fun t he => he
  | .localVariable i m x fs, free, _, types, scope, scopes => by
    rw [Stmt.Unresolved] at free
    rw [Stmt.resolve]
    exact .bind (Fragment.resolveLocals_names x m fs free) fun fs' l same =>
      .pure same fun t hfs => hfs
  | .block i ⟨b, ss⟩, free, heads, types, scope, scopes => by
    rw [Stmt.Unresolved] at free
    rw [Stmt.resolve]
    refine .bind
      (.inScope (Stmt.resolveAll_names ss free heads types [] (scope :: scopes)) tail_of_added)
      fun ss' l same => ?_
    exact .pure same fun t hss => hss
  | .ifElse i e x none, free, heads, types, scope, scopes => by
    rw [Stmt.Unresolved] at free
    rw [Stmt.resolve]
    refine .bind (e.resolve_names free.1) fun e' l same => ?_
    subst same
    refine .bind
      (.inScope (Stmt.resolve_names x free.2 heads types [] (scope :: scopes)) tail_of_added)
      fun x' l same => ?_
    exact .pure same fun t hx he => he.append hx
  | .ifElse i e x (some y), free, heads, types, scope, scopes => by
    rw [Stmt.Unresolved] at free
    rw [Stmt.resolve]
    have first :=
      Stmt.resolve_names x free.2.1 (fun c hc => heads c (List.mem_append_left _ hc)) types []
      (scope :: scopes)
    have second := Stmt.resolve_names y free.2.2 (fun c hc => heads c (List.mem_append_right _ hc))
      types [] (scope :: scopes)
    refine .bind (e.resolve_names free.1) fun e' l same => ?_
    subst same
    refine .bind (.inScope first tail_of_added) fun x' l same => ?_
    subst same
    refine .bind (.inScope second tail_of_added) fun y' l same => ?_
    exact .pure same fun t hy hx he => he.append (hx.append hy)
  | .whileLoop i e b, free, heads, types, scope, scopes => by
    rw [Stmt.Unresolved] at free
    rw [Stmt.resolve]
    refine .bind (e.resolve_names free.1) fun e' l same => ?_
    subst same
    refine .bind
      (.inScope (Stmt.resolve_names b free.2 heads types [] (scope :: scopes)) tail_of_added)
      fun b' l same => ?_
    exact .pure same fun t hb he => he.append hb
  | .forLoop i init e us b, free, heads, types, scope, scopes => by
    rw [Stmt.Unresolved] at free
    obtain ⟨freeInit, freeE, freeUs, freeB⟩ := free
    rw [Stmt.resolve]
    have first :=
      Stmt.resolveAll_names init freeInit (fun c hc => heads c (List.mem_append_left _ hc)) types []
      (scope :: scopes)
    -- The header and the body see what the initialization declares; the body has a scope of its
    -- own.
    refine .inScopeTo (show Binds w types ([] :: scope :: scopes) _
      (fun s' l => l.tail = scope :: scopes ∧ s'.declares = []) _ from .bind first
        fun init' l same => ?_)
      fun s' l ⟨closed, plain⟩ => ⟨closed, by rw [plain, List.nil_append]⟩
    subst same
    have second :=
      Stmt.resolve_names b freeB (fun c hc => heads c (List.mem_append_right _ hc)) types []
      ((latestFirst Stmt.declares init' ++ []) :: scope :: scopes)
    refine .bind (Expr.resolveOption_names e freeE) fun e' l same => ?_
    subst same
    refine .bind (Expr.resolveAll_names us freeUs) fun us' l same => ?_
    subst same
    refine .bind (.inScope second tail_of_added) fun b' l same => ?_
    subst same
    refine .pure ⟨rfl, rfl⟩ fun t hb hus he hinit => ?_
    have env := flatten_added (latestFirst Stmt.declares init') [] (scope :: scopes)
    rw [env] at he hus
    replace hb : Explained w t types
      (Stmt.uses ((latestFirst Stmt.declares init' ++ []) :: scope :: scopes).flatten b')
      (Stmt.localTypesIn ((latestFirst Stmt.declares init' ++ []) :: scope :: scopes).flatten b') :=
        hb
    rw [env] at hb
    exact hinit.append (he.append (hus.append hb))
  | .tryCatch i ⟨b, ss⟩ cs none, free, heads, types, scope, scopes => by
    rw [Stmt.Unresolved] at free
    rw [Stmt.resolve]
    have first := Stmt.resolveAll_names ss free.1 (fun c hc => heads c (List.mem_append_left _ hc))
      types [] (scope :: scopes)
    have second :=
      CatchClause.resolveAll_names cs free.2
        (fun c hc => heads c (List.mem_append_right _ hc)) types
      (scope :: scopes)
    refine .bind (.inScope first tail_of_added) fun ss' l same => ?_
    subst same
    refine .bind second fun cs' l same => ?_
    exact .pure same fun t hcs hss => hss.append hcs
  | .tryCatch i ⟨b, ss⟩ cs (some ⟨fb, fs⟩), free, heads, types, scope, scopes => by
    rw [Stmt.Unresolved] at free
    rw [Stmt.resolve]
    have left : ∀ c ∈ Stmt.declarationsOf ss ++ CatchClause.declarationsOf cs, c.head.Follows w :=
      fun c hc => heads c (List.mem_append_left _ hc)
    have first := Stmt.resolveAll_names ss free.1 (fun c hc => left c (List.mem_append_left _ hc))
      types [] (scope :: scopes)
    have second :=
      CatchClause.resolveAll_names cs free.2.1
        (fun c hc => left c (List.mem_append_right _ hc)) types
      (scope :: scopes)
    have third :=
      Stmt.resolveAll_names fs free.2.2 (fun c hc => heads c (List.mem_append_right _ hc)) types []
      (scope :: scopes)
    refine .bind (.inScope first tail_of_added) fun ss' l same => ?_
    subst same
    refine .bind second fun cs' l same => ?_
    subst same
    refine .bind (.inScope third tail_of_added) fun fs' l same => .pure same fun t hfs hcs hss => ?_
    have all := (hss.append hcs).append hfs
    rw [List.append_assoc] at all
    exact all
  | .returnValue i e, free, _, types, scope, scopes => by
    rw [Stmt.Unresolved] at free
    rw [Stmt.resolve]
    exact .bind (Expr.resolveOption_names e free) fun e' l same => .pure same fun t he => he
  | .throwValue i e, free, _, types, scope, scopes => by
    rw [Stmt.Unresolved] at free
    rw [Stmt.resolve]
    exact .bind (e.resolve_names free) fun e' l same => .pure same fun t he => he
  | .superCall i as b, free, _, types, scope, scopes => by
    rw [Stmt.Unresolved] at free
    rw [Stmt.resolve]
    exact .bind (Expr.resolveAll_names as free) fun as' l same => .pure same fun t has => has
  | .thisCall i as b, free, _, types, scope, scopes => by
    rw [Stmt.Unresolved] at free
    rw [Stmt.resolve]
    exact .bind (Expr.resolveAll_names as free) fun as' l same => .pure same fun t has => has
  | .localType i d, free, heads, types, scope, scopes => by
    rw [Stmt.Unresolved] at free
    rw [Stmt.resolve]
    refine .bind (TypeDecl.resolve_names d free heads types (scope :: scopes)) fun d' l same =>
      .pure same fun t hd => ⟨fun _ ho => absurd ho List.not_mem_nil, ?_⟩
    exact List.forall_mem_singleton.mpr hd
  | .empty i, free, _, types, scope, scopes => by
    rw [Stmt.resolve]
    exact .pure rfl fun t => .nil

theorem Stmt.resolveAll_names : ∀ (ss : List Stmt), Stmt.UnresolvedAll ss →
    (∀ x ∈ Stmt.declarationsOf ss, x.head.Follows w) →
    ∀ (types : List TypeId) (scope : Scope) (scopes : List Scope),
      Binds w types (scope :: scopes) (Stmt.resolveAll ss)
        (fun ss' l => l = (latestFirst Stmt.declares ss' ++ scope) :: scopes)
        fun ss' t => Explained w t types (Stmt.usesOf (scope :: scopes).flatten ss')
          (Stmt.localTypesOfIn (scope :: scopes).flatten ss')
  | [], _, _, types, scope, scopes => by
    rw [Stmt.resolveAll]
    exact .pure rfl fun t => .nil
  | s :: ss, free, heads, types, scope, scopes => by
    rw [Stmt.UnresolvedAll] at free
    rw [Stmt.resolveAll]
    have first :=
      Stmt.resolve_names s free.1 (fun c hc => heads c (List.mem_append_left _ hc)) types
        scope scopes
    have second := Stmt.resolveAll_names ss free.2 fun c hc => heads c (List.mem_append_right _ hc)
    refine .bind first fun s' l same => ?_
    rw [same]
    refine .bind (second types (s'.declares ++ scope) scopes) fun ss' l same =>
      .pure ?_ fun t hss hs => ?_
    · rw [same, latestFirst_cons, List.append_assoc]
    · rw [flatten_added] at hss
      exact hs.append hss

theorem CatchClause.resolveAll_names : ∀ (cs : List CatchClause), CatchClause.UnresolvedAll cs →
    (∀ x ∈ CatchClause.declarationsOf cs, x.head.Follows w) →
      ∀ (types : List TypeId) (scopes : List Scope),
      Binds w types scopes (CatchClause.resolveAll cs) (fun _ l => l = scopes)
        fun cs' t => Explained w t types (CatchClause.usesOf scopes.flatten cs')
          (CatchClause.localTypesOfIn scopes.flatten cs')
  | [], _, _, types, scopes => by
    rw [CatchClause.resolveAll]
    exact .pure rfl fun t => .nil
  | ⟨sp, x, ⟨b, ss⟩⟩ :: cs, free, heads, types, scopes => by
    rw [CatchClause.UnresolvedAll] at free
    obtain ⟨freeX, freeSs, freeCs⟩ := free
    rw [CatchClause.resolveAll]
    have body := Stmt.resolveAll_names ss freeSs fun c hc => heads c (List.mem_append_left _ hc)
    have rest := CatchClause.resolveAll_names cs freeCs fun c hc =>
      heads c (List.mem_append_right _ hc)
    -- The clause can be put in front of clauses.
    refine .bind (show Binds w types scopes _ (fun _ l => l = scopes) fun c t => ∀ cs',
      Explained w t types (CatchClause.usesOf scopes.flatten cs')
        (CatchClause.localTypesOfIn scopes.flatten cs') →
        Explained w t types (CatchClause.usesOf scopes.flatten (c :: cs'))
          (CatchClause.localTypesOfIn scopes.flatten (c :: cs'))
      from .inScope (.bind (declareParameter_names x freeX) fun x' l same => ?_) fun _ l closed =>
        closed)
      fun c l same => ?_
    · subst same
      refine .bind (.inScope (body types [] _) tail_of_added) fun ss' l same => ?_
      subst same
      refine .pure rfl fun t hss _ cs' hcs => ?_
      replace hss : Explained w t types (Stmt.usesOf ((x'.declares ++ []) :: scopes).flatten ss')
        (Stmt.localTypesOfIn ((x'.declares ++ []) :: scopes).flatten ss') := hss
      rw [flatten_added] at hss
      exact hss.append hcs
    · subst same
      exact .bind (rest types l) fun cs' l' same => .pure same fun t hcs hc => hc cs' hcs

theorem Member.resolve_names : ∀ (m : Member), m.Unresolved →
    (∀ x ∈ Member.typeDeclarations [m], x.head.Follows w) →
      (∀ x ∈ Member.bodyDeclarations [m], x.head.Follows w) →
      ∀ (types : List TypeId) (scopes : List Scope),
      Binds w types scopes m.resolve (fun _ l => l = scopes)
        fun m' t => m'.LookedUpIn w t scopes.flatten types ∧
          ∀ x ∈ m'.innerIn, x.2.LookedUpIn w t (x.1 ++ scopes.flatten) types
  | .type d, free, inTypes, _, types, scopes => by
    rw [Member.Unresolved] at free
    rw [Member.resolve]
    have own (c) (hc : c ∈ d.declarations) := inTypes c (List.mem_append_left _ hc)
    refine .bind (TypeDecl.resolve_names d free own types scopes)
      fun d' l same => .pure same fun t hd => ?_
    refine ⟨⟨fun _ ho => absurd ho List.not_mem_nil, fun _ hp => absurd hp List.not_mem_nil⟩, ?_⟩
    exact List.forall_mem_singleton.mpr hd
  | .field f, free, _, _, types, scopes => by
    rw [Member.Unresolved] at free
    rw [Member.resolve]
    refine .bind (f.resolve_names free) fun f' l same => .pure same fun t hf => ?_
    rw [← List.nil_append scopes.flatten, usesAt_append] at hf
    exact ⟨⟨hf.of_within, fun _ hp => absurd hp List.not_mem_nil⟩,
      fun _ hc => absurd hc List.not_mem_nil⟩
  | .initializer ⟨i, s, ⟨b, ss⟩⟩, free, _, inBodies, types, scopes => by
    rw [Member.Unresolved] at free
    rw [Member.resolve]
    have body := Stmt.resolveAll_names ss free fun c hc => inBodies c (List.mem_append_left _ hc)
    refine .bind (.inScope (body types [] scopes) tail_of_added) fun ss' l same =>
      .pure same fun t hss => ?_
    exact ⟨⟨hss.of_body.1, fun _ hp => absurd hp List.not_mem_nil⟩, hss.of_body.2⟩
  | .method ⟨h, none⟩, free, _, _, types, scopes => by
    rw [Member.Unresolved] at free
    rw [Member.resolve]
    refine .inScope (.bind (declareParameters_names h.parameters free) fun ps l same => ?_)
      fun _ l closed => closed
    subst same
    exact .pure rfl fun t hps =>
      ⟨⟨fun _ ho => absurd ho List.not_mem_nil, hps⟩, fun _ hc => absurd hc List.not_mem_nil⟩
  | .method ⟨h, some ⟨b, ss⟩⟩, free, _, inBodies, types, scopes => by
    rw [Member.Unresolved] at free
    rw [Member.resolve]
    have body := Stmt.resolveAll_names ss free.2 fun c hc => inBodies c (List.mem_append_left _ hc)
    refine .inScope (.bind (declareParameters_names h.parameters free.1) fun ps l same => ?_)
      fun _ l closed => closed
    rw [List.append_nil] at same
    -- The parameters are the only locals in the innermost scope when the body starts.
    subst same
    refine .bind (body types _ scopes) fun ss' l same => ?_
    subst same
    refine .pure rfl fun t hss hps => ?_
    exact ⟨⟨hss.of_body.1, hps⟩, hss.of_body.2⟩

theorem Member.resolveAll_names : ∀ (ms : List Member), Member.UnresolvedAll ms →
    (∀ x ∈ Member.typeDeclarations ms, x.head.Follows w) →
      (∀ x ∈ Member.bodyDeclarations ms, x.head.Follows w) →
      ∀ (types : List TypeId) (scopes : List Scope),
      Binds w types scopes (Member.resolveAll ms) (fun _ l => l = scopes)
        fun ms' t => ∀ m ∈ ms', m.LookedUpIn w t scopes.flatten types ∧
          ∀ x ∈ m.innerIn, x.2.LookedUpIn w t (x.1 ++ scopes.flatten) types
  | [], _, _, _, types, scopes => by
    rw [Member.resolveAll]
    exact .pure rfl fun t m hm => absurd hm List.not_mem_nil
  | m :: ms, free, inTypes, inBodies, types, scopes => by
    rw [Member.UnresolvedAll] at free
    rw [Member.resolveAll]
    rw [Member.typeDeclarations_cons] at inTypes
    rw [Member.bodyDeclarations_cons] at inBodies
    have first := Member.resolve_names m free.1 (fun c hc => inTypes c (List.mem_append_left _ hc))
      fun c hc => inBodies c (List.mem_append_left _ hc)
    have rest :=
      Member.resolveAll_names ms free.2 (fun c hc => inTypes c (List.mem_append_right _ hc))
      fun c hc => inBodies c (List.mem_append_right _ hc)
    refine .bind (first types scopes) fun m' l same => ?_
    subst same
    exact .bind (rest types l) fun ms' l' same =>
      .pure same fun t hms hm => List.forall_mem_cons.mpr ⟨hm, hms⟩

/-- Resolving a type in which no name and no local has a handle. -/
theorem TypeDecl.resolve_names :
    ∀ (d : TypeDecl), d.Unresolved → (∀ x ∈ d.declarations, x.head.Follows w) →
    ∀ (types : List TypeId) (scopes : List Scope),
      Binds w types scopes d.resolve (fun _ l => l = scopes) fun d' t =>
        d'.LookedUpIn w t scopes.flatten types
  | ⟨h, ms⟩, free, heads, types, scopes => by
    rw [TypeDecl.Unresolved] at free
    rw [TypeDecl.declarations] at heads
    have head := heads _ List.mem_cons_self
    have inner : ∀ x ∈ Member.typeDeclarations ms ++ Member.bodyDeclarations ms, x.head.Follows w :=
      fun x hx => heads x (List.mem_cons_of_mem _ hx)
    have all := Member.resolveAll_names ms free (fun c hc => inner c (List.mem_append_left _ hc))
      fun c hc => inner c (List.mem_append_right _ hc)
    rw [TypeDecl.resolve]
    refine .bind h.handle_names fun id l ⟨same, bound⟩ => ?_
    subst same
    refine .bind (TypeHead.resolveSuperclass_names bound head) fun h' l' same => ?_
    subst same
    refine .inType (.bind (EnumConstant.resolveAll_names h'.enumConstants) fun cs l same => ?_)
    subst same
    refine .bind (all (id :: types) l) fun ms' l' same => ?_
    exact .pure same fun t members _ head _ => .of_members (head.trans bound) members

end

end

/-! ## Units -/

/-- The trail of whatever resolving does. -/
def BindingTable.trail (start : BindingTable) : Trail where
  leads := ResolvesTo
  start
  refl := .refl
  trans := .trans
  resolves := id
  locals _ := fun _ _ _ _ resolves =>
    ⟨resolves.adds.trans (.addVariable _ rfl), resolves.grown.trans (.addVariable _ rfl)⟩

theorem TypeHead.follows_trail (start : BindingTable) (h : TypeHead) : h.Follows start.trail := by
  refine fun t =>
    ⟨fun _ => trivial, fun id _ => TypeHead.resolveSuperclass_yields fun clause _ s resolves => ?_⟩
  have found : s.table.AddsLocals (superclassOf clause s).2.table := by
    unfold superclassOf
    cases clause.binding with
    | some p => exact .refl _
    | none => exact (resolveSuperclass_at clause.name (.self s)).adds
  unfold Records
  split
  · rename_i set
    exact ⟨(resolves.adds.trans found).trans (setSuperclass_adds set),
      (resolves.grown.trans (superclassOf_extends clause s)).trans (.setSuperclass set)⟩
  · trivial

namespace CompilationUnit

variable {u : CompilationUnit} {t : BindingTable} {stats : Binding.Stats}

/-- In a unit that is bound, if no name and no local had a handle, the names of every type were
looked up where the type stands. -/
theorem bind_lookedUp (free : u.Unresolved) (success : (u.bind t).result = .ok stats) :
    ∀ d ∈ (u.bind t).unit.types, ∃ start : BindingTable, d.LookedUpIn start.trail (u.bind t).table
      [] [] := by
  obtain ⟨ds, s, s', declaring, resolving, table⟩ := bind_runs success
  have declared : List.Forall₂ (fun _ d => TypeDecl.Unresolved d) u.types ds := by
    have each : (Edit.list (declareTopLevel u.package) u.types).Ends (fun _ => True)
        (fun ds => List.Forall₂ (fun _ d => TypeDecl.Unresolved d) u.types ds) fun _ => True :=
      .list fun d hd => declareType_unresolved _ u.package none d (free d hd)
    exact (each.of_done trivial declaring).1
  have outside : (State.start t).SameStacks s := (Edit.Moves.list State.SameStacks.refl
    State.SameStacks.trans fun d _ => declareType_stacks _ _ _ d).run declaring
  have before : s'.table.ResolvesTo (u.bind t).table := table ▸ .refl _
  intro d' hd'
  obtain ⟨d, hd, s₁, s₂, inside, noScopes, run, after⟩ :=
    exists_mem_left (resolveTypes_steps outside resolving before).2 hd'
  obtain ⟨_, -, unresolved⟩ := exists_mem_left declared hd
  have outermost : s₁.Inside s₁.table.trail [] [] :=
    ⟨.refl _, fun _ hx => absurd hx List.not_mem_nil, inside, noScopes⟩
  obtain ⟨-, -, names⟩ :=
    TypeDecl.resolve_names d unresolved (fun x _ => x.head.follows_trail _) [] [] s₁ d' s₂
      outermost run
  exact ⟨s₁.table, names _ after⟩

/-- In a unit that is bound, if no name and no local had a handle, the names of every type mean what
they have the handles of, wherever the type stands. -/
theorem bind_names (free : u.Unresolved) (success : (u.bind t).result = .ok stats)
    {types : List TypeId} {x : TypeDecl} (stands : (u.bind t).unit.Stands types x) :
    ∀ m ∈ x.members, m.NamesIn (u.bind t).table types := by
  obtain ⟨d, hd, stands⟩ := stands
  obtain ⟨start, found⟩ := bind_lookedUp free success d hd
  exact found.namesIn stands

end CompilationUnit

end ClassInit
