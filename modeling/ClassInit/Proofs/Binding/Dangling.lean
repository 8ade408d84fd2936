import ClassInit.Proofs.Binding.Grounding

/-!
# Dangling handles

A handle dangles if the table has no entry for it. Binding looks up the handles of type
declarations, so none of these dangles afterwards; every other handle that a unit brings along is
kept as it is. Whatever dangles in a bound unit, or as a superclass in its table, therefore dangles
in the unit before (`CompilationUnit.bind_traced`).
-/

set_option autoImplicit false

namespace ClassInit

open Binding

section

variable {given : EntryId → Prop}

/-! ## Superclass clauses -/

/-- A new type whose superclass the table has. -/
theorem Binding.State.Sound.pushType {s : Binding.State} (sound : s.Sound given)
    {d : TypeDescriptor} (superclass : s.table.Knows d.superclass) :
    Reaches given s { s with table := (s.table.pushType d).2 } .empty := by
  have within : s.table.Within (s.table.pushType d).2 :=
    .of_sizes (by simp [BindingTable.pushType]) (Nat.le_refl _) (Nat.le_refl _)
  refine ⟨within,
    ⟨fun d' hd' p hp => ?_, fun scope hscope l hl =>
      (sound.locals scope hscope l hl).later within _⟩,
    .empty⟩
  rcases Array.mem_push.mp hd' with old | rfl
  · exact (sound.superclasses d' old p hp).later within _
  · exact .inl (within (.ofType p) (superclass p hp))

/-- An unknown name is that of a new class, which extends the root class. -/
theorem Binding.State.Sound.internClass {s : Binding.State} (sound : s.Sound given)
    (name : String) :
    Reaches given s { s with table := (s.table.internClass name).2 } .empty ∧
      (s.table.internClass name).2.Has (.ofType (s.table.internClass name).1) := by
  rcases s.table.internClass_cases name with ⟨id, found, same⟩ | ⟨superclass, -, parent, pushed⟩
  · rw [same]
    exact ⟨sound.reaches, BindingTable.lookupType_eq_some found⟩
  · rw [pushed]
    refine ⟨sound.pushType ?_, BindingTable.index_pushType_lt _ _⟩
    rcases parent with rfl | ⟨rfl, -⟩
    · exact BindingTable.InRange.knows_objectType s.table
    · exact BindingTable.knows_none s.table

/-- A superclass that is looked up is in the table afterwards. -/
theorem resolveSuperclass_known (name : String) {s : Binding.State} (sound : s.Sound given) :
    Reaches given s (Binding.resolveSuperclass name s).2 .empty ∧
      (Binding.resolveSuperclass name s).2.table.Has
        (.ofType (Binding.resolveSuperclass name s).1) := by
  rcases resolveSuperclass_finds name s with ⟨id, known, found⟩ | interned
  · rw [found]
    exact ⟨sound.reaches, known⟩
  · rw [interned]
    exact sound.internClass name

/-- The superclass that a clause means is one that the unit brought along or one that the table
has. -/
theorem superclassOf_known {c : TypeName} (refers : c.handle.Refers given) {s : Binding.State}
    (sound : s.Sound given) :
    Reaches given s (superclassOf c s).2 .empty ∧
      Known given (superclassOf c s).2.table (.ofType (superclassOf c s).1) := by
  obtain ⟨name, _ | p⟩ := c
  · obtain ⟨reached, has⟩ := resolveSuperclass_known name sound
    exact ⟨reached, .inl has⟩
  · exact ⟨sound.reaches, .inr (refers _ rfl)⟩

/-- A clause names a class in the table, or keeps the handle that it has. -/
theorem TypeHead.resolveSuperclass_grounds {h : TypeHead} (id : TypeId)
    (refers : ∀ k ∈ h.superclass.toList.map TypeName.handle, k.Refers given) :
    Grounds given (h.resolveSuperclass id) fun h' =>
      .ofHandles (h'.superclass.toList.map TypeName.handle) := by
  intro s h' s' sound run
  rcases TypeHead.resolveSuperclass_eq_ok run with ⟨none, rfl, rfl⟩ |
    ⟨c, p, t, t', written, found, set, rfl, rfl⟩
  · exact .ofHandles sound refers
  · rw [written] at refers
    obtain ⟨reached, known⟩ := superclassOf_known (refers _ (List.mem_singleton.mpr rfl)) sound
    rw [found] at reached known
    obtain ⟨-, rfl⟩ := BindingTable.setSuperclass_eq_ok.mp set
    -- Only superclasses differ, and the new one is known.
    have within : t.Within (t.withSuperclass id p) :=
      .of_sizes (Nat.le_of_eq Array.size_modify.symm) (Nat.le_refl _) (Nat.le_refl _)
    refine ⟨reached.within.trans within, ⟨fun d hd q hq => ?_, fun scope hscope l hl => ?_⟩,
      .ofHandles fun k hk => ?_⟩
    · obtain ⟨d₀, old, rfl | rfl⟩ := BindingTable.mem_types_of_set set hd
      · exact (reached.sound.superclasses _ old q hq).later within _
      · cases hq
        exact known.later within _
    · exact (reached.sound.locals scope hscope l hl).later within _
    · rw [List.mem_singleton.mp hk]
      rintro e ⟨⟩
      exact known.later within _

/-! ## Statements and declarations -/

/-- Declaring the parameters of a method resolves its head. -/
theorem Binding.Grounds.parameters {β : Type} {k : List Parameter → Resolving β}
    {out : β → Contents} (h : MethodHead)
    (refers : (h.contents ++ Parameter.contentsOf h.parameters).Refers given)
    (hk : ∀ ps, GroundsOn given ({ h with parameters := ps }.contents ++ Parameter.contentsOf ps)
    (k ps) out) :
    Grounds given (liftM (declareParameters h.parameters) >>= k) out := by
  intro s b s' sound run
  obtain ⟨ps, s₁, hps, hrest⟩ := Step.bind_eq_ok.mp run
  have parameters := declareParameters_grounds h.parameters refers.right s ps s₁ sound hps
  have own : Reaches given s s { h with parameters := ps }.contents :=
    ⟨fun _ has => has, sound, fun k hk => (refers.left.own k hk).imp fun _ => .inr,
      fun _ hd => absurd hd List.not_mem_nil⟩
  exact hk ps s s₁ b s' (own.append parameters) hrest

mutual

/-- Resolving a statement grounds the handles in it. -/
theorem Stmt.resolve_grounds :
    ∀ s : Stmt, s.contents.Refers given → Grounds given s.resolve Stmt.contents
  | .expression i e, refers => by
    rw [Stmt.resolve]
    exact .bind (e.resolve_grounds refers.own) fun _ => .pure rfl
  | .localVariable i m t fs, refers => by
    rw [Stmt.resolve]
    exact .bind (Fragment.resolveLocals_grounds t m fs refers) fun _ => .pure rfl
  | .block i ⟨b, ss⟩, refers => by
    rw [Stmt.resolve]
    exact .bind (.inScope (Stmt.resolveAll_grounds ss refers)) fun _ => .pure rfl
  | .ifElse i c t none, refers => by
    rw [Stmt.resolve]
    refine .bind (c.resolve_grounds refers.left.own) fun _ => ?_
    exact .bind (.inScope (Stmt.resolve_grounds t refers.right)) fun _ => .pure rfl
  | .ifElse i c t (some e), refers => by
    rw [Stmt.resolve]
    refine .bind (c.resolve_grounds refers.left.left.own) fun _ => ?_
    refine .bind (.inScope (Stmt.resolve_grounds t refers.left.right)) fun _ => ?_
    exact .bind (.inScope (Stmt.resolve_grounds e refers.right)) fun _ => .pure rfl
  | .whileLoop i c b, refers => by
    rw [Stmt.resolve]
    refine .bind (c.resolve_grounds refers.left.own) fun _ => ?_
    exact .bind (.inScope (Stmt.resolve_grounds b refers.right)) fun _ => .pure rfl
  | .forLoop i init c us b, refers => by
    rw [Stmt.resolve]
    refine .inScope (.bind (Stmt.resolveAll_grounds init refers.left.left.left) fun _ => ?_)
    refine .bind (Expr.resolveOption_grounds c refers.left.left.right.own) fun _ => ?_
    refine .bind (Expr.resolveAll_grounds us refers.left.right.own) fun _ => ?_
    exact .bind (.inScope (Stmt.resolve_grounds b refers.right)) fun _ => .pure rfl
  | .tryCatch i ⟨b, ss⟩ cs none, refers => by
    rw [Stmt.resolve]
    refine .bind (.inScope (Stmt.resolveAll_grounds ss refers.left)) fun _ => ?_
    exact .bind (CatchClause.resolveAll_grounds cs refers.right) fun _ => .pure rfl
  | .tryCatch i ⟨b, ss⟩ cs (some ⟨fb, fs⟩), refers => by
    rw [Stmt.resolve]
    refine .bind (.inScope (Stmt.resolveAll_grounds ss refers.left.left)) fun _ => ?_
    refine .bind (CatchClause.resolveAll_grounds cs refers.left.right) fun _ => ?_
    exact .bind (.inScope (Stmt.resolveAll_grounds fs refers.right)) fun _ => .pure rfl
  | .returnValue i e, refers => by
    rw [Stmt.resolve]
    exact .bind (Expr.resolveOption_grounds e refers.own) fun _ => .pure rfl
  | .throwValue i e, refers => by
    rw [Stmt.resolve]
    exact .bind (e.resolve_grounds refers.own) fun _ => .pure rfl
  | .superCall i as b, refers => by
    rw [Stmt.resolve]
    obtain ⟨arguments, own⟩ := List.forall_mem_append.mp refers.own
    exact .then (Expr.resolveAll_grounds as arguments) own fun _ => rfl
  | .thisCall i as b, refers => by
    rw [Stmt.resolve]
    obtain ⟨arguments, own⟩ := List.forall_mem_append.mp refers.own
    exact .then (Expr.resolveAll_grounds as arguments) own fun _ => rfl
  | .localType i d, refers => by
    rw [Stmt.resolve]
    exact .bind (TypeDecl.resolve_grounds d refers) fun _ => .pure rfl
  | .empty i, _ => by
    rw [Stmt.resolve]
    exact .pure rfl

theorem Stmt.resolveAll_grounds : ∀ ss : List Stmt, (Stmt.contentsOf ss).Refers given →
    Grounds given (Stmt.resolveAll ss) Stmt.contentsOf
  | [], _ => by
    rw [Stmt.resolveAll]
    exact .pure rfl
  | s :: ss, refers => by
    rw [Stmt.resolveAll]
    refine .bind (Stmt.resolve_grounds s refers.left) fun _ => ?_
    exact .bind (Stmt.resolveAll_grounds ss refers.right) fun _ => .pure rfl

/-- Resolving catch clauses grounds the handles in them. -/
theorem CatchClause.resolveAll_grounds :
    ∀ cs : List CatchClause, (CatchClause.contentsOf cs).Refers given →
      Grounds given (CatchClause.resolveAll cs) CatchClause.contentsOf
  | [], _ => by
    rw [CatchClause.resolveAll]
    exact .pure rfl
  | ⟨sp, x, ⟨b, ss⟩⟩ :: cs, refers => by
    rw [CatchClause.resolveAll]
    have one : Grounds given (inScope do
        let x ← declareParameter x
        let ss ← inScope (Stmt.resolveAll ss)
        return (⟨sp, x, ⟨b, ss⟩⟩ : CatchClause))
        fun c => c.exception.contents ++ Stmt.contentsOf c.body.statements := by
      refine .inScope (.bind (.lift (declareParameter_reaches x refers.left.left)) fun _ => ?_)
      exact .bind (.inScope (Stmt.resolveAll_grounds ss refers.left.right)) fun _ => .pure rfl
    refine .bind one fun c => ?_
    obtain ⟨sp', x', ⟨b', ss'⟩⟩ := c
    exact .bind (CatchClause.resolveAll_grounds cs refers.right) fun _ => .pure rfl

/-- Resolving a member grounds the handles in it. -/
theorem Member.resolve_grounds :
    ∀ m : Member, m.contents.Refers given → Grounds given m.resolve Member.contents
  | .type d, refers => by
    rw [Member.resolve]
    exact .bind (TypeDecl.resolve_grounds d refers) fun _ => .pure rfl
  | .field f, refers => by
    rw [Member.resolve]
    exact .bind (f.resolve_grounds refers) fun _ => .pure rfl
  | .initializer ⟨i, s, ⟨b, ss⟩⟩, refers => by
    rw [Member.resolve]
    exact .bind (.inScope (Stmt.resolveAll_grounds ss refers)) fun _ => .pure rfl
  | .method ⟨h, none⟩, refers => by
    rw [Member.resolve]
    exact .inScope (.parameters h refers fun _ => .pure rfl)
  | .method ⟨h, some ⟨b, ss⟩⟩, refers => by
    rw [Member.resolve]
    refine .inScope (.parameters h refers.left fun _ => ?_)
    exact .bind (Stmt.resolveAll_grounds ss refers.right) fun _ => .pure rfl

theorem Member.resolveAll_grounds : ∀ ms : List Member, (Member.contentsOf ms).Refers given →
    Grounds given (Member.resolveAll ms) Member.contentsOf
  | [], _ => by
    rw [Member.resolveAll]
    exact .pure rfl
  | m :: ms, refers => by
    rw [Member.resolveAll]
    refine .bind (Member.resolve_grounds m refers.left) fun _ => ?_
    exact .bind (Member.resolveAll_grounds ms refers.right) fun _ => .pure rfl

/-- Resolving a type gives handles of entries that the table then has, or that the unit brought
along. -/
theorem TypeDecl.resolve_grounds : ∀ d : TypeDecl, (Contents.ofTypes [d] d.preorder).Refers given →
    Grounds given d.resolve fun d' => .ofTypes [d'] d'.preorder
  | ⟨h, ms⟩, refers => by
    intro s d' s' sound run
    obtain ⟨id, h', s₁, cs, s₂, ms', s₃, bound, hsuper, hcs, hms, rfl, rfl⟩ :=
      TypeDecl.resolve_eq_ok run
    obtain ⟨-, -, binding, constants, -⟩ := TypeHead.resolveSuperclass_steps bound hsuper
    have types := refers.types
    simp only [Contents.ofTypes, TypeDecl.preorder_cons] at types
    obtain ⟨own, inside⟩ := List.forall_mem_cons.mp types
    obtain ⟨head, contents⟩ := List.forall_mem_append.mp own
    obtain ⟨handle, clause⟩ := List.forall_mem_cons.mp head
    obtain ⟨enums, members⟩ := List.forall_mem_append.mp contents
    have first := TypeHead.resolveSuperclass_grounds id clause s h' s₁ sound hsuper
    have entered : State.Sound given { s₁ with typeScopes := id :: s₁.typeScopes } :=
      first.sound.of_eq rfl rfl
    have second := EnumConstant.resolveAll_grounds h'.enumConstants (by rw [constants]; exact enums)
      _ cs s₂ entered hcs
    have third :=
      second.append (Member.resolveAll_grounds ms ⟨members, inside⟩ s₂ ms' s₃ second.sound hms)
    refine ⟨first.within.trans third.within, third.sound.of_eq rfl rfl, fun _ hk =>
      absurd hk List.not_mem_nil, ?_⟩
    show ∀ x ∈ TypeDecl.preorder _, _
    rw [TypeDecl.preorder_cons]
    refine List.forall_mem_cons.mpr
      ⟨List.forall_mem_append.mpr ⟨List.forall_mem_cons.mpr ⟨?_, fun k hk => ?_⟩,
      third.contents.own⟩, third.contents.types⟩
    · show Handle.Refers _ (.ofType h'.name h'.binding)
      rw [binding]
      exact fun e he => .inr (handle e he)
    · exact (first.contents.own k hk).imp (Known.later third.within)

end

/-- Resolving several types grounds the handles in all of them. -/
theorem resolveTypes_grounds (ds : List TypeDecl)
    (refers : (Contents.ofTypes ds (ds.flatMap TypeDecl.preorder)).Refers given) :
    Grounds given (ds.mapM TypeDecl.resolve) fun ds' =>
      .ofTypes ds' (ds'.flatMap TypeDecl.preorder) := by
  induction ds with
  | nil => exact .pure rfl
  | cons d ds ih =>
    rw [List.mapM_cons]
    obtain ⟨one, others⟩ := List.forall_mem_append.mp refers.types
    refine .bind (d.resolve_grounds ⟨refers.own, one⟩) fun _ => ?_
    exact .bind (ih ⟨refers.own, others⟩) fun _ => .pure rfl

end

/-! ## Units -/

/-- A handle that is kept refers to what it did. -/
theorem Handle.Keeps.entry {h h' : Handle} (kept : h.Keeps h') (e : EntryId)
    (refers : e ∈ h.entry?) : e ∈ h'.entry? := by
  cases kept with
  | same => exact refers
  | ofType | ofVariable | ofMethod => cases refers

/-- Filling in a type keeps the handles in it. -/
theorem TypeDecl.FillsTo.keeps {d d' : TypeDecl} (filled : d.FillsTo d') :
    List.Forall₂ Handle.Keeps d.handles d'.handles :=
  List.rel_append filled.head.handles filled.contents.handles

namespace CompilationUnit

variable {u : CompilationUnit} {t : BindingTable}

/-- What a unit refers to, type by type. -/
theorem mem_entryIds {e : EntryId} :
    e ∈ u.entryIds ↔ ∃ h ∈ u.preorder.flatMap TypeDecl.handles, e ∈ h.entry? := by
  constructor
  · intro he
    obtain ⟨d, hd, he⟩ := List.mem_flatMap.mp he
    obtain ⟨h, hh, he⟩ := TypeDecl.mem_entryIds.mp he
    exact ⟨h, List.mem_flatMap.mpr ⟨d, hd, hh⟩, he⟩
  · rintro ⟨h, hh, he⟩
    obtain ⟨d, hd, hh⟩ := List.mem_flatMap.mp hh
    exact List.mem_flatMap.mpr ⟨d, hd, TypeDecl.mem_entryIds.mpr ⟨h, hh, he⟩⟩

/-- Declaring a unit keeps the ids of the table in range, and gives handles of new entries only. -/
theorem declareTypes_traces {ds : List TypeDecl} {s : Binding.State} (inRange : t.InRange)
    (run : Edit.list (declareTopLevel u.package) u.types (.start t) = (.done ds, s)) :
    s.table.InRange ∧ s.localScopes = [] ∧
      Traces s.table (u.preorder.flatMap TypeDecl.handles)
        ((ds.flatMap TypeDecl.preorder).flatMap TypeDecl.handles) := by
  have sameStacks : (Binding.State.start t).SameStacks s := (Edit.Moves.list State.SameStacks.refl
    State.SameStacks.trans fun d _ => declareType_stacks _ _ _ d).run run
  obtain ⟨kept, -⟩ :=
    Edit.exists_done_of_mem (R := fun s s' => s.table.InRange → s'.table.InRange) (fun _ => id)
    (fun _ _ _ first second holds => second (first holds))
    (fun _ _ _ _ run holds => declareType_inRange (BindingTable.knows_none _) holds run) run
  obtain ⟨-, tops⟩ :=
    Edit.exists_done_of_mem (R := fun s s' => s.table.Within s'.table) (fun _ _ => id)
    (fun _ _ _ => .trans) (fun _ _ _ _ run => (declareType_enters run).within) run
  refine ⟨kept inRange, sameStacks.2, fun h hh => ?_⟩
  obtain ⟨x', hx', hh⟩ := List.mem_flatMap.mp hh
  obtain ⟨d', hd', hx'⟩ := List.mem_flatMap.mp hx'
  obtain ⟨d, hd, s₁, s₂, -, run, within⟩ := tops d' hd'
  refine ((declareType_traces run).later within h (List.mem_flatMap.mpr ⟨x', hx', hh⟩)).imp_left
    fun old => ?_
  obtain ⟨x, hx, hh⟩ := List.mem_flatMap.mp old
  exact List.mem_flatMap.mpr ⟨x, List.mem_flatMap.mpr ⟨d, hd, hx⟩, hh⟩

/-- Nothing dangles in a bound unit, or as a superclass in its table, but what dangled in the unit
before. -/
theorem bind_traced {stats : Binding.Stats} (inRange : t.InRange)
    (success : (u.bind t).result = .ok stats) :
    u.TracedTo (u.bind t).unit (u.bind t).table := by
  obtain ⟨ds, s, s', declaring, resolving, table⟩ := bind_runs success
  obtain ⟨-, declared⟩ := declareTypes_enters declaring
  obtain ⟨inRange', noLocals, traces⟩ := declareTypes_traces inRange declaring
  obtain ⟨-, resolved, -⟩ := resolveTypes_filled resolving
  -- What the declared unit refers to has an entry, or the unit brought it along.
  have refers : ∀ h ∈ (ds.flatMap TypeDecl.preorder).flatMap TypeDecl.handles,
      h.Refers fun e => s.table.Has e ∨ e ∈ u.entryIds := by
    intro h hh e he
    rcases traces h hh with old | new
    · exact .inr (mem_entryIds.mpr ⟨h, old, he⟩)
    · exact .inl (new e he)
  have sound : s.Sound fun e => s.table.Has e ∨ e ∈ u.entryIds := by
    refine ⟨fun d hd p hp => .inl (inRange'.superclasses d hd p hp), fun scope hscope => ?_⟩
    rw [noLocals] at hscope
    exact absurd hscope List.not_mem_nil
  obtain ⟨within, sound', contents⟩ := resolveTypes_grounds ds
    ⟨fun _ hh => absurd hh List.not_mem_nil, fun d hd h hh =>
      refers h (List.mem_flatMap.mpr ⟨d, hd, hh⟩)⟩
    s _ s' sound resolving
  have traced : ∀ e, Known (fun e => s.table.Has e ∨ e ∈ u.entryIds) s'.table e → s'.table.Has e ∨
      e ∈ u.entryIds := by
    rintro e (has | has | old)
    · exact .inl has
    · exact .inl (within e has)
    · exact .inr old
  have kept : List.Forall₂ (fun d d' => List.Forall₂ Handle.Keeps d.handles d'.handles) u.preorder
      (u.bind t).unit.preorder :=
    (forall₂_trans TypeDecl.FillsTo.trans declared resolved).imp fun _ _ one => one.keeps
  have labelled := (bind_labelled success).1
  rw [table] at labelled ⊢
  have handles : ∀ e ∈ (u.bind t).unit.entryIds, s'.table.Has e ∨ e ∈ u.entryIds := by
    intro e he
    obtain ⟨h, hh, he⟩ := mem_entryIds.mp he
    obtain ⟨d, hd, hh⟩ := List.mem_flatMap.mp hh
    exact traced e (contents.types d hd h hh e he)
  have superclasses :
      ∀ d ∈ s'.table.types, ∀ p ∈ d.superclass, s'.table.Has (.ofType p) ∨ .ofType p ∈ u.entryIds :=
    fun d hd p hp => traced _ (sound'.superclasses d hd p hp)
  refine ⟨fun d hd => (labelled.types d hd).known, kept, handles, superclasses, fun given =>
    ⟨fun e he => ?_,
    fun d hd p hp => ?_⟩, fun ⟨all, _⟩ e he => ?_⟩
  · exact (handles e he).elim id (given e)
  · exact (superclasses d hd p hp).elim id (given _)
  · -- Binding keeps the handle.
    obtain ⟨h, hh, he⟩ := mem_entryIds.mp he
    obtain ⟨h', hh', one⟩ := exists_mem_right (List.rel_flatMap kept fun _ _ one => one) hh
    exact all e (mem_entryIds.mpr ⟨h', hh', one.entry e he⟩)

/-- `class A extends B { int y = x; }`, where the clause and `x` bring a handle along. -/
def handledUnit (superclass : TypeId) (x : VariableId) : CompilationUnit :=
  ⟨"A.java", none,
    [⟨⟨.unassigned, .dummy, .classType, "A", .empty, some ⟨"B", some superclass⟩, none, []⟩,
      [.field ⟨.unassigned, .dummy, .empty, .primitive .int,
        [⟨.dummy, "y", some (.name ⟨.unassigned, .dummy, none⟩ "x" (some x)), none⟩]⟩]⟩],
    .initial⟩

/-- The root class, and the field that binding registers. -/
theorem bind_traced_handled :
    BindingTable.new.InRange ∧
      (((handledUnit ⟨0⟩ ⟨0⟩).bind .new).result = .ok ⟨1, 1, 0, 0, 0⟩ ∧
        (handledUnit ⟨0⟩ ⟨0⟩).entryIds = [.ofType ⟨0⟩, .ofVariable ⟨0⟩] ∧
        (handledUnit ⟨0⟩ ⟨0⟩).TracedTo ((handledUnit ⟨0⟩ ⟨0⟩).bind .new).unit
          ((handledUnit ⟨0⟩ ⟨0⟩).bind .new).table) ∧
      ((handledUnit ⟨0⟩ ⟨0⟩).bind .new).unit.entryIds =
        [.ofType ⟨2⟩, .ofType ⟨0⟩, .ofVariable ⟨0⟩, .ofVariable ⟨0⟩] := by
  have success : ((handledUnit ⟨0⟩ ⟨0⟩).bind .new).result = .ok ⟨1, 1, 0, 0, 0⟩ := by decide +kernel
  exact ⟨BindingTable.inRange_new,
    ⟨success, by decide +kernel, bind_traced BindingTable.inRange_new success⟩, by decide +kernel⟩

/-- A superclass clause with the handle of no entry: the handle is kept and recorded. -/
theorem bind_keeps_dangling :
    ¬ ∀ (u : CompilationUnit) (t : BindingTable) (stats : Binding.Stats),
      t.InRange → (u.bind t).result = .ok stats →
        (∀ e ∈ (u.bind t).unit.entryIds, (u.bind t).table.Has e) ∧
          ∀ d ∈ (u.bind t).table.types, ∀ p ∈ d.superclass, (u.bind t).table.Has (.ofType p) := by
  intro validated
  obtain ⟨handles, -⟩ :=
    validated (handledUnit ⟨77⟩ ⟨0⟩) .new ⟨1, 1, 0, 0, 0⟩ BindingTable.inRange_new
    (by decide +kernel)
  have dangles : .ofType ⟨77⟩ ∈ ((handledUnit ⟨77⟩ ⟨0⟩).bind .new).unit.entryIds ∧
      ¬ ((handledUnit ⟨77⟩ ⟨0⟩).bind .new).table.Has (.ofType ⟨77⟩) := by decide +kernel
  exact dangles.2 (handles _ dangles.1)

end CompilationUnit

end ClassInit
