import ClassInit.Proofs.Binding.ResolvingSteps

/-!
# What resolving does to declarations

Resolving a tree leaves the handles of its types and fields as they are, resolves the initializers
of the fields, and keeps what holds of the table, if adding locals does and recording superclasses
does (`TypeDecl.resolve_yields`). It can fail only where the head of a type cannot be resolved.
-/

set_option autoImplicit false

namespace ClassInit

open Binding

section

variable {T : BindingTable → Prop} {E : Prop}

/-! ## Statements and declarations -/

/-- The second list of members is the first with all names resolved. -/
structure ResolvedMembers (ms ms' : List Member) : Prop where
  slots : List.Forall₂ FieldSlot.ResolvesTo (ms.flatMap Member.slots) (ms'.flatMap Member.slots)
  types : ResolvedDecls (Member.typeDeclarations ms) (Member.typeDeclarations ms')
  bodies : ResolvedDecls (Member.bodyDeclarations ms) (Member.bodyDeclarations ms')

theorem Member.typeDeclarations_cons (m : Member) (ms : List Member) :
    Member.typeDeclarations (m :: ms) =
      Member.typeDeclarations [m] ++ Member.typeDeclarations ms := by
  cases m <;> simp [Member.typeDeclarations]

theorem Member.bodyDeclarations_cons (m : Member) (ms : List Member) :
    Member.bodyDeclarations (m :: ms) =
      Member.bodyDeclarations [m] ++ Member.bodyDeclarations ms := by
  rcases m with d | ⟨h, _ | ⟨i, ss⟩⟩ | ⟨i, s, ⟨b, ss⟩⟩ | f <;> simp [Member.bodyDeclarations]

/-- Members are resolved one after the other. -/
theorem ResolvedMembers.cons {m m' : Member} {ms ms' : List Member}
    (first : ResolvedMembers [m] [m']) (rest : ResolvedMembers ms ms') :
    ResolvedMembers (m :: ms) (m' :: ms') := by
  refine ⟨?_, ?_, ?_⟩
  · have one := first.slots
    rw [List.flatMap_singleton, List.flatMap_singleton] at one
    exact List.rel_append one rest.slots
  · rw [Member.typeDeclarations_cons, Member.typeDeclarations_cons m']
    exact first.types.append rest.types
  · rw [Member.bodyDeclarations_cons, Member.bodyDeclarations_cons m']
    exact first.bodies.append rest.bodies

/-- Resolving the members of a type does not make it deeper. -/
theorem ResolvedMembers.fits {ms ms' : List Member} (resolved : ResolvedMembers ms ms')
    (h h' : TypeHead) (n : Nat) (fits : TypeDecl.Fits n ⟨h, ms⟩) : TypeDecl.Fits n ⟨h', ms'⟩ := by
  cases n with
  | zero => exact fits.elim
  | succ n =>
    have inside : ∀ h ms, (TypeDecl.mk h ms).inner.flatMap TypeDecl.declarations =
        Member.typeDeclarations ms ++ Member.bodyDeclarations ms := by
      intro h ms
      have all := TypeDecl.declarations_eq ⟨h, ms⟩
      rw [TypeDecl.declarations] at all
      exact (List.cons.inj all).2.symm
    intro x' hx'
    have listed : x' ∈ (TypeDecl.mk h' ms').inner.flatMap TypeDecl.declarations :=
      List.mem_flatMap.mpr ⟨x', hx', x'.mem_declarations_self⟩
    rw [inside] at listed
    obtain ⟨x, hx, one⟩ := exists_mem_left (resolved.types.append resolved.bodies) listed
    rw [← inside h] at hx
    obtain ⟨c, hc, hx⟩ := List.mem_flatMap.mp hx
    exact one.fits n ((fits c hc).of_mem_declarations hx)

/-- A member without types and fields. -/
theorem ResolvedMembers.body {m m' : Member} (slots : m.slots = []) (slots' : m'.slots = [])
    (types : Member.typeDeclarations [m] = []) (types' : Member.typeDeclarations [m'] = [])
    (bodies : ResolvedDecls (Member.bodyDeclarations [m]) (Member.bodyDeclarations [m'])) :
    ResolvedMembers [m] [m'] := by
  refine ⟨?_, ?_, bodies⟩
  · rw [List.flatMap_singleton, List.flatMap_singleton, slots, slots']
    exact .nil
  · rw [types, types']
    exact .nil

section

variable (admits : AdmitsLocals T)

include admits

set_option linter.unusedSectionVars false in
mutual

/-- Resolving a statement keeps what holds of the table and resolves the types declared in it. The
walks over statements and declarations prove it together. -/
theorem Stmt.resolve_yields : ∀ s : Stmt, (∀ x ∈ s.declarations, x.head.Resolvable T E) →
    Yields T E s.resolve fun s' => ResolvedDecls s.declarations s'.declarations
  -- A statement declares types only through the statements and the local type in it.
  | .expression i e, _ => by
    rw [Stmt.resolve]
    exact .bind e.resolve_yields fun _ _ => .pure .nil
  | .localVariable i m t fs, _ => by
    rw [Stmt.resolve]
    exact .bind (Fragment.resolveLocals_yields admits t m fs) fun _ _ => .pure .nil
  | .block i ⟨b, ss⟩, heads => by
    rw [Stmt.resolve]
    exact .bind (.inScope (Stmt.resolveAll_yields ss heads)) fun _ h => .pure h
  | .ifElse i c t none, heads => by
    rw [Stmt.resolve]
    refine .bind c.resolve_yields fun _ _ => ?_
    exact .bind (.inScope (Stmt.resolve_yields t heads)) fun _ h => .pure h
  | .ifElse i c t (some e), heads => by
    rw [Stmt.resolve]
    have first := Stmt.resolve_yields t fun x hx => heads x (List.mem_append_left _ hx)
    have second := Stmt.resolve_yields e fun x hx => heads x (List.mem_append_right _ hx)
    refine .bind c.resolve_yields fun _ _ => ?_
    refine .bind (.inScope first) fun _ ht => ?_
    exact .bind (.inScope second) fun _ he => .pure (ht.append he)
  | .whileLoop i c b, heads => by
    rw [Stmt.resolve]
    refine .bind c.resolve_yields fun _ _ => ?_
    exact .bind (.inScope (Stmt.resolve_yields b heads)) fun _ h => .pure h
  | .forLoop i init c us b, heads => by
    rw [Stmt.resolve]
    have first := Stmt.resolveAll_yields init fun x hx => heads x (List.mem_append_left _ hx)
    have second := Stmt.resolve_yields b fun x hx => heads x (List.mem_append_right _ hx)
    refine .inScope (.bind first fun _ hinit => ?_)
    refine .bind (Expr.resolveOption_yields c) fun _ _ => ?_
    refine .bind (Expr.resolveAll_yields us) fun _ _ => ?_
    exact .bind (.inScope second) fun _ hb => .pure (hinit.append hb)
  | .tryCatch i ⟨b, ss⟩ cs none, heads => by
    rw [Stmt.resolve]
    have first := Stmt.resolveAll_yields ss fun x hx => heads x (List.mem_append_left _ hx)
    have second := CatchClause.resolveAll_yields cs fun x hx => heads x (List.mem_append_right _ hx)
    refine .bind (.inScope first) fun _ hss => ?_
    exact .bind second fun _ hcs => .pure (hss.append hcs)
  | .tryCatch i ⟨b, ss⟩ cs (some ⟨fb, fs⟩), heads => by
    rw [Stmt.resolve]
    have left : ∀ x ∈ Stmt.declarationsOf ss ++ CatchClause.declarationsOf cs,
        x.head.Resolvable T E := fun x hx => heads x (List.mem_append_left _ hx)
    have first := Stmt.resolveAll_yields ss fun x hx => left x (List.mem_append_left _ hx)
    have second := CatchClause.resolveAll_yields cs fun x hx => left x (List.mem_append_right _ hx)
    have third := Stmt.resolveAll_yields fs fun x hx => heads x (List.mem_append_right _ hx)
    refine .bind (.inScope first) fun _ hss => ?_
    refine .bind second fun _ hcs => ?_
    exact .bind (.inScope third) fun _ hfs => .pure ((hss.append hcs).append hfs)
  | .returnValue i e, _ => by
    rw [Stmt.resolve]
    exact .bind (Expr.resolveOption_yields e) fun _ _ => .pure .nil
  | .throwValue i e, _ => by
    rw [Stmt.resolve]
    exact .bind e.resolve_yields fun _ _ => .pure .nil
  | .superCall i as b, _ => by
    rw [Stmt.resolve]
    exact .bind (Expr.resolveAll_yields as) fun _ _ => .pure .nil
  | .thisCall i as b, _ => by
    rw [Stmt.resolve]
    exact .bind (Expr.resolveAll_yields as) fun _ _ => .pure .nil
  | .localType i d, heads => by
    rw [Stmt.resolve]
    exact .bind (TypeDecl.resolve_yields d heads) fun _ h => .pure h
  | .empty i, _ => by
    rw [Stmt.resolve]
    exact .pure .nil

theorem Stmt.resolveAll_yields : ∀ ss : List Stmt,
    (∀ x ∈ Stmt.declarationsOf ss, x.head.Resolvable T E) →
      Yields T E (Stmt.resolveAll ss) fun ss' =>
        ResolvedDecls (Stmt.declarationsOf ss) (Stmt.declarationsOf ss')
  | [], _ => by
    rw [Stmt.resolveAll]
    exact .pure .nil
  | s :: ss, heads => by
    rw [Stmt.resolveAll]
    have first := Stmt.resolve_yields s fun x hx => heads x (List.mem_append_left _ hx)
    have second := Stmt.resolveAll_yields ss fun x hx => heads x (List.mem_append_right _ hx)
    refine .bind first fun _ hs => ?_
    exact .bind second fun _ hss => .pure (hs.append hss)

theorem CatchClause.resolveAll_yields : ∀ cs : List CatchClause,
    (∀ x ∈ CatchClause.declarationsOf cs, x.head.Resolvable T E) →
      Yields T E (CatchClause.resolveAll cs) fun cs' =>
        ResolvedDecls (CatchClause.declarationsOf cs) (CatchClause.declarationsOf cs')
  | [], _ => by
    rw [CatchClause.resolveAll]
    exact .pure .nil
  | ⟨sp, x, ⟨b, ss⟩⟩ :: cs, heads => by
    rw [CatchClause.resolveAll]
    have body := Stmt.resolveAll_yields ss fun x hx => heads x (List.mem_append_left _ hx)
    have second := CatchClause.resolveAll_yields cs fun x hx => heads x (List.mem_append_right _ hx)
    have one : Yields T E (inScope do
        let x ← declareParameter x
        let ss ← inScope (Stmt.resolveAll ss)
        return (⟨sp, x, ⟨b, ss⟩⟩ : CatchClause)) fun c =>
          ResolvedDecls (Stmt.declarationsOf ss) (Stmt.declarationsOf c.body.statements) := by
      refine .inScope (.bind (declareParameter_yields admits x) fun _ _ => ?_)
      exact .bind (.inScope body) fun _ h => .pure h
    refine .bind one fun c hc => ?_
    obtain ⟨sp', x', ⟨b', ss'⟩⟩ := c
    exact .bind second fun _ hcs => .pure (hc.append hcs)

/-- Resolving a member does so for the types declared in it, those in bodies included. -/
theorem Member.resolve_yields : ∀ m : Member,
    (∀ x ∈ Member.typeDeclarations [m], x.head.Resolvable T E) →
      (∀ x ∈ Member.bodyDeclarations [m], x.head.Resolvable T E) →
        Yields T E m.resolve fun m' => ResolvedMembers [m] [m']
  | .type d, types, _ => by
    rw [Member.resolve]
    have one := TypeDecl.resolve_yields d fun x hx => types x (List.mem_append_left _ hx)
    refine .bind one fun d' h => .pure ⟨.nil, ?_, .nil⟩
    simpa [Member.typeDeclarations] using h
  | .field f, _, _ => by
    rw [Member.resolve]
    refine .bind f.resolve_yields fun f' h => .pure ⟨?_, .nil, .nil⟩
    simpa using h
  | .initializer ⟨i, s, ⟨b, ss⟩⟩, _, bodies => by
    rw [Member.resolve]
    have one := Stmt.resolveAll_yields ss fun x hx => bodies x (List.mem_append_left _ hx)
    refine .bind (.inScope one) fun ss' h => .pure (.body rfl rfl rfl rfl ?_)
    simpa [Member.bodyDeclarations] using h
  | .method ⟨h, none⟩, _, _ => by
    rw [Member.resolve]
    exact .inScope (.bind (declareParameters_yields admits h.parameters) fun _ _ =>
      .pure (.body rfl rfl rfl rfl .nil))
  | .method ⟨h, some ⟨b, ss⟩⟩, _, bodies => by
    rw [Member.resolve]
    have one := Stmt.resolveAll_yields ss fun x hx => bodies x (List.mem_append_left _ hx)
    refine .inScope (.bind (declareParameters_yields admits h.parameters) fun _ _ => ?_)
    refine .bind one fun ss' h => .pure (.body rfl rfl rfl rfl ?_)
    simpa [Member.bodyDeclarations] using h

theorem Member.resolveAll_yields : ∀ ms : List Member,
    (∀ x ∈ Member.typeDeclarations ms, x.head.Resolvable T E) →
      (∀ x ∈ Member.bodyDeclarations ms, x.head.Resolvable T E) →
        Yields T E (Member.resolveAll ms) fun ms' => ResolvedMembers ms ms'
  | [], _, _ => by
    rw [Member.resolveAll]
    exact .pure ⟨.nil, .nil, .nil⟩
  | m :: ms, types, bodies => by
    rw [Member.resolveAll]
    rw [Member.typeDeclarations_cons] at types
    rw [Member.bodyDeclarations_cons] at bodies
    have first := Member.resolve_yields m (fun x hx => types x (List.mem_append_left _ hx))
      fun x hx => bodies x (List.mem_append_left _ hx)
    have second := Member.resolveAll_yields ms (fun x hx => types x (List.mem_append_right _ hx))
      fun x hx => bodies x (List.mem_append_right _ hx)
    refine .bind first fun _ hm => ?_
    exact .bind second fun _ hms => .pure (hm.cons hms)

/-- Resolving a type keeps the handles of all types and fields in it and resolves the initializers
of the fields. -/
theorem TypeDecl.resolve_yields : ∀ d : TypeDecl,
    (∀ x ∈ d.declarations, x.head.Resolvable T E) →
      Yields T E d.resolve fun d' => ResolvedDecls d.declarations d'.declarations
  | ⟨h, ms⟩, heads => by
    rw [TypeDecl.declarations] at heads
    have head := heads _ List.mem_cons_self
    have inner : ∀ x ∈ Member.typeDeclarations ms ++ Member.bodyDeclarations ms,
        x.head.Resolvable T E := fun x hx => heads x (List.mem_cons_of_mem _ hx)
    have all := Member.resolveAll_yields ms (fun x hx => inner x (List.mem_append_left _ hx))
      fun x hx => inner x (List.mem_append_right _ hx)
    rw [TypeDecl.resolve]
    refine .bind head.handle_yields fun id bound => ?_
    refine .bind (head.superclass id bound) fun h' same => .inType id ?_
    refine .bind (EnumConstant.resolveAll_yields h'.enumConstants) fun _ _ => ?_
    refine .bind all fun ms' members => .pure ?_
    rw [TypeDecl.declarations, TypeDecl.declarations]
    exact .cons ⟨same.1, same.2, members.slots, members.fits h _⟩
      (members.types.append members.bodies)

end

/-- Resolving several types does so for all declarations in them. -/
theorem resolveTypes_yields (ds : List TypeDecl)
    (heads : ∀ x ∈ ds.flatMap TypeDecl.declarations, x.head.Resolvable T E) :
    Yields T E (ds.mapM TypeDecl.resolve) fun ds' =>
      ResolvedDecls (ds.flatMap TypeDecl.declarations) (ds'.flatMap TypeDecl.declarations) := by
  induction ds with
  | nil => exact .pure .nil
  | cons d ds ih =>
    rw [List.mapM_cons]
    have first := TypeDecl.resolve_yields admits d fun x hx => heads x (List.mem_append_left _ hx)
    have rest := ih fun x hx => heads x (List.mem_append_right _ hx)
    refine .bind first fun d' hd => ?_
    exact .bind rest fun ds' hds => .pure (hd.append hds)

end

end

/-! ## Tables that are extended -/

/-- A table that extends another still does so with more locals. -/
theorem admitsLocals_of_extends (t : BindingTable) : AdmitsLocals t.Extends :=
  fun _ _ _ _ grown => grown.trans (.addVariable _ rfl)

/-- The search for a superclass finds a type that the table has, or a class is interned under the
name. -/
theorem resolveSuperclass_finds (name : String) (s : State) :
    (∃ id : TypeId, id.index < s.table.types.size ∧ Binding.resolveSuperclass name s = (id, s)) ∨
      Binding.resolveSuperclass name s = enter (·.internClass name) s := by
  unfold Binding.resolveSuperclass
  split
  · rename_i id found
    exact .inl ⟨id, BindingTable.lookupType_eq_some found, rfl⟩
  · dsimp only
    split
    · rename_i id found
      split at found
      · cases found
      · exact .inl ⟨id, BindingTable.lookupSimpleType_eq_some found, rfl⟩
    · exact .inr rfl

/-- Looking up a superclass adds at most a class. -/
theorem resolveSuperclass_extends (name : String) (s : State) :
    s.table.Extends (Binding.resolveSuperclass name s).2.table := by
  rcases resolveSuperclass_finds name s with ⟨id, -, found⟩ | interned
  · rw [found]
    exact .refl _
  · rw [interned]
    exact .internClass s.table name

/-- The same for a clause, with or without a handle. -/
theorem superclassOf_extends (clause : TypeName) (s : State) :
    s.table.Extends (superclassOf clause s).2.table := by
  unfold superclassOf
  cases clause.binding with
  | some p => exact .refl _
  | none => exact resolveSuperclass_extends clause.name s

/-- Whatever head is resolved, the table is extended if this succeeds. -/
theorem TypeHead.resolvable_of_extends (t : BindingTable) (h : TypeHead) :
    h.Resolvable t.Extends True := by
  refine ⟨fun _ => trivial, fun id _ => TypeHead.resolveSuperclass_yields
    fun clause _ s grown => ?_⟩
  unfold Records
  split
  · rename_i set
    exact (grown.trans (superclassOf_extends clause s)).trans (.setSuperclass set)
  · trivial

end ClassInit
