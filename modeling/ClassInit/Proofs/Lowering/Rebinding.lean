import ClassInit.Proofs.Binding.Labels
import ClassInit.Proofs.Lowering.Idempotence

/-!
# Binding what was bound

Binding a bound unit again declares nothing and changes nothing. Lowering in between moves and
copies what carries handles already, and what it makes itself gets a handle at once, so that the
lowered unit is labelled like the bound one (`CompilationUnit.lower_labelled`). The superclass
clauses are recorded anew, in the order in which the types stand after lowering: they come to the
same unless several types with one handle name different superclasses
(`CompilationUnit.rebinding_declares_nothing`).
-/

set_option autoImplicit false

namespace ClassInit

/-! ## Labelled pieces -/

namespace Contents

theorem labelled_append {c d : Contents} : (c ++ d).Labelled ↔ c.Labelled ∧ d.Labelled := by
  constructor
  · rintro ⟨fields, methods, locals⟩
    obtain ⟨fields, fields'⟩ := List.forall_mem_append.mp fields
    obtain ⟨methods, methods'⟩ := List.forall_mem_append.mp methods
    obtain ⟨locals, locals'⟩ := List.forall_mem_append.mp locals
    exact ⟨⟨fields, methods, locals⟩, fields', methods', locals'⟩
  · rintro ⟨first, second⟩
    exact ⟨List.forall_mem_append.mpr ⟨first.fields, second.fields⟩,
      List.forall_mem_append.mpr ⟨first.methods, second.methods⟩,
      List.forall_mem_append.mpr ⟨first.locals, second.locals⟩⟩

theorem labelled_ofHandles (hs : List Handle) : (ofHandles hs).Labelled :=
  ⟨fun _ h => absurd h List.not_mem_nil, fun _ h => absurd h List.not_mem_nil,
    fun _ h => absurd h List.not_mem_nil⟩

theorem labelled_empty : empty.Labelled := labelled_ofHandles []

/-- The types inside do not matter. -/
theorem Labelled.of_own {c d : Contents} (labelled : c.Labelled) (same : d.own = c.own) :
    d.Labelled := by
  obtain ⟨fields, methods, locals⟩ := labelled
  obtain ⟨sameFields, sameMethods, sameLocals, -⟩ := Contents.mk.inj same
  exact ⟨sameFields ▸ fields, sameMethods ▸ methods, sameLocals ▸ locals⟩

theorem labelled_erase {c : Contents} : (c.erase id).Labelled ↔ c.Labelled := by
  refine ⟨fun ⟨fields, methods, locals⟩ => ⟨fields, fun m hm => ?_, locals⟩,
    fun ⟨fields, methods, locals⟩ => ⟨fields, fun m hm => ?_, locals⟩⟩
  · exact methods (m.erase id) (List.mem_map.mpr ⟨m, hm, rfl⟩)
  · obtain ⟨original, listed, rfl⟩ := List.mem_map.mp hm
    exact methods original listed

end Contents

theorem Stmt.labelled_contentsOf {ss : List Stmt} :
    (Stmt.contentsOf ss).Labelled ↔ ∀ s ∈ ss, s.contents.Labelled := by
  induction ss with
  | nil => exact ⟨fun _ _ h => absurd h List.not_mem_nil, fun _ => Contents.labelled_empty⟩
  | cons s ss ih => rw [Stmt.contentsOf, Contents.labelled_append, ih, List.forall_mem_cons]

theorem Member.labelled_contentsOf {ms : List Member} :
    (Member.contentsOf ms).Labelled ↔ ∀ m ∈ ms, m.contents.Labelled := by
  induction ms with
  | nil => exact ⟨fun _ _ h => absurd h List.not_mem_nil, fun _ => Contents.labelled_empty⟩
  | cons m ms ih => rw [Member.contentsOf, Contents.labelled_append, ih, List.forall_mem_cons]

/-- What a type declares is labelled if what its members declare is. -/
theorem TypeDecl.labelled_contents {d : TypeDecl} :
    d.contents.Labelled ↔ ∀ m ∈ d.members, m.contents.Labelled := by
  rw [← Member.labelled_contentsOf, TypeDecl.contents, Contents.labelled_append]
  exact and_iff_right (Contents.labelled_ofHandles _)

namespace Lowering

variable {t : BindingTable} {encoding : LiteralEncoding} {isInterface once : Bool}

theorem SameStmts.labelled {ss ss' : List Stmt} (same : SameStmts ss ss')
    (labelled : (Stmt.contentsOf ss').Labelled) : (Stmt.contentsOf ss).Labelled := by
  unfold SameStmts at same
  rw [← Stmt.eraseAll_eq_map, ← Stmt.eraseAll_eq_map] at same
  rw [← Contents.labelled_erase, ← Stmt.contentsOf_erase, same, Stmt.contentsOf_erase,
    Contents.labelled_erase]
  exact labelled

/-- Statements that initialize declare only what members declare. -/
theorem initList_labelled {ms : List Member} (labelled : ∀ m ∈ ms, m.contents.Labelled) :
    (Stmt.contentsOf (initList t encoding isInterface once ms)).Labelled := by
  refine Stmt.labelled_contentsOf.mpr fun s hs => ?_
  rcases exists_of_mem_initList hs with
    ⟨f, -, g, -, e, -, rfl⟩ | ⟨⟨n, isStatic, ⟨b, ss⟩⟩, hi, -, hs⟩
  · exact Contents.labelled_ofHandles _
  · have own := labelled _ hi
    rcases mem_blockInit hs with rfl | hs
    · exact own
    · exact Stmt.labelled_contentsOf.mp own s hs

theorem labelled_of_isSuperCall {s : Stmt} (isCall : s.isSuperCall = true) :
    s.contents.Labelled := by
  cases s with
  | superCall => exact Contents.labelled_ofHandles _
  | _ => cases isCall

/-- A method with a body declares itself, its parameters and what the body declares. -/
theorem labelled_method {h : MethodHead} {i : NodeInfo} {ss : List Stmt} :
    (Member.method ⟨h, some ⟨i, ss⟩⟩).contents.Labelled ↔
      (h.contents ++ Parameter.contentsOf h.parameters).Labelled ∧
      ∀ s ∈ ss, s.contents.Labelled := by
  rw [Member.contents, Contents.labelled_append, Stmt.labelled_contentsOf]

theorem ConstructorLowered.labelled {instances : List Stmt} {m m' : MethodDecl}
    (lowered : ConstructorLowered instances m m') (labelled : (Member.method m).contents.Labelled)
    (initial : (Stmt.contentsOf instances).Labelled) : (Member.method m').contents.Labelled := by
  cases lowered with
  | delegating _ => exact labelled
  | @explicit h i before after copies call _ _ isCall copied =>
    obtain ⟨head, body⟩ := labelled_method.mp labelled
    refine labelled_method.mpr ⟨head, ?_⟩
    obtain ⟨before, rest⟩ := List.forall_mem_append.mp body
    obtain ⟨call, after⟩ := List.forall_mem_cons.mp rest
    exact List.forall_mem_append.mpr
      ⟨before, List.forall_mem_cons.mpr ⟨call, List.forall_mem_append.mpr
      ⟨Stmt.labelled_contentsOf.mp (copied.labelled initial), after⟩⟩⟩
  | @implicit h i ss copies call _ _ implied copied =>
    obtain ⟨head, body⟩ := labelled_method.mp labelled
    refine labelled_method.mpr ⟨head, ?_⟩
    exact List.forall_mem_cons.mpr ⟨labelled_of_isSuperCall implied.isSuperCall,
      List.forall_mem_append.mpr
      ⟨Stmt.labelled_contentsOf.mp (copied.labelled initial), body⟩⟩

/-- A member comes out labelled. -/
theorem MemberLowered.labelled {instances : List Stmt} {m m' : Member}
    (lowered : MemberLowered t encoding isInterface instances m m') (labelled : m.contents.Labelled)
    (initial : (Stmt.contentsOf instances).Labelled) : m'.contents.Labelled := by
  cases lowered with
  | type | method => exact labelled
  | @field f fs fragments =>
    -- A rule may take the initializer away or fold it, but not the handle.
    have bindings : List.Forall₂ (fun g g' : Fragment => g'.binding = g.binding) f.fragments fs :=
      fragments.imp fun g g' one => by cases one <;> rfl
    refine ⟨fun l hl => ?_, labelled.methods, labelled.locals⟩
    obtain ⟨g', hg', rfl⟩ := List.mem_map.mp hl
    obtain ⟨g, hg, same⟩ := exists_mem_left bindings hg'
    obtain ⟨v, bound⟩ := labelled.fields _ (List.mem_map_of_mem hg)
    exact ⟨v, same.trans bound⟩
  | constructor _ _ made => exact made.labelled labelled initial

theorem IsSynthesized.labelled {name : String} {modifiers : Modifiers} {isConstructor : Bool}
    {ss : List Stmt} {m : Member} (made : IsSynthesized name modifiers isConstructor ss m)
    (labelled : ∀ s ∈ ss, s.contents.Labelled) : m.contents.Labelled := by
  obtain ⟨n, bodyId, handle, rfl⟩ := made
  refine labelled_method.mpr ⟨?_, labelled⟩
  refine ⟨fun _ h => absurd h List.not_mem_nil, fun h hh => ?_, fun _ h =>
    absurd h List.not_mem_nil⟩
  obtain rfl : h = _ := List.mem_singleton.mp hh
  exact ⟨handle, rfl⟩

/-- The members of a lowered type are labelled if those of the type are. -/
theorem TypeLowered.labelled {options : Options} {access : Modifiers} {d d' : TypeDecl}
    (lowered : TypeLowered options t isInterface access d d') (labelled : d.contents.Labelled) :
    d'.contents.Labelled := by
  rw [TypeDecl.labelled_contents] at labelled ⊢
  have initial : ∀ once, (Stmt.contentsOf (initList t options.literalEncoding isInterface once
      d.members)).Labelled := fun once => initList_labelled labelled
  intro m' hm'
  rcases lowered.mem_cases hm' with ⟨m, hm, one⟩ | ⟨call, ss, implied, copied, synthesized⟩ |
    ⟨ss, copied, synthesized⟩
  · exact one.labelled (labelled m hm) (initial false)
  · exact synthesized.labelled
      (List.forall_mem_cons.mpr ⟨labelled_of_isSuperCall implied.isSuperCall,
      Stmt.labelled_contentsOf.mp (copied.labelled (initial false))⟩)
  · exact synthesized.labelled (Stmt.labelled_contentsOf.mp (copied.labelled (initial true)))

/-- What a declaration comes from has the same handle and superclass clause. -/
theorem Origin.head {options : Options} {d d' : TypeDecl} (origin : Origin options t d d') :
    d'.head.binding = d.head.binding ∧ d'.head.superclass = d.head.superclass := by
  obtain ⟨type, descriptor, d₁, ⟨h₂, ms₂⟩, -, -, head, -, lowered, copied⟩ := origin.lowered
  obtain ⟨h', ms'⟩ := d'
  have sameHead : h₂.erase id = h'.erase id := (TypeDecl.mk.inj copied).1
  rw [← head, ← lowered.head]
  exact ⟨(congrArg TypeHead.binding sameHead).symm, (congrArg TypeHead.superclass sameHead).symm⟩

/-- What comes from a labelled declaration is labelled. -/
theorem Origin.labelled {options : Options} {d d' : TypeDecl} (origin : Origin options t d d')
    (labelled : d.Labelled t) : d'.Labelled t := by
  obtain ⟨binding, superclass⟩ := origin.head
  refine ⟨?_, ?_, ?_⟩
  · rw [binding]
    exact labelled.known
  · rw [superclass]
    exact labelled.clause
  · obtain ⟨type, descriptor, d₁, d₂, -, -, -, outline, lowered, copied⟩ := origin.lowered
    have own : d₁.contents.Labelled := by
      have members := TypeDecl.labelled_contents.mp labelled.contents
      refine TypeDecl.labelled_contents.mpr fun m₁ hm₁ => ?_
      have listed : m₁.outline ∈ d.members.map Member.outline := outline ▸ List.mem_map_of_mem hm₁
      obtain ⟨m, hm, same⟩ := List.mem_map.mp listed
      exact (members m hm).of_own (Member.contents_of_outline same.symm)
    have erased := TypeDecl.contents_of_erase id copied
    rw [← Contents.labelled_erase, ← erased, Contents.labelled_erase]
    exact lowered.labelled own

end Lowering

namespace CompilationUnit

/-! ## Units -/

/-- Two declarations with the handle name different superclasses. -/
def ClausesDiffer (u : CompilationUnit) (id : TypeId) : Prop :=
  ∃ d ∈ u.preorder, ∃ e ∈ u.preorder, ∃ p q, d.head.clause? = some (id, p) ∧
    e.head.clause? = some (id, q) ∧ p ≠ q

/-- Lowering a labelled unit makes a labelled unit, with no superclass clause that the unit does not
have. -/
theorem lower_labelled {u : CompilationUnit} {t : BindingTable} {options : Lowering.Options}
    {stats : Lowering.Stats} (labelled : u.Labelled t)
    (success : (u.lower t options).result = .ok stats) :
    (u.lower t options).unit.Labelled (u.lower t options).table ∧
      ∀ x' ∈ (u.lower t options).unit.preorder, ∃ x ∈ u.preorder, x'.head.clause? =
        x.head.clause? := by
  have origins : ∀ x' ∈ (u.lower t options).unit.preorder, ∃ x ∈ u.preorder,
      Lowering.Origin options t x x' := by
    intro x' hx'
    obtain ⟨x, hx, origin⟩ := lower_origin success x' ((preorder_perm _).mem_iff.mp hx')
    exact ⟨x, (preorder_perm _).mem_iff.mpr hx, origin⟩
  refine ⟨⟨fun d hd => lower_fits success hd, fun x' hx' => ?_⟩, fun x' hx' => ?_⟩
  · obtain ⟨x, hx, origin⟩ := origins x' hx'
    obtain ⟨⟨id, bound, known⟩, clause, contents⟩ := origin.labelled (labelled.types x hx)
    refine ⟨⟨id, bound, ?_⟩, clause, contents⟩
    rw [(u.lower_grows t options).sameTypes]
    exact known
  · obtain ⟨x, hx, origin⟩ := origins x' hx'
    obtain ⟨binding, superclass⟩ := origin.head
    exact ⟨x, hx, by rw [TypeHead.clause?, TypeHead.clause?, binding, superclass]⟩

/-- Binding a bound unit again succeeds, leaves the table as it is, keeps every handle and declares
nothing. When the unit is lowered in between, the table stays as lowering leaves it but for the
superclasses of types for which the bound unit has superclass clauses that differ. -/
theorem rebinding_declares_nothing {u : CompilationUnit} {t : BindingTable} {stats : Binding.Stats}
    (success : (u.bind t).result = .ok stats) :
    let bound := u.bind t
    (bound.unit.DeclaresNothing bound.table ∧ (bound.unit.bind bound.table).table = bound.table) ∧
      ∀ (options : Lowering.Options) (counts : Lowering.Stats),
        let lowered := bound.unit.lower bound.table options
        lowered.result = .ok counts →
          lowered.unit.DeclaresNothing lowered.table ∧
            lowered.table.SameBut bound.unit.ClausesDiffer
              (lowered.unit.bind lowered.table).table := by
  refine ⟨bind_again success, fun options counts lowering => ?_⟩
  obtain ⟨labelled, recorded⟩ := bind_labelled success
  obtain ⟨labelled', clauses⟩ := lower_labelled labelled lowering
  refine labelled'.declaresNothing fun id p last same => ?_
  -- The clause is one of the bound unit, which agrees with the one that was recorded last.
  obtain ⟨h, hh, clause⟩ := exists_of_lastClause last
  obtain ⟨x', hx', rfl⟩ := List.mem_map.mp hh
  obtain ⟨x, hx, sameClause⟩ := clauses x' hx'
  rw [sameClause] at clause
  obtain ⟨q, last'⟩ := exists_lastClause (List.mem_map_of_mem hx) clause
  obtain ⟨k, hk, clause'⟩ := exists_of_lastClause last'
  obtain ⟨y, hy, rfl⟩ := List.mem_map.mp hk
  have agree : p = q := by
    by_contra differ
    exact same ⟨x, hx, y, hy, p, q, clause, clause', differ⟩
  rw [agree, BindingTable.superclass?, (lower_grows _ _ _).sameTypes]
  exact recorded id q last'

/-- `class A { static { class L extends <name> { } } void m(int p) { class L extends Object { } }
}`, where both types `L` have one handle. -/
def twinUnit (superclass : String) : CompilationUnit :=
  let n : NodeInfo := ⟨.unassigned, .dummy⟩
  let twin (superclass : String) : Stmt := .localType n
    ⟨⟨.unassigned, .dummy, .classType, "L", .empty, some ⟨superclass, none⟩, some ⟨0⟩, []⟩, []⟩
  ⟨"A.java", none, [⟨⟨.unassigned, .dummy, .classType, "A", .empty, none, none, []⟩,
    [.initializer ⟨n, true, ⟨n, [twin superclass]⟩⟩,
      .method
        ⟨⟨.unassigned, .dummy, "m", .empty, .void, [⟨"p", .primitive .int, none⟩], false, none,
          false⟩,
        some ⟨n, [twin Names.objectType]⟩⟩]⟩], .initial⟩

/-- A table with an entry for the types `L`. -/
def twinTable : BindingTable := .load [⟨"L", .classType, .empty, none, none⟩] [] []

/-- Both types `L` extend the same class, so that binding the lowered unit leaves its table as it
is. -/
theorem rebinding_declares_nothing_sample :
    let bound := (twinUnit Names.objectType).bind twinTable
    let lowered := bound.unit.lower bound.table .standard
    (∃ stats, bound.result = .ok stats) ∧ (∃ counts, lowered.result = .ok counts) ∧
      bound.unit.DeclaresNothing bound.table ∧ (bound.unit.bind bound.table).table = bound.table ∧
      lowered.unit.DeclaresNothing lowered.table ∧
      (lowered.unit.bind lowered.table).table = lowered.table := by
  obtain ⟨stats, success⟩ :
      ∃ stats, ((twinUnit Names.objectType).bind twinTable).result = .ok stats :=
    exists_eq_ok (by decide +kernel)
  obtain ⟨counts, lowering⟩ : ∃ counts, (((twinUnit Names.objectType).bind twinTable).unit.lower
      ((twinUnit Names.objectType).bind twinTable).table .standard).result = .ok counts :=
    exists_eq_ok (by decide +kernel)
  obtain ⟨⟨again, same⟩, after⟩ := rebinding_declares_nothing success
  obtain ⟨nothing, sameBut⟩ := after .standard counts lowering
  refine ⟨⟨stats, success⟩, ⟨counts, lowering⟩, again, same, nothing,
    sameBut.eq fun id differ => ?_⟩
  have agree : ∀ d ∈ ((twinUnit Names.objectType).bind twinTable).unit.preorder,
      ∀ e ∈ ((twinUnit Names.objectType).bind twinTable).unit.preorder,
        ∀ x ∈ d.head.clause?, ∀ y ∈ e.head.clause?, x.1 = y.1 → x.2 = y.2 := by decide +kernel
  obtain ⟨d, hd, e, he, p, q, clause, clause', different⟩ := differ
  exact different (agree d hd e he (id, p) clause (id, q) clause' rfl)

/-- The types `L` extend different classes. Lowering moves the one in the static block behind the
other one, so that binding the lowered unit records its clause last. -/
theorem rebinding_changes_superclass :
    let bound := (twinUnit Names.stringType).bind twinTable
    let lowered := bound.unit.lower bound.table .standard
    (∃ stats, bound.result = .ok stats) ∧ (∃ counts, lowered.result = .ok counts) ∧
      lowered.table.superclass? ⟨0⟩ = lowered.table.objectType ∧
      (lowered.unit.bind lowered.table).table.superclass? ⟨0⟩ = lowered.table.stringType ∧
      (lowered.unit.bind lowered.table).table ≠ lowered.table := by
  have before : (((twinUnit Names.stringType).bind twinTable).unit.lower
      ((twinUnit Names.stringType).bind twinTable).table .standard).table.superclass? ⟨0⟩ =
        some ⟨1⟩ := by
    decide +kernel
  have after : ((((twinUnit Names.stringType).bind twinTable).unit.lower
      ((twinUnit Names.stringType).bind twinTable).table .standard).unit.bind
      (((twinUnit Names.stringType).bind twinTable).unit.lower
      ((twinUnit Names.stringType).bind twinTable).table .standard).table).table.superclass? ⟨0⟩ =
        some ⟨2⟩ := by decide +kernel
  refine ⟨exists_eq_ok (by decide +kernel), exists_eq_ok (by decide +kernel),
    before.trans (by decide +kernel), after.trans (by decide +kernel), fun same => ?_⟩
  rw [same, before] at after
  cases after

end CompilationUnit

end ClassInit
