import ClassInit.Proofs.Binding.Stacks
import ClassInit.Proofs.Tree.Contents

/-!
# Filled trees

Binding fills in the handles that are missing in a tree and changes nothing else of it
(`TypeDecl.FillsTo`). The superclass clauses of the heads that it resolves are recorded in the
table, so that of several clauses for one type the last stands (`BindingTable.Records`).
-/

set_option autoImplicit false

namespace ClassInit

/-! ## Filled trees -/

/-- The second place has the handle of the first, or one where the first has none. -/
inductive Handle.Keeps : Handle → Handle → Prop where
  | same (h : Handle) : Keeps h h
  | ofType (name : String) (id : Option TypeId) : Keeps (.ofType name none) (.ofType name id)
  | ofVariable (name : String) (id : Option VariableId) :
      Keeps (.ofVariable name none) (.ofVariable name id)
  | ofMethod (name : String) (id : Option MethodId) : Keeps (.ofMethod name none)
    (.ofMethod name id)

theorem Handle.Keeps.trans (a b c : Handle) (first : a.Keeps b) (second : b.Keeps c) :
    a.Keeps c := by
  cases first with
  | same => exact second
  | ofType name id => cases second <;> exact .ofType name _
  | ofVariable name id => cases second <;> exact .ofVariable name _
  | ofMethod name id => cases second <;> exact .ofMethod name _

/-- The second variable is the first, with a handle that it may have lacked. -/
structure VariableSlot.FillsTo (l l' : VariableSlot) : Prop where
  name : l'.name = l.name
  type : l'.type = l.type
  modifiers : l'.modifiers = l.modifiers
  kept : ∀ v, l.binding = some v → l'.binding = some v

theorem VariableSlot.FillsTo.refl (l : VariableSlot) : l.FillsTo l :=
  ⟨rfl, rfl, rfl, fun _ bound => bound⟩

/-- Handles may be filled in in two goes. -/
theorem VariableSlot.FillsTo.trans (a b c : VariableSlot) (first : a.FillsTo b)
    (second : b.FillsTo c) : a.FillsTo c :=
  ⟨second.name.trans first.name, second.type.trans first.type,
    second.modifiers.trans first.modifiers,
    fun v bound => second.kept v (first.kept v bound)⟩

/-- The head without handles. -/
def MethodHead.bare (h : MethodHead) : MethodHead :=
  { h with parameters := h.parameters.map fun p => { p with binding := none }, binding := none }

/-- The second head is the first, with handles that it may have lacked. -/
structure MethodHead.FillsTo (h h' : MethodHead) : Prop where
  bare : h'.bare = h.bare
  kept : ∀ m, h.binding = some m → h'.binding = some m

theorem MethodHead.FillsTo.refl (h : MethodHead) : h.FillsTo h := ⟨rfl, fun _ bound => bound⟩

theorem MethodHead.FillsTo.trans (a b c : MethodHead) (first : a.FillsTo b) (second : b.FillsTo c) :
    a.FillsTo c :=
  ⟨second.bare.trans first.bare, fun m bound => second.kept m (first.kept m bound)⟩

/-- The head without handles and enum constants. -/
def TypeHead.bare (h : TypeHead) : TypeHead :=
  { h with
    superclass := h.superclass.map fun c => { c with binding := none }, binding := none,
    enumConstants := [] }

/-- The second head is the first, with handles that it may have lacked. -/
structure TypeHead.FillsTo (h h' : TypeHead) : Prop where
  bare : h'.bare = h.bare
  kept : ∀ id, h.binding = some id → h'.binding = some id
  handles : List.Forall₂ Handle.Keeps h.handles h'.handles

theorem TypeHead.FillsTo.refl (h : TypeHead) : h.FillsTo h :=
  ⟨rfl, fun _ bound => bound, List.forall₂_same.mpr fun _ _ => .same _⟩

theorem TypeHead.FillsTo.trans (a b c : TypeHead) (first : a.FillsTo b) (second : b.FillsTo c) :
    a.FillsTo c :=
  ⟨second.bare.trans first.bare, fun id bound => second.kept id (first.kept id bound),
    forall₂_trans Handle.Keeps.trans first.handles second.handles⟩

section

variable {h h' : TypeHead} (filled : h.FillsTo h')

include filled

/-- The name of a type stays. -/
theorem TypeHead.FillsTo.name : h'.name = h.name := by
  have same : h'.bare.name = h.bare.name := congrArg TypeHead.name filled.bare
  exact same

theorem TypeHead.FillsTo.kind : h'.kind = h.kind := by
  have same : h'.bare.kind = h.bare.kind := congrArg TypeHead.kind filled.bare
  exact same

theorem TypeHead.FillsTo.modifiers : h'.modifiers = h.modifiers := by
  have same : h'.bare.modifiers = h.bare.modifiers := congrArg TypeHead.modifiers filled.bare
  exact same

/-- The superclass clauses name the same class. -/
theorem TypeHead.FillsTo.clauseName : h'.superclass.map (·.name) = h.superclass.map (·.name) := by
  have same := congrArg (fun h => h.superclass.map (·.name)) filled.bare
  simpa [TypeHead.bare, Function.comp_def] using same

end

/-- The second contents are the first, with handles that may have lacked, outside the types
inside. -/
structure Contents.FillsTo (c c' : Contents) : Prop where
  fields : List.Forall₂ VariableSlot.FillsTo c.fields c'.fields
  methods : List.Forall₂ MethodHead.FillsTo c.methods c'.methods
  locals : List.Forall₂ VariableSlot.FillsTo c.locals c'.locals
  handles : List.Forall₂ Handle.Keeps c.handles c'.handles

namespace Contents.FillsTo

/-- What the types inside look like does not matter. -/
theorem of_own {c c' : Contents} (same : c'.own = c.own) : c.FillsTo c' := by
  obtain ⟨fields, methods, locals, handles, inner, types⟩ := c
  cases same
  exact ⟨List.forall₂_same.mpr fun _ _ => .refl _, List.forall₂_same.mpr fun _ _ => .refl _,
    List.forall₂_same.mpr fun _ _ => .refl _, List.forall₂_same.mpr fun _ _ => .same _⟩

theorem refl (c : Contents) : c.FillsTo c := of_own rfl

theorem trans {a b c : Contents} (first : a.FillsTo b) (second : b.FillsTo c) : a.FillsTo c :=
  ⟨forall₂_trans VariableSlot.FillsTo.trans first.fields second.fields,
    forall₂_trans MethodHead.FillsTo.trans first.methods second.methods,
    forall₂_trans VariableSlot.FillsTo.trans first.locals second.locals,
    forall₂_trans Handle.Keeps.trans first.handles second.handles⟩

/-- Pieces of a tree are filled in one by one. -/
theorem append {c c' d d' : Contents} (first : c.FillsTo c') (second : d.FillsTo d') :
    (c ++ d).FillsTo (c' ++ d') :=
  ⟨List.rel_append first.fields second.fields, List.rel_append first.methods second.methods,
    List.rel_append first.locals second.locals, List.rel_append first.handles second.handles⟩

end Contents.FillsTo

/-- The heads of the types directly inside are the same, with handles that they may have lacked. -/
def Contents.InnerFillsTo (c c' : Contents) : Prop :=
  List.Forall₂ (fun d d' => d.head.FillsTo d'.head) c.inner c'.inner

/-- The second type is the first, with handles that it may have lacked, and so are the heads of the
types directly inside. -/
structure TypeDecl.FillsTo (d d' : TypeDecl) : Prop where
  head : d.head.FillsTo d'.head
  contents : d.contents.FillsTo d'.contents
  inner : d.contents.InnerFillsTo d'.contents

/-- A type may be filled in in two goes: first when it is declared, then when it is resolved. -/
theorem TypeDecl.FillsTo.trans (a b c : TypeDecl) (first : a.FillsTo b) (second : b.FillsTo c) :
    a.FillsTo c :=
  ⟨.trans _ _ _ first.head second.head, first.contents.trans second.contents,
    forall₂_trans (fun _ _ _ => .trans _ _ _) first.inner second.inner⟩

/-! ## Recorded clauses -/

/-- The superclass that the table has for a type, if any. -/
def BindingTable.superclass? (t : BindingTable) (id : TypeId) : Option TypeId :=
  t.types[id.index]?.bind (·.superclass)

/-- What the superclass clause of a bound head says: of which type, and which superclass. -/
def TypeHead.clause? (h : TypeHead) : Option (TypeId × TypeId) :=
  h.binding.bind fun id => (h.superclass.bind (·.binding)).map (id, ·)

/-- A clause is recorded if its type and its superclass have handles. -/
theorem TypeHead.clause?_eq_some {h : TypeHead} {id p : TypeId} :
    h.clause? = some (id, p) ↔
      h.binding = some id ∧ ∃ c, h.superclass = some c ∧ c.binding = some p := by
  unfold clause?
  cases h.binding <;> cases h.superclass <;> simp [and_comm]

/-- The superclass that the last clause for a type names. -/
def lastClause (hs : List TypeHead) (id : TypeId) : Option TypeId :=
  (hs.filterMap TypeHead.clause?).reverse.lookup id

@[simp] theorem lastClause_nil (id : TypeId) : lastClause [] id = none := rfl

/-- The last clause of two lists is that of the second, if it has one. -/
theorem lastClause_append (hs ks : List TypeHead) (id : TypeId) :
    lastClause (hs ++ ks) id = (lastClause ks id).or (lastClause hs id) := by
  rw [lastClause, List.filterMap_append, List.reverse_append, List.lookup_append]
  rfl

/-- The last clause is one of the clauses. -/
theorem exists_of_lastClause {hs : List TypeHead} {id p : TypeId}
    (last : lastClause hs id = some p) :
    ∃ h ∈ hs, h.clause? = some (id, p) := by
  obtain ⟨first, rest, all, -⟩ := List.lookup_eq_some_iff.mp last
  have listed : (id, p) ∈ (hs.filterMap TypeHead.clause?).reverse := by
    rw [all]
    exact List.mem_append_right _ List.mem_cons_self
  exact List.mem_filterMap.mp (List.mem_reverse.mp listed)

/-- Where no head of the type has a clause, none is the last. -/
theorem lastClause_eq_none {hs : List TypeHead} {id : TypeId}
    (unwritten : ∀ h ∈ hs, h.binding = some id → h.superclass = none) :
    lastClause hs id = none := by
  refine Option.eq_none_iff_forall_ne_some.mpr fun p last => ?_
  obtain ⟨h, hh, clause⟩ := exists_of_lastClause last
  obtain ⟨bound, c, written, -⟩ := TypeHead.clause?_eq_some.mp clause
  rw [unwritten h hh bound] at written
  cases written

/-- A type with a clause has a last one. -/
theorem exists_lastClause {hs : List TypeHead} {h : TypeHead} {id p : TypeId} (hh : h ∈ hs)
    (clause : h.clause? = some (id, p)) : ∃ q, lastClause hs id = some q := by
  refine Option.ne_none_iff_exists'.mp fun none => ?_
  have listed := List.mem_reverse.mpr (List.mem_filterMap.mpr ⟨h, hh, clause⟩)
  exact absurd (List.lookup_eq_none_iff.mp none _ listed) (by simp)

theorem lastClause_singleton {h : TypeHead} {id p : TypeId} (clause : h.clause? = some (id, p))
    (other : TypeId) :
    lastClause [h] other = if other = id then some p else none := by
  rw [lastClause, List.filterMap_cons_some clause]
  show List.lookup other [(id, p)] = _
  rw [List.lookup_cons]
  by_cases same : other = id
  · rw [if_pos same, beq_iff_eq.mpr same]
  · rw [if_neg same, beq_eq_false_iff_ne.mpr same]
    rfl

/-- From the first table to the second the clauses of the heads are recorded, one after the
other. -/
structure BindingTable.Records (t t' : BindingTable) (hs : List TypeHead) : Prop where
  written : ∀ id p, lastClause hs id = some p → t'.superclass? id = some p
  others : ∀ id, lastClause hs id = none → id.index < t.types.size →
    t'.superclass? id = t.superclass? id

/-- Only types in the table have superclasses. -/
theorem BindingTable.lt_of_superclass? {t : BindingTable} {id p : TypeId}
    (found : t.superclass? id = some p) : id.index < t.types.size := by
  obtain ⟨d, entry, -⟩ := Option.bind_eq_some_iff.mp found
  exact (Array.getElem?_eq_some_iff.mp entry).1

/-- Clauses are recorded list by list: what the second list does not record stays as the first left
it. -/
theorem BindingTable.Records.append {a b c : BindingTable} {hs ks : List TypeHead}
    (first : a.Records b hs) (second : b.Records c ks) (more : a.types.size ≤ b.types.size) :
    a.Records c (hs ++ ks) := by
  constructor
  · intro id p last
    rw [lastClause_append] at last
    cases later : lastClause ks id with
    | some q =>
      rw [later, Option.some_or] at last
      cases last
      exact second.written id p later
    | none =>
      rw [later, Option.none_or] at last
      have found := first.written id p last
      rw [second.others id later (BindingTable.lt_of_superclass? found)]
      exact found
  · intro id none below
    rw [lastClause_append, Option.or_eq_none_iff] at none
    rw [second.others id none.1 (Nat.lt_of_lt_of_le below more), first.others id none.2 below]

end ClassInit
