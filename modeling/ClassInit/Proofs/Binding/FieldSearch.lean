import ClassInit.Proofs.Binding.Inheritance

/-!
# The types that a search for a field looks at

The superclasses in a table may run in a cycle or lead to a handle without an entry. A search for a
field looks at one type after the other (`BindingTable.visits`) and stops once it has taken as many
steps as the table has types. By then it has looked at every type that lies above the first one
(`BindingTable.mem_visits_size`), a last handle without an entry among them, and it would go on only
if some type came up twice (`BindingTable.not_nodup_visits`). So the limit loses no field: what is
found is the field with the least index in the first type on the way that declares one.
-/

set_option autoImplicit false

namespace ClassInit

namespace BindingTable

variable {t : BindingTable} {id p : TypeId} {name : String} {v : VariableId}

/-! ## The fields of one type -/

/-- The variable is a field with that name and the type declares it. The type may be a handle
without an entry. -/
def DeclaresField (t : BindingTable) (owner : TypeId) (name : String) (v : VariableId) : Prop :=
  ∃ b, t.vars[v.index]? = some b ∧ b.isField = true ∧ b.declaringType = some owner ∧ b.name = name

/-- The test by which a type's fields are searched accepts a variable's entry exactly if it is such
a field. -/
theorem declaresField_iff_getElem : t.DeclaresField id name v ↔ ∃ below : v.index < t.vars.size,
    (t.vars[v.index].isField && t.vars[v.index].declaringType == some id &&
      t.vars[v.index].name == name) = true := by
  simp only [Bool.and_eq_true, beq_iff_eq]
  constructor
  · rintro ⟨b, entry, isField, owner, named⟩
    obtain ⟨below, rfl⟩ := Array.getElem?_eq_some_iff.mp entry
    exact ⟨below, ⟨isField, owner⟩, named⟩
  · rintro ⟨below, ⟨isField, owner⟩, named⟩
    exact ⟨_, Array.getElem?_eq_getElem below, isField, owner, named⟩

theorem declaredField_eq_some_iff :
    t.declaredField id name = some v ↔
      t.DeclaresField id name v ∧ ∀ w, t.DeclaresField id name w → v.index ≤ w.index := by
  have first : t.declaredField id name = some v ↔ (t.vars.findIdx? fun b =>
      b.isField && b.declaringType == some id && b.name == name) = some v.index := by
    cases v
    simp [declaredField]
  rw [first, Array.findIdx?_eq_some_iff_getElem]
  constructor
  · rintro ⟨below, holds, least⟩
    refine ⟨declaresField_iff_getElem.mpr ⟨below, holds⟩, fun w isField =>
      Nat.le_of_not_lt fun earlier => ?_⟩
    obtain ⟨_, holds'⟩ := declaresField_iff_getElem.mp isField
    exact least w.index earlier holds'
  · rintro ⟨isField, least⟩
    obtain ⟨below, holds⟩ := declaresField_iff_getElem.mp isField
    refine ⟨below, holds, fun j earlier holds' => ?_⟩
    exact absurd (least ⟨j⟩ (declaresField_iff_getElem.mpr ⟨earlier.trans below, holds'⟩))
      (Nat.not_le_of_lt earlier)

theorem declaredField_eq_none_iff :
    t.declaredField id name = none ↔ ∀ v, ¬ t.DeclaresField id name v := by
  rw [declaredField, Option.map_eq_none_iff, Array.findIdx?_eq_none_iff]
  constructor
  · intro none v isField
    obtain ⟨below, holds⟩ := declaresField_iff_getElem.mp isField
    exact Bool.false_ne_true ((none _ (Array.getElem_mem below)).symm.trans holds)
  · intro none b mem
    obtain ⟨i, below, rfl⟩ := Array.getElem_of_mem mem
    exact Bool.eq_false_iff.mpr fun holds => none ⟨i⟩ (declaresField_iff_getElem.mpr ⟨below, holds⟩)

/-! ## The way of a search -/

/-- The types that a search of at most `steps` steps looks at, if none of them declares what it
looks for. -/
def visits (t : BindingTable) : Nat → TypeId → List TypeId
  | 0, id => [id]
  | steps + 1, id => id :: ((t.superclass? id).elim [] (t.visits steps))

theorem fieldWithin_eq_findSome? (steps : Nat) :
    t.fieldWithin name steps id = (t.visits steps id).findSome? (t.declaredField · name) := by
  induction steps generalizing id with
  | zero =>
    unfold fieldWithin
    cases declared : t.declaredField id name <;> simp [visits, declared]
  | succ steps ih =>
    unfold fieldWithin
    cases declared : t.declaredField id name with
    | some v => simp [visits, declared]
    | none =>
      have above : t.types[id.index]?.bind (·.superclass) = t.superclass? id := rfl
      simp only [visits, List.findSome?_cons, declared, above]
      cases t.superclass? id with
      | none => rfl
      | some s => exact ih

/-- The type at a place of the way is the one as many superclasses above. -/
theorem getElem?_visits (t : BindingTable) (steps n : Nat) (id : TypeId) :
    (t.visits steps id)[n]? = if n ≤ steps then t.ancestor? n id else none := by
  induction steps generalizing id n with
  | zero => cases n <;> simp [visits, ancestor?]
  | succ steps ih =>
    cases n with
    | zero => simp [visits, ancestor?]
    | succ n =>
      rw [visits, List.getElem?_cons_succ, ancestor?]
      cases t.superclass? id with
      | none => simp
      | some s => simpa using ih n s

theorem length_visits_le (t : BindingTable) (steps : Nat) (id : TypeId) :
    (t.visits steps id).length ≤ steps + 1 := by
  rw [← List.getElem?_eq_none_iff, getElem?_visits, if_neg (Nat.not_succ_le_self steps)]

theorem mem_visits {steps : Nat} :
    p ∈ t.visits steps id ↔ ∃ n ≤ steps, t.ancestor? n id = some p := by
  rw [List.mem_iff_getElem?]
  refine exists_congr fun n => ?_
  rw [getElem?_visits]
  split <;> simp [*]

theorem inherits_iff_exists_ancestor? : t.Inherits id p ↔ ∃ n, t.ancestor? n id = some p := by
  refine ⟨exists_ancestor?, ?_⟩
  rintro ⟨n, reached⟩
  induction n generalizing id with
  | zero => exact Option.some.inj reached ▸ .refl
  | succ n ih =>
    obtain ⟨s, up, reached⟩ := Option.bind_eq_some_iff.mp reached
    exact .head up (ih reached)

/-- Within as many steps as the table has types a search gets to everything that lies above. -/
theorem mem_visits_size : p ∈ t.visits t.types.size id ↔ ∃ n, t.ancestor? n id = some p := by
  refine mem_visits.trans ⟨fun ⟨n, _, reached⟩ => ⟨n, reached⟩, fun ⟨n, reached⟩ => ?_⟩
  exact exists_ancestor?_le (inherits_iff_exists_ancestor?.mpr ⟨n, reached⟩)

/-- Where there is one more step to take than the table has types, the way has come to some type
twice. -/
theorem not_nodup_visits (further : t.ancestor? (t.types.size + 1) id = some p) :
    ¬ (t.visits t.types.size id).Nodup := by
  intro nodup
  have below : ∀ q ∈ t.visits t.types.size id, q.index ∈ List.range t.types.size := by
    intro q mem
    obtain ⟨m, within, reached⟩ := mem_visits.mp mem
    obtain ⟨q', reached', below⟩ := lt_of_ancestor? further (Nat.lt_succ_of_le within)
    obtain rfl := Option.some.inj (reached.symm.trans reached')
    exact List.mem_range.mpr below
  have all : (t.visits t.types.size id).length = t.types.size + 1 := by
    refine le_antisymm (length_visits_le ..) (Nat.lt_of_not_le fun short => ?_)
    obtain ⟨q, reached, -⟩ := lt_of_ancestor? further (Nat.lt_succ_self t.types.size)
    have none := List.getElem?_eq_none_iff.mpr short
    rw [getElem?_visits, if_pos (Nat.le_refl _), reached] at none
    cases none
  have distinct : ((t.visits t.types.size id).map (·.index)).Nodup :=
    nodup.map fun a b same => congrArg TypeId.mk same
  have fits := (distinct.subperm (List.forall_mem_map.mpr below)).length_le
  rw [List.length_map, List.length_range, all] at fits
  exact Nat.not_succ_le_self _ fits

/-! ## What a search finds -/

/-- A search comes to the types before which no other declares the field. -/
theorem passes_iff_exists_ancestor? : t.Passes name id p ↔ ∃ n, t.ancestor? n id = some p ∧
    ∀ m < n, ∀ q, t.ancestor? m id = some q → t.declaredField q name = none := by
  constructor
  · intro passes
    induction passes using Relation.ReflTransGen.head_induction_on with
    | refl => exact ⟨0, rfl, fun m before => absurd before (Nat.not_lt_zero m)⟩
    | @head a s step _ ih =>
      obtain ⟨none, up⟩ := step
      obtain ⟨n, reached, before⟩ := ih
      refine ⟨n + 1, by rw [ancestor?, up]; exact reached, fun m earlier q reached => ?_⟩
      cases m with
      | zero => exact Option.some.inj reached ▸ none
      | succ m =>
        rw [ancestor?, up] at reached
        exact before m (Nat.lt_of_succ_lt_succ earlier) q reached
  · rintro ⟨n, reached, before⟩
    induction n generalizing id with
    | zero => exact Option.some.inj reached ▸ .refl
    | succ n ih =>
      obtain ⟨s, up, reached⟩ := Option.bind_eq_some_iff.mp reached
      refine .head ⟨before 0 n.succ_pos id rfl, up⟩ (ih reached fun m earlier q reached => ?_)
      exact before (m + 1) (Nat.succ_lt_succ earlier) q (by rw [ancestor?, up]; exact reached)

/-- The variable is the field with that name and the least index in a type some superclasses above,
and none of the types before that declares such a field. -/
structure FirstField (t : BindingTable) (id : TypeId) (name : String) (n : Nat) (owner : TypeId)
    (v : VariableId) : Prop where
  reached : t.ancestor? n id = some owner
  declares : t.DeclaresField owner name v
  least : ∀ w, t.DeclaresField owner name w → v.index ≤ w.index
  before : ∀ m < n, ∀ q, t.ancestor? m id = some q → ∀ w, ¬ t.DeclaresField q name w

theorem findField_eq_some_iff :
    t.findField id name = some v ↔ ∃ n owner, t.FirstField id name n owner v := by
  rw [findField_eq_some]
  constructor
  · rintro ⟨p, passes, declared⟩
    obtain ⟨n, reached, before⟩ := passes_iff_exists_ancestor?.mp passes
    obtain ⟨declares, least⟩ := declaredField_eq_some_iff.mp declared
    exact ⟨n, p, reached, declares, least, fun m earlier q above =>
      declaredField_eq_none_iff.mp (before m earlier q above)⟩
  · rintro ⟨n, p, first⟩
    exact ⟨p, passes_iff_exists_ancestor?.mpr ⟨n, first.reached, fun m earlier q above =>
      declaredField_eq_none_iff.mpr (first.before m earlier q above)⟩,
      declaredField_eq_some_iff.mpr ⟨first.declares, first.least⟩⟩

/-- A search with a higher limit finds nothing else. -/
theorem fieldWithin_size_add (t : BindingTable) (id : TypeId) (name : String) (more : Nat) :
    t.fieldWithin name (t.types.size + more) id = t.findField id name := by
  refine Option.ext fun v =>
    ⟨fun found => findField_eq_some.mpr (passes_of_fieldWithin found), fun found => ?_⟩
  obtain ⟨p, passes, declared⟩ := findField_eq_some.mp found
  obtain ⟨n, within, reached⟩ := exists_ancestor?_le passes.inherits
  obtain ⟨w, found'⟩ := Option.ne_none_iff_exists'.mp
    (fieldWithin_ne_none reached (within.trans (Nat.le_add_right _ more)) declared)
  obtain ⟨q, passes', declared'⟩ := passes_of_fieldWithin found'
  obtain rfl := passes.eq_of_declared passes' declared declared'
  rw [found', ← declared', declared]

/-- For every table, whatever its superclasses are, and every type and name: the search finds the
field with the least index in the first type on the way that declares one, and nothing exactly if no
type on the way does, the last one without an entry included. It looks at no more than one type more
than the table has, it leaves out none that lies on the way, a way that goes on beyond its limit has
come to some type twice, and searches with a higher limit find the same. -/
theorem findField_first_declared (t : BindingTable) (id : TypeId) (name : String) :
    (∀ v, t.findField id name = some v ↔ ∃ n owner, t.FirstField id name n owner v) ∧
    (t.findField id name = none ↔ ∀ n p, t.ancestor? n id = some p →
      ∀ v, ¬ t.DeclaresField p name v) ∧
    t.findField id name = (t.visits t.types.size id).findSome? (t.declaredField · name) ∧
    (t.visits t.types.size id).length ≤ t.types.size + 1 ∧
    (∀ p, p ∈ t.visits t.types.size id ↔ ∃ n, t.ancestor? n id = some p) ∧
    ((t.ancestor? (t.types.size + 1) id).isSome → ¬ (t.visits t.types.size id).Nodup) ∧
    ∀ more, t.fieldWithin name (t.types.size + more) id = t.findField id name := by
  refine ⟨fun v => findField_eq_some_iff, ?_, fieldWithin_eq_findSome? _, length_visits_le ..,
    fun p => mem_visits_size,
    fun further => ?_, fieldWithin_size_add t id name⟩
  · rw [findField_eq_none]
    constructor
    · intro none n p reached
      exact declaredField_eq_none_iff.mp (none p (inherits_iff_exists_ancestor?.mpr ⟨n, reached⟩))
    · intro none p inherits
      obtain ⟨n, reached⟩ := exists_ancestor? inherits
      exact declaredField_eq_none_iff.mpr (none n p reached)
  · obtain ⟨p, reached⟩ := Option.isSome_iff_exists.mp further
    exact not_nodup_visits reached

/-- Two types of which the second extends a handle without an entry, or the first one again. -/
def chainTable (last : TypeId) : BindingTable :=
  let type (name : String) (superclass : TypeId) : TypeDescriptor :=
    ⟨name, .classType, .empty, some superclass, none⟩
  load [type Names.objectType ⟨1⟩, type Names.stringType last]
    [⟨"x", .primitive .int, .empty, some ⟨2⟩, true, none⟩] []

example :
    (chainTable ⟨2⟩).visits 2 ⟨0⟩ = [⟨0⟩, ⟨1⟩, ⟨2⟩] ∧
      (chainTable ⟨2⟩).findField ⟨0⟩ "x" = some ⟨0⟩ ∧
      (chainTable ⟨0⟩).visits 2 ⟨0⟩ = [⟨0⟩, ⟨1⟩, ⟨0⟩] ∧
      (chainTable ⟨0⟩).findField ⟨0⟩ "x" = none := by
  decide +kernel

end BindingTable

end ClassInit
