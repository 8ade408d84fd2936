import ClassInit.Proofs.Binding.Table
import ClassInit.Proofs.Tree.Outline
import Mathlib.Data.List.Nodup

/-!
# Handles that binding gives

Declaring goes through a unit once and gives every type and field that has no handle the next free
one. `Allocated` says this of a list of items, whatever handles they have already; lists are put
together in the order of the walk (`Allocated.append`) and may then be reordered (`Allocated.perm`).
`Declares` says it of the types and fields of a piece of the tree, together with what the table has
of them afterwards.
-/

set_option autoImplicit false

namespace ClassInit

/-- A map over a list with a state, one item after the other. -/
theorem mapM_cons_state {σ α β : Type} (f : α → StateM σ β) (a : α) (as : List α) (s : σ) :
    (a :: as).mapM f s =
      ((f a s).1 :: (as.mapM f (f a s).2).1, (as.mapM f (f a s).2).2) := by
  rw [List.mapM_cons]
  rfl

/-! ## Allocation -/

/-- From the first list to the second, items with a key stay as they are, and the others get
different keys from `low` up to, and without, `high`. -/
structure Allocated {α : Type} (key : α → Option Nat) (old new : List α) (low high : Nat) :
    Prop where
  origin : ∀ a ∈ new, ∃ n, key a = some n ∧ (a ∈ old ∨ low ≤ n ∧ n < high)
  distinct : (old.filterMap key).Nodup → (∀ n ∈ old.filterMap key, n < low) →
    (new.filterMap key).Nodup

namespace Allocated

variable {α : Type} {key : α → Option Nat} {old new : List α} {low high : Nat}

theorem nil : Allocated key [] [] low high :=
  ⟨fun _ ha => absurd ha List.not_mem_nil, fun nodup _ => nodup⟩

/-- An item that has a key. -/
theorem kept {a : α} {n : Nat} (has : key a = some n) : Allocated key [a] [a] low high := by
  refine ⟨fun b hb => ?_, fun nodup _ => nodup⟩
  rw [List.mem_singleton.mp hb]
  exact ⟨n, has, .inl (List.mem_singleton.mpr rfl)⟩

/-- An item that gets a key. -/
theorem fresh {a b : α} {n : Nat} (gets : key b = some n) (above : low ≤ n) (below : n < high) :
    Allocated key [a] [b] low high := by
  refine ⟨fun c hc => ?_, fun _ _ => ?_⟩
  · rw [List.mem_singleton.mp hc]
    exact ⟨n, gets, .inr ⟨above, below⟩⟩
  · rw [List.filterMap_cons_some gets]
    exact List.nodup_singleton n

theorem mem_key (allocated : Allocated key old new low high) {n : Nat}
    (found : n ∈ new.filterMap key) : n ∈ old.filterMap key ∨ low ≤ n ∧ n < high := by
  obtain ⟨a, ha, has⟩ := List.mem_filterMap.mp found
  obtain ⟨n', has', origin⟩ := allocated.origin a ha
  rw [has] at has'
  cases has'
  exact origin.imp_left fun inOld => List.mem_filterMap.mpr ⟨a, inOld, has⟩

/-- One allocation after the other. -/
theorem append {old' new' : List α} {mid : Nat} (first : Allocated key old new low mid)
    (second : Allocated key old' new' mid high) (lowMid : low ≤ mid) (midHigh : mid ≤ high) :
    Allocated key (old ++ old') (new ++ new') low high := by
  constructor
  · intro a ha
    rcases List.mem_append.mp ha with ha | ha
    · obtain ⟨n, has, origin⟩ := first.origin a ha
      refine ⟨n, has, origin.imp (List.mem_append_left _) fun range => ?_⟩
      exact ⟨range.1, Nat.lt_of_lt_of_le range.2 midHigh⟩
    · obtain ⟨n, has, origin⟩ := second.origin a ha
      refine ⟨n, has, origin.imp (List.mem_append_right _) fun range => ?_⟩
      exact ⟨Nat.le_trans lowMid range.1, range.2⟩
  · intro nodup below
    rw [List.filterMap_append] at nodup below ⊢
    obtain ⟨nodup₁, nodup₂, disjoint⟩ := List.nodup_append.mp nodup
    have below₁ : ∀ n ∈ old.filterMap key, n < low := fun n hn =>
      below n (List.mem_append_left _ hn)
    have below₂ : ∀ n ∈ old'.filterMap key, n < low := fun n hn =>
      below n (List.mem_append_right _ hn)
    refine List.nodup_append.mpr ⟨first.distinct nodup₁ below₁,
      second.distinct nodup₂ fun n hn => Nat.lt_of_lt_of_le (below₂ n hn) lowMid, ?_⟩
    rintro n hn _ hn' rfl
    -- Keys from before are below both ranges, and the ranges do not meet.
    rcases first.mem_key hn with inOld | range
    · rcases second.mem_key hn' with inOld' | range'
      · exact disjoint n inOld n inOld' rfl
      · have := below₁ n inOld
        omega
    · rcases second.mem_key hn' with inOld' | range'
      · have := below₂ n inOld'
        omega
      · omega

theorem perm {old' new' : List α} (allocated : Allocated key old new low high)
    (sameOld : old.Perm old') (sameNew : new.Perm new') : Allocated key old' new' low high := by
  constructor
  · intro a ha
    obtain ⟨n, has, origin⟩ := allocated.origin a (sameNew.mem_iff.mpr ha)
    exact ⟨n, has, origin.imp_left sameOld.mem_iff.mp⟩
  · intro nodup below
    have sameKeys := sameOld.filterMap key
    exact ((sameNew.filterMap key).nodup_iff).mp (allocated.distinct (sameKeys.nodup_iff.mpr nodup)
      fun n hn => below n (sameKeys.mem_iff.mp hn))

end Allocated

/-! ## The types and fields of a tree -/

/-- One declarator of a field, with the type of the field. -/
structure FieldSlot where
  type : TypeRef
  fragment : Fragment

/-- The index of the handle. -/
def FieldSlot.key (s : FieldSlot) : Option Nat := s.fragment.binding.map (·.index)

theorem FieldSlot.key_of_binding {s : FieldSlot} {v : VariableId}
    (bound : s.fragment.binding = some v) : s.key = some v.index := by
  rw [key, bound, Option.map_some]

/-- The index of the handle. -/
def TypeHead.key (h : TypeHead) : Option Nat := h.binding.map (·.index)

theorem TypeHead.key_of_binding {h : TypeHead} {id : TypeId} (bound : h.binding = some id) :
    h.key = some id.index := by
  rw [key, bound, Option.map_some]

/-- The declarators of the fields that a member declares itself. -/
def Member.slots : Member → List FieldSlot
  | .field f => f.fragments.map (FieldSlot.mk f.type)
  | _ => []

namespace TypeDecl

/-- The declarators of the fields that a type declares itself. -/
def slots (d : TypeDecl) : List FieldSlot := d.members.flatMap Member.slots

/-- The heads of a type and of all types inside it. -/
def heads (d : TypeDecl) : List TypeHead := d.declarations.map (·.head)

/-- The declarators of the fields of a type and of all types inside it. -/
def allSlots (d : TypeDecl) : List FieldSlot := d.declarations.flatMap slots

theorem heads_eq (d : TypeDecl) : d.heads = d.head :: d.inner.flatMap heads := by
  rw [heads, declarations_eq, List.map_cons, List.map_flatMap]
  rfl

theorem allSlots_eq (d : TypeDecl) : d.allSlots = d.slots ++ d.inner.flatMap allSlots := by
  rw [allSlots, declarations_eq, List.flatMap_cons, List.flatMap_assoc]
  rfl

theorem slots_of_outline {d d' : TypeDecl}
    (same : d'.members.map Member.outline = d.members.map Member.outline) : d'.slots = d.slots := by
  have outlined : ∀ m : Member, m.outline.slots = m.slots := by
    intro m
    rcases m with d | ⟨h, _ | ⟨i, ss⟩⟩ | ⟨i, isStatic, ⟨b, ss⟩⟩ | f <;> rfl
  exact congrArg List.flatten (map_of_outline same outlined)

end TypeDecl

/-! ## Declared pieces of a tree -/

/-- Of a piece of the tree with the given heads and declarators, declaring makes the piece with the
others and changes the table from the first to the second. -/
structure Declares (t t' : BindingTable) (heads heads' : List TypeHead)
    (slots slots' : List FieldSlot) : Prop where
  grown : t.Extends t'
  types : Allocated TypeHead.key heads heads' t.types.size t'.types.size
  fields : Allocated FieldSlot.key slots slots' t.vars.size t'.vars.size
  /-- The entry of a new type tells its kind. -/
  kinds : ∀ h ∈ heads', h ∈ heads ∨ ∃ id descriptor, h.binding = some id ∧
    t'.typeAt id = .ok descriptor ∧ descriptor.kind = h.kind

namespace Declares

variable {t t' t'' : BindingTable} {hs hs' ks ks' : List TypeHead} {fs fs' gs gs' : List FieldSlot}

theorem nil (grown : t.Extends t') : Declares t t' [] [] [] [] :=
  ⟨grown, .nil, .nil, fun _ hh => absurd hh List.not_mem_nil⟩

/-- One piece after the other. -/
theorem append (first : Declares t t' hs hs' fs fs') (second : Declares t' t'' ks ks' gs gs') :
    Declares t t'' (hs ++ ks) (hs' ++ ks') (fs ++ gs) (fs' ++ gs') := by
  refine ⟨first.grown.trans second.grown,
    first.types.append second.types first.grown.moreTypes second.grown.moreTypes,
    first.fields.append second.fields first.grown.moreVariables second.grown.moreVariables, ?_⟩
  intro h hh
  rcases List.mem_append.mp hh with hh | hh
  · rcases first.kinds h hh with old | ⟨id, descriptor, bound, found, kind⟩
    · exact .inl (List.mem_append_left _ old)
    · obtain ⟨superclass, found'⟩ := second.grown.oldTypes id descriptor found
      exact .inr ⟨id, _, bound, found', kind⟩
  · exact (second.kinds h hh).imp_left (List.mem_append_right _)

/-- The order of a piece does not matter. -/
theorem perm (declared : Declares t t' hs hs' fs fs') (sameHeads : hs.Perm ks)
    (sameHeads' : hs'.Perm ks') (sameSlots : fs.Perm gs) (sameSlots' : fs'.Perm gs') :
    Declares t t' ks ks' gs gs' := by
  refine ⟨declared.grown, declared.types.perm sameHeads sameHeads',
    declared.fields.perm sameSlots sameSlots', fun h hh => ?_⟩
  exact (declared.kinds h (sameHeads'.mem_iff.mpr hh)).imp_left sameHeads.mem_iff.mp

/-- A list of pieces, one after the other. -/
theorem list {σ ε α : Type} {f : α → Edit σ ε α} (table : σ → BindingTable)
    (heads : α → List TypeHead) (slots : α → List FieldSlot)
    (single : ∀ a b s s', f a s = (.done b, s') →
      Declares (table s) (table s') (heads a) (heads b) (slots a) (slots b))
    {as bs : List α} {s s' : σ} (run : Edit.list f as s = (.done bs, s')) :
    Declares (table s) (table s') (as.flatMap heads) (bs.flatMap heads) (as.flatMap slots)
      (bs.flatMap slots) := by
  induction as generalizing bs s with
  | nil =>
    obtain ⟨rfl, rfl⟩ := Edit.list_nil_eq_done.mp run
    exact .nil (.refl _)
  | cons a as ih =>
    obtain ⟨b, s₁, cs, hb, hcs, rfl⟩ := Edit.list_cons_eq_done.mp run
    rw [List.flatMap_cons, List.flatMap_cons, List.flatMap_cons, List.flatMap_cons]
    exact (single a b s s₁ hb).append (ih hcs)

end Declares

end ClassInit
