import ClassInit.Proofs.Binding.NamedTypes

/-!
# Tables with a root

A table that was loaded knows the root class. From then on every class and every enum that is added
gets a superclass that the table has, and recording a superclass keeps it so
(`BindingTable.Rooted`): what a new class extends can be told from the table, whatever entries it
was loaded with.
-/

set_option autoImplicit false

namespace ClassInit

namespace BindingTable

variable {t t' : BindingTable} {low : Nat}

/-! ## Searching -/

theorem typeAt_of_index_lt {id : TypeId} (below : id.index < t.types.size) :
    ∃ d, t.typeAt id = .ok d :=
  ⟨t.types[id.index], typeAt_eq_ok.mpr (Array.getElem?_eq_getElem below)⟩

/-! ## Rooted tables -/

/-- The table knows the root class, and it has the superclasses of all classes and enums among its
entries from `low` on. -/
structure Rooted (low : Nat) (t : BindingTable) : Prop where
  root : ∃ id d, t.typeAt id = .ok d ∧ d.name = Names.objectType
  parents : ∀ id d, low ≤ id.index → t.typeAt id = .ok d → d.isInterface = false →
    ∃ p, d.superclass = some p ∧ p.index < t.types.size

namespace Rooted

theorem objectType (rooted : t.Rooted low) :
    ∃ id, t.objectType = some id ∧ id.index < t.types.size := by
  obtain ⟨id, d, entry, name⟩ := rooted.root
  obtain ⟨id', found⟩ := exists_lookupType (Array.mem_of_getElem? (typeAt_eq_ok.mp entry)) name
  exact ⟨id', found, lookupType_eq_some found⟩

/-- A name that no type has is not that of the root class. -/
theorem ne_objectType (rooted : t.Rooted low) {name : String}
    (free : (t.lookupType name).isNone = true) : name ≠ Names.objectType := by
  rintro rfl
  obtain ⟨id, found, -⟩ := rooted.objectType
  rw [BindingTable.objectType] at found
  rw [found] at free
  cases free

theorem uniqueTypeName_ne (rooted : t.Rooted low) (qualifier : Option String) (name : String) :
    t.uniqueTypeName qualifier name ≠ Names.objectType :=
  rooted.ne_objectType (by rw [t.lookupType_uniqueTypeName qualifier name]; rfl)

/-- Entries that are not types do not matter. -/
theorem of_types (rooted : t.Rooted low) (same : t'.types = t.types) : t'.Rooted low := by
  obtain ⟨root, parents⟩ := rooted
  have entries : t'.typeAt = t.typeAt := by
    funext id
    rw [typeAt, typeAt, same]
  refine ⟨?_, fun id d above entry isClass => ?_⟩
  · rw [entries]
    exact root
  · rw [entries] at entry
    rw [same]
    exact parents id d above entry isClass

theorem pushType (rooted : t.Rooted low) {d : TypeDescriptor}
    (parent : d.isInterface = false → ∃ p, d.superclass = some p ∧ p.index < t.types.size) :
    (t.pushType d).2.Rooted low := by
  have size : (t.pushType d).2.types.size = t.types.size + 1 := Array.size_push _
  obtain ⟨id, root, entry, name⟩ := rooted.root
  obtain ⟨superclass, entry'⟩ := (Extends.pushType t d).oldTypes id root entry
  refine ⟨⟨id, _, entry', name⟩, fun id d' above found isClass => ?_⟩
  have below : ∀ p : TypeId, p.index < t.types.size → p.index < (t.pushType d).2.types.size := by
    intro p old
    omega
  -- The entry is an old one, with the superclass that it had, or the new one.
  by_cases old : id.index < t.types.size
  · have same : (t.pushType d).2.typeAt id = t.typeAt id := by
      have entry : (t.pushType d).2.types[id.index]? = t.types[id.index]? := by
        rw [Array.getElem?_eq_getElem old]
        exact Array.getElem?_push_lt old
      rw [typeAt, typeAt, entry]
    rw [same] at found
    obtain ⟨p, known, inRange⟩ := rooted.parents id d' above found isClass
    exact ⟨p, known, below p inRange⟩
  · have last : id.index = t.types.size := by
      have inRange := index_lt_of_typeAt found
      omega
    have same : (t.pushType d).2.typeAt id = .ok d := by
      rw [typeAt_eq_ok, last]
      exact Array.getElem?_push_size
    rw [same] at found
    cases found
    obtain ⟨p, known, inRange⟩ := parent isClass
    exact ⟨p, known, below p inRange⟩

/-- A class without a superclass of its own extends the root class. -/
theorem addClass (rooted : t.Rooted low) {d : TypeDescriptor} (bare : d.superclass = none)
    (name : d.name ≠ Names.objectType) : (t.addClass d).2.Rooted low := by
  have isRooted : d.superclass.isNone ∧ d.name ≠ Names.objectType := ⟨by rw [bare]; rfl, name⟩
  rw [BindingTable.addClass, if_pos isRooted]
  exact rooted.pushType fun _ => rooted.objectType

theorem internClass (rooted : t.Rooted low) (name : String) :
    (t.internClass name).2.Rooted low ∧
      (t.internClass name).1.index < (t.internClass name).2.types.size := by
  rcases t.internClass_cases name with ⟨id, found, same⟩ | ⟨superclass, free, parent, pushed⟩
  · rw [same]
    exact ⟨rooted, lookupType_eq_some found⟩
  · rw [pushed]
    refine ⟨rooted.pushType fun _ => ?_, index_pushType_lt t _⟩
    rcases parent with rfl | ⟨-, root⟩
    · exact rooted.objectType
    · exact absurd root (rooted.ne_objectType (by rw [free]; rfl))

/-- A class or enum that is added gets a superclass. -/
theorem addType (rooted : t.Rooted low) {d : TypeDescriptor} (bare : d.superclass = none)
    (name : d.name ≠ Names.objectType) : (t.addType d).2.Rooted low := by
  unfold BindingTable.addType
  rw [if_pos ⟨by rw [bare]; rfl, name⟩]
  cases kind : d.kind with
  | classType => exact rooted.addClass bare name
  | enumType =>
    obtain ⟨rooted', inRange⟩ := rooted.internClass Names.enumType
    exact rooted'.pushType fun _ => ⟨_, rfl, inRange⟩
  | interfaceType | annotationType =>
    refine rooted.pushType fun isClass => ?_
    rw [TypeDescriptor.isInterface, kind] at isClass
    cases isClass

theorem setSuperclass (rooted : t.Rooted low) {id superclass : TypeId}
    (inRange : superclass.index < t.types.size) (set : t.setSuperclass id superclass = .ok t') :
    t'.Rooted low := by
  obtain ⟨root, d, entry, name⟩ := rooted.root
  obtain ⟨other, entry'⟩ := (Extends.setSuperclass set).oldTypes root d entry
  refine ⟨⟨root, _, entry', name⟩, fun id' d' above found isClass => ?_⟩
  obtain ⟨-, rfl⟩ := setSuperclass_eq_ok.mp set
  rw [typeAt_eq_ok, withSuperclass_types, Array.getElem?_modify] at found
  rw [withSuperclass_types, Array.size_modify]
  split at found
  · -- The entry that changes has the recorded superclass; all others have what they had.
    obtain ⟨d₀, -, rfl⟩ := Option.map_eq_some_iff.mp found
    exact ⟨superclass, rfl, inRange⟩
  · exact rooted.parents id' d' above (typeAt_eq_ok.mpr found) isClass

/-- A loaded table knows the root class. -/
theorem load (types : List TypeDescriptor) (vars : List VariableBinding)
    (methods : List MethodBinding) :
    (BindingTable.load types vars methods).Rooted
      (BindingTable.load types vars methods).types.size := by
  refine ⟨?_, fun id d above entry _ => ?_⟩
  · have known : ∀ t : BindingTable, t.objectType.isSome = true →
        ∃ id d, t.typeAt id = .ok d ∧ d.name = Names.objectType := by
      intro t isKnown
      obtain ⟨id, found⟩ := Option.isSome_iff_exists.mp isKnown
      obtain ⟨⟨d, entry, name⟩, -⟩ := lookupType_eq_some_iff.mp found
      exact ⟨id, d, entry, name⟩
    have first : ∀ t : BindingTable, ∃ id d,
        (if t.objectType.isSome then t
          else (t.pushType (external Names.objectType)).2).typeAt id = .ok d ∧
        d.name = Names.objectType := by
      intro t
      split
      · rename_i isKnown
        exact known t isKnown
      · exact ⟨_, _, typeAt_pushType t _, rfl⟩
    -- The root class is known before the other well-known classes are added, and it stays known.
    unfold BindingTable.load ensureWellKnown
    obtain ⟨id, d, entry, name⟩ := first ((untyped vars methods).pushTypes types)
    revert entry
    generalize (untyped vars methods).pushTypes types = loaded
    generalize (if loaded.objectType.isSome then loaded
      else (loaded.pushType (external Names.objectType)).2) = t
    intro entry
    dsimp only
    split
    · exact ⟨id, d, entry, name⟩
    · obtain ⟨superclass, entry'⟩ := (Extends.pushType t _).oldTypes id d entry
      exact ⟨id, _, entry', name⟩
  · exact absurd (index_lt_of_typeAt entry) (Nat.not_lt.mpr above)

end Rooted

end BindingTable

end ClassInit
