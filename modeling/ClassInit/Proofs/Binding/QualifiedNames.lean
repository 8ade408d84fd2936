import ClassInit.Proofs.Binding.Changes
import ClassInit.Proofs.Binding.Dangling
import ClassInit.Proofs.Binding.Rooted

/-!
# Qualified names

The name that binding chooses for a type is free (`BindingTable.lookupType_uniqueTypeName`). Only an
enum can take a name that another type has by then: its superclass is looked up after its name was
chosen, and where that adds the class of all enums under the very name, two types have it. So the
types of a table that units were bound to have different names exactly if no enum has that name
(`BindingTable.bindAll_names`).
-/

set_option autoImplicit false

namespace ClassInit

/-- An enum with the name of the class that enums extend. -/
def TypeDescriptor.ShadowsEnum (d : TypeDescriptor) : Prop :=
  d.kind = .enumType ∧ d.name = Names.enumType

namespace BindingTable

variable {t t' : BindingTable}

/-! ## Types with one name -/

/-- One of the first types has the name. -/
def NamedBelow (t : BindingTable) (bound : Nat) (name : String) : Prop :=
  ∃ id d, id.index < bound ∧ t.typeAt id = .ok d ∧ d.name = name

/-- A type has the name of an earlier one exactly if it is an enum with the name of the class that
enums extend. -/
def RepeatsEnum (t : BindingTable) : Prop :=
  ∀ id d, t.typeAt id = .ok d → (t.NamedBelow id.index d.name ↔ d.ShadowsEnum)

theorem namedBelow_size {name : String} :
    t.NamedBelow t.types.size name ↔ t.lookupType name ≠ none := by
  constructor
  · rintro ⟨id, d, -, entry, named⟩ free
    exact lookupType_eq_none_iff.mp free d (Array.mem_of_getElem? (typeAt_eq_ok.mp entry)) named
  · intro taken
    obtain ⟨id, found⟩ := Option.ne_none_iff_exists'.mp taken
    obtain ⟨⟨d, entry, named⟩, -⟩ := lookupType_eq_some_iff.mp found
    exact ⟨id, d, index_lt_of_typeAt entry, entry, named⟩

namespace RepeatsEnum

theorem pushType (repeats : t.RepeatsEnum) {d : TypeDescriptor}
    (new : t.lookupType d.name ≠ none ↔ d.ShadowsEnum) : (t.pushType d).2.RepeatsEnum := by
  have below : ∀ bound ≤ t.types.size, ∀ name,
      (t.pushType d).2.NamedBelow bound name ↔ t.NamedBelow bound name := by
    intro bound within name
    constructor
    · rintro ⟨id, e, before, entry, named⟩
      rcases typeAt_pushType_eq_ok.mp entry with old | ⟨last, -⟩
      · exact ⟨id, e, before, old, named⟩
      · omega
    · rintro ⟨id, e, before, old, named⟩
      exact ⟨id, e, before, typeAt_pushType_eq_ok.mpr (.inl old), named⟩
  intro id e entry
  rcases typeAt_pushType_eq_ok.mp entry with old | ⟨last, rfl⟩
  · rw [below id.index (Nat.le_of_lt (index_lt_of_typeAt old))]
    exact repeats id e old
  · rw [last, below _ (Nat.le_refl _), namedBelow_size]
    exact new

/-- A type under a free name may be added if it is no enum with the name of the class that enums
extend. -/
theorem pushFree (repeats : t.RepeatsEnum) {d : TypeDescriptor} (free : t.lookupType d.name = none)
    (other : ¬d.ShadowsEnum) : (t.pushType d).2.RepeatsEnum :=
  repeats.pushType ⟨fun taken => absurd free taken, fun shadows => absurd shadows other⟩

theorem internClass (repeats : t.RepeatsEnum) (name : String) :
    (t.internClass name).2.RepeatsEnum := by
  rcases t.internClass_cases name with ⟨id, -, same⟩ | ⟨superclass, free, -, pushed⟩
  · rw [same]
    exact repeats
  · rw [pushed]
    exact repeats.pushFree free fun shadows => nomatch shadows.1

/-- An enum with the name of the class that enums extend comes after that class, and every other
type has its name for itself. -/
theorem addType (repeats : t.RepeatsEnum) {d : TypeDescriptor} (bare : d.superclass = none)
    (free : t.lookupType d.name = none) : (t.addType d).2.RepeatsEnum := by
  unfold BindingTable.addType
  split
  · rename_i rooted
    have kept : ∀ kind, d.kind = kind → kind ≠ .enumType → ¬d.ShadowsEnum :=
      fun kind isKind notEnum shadows => notEnum (isKind.symm.trans shadows.1)
    split
    · rename_i isClass
      rw [addClass, if_pos rooted]
      exact repeats.pushFree free (kept _ isClass (by decide))
    · rename_i isEnum
      refine (repeats.internClass Names.enumType).pushType ?_
      rw [lookupType_internClass]
      by_cases shadows : d.name = Names.enumType
      · rw [if_pos shadows]
        exact ⟨fun _ => ⟨isEnum, shadows⟩, fun _ => Option.some_ne_none _⟩
      · rw [if_neg shadows]
        exact ⟨fun taken => absurd free taken, fun both => absurd both.2 shadows⟩
    · rename_i isInterface
      exact repeats.pushFree free (kept _ isInterface (by decide))
    · rename_i isAnnotation
      exact repeats.pushFree free (kept _ isAnnotation (by decide))
  · rename_i root
    have named : d.name = Names.objectType := by
      by_contra different
      exact root ⟨by rw [bare]; rfl, different⟩
    refine repeats.pushFree free fun shadows => ?_
    rw [TypeDescriptor.ShadowsEnum, named] at shadows
    exact absurd shadows.2 (by decide)

/-- Superclasses do not matter. -/
theorem of_superclasses (repeats : t.RepeatsEnum) (size : t'.types.size = t.types.size)
    (old : ∀ id d, t.typeAt id = .ok d → ∃ superclass, t'.typeAt id = .ok { d with superclass }) :
    t'.RepeatsEnum := by
  have older : ∀ id e, t'.typeAt id = .ok e → ∃ d, t.typeAt id = .ok d ∧ d.name = e.name ∧
      d.kind = e.kind := by
    intro id e entry
    obtain ⟨d, entry'⟩ := typeAt_of_index_lt (size ▸ index_lt_of_typeAt entry)
    obtain ⟨superclass, same⟩ := old id d entry'
    rw [entry] at same
    cases same
    exact ⟨d, entry', rfl, rfl⟩
  have below : ∀ bound name, t'.NamedBelow bound name ↔ t.NamedBelow bound name := by
    intro bound name
    constructor
    · rintro ⟨id, e, before, entry, rfl⟩
      obtain ⟨d, entry', named, -⟩ := older id e entry
      exact ⟨id, d, before, entry', named⟩
    · rintro ⟨id, d, before, entry, named⟩
      obtain ⟨superclass, entry'⟩ := old id d entry
      exact ⟨id, _, before, entry', named⟩
  intro id e entry
  obtain ⟨d, entry', named, kind⟩ := older id e entry
  rw [below, ← named, repeats id d entry', TypeDescriptor.ShadowsEnum, TypeDescriptor.ShadowsEnum,
    named, kind]

theorem change (repeats : t.RepeatsEnum) (change : t.Change t') : t'.RepeatsEnum := by
  cases change with
  | addType qualifier name kind modifiers outer =>
    exact repeats.addType rfl (t.lookupType_uniqueTypeName qualifier name)
  | internClass name => exact repeats.internClass name
  | addVariable v => exact repeats.of_superclasses rfl fun _ d entry => ⟨d.superclass, entry⟩
  | addMethod m => exact repeats.of_superclasses rfl fun _ d entry => ⟨d.superclass, entry⟩
  | setSuperclass set =>
    refine repeats.of_superclasses ?_ (Extends.setSuperclass set).oldTypes
    obtain ⟨-, rfl⟩ := setSuperclass_eq_ok.mp set
    exact Array.size_modify

theorem new : BindingTable.new.RepeatsEnum := by
  have empty : (untyped [] []).RepeatsEnum := fun _ _ entry => nomatch entry
  exact (empty.pushFree (d := external Names.objectType) rfl fun shadows =>
    nomatch shadows.1).pushFree
    (by decide +kernel) fun shadows => nomatch shadows.1

end RepeatsEnum

/-- The table after a number of units was bound to it, in this order, whether this succeeded or
not. -/
def bindAll (t : BindingTable) (units : List CompilationUnit) : BindingTable :=
  units.foldl (fun t u => (u.bind t).table) t

theorem bindAll_changes (units : List CompilationUnit) (t : BindingTable) :
    t.Changes (t.bindAll units) := by
  induction units generalizing t with
  | nil => exact .refl
  | cons u units ih => exact (u.bind_changes t).trans (ih (u.bind t).table)

/-! ## Names of the types of a table -/

/-- All names are different, and each type is found under its name. -/
def NamesIdentify (t : BindingTable) : Prop :=
  (t.types.toList.map (·.name)).Nodup ∧ ∀ id d, t.typeAt id = .ok d → t.lookupType d.name = some id

theorem nodup_names (found : ∀ id d, t.typeAt id = .ok d → t.lookupType d.name = some id) :
    (t.types.toList.map (·.name)).Nodup := by
  refine List.nodup_iff_getElem?_ne_getElem?.mpr fun i j before within same => ?_
  rw [List.length_map, Array.length_toList] at within
  rw [List.getElem?_map, List.getElem?_map, Array.getElem?_toList, Array.getElem?_toList,
    Array.getElem?_eq_getElem (Nat.lt_trans before within),
      Array.getElem?_eq_getElem within] at same
  have first :=
    found ⟨i⟩ _ (typeAt_eq_ok.mpr (Array.getElem?_eq_getElem (Nat.lt_trans before within)))
  have second := found ⟨j⟩ _ (typeAt_eq_ok.mpr (Array.getElem?_eq_getElem within))
  rw [show t.types[i].name = t.types[j].name from Option.some.inj same, second] at first
  cases first
  exact Nat.lt_irrefl _ before

/-- A type whose name no later type repeats is found under it. -/
theorem lookupType_of_last {id : TypeId} {d : TypeDescriptor} (entry : t.typeAt id = .ok d)
    (last : ∀ other e, t.typeAt other = .ok e → e.name = d.name → ¬id.index < other.index) :
    t.lookupType d.name = some id :=
  lookupType_eq_some_iff.mpr ⟨⟨d, entry, rfl⟩, fun other e entry' named =>
    Nat.le_of_not_lt (last other e entry' named)⟩

namespace RepeatsEnum

theorem lookupType (repeats : t.RepeatsEnum) {id : TypeId} {d : TypeDescriptor}
    (entry : t.typeAt id = .ok d)
    (other : ∀ id' e, t.typeAt id' = .ok e → e.name = d.name → ¬e.ShadowsEnum) :
    t.lookupType d.name = some id :=
  lookupType_of_last entry fun id' e entry' named later =>
    other id' e entry' named ((repeats id' e entry').mp ⟨id, d, later, entry, named.symm⟩)

theorem namesIdentify_iff (repeats : t.RepeatsEnum) :
    t.NamesIdentify ↔ ∀ id d, t.typeAt id = .ok d → ¬d.ShadowsEnum := by
  constructor
  · rintro ⟨-, found⟩ id d entry shadows
    -- The class that the enum shadows would be found under the name too.
    obtain ⟨id', d', before, entry', named⟩ := (repeats id d entry).mpr shadows
    have same := found id' d' entry'
    rw [named, found id d entry] at same
    cases same
    exact Nat.lt_irrefl _ before
  · intro none
    have found : ∀ id d, t.typeAt id = .ok d → t.lookupType d.name = some id :=
      fun id d entry => repeats.lookupType entry fun id' e entry' _ => none id' e entry'
    exact ⟨nodup_names found, found⟩

end RepeatsEnum

/-- Whatever units are bound one after the other, with or without success: a type has the name of an
earlier one exactly if it is an enum with the name of the class that enums extend. So every type
with another name is found under its own name, and names identify all types exactly if no enum has
that name. -/
theorem bindAll_names (units : List CompilationUnit) :
    (∀ id d, (new.bindAll units).typeAt id = .ok d →
      ((new.bindAll units).NamedBelow id.index d.name ↔ d.ShadowsEnum) ∧
        (d.name ≠ Names.enumType → (new.bindAll units).lookupType d.name = some id)) ∧
    ((new.bindAll units).NamesIdentify ↔ ∀ id d, (new.bindAll units).typeAt id = .ok d →
      ¬d.ShadowsEnum) := by
  have repeats : (new.bindAll units).RepeatsEnum :=
    (bindAll_changes units new).keeps (fun _ _ change repeats => repeats.change change)
      RepeatsEnum.new
  refine ⟨fun id d entry => ⟨repeats id d entry, fun other => ?_⟩, repeats.namesIdentify_iff⟩
  exact repeats.lookupType entry fun _ _ _ named shadows => other (named ▸ shadows.2)

/-- `package java.lang; enum Enum { }`. -/
def enumUnit : CompilationUnit :=
  ⟨"Enum.java", some "java.lang",
    [⟨⟨.unassigned, .dummy, .enumType, "Enum", .empty, none, none, []⟩, []⟩], .initial⟩

/-- Binding a unit without handles can succeed and give two types one name: the class that the enum
extends is added under the name that was chosen for the enum. -/
theorem bindAll_names_repeated :
    ¬ ∀ (u : CompilationUnit) (stats : Binding.Stats),
      u.entryIds = [] → (u.bind new).result = .ok stats → (new.bindAll [u]).NamesIdentify := by
  intro identify
  obtain ⟨different, -⟩ := identify enumUnit ⟨1, 0, 0, 0, 0⟩ (by decide +kernel) (by decide +kernel)
  have names : (new.bindAll [enumUnit]).types.toList.map (·.name) =
      [Names.objectType, Names.stringType, Names.enumType, Names.enumType] := by decide +kernel
  rw [names] at different
  exact absurd different (by decide)

end BindingTable

end ClassInit
