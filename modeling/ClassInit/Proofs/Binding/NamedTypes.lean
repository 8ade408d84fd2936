import ClassInit.Proofs.Binding.Table
import Mathlib.Data.List.Induction
import Mathlib.Data.List.Nodup
import Mathlib.Data.List.Perm.Subperm

/-!
# Types by name

The index beside the types of a table gives for every name the last type that has it
(`BindingTable.lookupType_eq_some_iff`), and nothing for a name that no type has
(`BindingTable.lookupType_eq_none_iff`); the search for a simple name does the same without an index
(`BindingTable.lookupSimpleType_eq_some_iff`). So the types alone determine what is found, and the
name that is chosen for a new type is free (`BindingTable.lookupType_uniqueTypeName`).
-/

set_option autoImplicit false

namespace ClassInit

namespace NameIndex

/-- Taking out the entries of one name does not matter for another. -/
theorem lookup_filter_ne (entries : List (String × TypeId)) {name other : String}
    (different : other ≠ name) :
    (entries.filter fun e => e.1 != name).lookup other = entries.lookup other := by
  induction entries with
  | nil => rfl
  | cons e es ih =>
    obtain ⟨key, id⟩ := e
    rw [List.filter_cons]
    by_cases dropped : key = name
    · have passed : (other == key) = false := beq_eq_false_iff_ne.mpr (dropped ▸ different)
      rw [if_neg (by simp [dropped]), ih, List.lookup_cons, passed]
    · rw [if_pos (by simp [dropped]), List.lookup_cons, List.lookup_cons, ih]

/-- The last entry of a name is found. -/
theorem find?_insert (index : NameIndex) (name other : String) (id : TypeId) :
    (index.insert name id).find? other = if other = name then some id else index.find? other := by
  rw [find?, insert, List.lookup_cons]
  by_cases same : other = name
  · rw [if_pos same, beq_iff_eq.mpr same]
  · rw [if_neg same, beq_eq_false_iff_ne.mpr same]
    exact lookup_filter_ne index.entries same

/-- The index of names has for each name the last place where it stands. -/
theorem find?_ofNames {names : List String} {name : String} {id : TypeId} :
    (ofNames names).find? name = some id ↔
      names[id.index]? = some name ∧ ∀ i, names[i]? = some name → i ≤ id.index := by
  -- From the end, where the names are entered: an entry replaces the one that its name had.
  induction names using List.reverseRecOn with
  | nil =>
    have nothing : (ofNames []).find? name = none := rfl
    simp [nothing]
  | append_singleton names last ih =>
    have bound : ∀ i, names[i]? = some name → i < names.length :=
      fun i entry => (List.getElem?_eq_some_iff.mp entry).1
    have entries : ∀ i, (names ++ [last])[i]? = some name ↔
        names[i]? = some name ∨ i = names.length ∧ last = name := by
      intro i
      rcases Nat.lt_trichotomy i names.length with below | rfl | above
      · rw [List.getElem?_append_left below]
        exact ⟨.inl, fun either => either.resolve_right fun at_end =>
          absurd at_end.1 (Nat.ne_of_lt below)⟩
      · simp
      · rw [List.getElem?_eq_none (by simp; omega), List.getElem?_eq_none (Nat.le_of_lt above)]
        simp [Nat.ne_of_gt above]
    rw [ofNames_concat, find?_insert]
    by_cases same : name = last
    · subst same
      rw [if_pos rfl]
      constructor
      · rintro ⟨rfl⟩
        refine ⟨(entries _).mpr (.inr ⟨rfl, rfl⟩), fun i entry => ?_⟩
        exact ((entries i).mp entry).elim (fun old => Nat.le_of_lt (bound i old)) fun at_end =>
          Nat.le_of_eq at_end.1
      · rintro ⟨entry, greatest⟩
        have least := greatest names.length ((entries _).mpr (.inr ⟨rfl, rfl⟩))
        have place : id.index = names.length := ((entries _).mp entry).elim
          (fun old => absurd (bound _ old) (Nat.not_lt.mpr least)) And.left
        exact congrArg some (congrArg TypeId.mk place.symm)
    · rw [if_neg same, ih]
      simp only [entries, Ne.symm same, and_false, or_false]

/-- A name that is not indexed is not found. -/
theorem find?_ofNames_eq_none {names : List String} {name : String} :
    (ofNames names).find? name = none ↔ name ∉ names := by
  induction names using List.reverseRecOn with
  | nil => exact ⟨fun _ => List.not_mem_nil, fun _ => rfl⟩
  | append_singleton names last ih =>
    rw [ofNames_concat, find?_insert]
    by_cases same : name = last
    · simp [same]
    · rw [if_neg same, ih, List.mem_append, List.mem_singleton]
      simp [same]

end NameIndex

namespace BindingTable

variable {t t' : BindingTable}

/-- Tables with the same entries are the same, since the index follows from the types. -/
theorem ext_of_entries (types : t.types = t'.types) (vars : t.vars = t'.vars)
    (methods : t.methods = t'.methods) : t = t' := by
  obtain ⟨types₁, vars₁, methods₁, index₁, indexed₁⟩ := t
  obtain ⟨types₂, vars₂, methods₂, index₂, indexed₂⟩ := t'
  dsimp only at types vars methods
  subst types vars methods
  subst indexed₁ indexed₂
  rfl

/-- Lookups by name depend on the types only. -/
theorem lookupType_congr (types : t'.types = t.types) : t'.lookupType = t.lookupType := by
  funext name
  rw [lookupType, lookupType, t'.indexed, t.indexed, types]

/-- Of the types with a name the last is found. -/
theorem lookupType_eq_some_iff {name : String} {id : TypeId} :
    t.lookupType name = some id ↔ (∃ d, t.typeAt id = .ok d ∧ d.name = name) ∧
      ∀ other d, t.typeAt other = .ok d → d.name = name → other.index ≤ id.index := by
  have entries : ∀ i, (t.types.toList.map (·.name))[i]? = some name ↔ ∃ d, t.typeAt ⟨i⟩ = .ok d ∧
      d.name = name := by
    intro i
    rw [List.getElem?_map, Option.map_eq_some_iff, Array.getElem?_toList]
    simp only [typeAt_eq_ok]
  rw [lookupType, t.indexed, NameIndex.find?_ofNames]
  simp only [entries]
  refine and_congr_right fun _ =>
    ⟨fun greatest other d entry named => ?_, fun greatest i entry => ?_⟩
  · exact greatest other.index ⟨d, entry, named⟩
  · obtain ⟨d, entry, named⟩ := entry
    exact greatest ⟨i⟩ d entry named

theorem index_lt_of_typeAt {id : TypeId} {d : TypeDescriptor} (entry : t.typeAt id = .ok d) :
    id.index < t.types.size :=
  (Array.getElem?_eq_some_iff.mp (typeAt_eq_ok.mp entry)).1

/-- A type that is found is in the table. -/
theorem lookupType_eq_some {name : String} {id : TypeId} (found : t.lookupType name = some id) :
    id.index < t.types.size := by
  obtain ⟨⟨d, entry, -⟩, -⟩ := lookupType_eq_some_iff.mp found
  exact index_lt_of_typeAt entry

/-- A name is not found if and only if no type has it. -/
theorem lookupType_eq_none_iff {name : String} :
    t.lookupType name = none ↔ ∀ d ∈ t.types, d.name ≠ name := by
  rw [lookupType, t.indexed, NameIndex.find?_ofNames_eq_none, List.mem_map]
  simp only [Array.mem_toList_iff]
  exact ⟨fun absent d hd named => absent ⟨d, hd, named⟩, fun absent ⟨d, hd, named⟩ =>
    absent d hd named⟩

/-- A type in the table is found by its name, or a later one of that name is. -/
theorem exists_lookupType {name : String} {d : TypeDescriptor} (hd : d ∈ t.types)
    (named : d.name = name) :
    ∃ id, t.lookupType name = some id :=
  Option.ne_none_iff_exists'.mp fun absent => lookupType_eq_none_iff.mp absent d hd named

/-! ## Simple names -/

/-- The last entry is looked for from the end. -/
theorem lastBelow_succ (test : TypeDescriptor → Bool) (bound : Nat) :
    t.lastBelow test (bound + 1) = if t.types[bound]?.any test then some ⟨bound⟩ else t.lastBelow
      test bound := by
  rw [lastBelow]
  cases t.types[bound]? <;> rfl

/-- The entry that is found passes the test, and no later one does. -/
theorem lastBelow_eq_some_iff {test : TypeDescriptor → Bool} {bound : Nat} {id : TypeId} :
    t.lastBelow test bound = some id ↔ id.index < bound ∧ t.types[id.index]?.any test = true ∧
      ∀ i < bound, t.types[i]?.any test = true → i ≤ id.index := by
  induction bound with
  | zero => simp [lastBelow]
  | succ bound ih =>
    rw [lastBelow_succ]
    by_cases here : t.types[bound]?.any test = true
    · rw [if_pos here, Option.some.injEq]
      constructor
      · rintro rfl
        exact ⟨Nat.lt_succ_self _, here, fun i low _ => Nat.lt_succ_iff.mp low⟩
      · rintro ⟨low, -, greatest⟩
        exact congrArg TypeId.mk
          (Nat.le_antisymm (greatest bound (Nat.lt_succ_self _) here) (Nat.lt_succ_iff.mp low))
    · have below : ∀ i, t.types[i]?.any test = true → (i < bound + 1 ↔ i < bound) := by
        intro i passes
        have apart : i ≠ bound := by
          rintro rfl
          exact here passes
        omega
      rw [if_neg here, ih]
      constructor
      · rintro ⟨low, passes, greatest⟩
        exact ⟨(below _ passes).mpr low, passes, fun i low passes =>
          greatest i ((below i passes).mp low) passes⟩
      · rintro ⟨low, passes, greatest⟩
        exact ⟨(below _ passes).mp low, passes, fun i low passes =>
          greatest i ((below i passes).mpr low) passes⟩

theorem lastBelow_eq_none_iff {test : TypeDescriptor → Bool} {bound : Nat} :
    t.lastBelow test bound = none ↔ ∀ i < bound, t.types[i]?.any test = false := by
  induction bound with
  | zero => simp [lastBelow]
  | succ bound ih =>
    rw [lastBelow_succ, Nat.forall_lt_succ_right, ← ih]
    cases t.types[bound]?.any test <;> simp

/-- Of the types with a simple name the last is found. -/
theorem lookupSimpleType_eq_some_iff {simple : String} {id : TypeId} :
    t.lookupSimpleType simple = some id ↔ (∃ d, t.typeAt id = .ok d ∧ d.simpleName = simple) ∧
      ∀ other d, t.typeAt other = .ok d → d.simpleName = simple → other.index ≤ id.index := by
  have entries : ∀ i : Nat, t.types[i]?.any (·.simpleName == simple) = true ↔
      ∃ d, t.typeAt ⟨i⟩ = .ok d ∧ d.simpleName = simple := by
    intro i
    rw [Option.any_eq_true]
    simp only [typeAt_eq_ok, beq_iff_eq]
  rw [lookupSimpleType, lastBelow_eq_some_iff]
  simp only [entries]
  constructor
  · rintro ⟨-, named, greatest⟩
    exact ⟨named, fun other d entry simple =>
      greatest _ (index_lt_of_typeAt entry) ⟨d, entry, simple⟩⟩
  · rintro ⟨⟨d, entry, simple⟩, greatest⟩
    exact ⟨index_lt_of_typeAt entry, ⟨d, entry, simple⟩, fun i _ ⟨d', entry', simple'⟩ =>
      greatest _ d' entry' simple'⟩

/-- A type that is found by its simple name is in the table. -/
theorem lookupSimpleType_eq_some {simple : String} {id : TypeId}
    (found : t.lookupSimpleType simple = some id) : id.index < t.types.size := by
  obtain ⟨⟨d, entry, -⟩, -⟩ := lookupSimpleType_eq_some_iff.mp found
  exact index_lt_of_typeAt entry

/-- A simple name is not found if and only if no type has it. -/
theorem lookupSimpleType_eq_none_iff {simple : String} :
    t.lookupSimpleType simple = none ↔ ∀ d ∈ t.types, d.simpleName ≠ simple := by
  rw [lookupSimpleType, lastBelow_eq_none_iff, Array.forall_mem_iff_forall_getElem]
  refine forall₂_congr fun i hi => ?_
  rw [Array.getElem?_eq_getElem hi]
  exact beq_eq_false_iff_ne

/-! ## Free names -/

/-- Different numbers make different names. -/
theorem candidateName_injective (base : String) : Function.Injective (candidateName base) := by
  intro m n same
  have lists := congrArg String.toList same
  unfold candidateName at lists
  split at lists
  · split at lists
    · omega
    · exact absurd (congrArg List.length lists) (by simp)
  · split at lists
    · exact absurd (congrArg List.length lists) (by simp)
    · simp only [String.toList_append] at lists
      have digits := congrArg (Nat.ofDigitChars 10 · 0) (List.append_cancel_left lists)
      simpa [Nat.toString_eq_ofList_toDigits] using digits

/-- If the search ends at a name that is taken, all names that it went through are taken. -/
theorem taken_of_freeName {base : String} {tries n : Nat}
    (taken : t.lookupType (t.freeName base tries n) ≠ none) {i : Nat} (tried : i ≤ tries) :
    t.lookupType (candidateName base (n + i)) ≠ none := by
  induction tries generalizing n i with
  | zero =>
    obtain rfl : i = 0 := Nat.le_zero.mp tried
    exact taken
  | succ tries ih =>
    rw [freeName] at taken
    split at taken
    · rename_i free
      exact absurd (Option.isNone_iff_eq_none.mp free) taken
    · rename_i first
      cases i with
      | zero => exact fun free => first (Option.isNone_iff_eq_none.mpr free)
      | succ i =>
        rw [Nat.add_comm i 1, ← Nat.add_assoc]
        exact ih taken (Nat.le_of_succ_le_succ tried)

/-- The name chosen for a new type is free: there is one candidate more than there are types. -/
theorem lookupType_uniqueTypeName (t : BindingTable) (qualifier : Option String) (name : String) :
    t.lookupType (t.uniqueTypeName qualifier name) = none := by
  by_contra taken
  let names := t.types.toList.map (·.name)
  let candidates := (List.range (t.types.size + 1)).map (candidateName (qualify qualifier name))
  have different : candidates.Nodup := List.Nodup.map (candidateName_injective _) List.nodup_range
  have known : candidates ⊆ names := by
    intro candidate hc
    obtain ⟨i, hi, rfl⟩ := List.mem_map.mp hc
    have found := taken_of_freeName taken (Nat.lt_succ_iff.mp (List.mem_range.mp hi))
    rw [Nat.zero_add] at found
    by_contra absent
    refine found (lookupType_eq_none_iff.mpr fun d hd named => absent ?_)
    exact List.mem_map.mpr ⟨d, Array.mem_toList_iff.mpr hd, named⟩
  have short := (List.Nodup.subperm different known).length_le
  rw [List.length_map, List.length_map, List.length_range, Array.length_toList] at short
  exact absurd short (Nat.not_succ_le_self _)

/-! ## Types under new names -/

/-- A new type is the only entry that is added. -/
theorem typeAt_pushType_eq_ok {d e : TypeDescriptor} {id : TypeId} :
    (t.pushType d).2.typeAt id = .ok e ↔ t.typeAt id = .ok e ∨ id.index = t.types.size ∧ e = d := by
  rw [typeAt_eq_ok, typeAt_eq_ok]
  show (t.types.push d)[id.index]? = some e ↔ _
  rw [Array.getElem?_push]
  split
  · rename_i last
    rw [last, Array.getElem?_eq_none (Nat.le_refl _)]
    simp [eq_comm]
  · rename_i other
    simp [other]

/-- A new type is found by its name, and other names mean what they did. -/
theorem lookupType_pushType (t : BindingTable) (d : TypeDescriptor) (name : String) :
    (t.pushType d).2.lookupType name = if name =
      d.name then some ⟨t.types.size⟩ else t.lookupType name :=
  NameIndex.find?_insert t.byName d.name name ⟨t.types.size⟩

theorem lookupType_addClass (t : BindingTable) (d : TypeDescriptor) (name : String) :
    (t.addClass d).2.lookupType name = if name =
      d.name then some ⟨t.types.size⟩ else t.lookupType name := by
  unfold addClass
  split <;> exact lookupType_pushType t _ name

/-- Interning a class makes its name known and no other. -/
theorem lookupType_internClass (t : BindingTable) (name other : String) :
    (t.internClass name).2.lookupType other =
      if other = name then some (t.internClass name).1 else t.lookupType other := by
  unfold internClass
  cases found : t.lookupType name with
  | some id =>
    dsimp only
    split
    · rename_i same
      rw [same, found]
    · rfl
  | none =>
    dsimp only
    rw [lookupType_addClass]
    have handle : (t.addClass (external name)).1 = ⟨t.types.size⟩ := by
      unfold addClass
      split <;> rfl
    rw [handle]
    rfl

end BindingTable

end ClassInit
