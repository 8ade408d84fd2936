import ClassInit.Binding.Constants
import ClassInit.Binding.Declare

/-!
# How binding changes the table

Binding adds entries and records superclasses, and does nothing else to the table:
`BindingTable.Extends` is the relation that every step of it moves the table along. New variables
have no constants yet, so what expressions denote stays the same
(`BindingTable.Extends.constantValue`).
-/

set_option autoImplicit false

namespace ClassInit

namespace BindingTable

variable {t t' : BindingTable}

/-- The second table has the entries of the first, up to superclasses of types, and variables
without constants besides. -/
structure Extends (t t' : BindingTable) : Prop where
  addedVariables : ∃ added : List VariableBinding,
    t'.vars.toList = t.vars.toList ++ added ∧ ∀ v ∈ added, v.constantValue = none
  moreTypes : t.types.size ≤ t'.types.size
  oldTypes : ∀ id d, t.typeAt id = .ok d → ∃ superclass, t'.typeAt id = .ok { d with superclass }

theorem typeAt_eq_ok {id : TypeId} {d : TypeDescriptor} :
    t.typeAt id = .ok d ↔ t.types[id.index]? = some d := by
  unfold typeAt
  cases t.types[id.index]? <;> simp

/-! ## What changes do -/

/-- A class that is looked up is there, or it is added as an external class, which extends the root
class unless it is the root class itself. -/
theorem internClass_cases (t : BindingTable) (name : String) :
    (∃ id, t.lookupType name = some id ∧ t.internClass name = (id, t)) ∨
      ∃ superclass, t.lookupType name = none ∧
        (superclass = t.objectType ∨ superclass = none ∧ name = Names.objectType) ∧
        t.internClass name = t.pushType { external name with superclass } := by
  unfold internClass
  split
  · exact .inl ⟨_, ‹_›, rfl⟩
  · unfold addClass
    split
    · exact .inr ⟨_, ‹_›, .inl rfl, rfl⟩
    · rename_i root
      exact .inr ⟨none, ‹_›, .inr ⟨rfl, by simpa [external] using root⟩, rfl⟩

theorem setSuperclass_eq_ok {id superclass : TypeId} :
    t.setSuperclass id superclass = .ok t' ↔
      id.index < t.types.size ∧ t' = t.withSuperclass id superclass := by
  unfold setSuperclass
  split <;> simp [*, eq_comm]

theorem setConstant_eq_ok {id : VariableId} {value : Constant} :
    t.setConstant id value = .ok t' ↔
      id.index < t.vars.size ∧
        t' = { t with
          vars := t.vars.modify id.index fun v => { v with constantValue := some value } } := by
  unfold setConstant
  split <;> simp [*, eq_comm]

/-- The handle of a type that is pushed is that of an entry. -/
theorem index_pushType_lt (t : BindingTable) (d : TypeDescriptor) :
    (t.pushType d).1.index < (t.pushType d).2.types.size :=
  Nat.lt_of_lt_of_eq (Nat.lt_succ_self _) (Array.size_push _).symm

namespace Extends

theorem refl (t : BindingTable) : t.Extends t :=
  ⟨⟨[], by simp, by simp⟩, Nat.le_refl _, fun _ d found => ⟨d.superclass, found⟩⟩

theorem trans {a b c : BindingTable} (first : a.Extends b) (second : b.Extends c) :
    a.Extends c := by
  obtain ⟨added, hadded, unknown⟩ := first.addedVariables
  obtain ⟨added', hadded', unknown'⟩ := second.addedVariables
  refine ⟨⟨added ++ added', ?_, ?_⟩, Nat.le_trans first.moreTypes second.moreTypes, ?_⟩
  · rw [hadded', hadded, List.append_assoc]
  · intro v hv
    exact (List.mem_append.mp hv).elim (unknown v) (unknown' v)
  · intro id d found
    obtain ⟨superclass, found'⟩ := first.oldTypes id d found
    obtain ⟨superclass', found''⟩ := second.oldTypes id _ found'
    exact ⟨superclass', found''⟩

theorem moreVariables (grown : t.Extends t') : t.vars.size ≤ t'.vars.size := by
  obtain ⟨added, hadded, -⟩ := grown.addedVariables
  have lengths := congrArg List.length hadded
  rw [List.length_append, Array.length_toList, Array.length_toList] at lengths
  omega

/-- No constant gets known and none is forgotten. -/
theorem variableConstant (grown : t.Extends t') :
    t'.variableConstant = t.variableConstant := by
  funext v
  obtain ⟨added, hadded, unknown⟩ := grown.addedVariables
  unfold BindingTable.variableConstant
  rw [← Array.getElem?_toList, ← Array.getElem?_toList, hadded]
  by_cases old : v.index < t.vars.toList.length
  · rw [List.getElem?_append_left old]
  · have notOld : t.vars.toList.length ≤ v.index := Nat.le_of_not_lt old
    rw [List.getElem?_append_right notOld, List.getElem?_eq_none notOld]
    cases found : added[v.index - t.vars.toList.length]? with
    | none => rfl
    | some b => exact unknown b (List.mem_of_getElem? found)

theorem constantValue (grown : t.Extends t') (e : Expr) :
    t'.constantValue e = t.constantValue e := by
  rw [BindingTable.constantValue, BindingTable.constantValue, grown.variableConstant]

/-! ## Single changes -/

theorem addVariable (t : BindingTable) {v : VariableBinding} (unknown : v.constantValue = none) :
    t.Extends (t.addVariable v).2 := by
  refine ⟨⟨[v], ?_, ?_⟩, Nat.le_refl _, fun _ d found => ⟨d.superclass, found⟩⟩
  · show (t.vars.push v).toList = _
    rw [Array.toList_push]
  · intro w hw
    rw [List.mem_singleton.mp hw]
    exact unknown

theorem addMethod (t : BindingTable) (m : MethodBinding) : t.Extends (t.addMethod m).2 :=
  ⟨⟨[], by simp [BindingTable.addMethod], by simp⟩, Nat.le_refl _,
    fun _ d found => ⟨d.superclass, found⟩⟩

theorem pushType (t : BindingTable) (d : TypeDescriptor) : t.Extends (t.pushType d).2 := by
  refine ⟨⟨[], by simp [BindingTable.pushType], by simp⟩, ?_, fun id d' found => ?_⟩
  · show t.types.size ≤ (t.types.push d).size
    rw [Array.size_push]
    omega
  · refine ⟨d'.superclass, ?_⟩
    rw [typeAt_eq_ok] at found ⊢
    have old : id.index < t.types.size := (Array.getElem?_eq_some_iff.mp found).1
    show (t.types.push d)[id.index]? = _
    rw [Array.getElem?_push_lt old, ← found, Array.getElem?_eq_getElem old]

theorem internClass (t : BindingTable) (name : String) : t.Extends (t.internClass name).2 := by
  rcases t.internClass_cases name with ⟨id, -, same⟩ | ⟨superclass, -, -, pushed⟩
  · rw [same]
    exact refl t
  · rw [pushed]
    exact pushType t _

theorem setSuperclass {id superclass : TypeId} (set : t.setSuperclass id superclass = .ok t') :
    t.Extends t' := by
  obtain ⟨-, rfl⟩ := setSuperclass_eq_ok.mp set
  refine ⟨⟨[], by simp, by simp⟩, ?_, fun id' d found => ?_⟩
  · exact Nat.le_of_eq Array.size_modify.symm
  · rw [typeAt_eq_ok] at found
    by_cases same : id.index = id'.index
    · refine ⟨some superclass, typeAt_eq_ok.mpr ?_⟩
      rw [withSuperclass_types, Array.getElem?_modify, if_pos same, found]
      rfl
    · refine ⟨d.superclass, typeAt_eq_ok.mpr ?_⟩
      rw [withSuperclass_types, Array.getElem?_modify, if_neg same, found]

end Extends

/-! ## New types -/

theorem typeAt_pushType (t : BindingTable) (d : TypeDescriptor) :
    (t.pushType d).2.typeAt (t.pushType d).1 = .ok d := by
  rw [typeAt_eq_ok]
  show (t.types.push d)[t.types.size]? = some d
  rw [Array.getElem?_push_size]

/-- Adding a type gives it a new handle, under which it is found with a superclass. -/
theorem addType_spec (t : BindingTable) (d : TypeDescriptor) :
    t.Extends (t.addType d).2 ∧ t.types.size ≤ (t.addType d).1.index ∧
      ∃ superclass, (t.addType d).2.typeAt (t.addType d).1 = .ok { d with superclass } := by
  have pushed : ∀ t₁ : BindingTable, t.Extends t₁ → ∀ superclass,
      t.Extends (t₁.pushType { d with superclass }).2 ∧
        t.types.size ≤ (t₁.pushType { d with superclass }).1.index ∧
        ∃ superclass', (t₁.pushType { d with superclass }).2.typeAt
          (t₁.pushType { d with superclass }).1 = .ok { d with superclass := superclass' } := by
    intro t₁ grown superclass
    exact ⟨grown.trans (Extends.pushType t₁ _), grown.moreTypes, superclass, typeAt_pushType t₁ _⟩
  unfold addType
  split
  · rename_i rooted
    split
    · rw [addClass, if_pos rooted]
      exact pushed t (Extends.refl t) t.objectType
    · exact pushed _ (Extends.internClass t Names.enumType) _
    · exact pushed t (Extends.refl t) d.superclass
    · exact pushed t (Extends.refl t) d.superclass
  · exact pushed t (Extends.refl t) d.superclass

end BindingTable

end ClassInit
