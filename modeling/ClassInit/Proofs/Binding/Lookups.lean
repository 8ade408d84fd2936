import ClassInit.Proofs.Binding.Rounds
import ClassInit.Proofs.Binding.Scoping

/-!
# Tables in which names mean the same

What a name means depends on the types of a table and on its variables without their constants
(`BindingTable.SameFields`). Recording constants therefore changes the meaning of no name
(`BindingTable.SameFields.of_bindConstants`).
-/

set_option autoImplicit false

namespace ClassInit

open Binding

/-- The variable without its constant. -/
def VariableBinding.forget (v : VariableBinding) : VariableBinding :=
  { v with constantValue := none }

namespace BindingTable

variable {t t' : BindingTable} {v : VariableId}

/-- The handle is that of a field. -/
def IsField (t : BindingTable) (v : VariableId) : Prop :=
  ∃ b, t.vars[v.index]? = some b ∧ b.isField = true

/-- The handle is that of a local. -/
def IsLocal (t : BindingTable) (v : VariableId) : Prop :=
  ∃ b, t.vars[v.index]? = some b ∧ b.isField = false

theorem IsLocal.not_isField (isLocal : t.IsLocal v) : ¬ t.IsField v := by
  rintro ⟨b', found', isField⟩
  obtain ⟨b, found, isLocal⟩ := isLocal
  rw [found] at found'
  cases found'
  rw [isLocal] at isField
  cases isField

/-! ## More locals -/

theorem AddsLocals.isLocal (adds : t.AddsLocals t') (isLocal : t.IsLocal v) : t'.IsLocal v := by
  obtain ⟨added, all, -⟩ := adds
  obtain ⟨b, found, isLocal⟩ := isLocal
  refine ⟨b, ?_, isLocal⟩
  rw [← Array.getElem?_toList] at found ⊢
  rw [all, List.getElem?_append_left (List.getElem?_eq_some_iff.mp found).1]
  exact found

/-- A handle that was given out between the two tables is that of a local. -/
theorem AddsLocals.isLocal_of_new (adds : t.AddsLocals t') (low : t.vars.size ≤ v.index)
    (high : v.index < t'.vars.size) : t'.IsLocal v := by
  obtain ⟨added, all, locals⟩ := adds
  refine ⟨_, Array.getElem?_eq_getElem high, locals _ ?_⟩
  have found := Array.getElem?_eq_getElem high
  rw [← Array.getElem?_toList, all, List.getElem?_append_right low] at found
  exact List.mem_of_getElem? found

/-! ## Other constants -/

/-- The second table has the types of the first, and its variables up to their constants. -/
structure SameFields (t t' : BindingTable) : Prop where
  types : t'.types = t.types
  entries : t'.vars.toList.map VariableBinding.forget = t.vars.toList.map VariableBinding.forget

namespace SameFields

theorem refl (t : BindingTable) : t.SameFields t := ⟨rfl, rfl⟩

theorem trans {a b c : BindingTable} (first : a.SameFields b) (second : b.SameFields c) :
    a.SameFields c := ⟨second.types.trans first.types, second.entries.trans first.entries⟩

theorem isLocal (same : t.SameFields t') (isLocal : t.IsLocal v) : t'.IsLocal v := by
  obtain ⟨b, found, isLocal⟩ := isLocal
  have entry : (List.map VariableBinding.forget t'.vars.toList)[v.index]? = some b.forget := by
    rw [same.entries, List.getElem?_map, Array.getElem?_toList, found, Option.map_some]
  rw [List.getElem?_map, Array.getElem?_toList, Option.map_eq_some_iff] at entry
  obtain ⟨b', found', forgotten⟩ := entry
  refine ⟨b', found', ?_⟩
  have fields : b'.forget.isField = b.forget.isField := congrArg VariableBinding.isField forgotten
  exact fields.trans isLocal

theorem declaredField (same : t.SameFields t') : t'.declaredField = t.declaredField := by
  have listed : ∀ (t : BindingTable) owner name, t.declaredField owner name =
      ((t.vars.toList.map VariableBinding.forget).findIdx? fun v =>
        v.isField && v.declaringType == some owner && v.name == name).map VariableId.mk := by
    intro t owner name
    rw [BindingTable.declaredField, List.findIdx?_map, ← List.findIdx?_toArray,
      Array.toArray_toList]
    rfl
  funext owner name
  rw [listed, listed, same.entries]

/-- Names mean the same. -/
theorem field? (same : t.SameFields t') (types : List TypeId) :
    (Site.mk t' types).field? = (Site.mk t types).field? := by
  funext name
  rw [Site.field?, Site.field?, findField_congr same.types same.declaredField]

theorem of_setConstant {id : VariableId} {value : Constant}
    (set : t.setConstant id value = .ok t') :
    t.SameFields t' := by
  obtain ⟨-, rfl⟩ := BindingTable.setConstant_eq_ok.mp set
  refine ⟨rfl, List.ext_getElem? fun i => ?_⟩
  rw [List.getElem?_map, List.getElem?_map, Array.getElem?_toList, Array.getElem?_toList,
    Array.getElem?_modify]
  split
  · cases t.vars[i]? <;> rfl
  · rfl

/-- A round of finding constants. -/
theorem of_round (pending : List Constants.Candidate) :
    Step.Keeps t.SameFields (Constants.round pending) (fun _ => True) fun _ => True := by
  induction pending with
  | nil => exact .pure trivial
  | cons c cs ih =>
    rw [Constants.round]
    refine .bind (.get (Q := fun _ => True) fun _ _ => trivial) fun t₁ _ => ?_
    split
    · exact .bind ih fun left _ => .pure trivial
    · refine Step.Ends.bind (.get (Q := fun s s' => s = s' ∧ t.SameFields s') fun s same =>
        ⟨rfl, same⟩)
        fun t₂ => ?_
      split
      · exact .throw fun _ _ => trivial
      · rename_i set
        refine Step.Ends.bind (.set (Q := fun _ s => t.SameFields s) fun s both => ?_) fun _ => ih
        obtain ⟨rfl, same⟩ := both
        exact same.trans (of_setConstant set)

theorem of_rounds (n : Nat) (pending : List Constants.Candidate) :
    Step.Keeps t.SameFields (Constants.rounds n pending) (fun _ => True) fun _ => True := by
  induction n generalizing pending with
  | zero => exact .pure trivial
  | succ n ih =>
    rw [Constants.rounds]
    refine .bind (of_round pending) fun left _ => ?_
    split
    · exact .pure trivial
    · exact ih left

/-- Recording the constants of a unit changes no name. -/
theorem of_bindConstants {u : CompilationUnit} {n : Nat} (success : (t.bindConstants u).1 = .ok n) :
    t.SameFields (t.bindConstants u).2 := by
  unfold BindingTable.bindConstants at success ⊢
  cases listed : Constants.ofUnit t u with
  | error e => exact refl t
  | ok candidates =>
    rw [listed] at success
    simp only at success ⊢
    rcases run : (Constants.rounds Limits.constantRounds candidates).run t with ⟨e | left, t'⟩
    · rw [run] at success
      cases success
    · exact ((of_rounds Limits.constantRounds candidates).of_ok (refl t) run).2

end SameFields

end BindingTable

end ClassInit
