import ClassInit.Json.Fields
import ClassInit.Proofs.Json.Rereading
import Mathlib.Logic.Basic

/-!
# Documents and their nesting

A document is read like any text up to the parts that stand too deep in arrays and objects, which
are lost (`Json.ofDocument?_text`). Where nothing stands too deep nothing is
(`Json.limited_of_nesting_le`).
-/

set_option autoImplicit false

namespace ClassInit.Json

mutual

/-- How many arrays and objects stand in each other at most. -/
def nesting : Json → Nat
  | arr items => nestingItems items + 1
  | obj fields => nestingFields fields + 1
  | _ => 0

def nestingItems : List Json → Nat
  | [] => 0
  | j :: js => max j.nesting (nestingItems js)

def nestingFields : List (String × Json) → Nat
  | [] => 0
  | (_, j) :: fs => max j.nesting (nestingFields fs)

end

/-- A number is read as a number. -/
theorem nesting_ofDecimal (d : Number.Decimal) : (ofDecimal d).nesting = 0 := by
  unfold ofDecimal
  split <;> rfl

theorem nesting_ofDecimal? : ∀ d : Option Number.Decimal, (ofDecimal? d).nesting = 0
  | none => rfl
  | some d => nesting_ofDecimal d

mutual

theorem nesting_reread : ∀ j : Json, j.reread.nesting = j.nesting
  | null | bool _ | int _ | str _ | unreadable => rfl
  | decimal d => nesting_ofDecimal d
  | float32 _ | float64 _ => nesting_ofDecimal? _
  | arr js => congrArg (· + 1) (nestingItems_rereadItems js)
  | obj fs => congrArg (· + 1) (nestingFields_rereadFields fs)

theorem nestingItems_rereadItems : ∀ js : List Json, nestingItems (rereadItems js) = nestingItems js
  | [] => rfl
  | j :: js => congrArg₂ max (nesting_reread j) (nestingItems_rereadItems js)

theorem nestingFields_rereadFields : ∀ fs : List (String × Json),
    nestingFields (rereadFields fs) = nestingFields fs
  | [] => rfl
  | (_, j) :: fs => congrArg₂ max (nesting_reread j) (nestingFields_rereadFields fs)

end

mutual

/-- Nothing is lost where nothing stands too deep. -/
theorem limited_of_nesting_le : ∀ {room : Nat} {j : Json}, j.nesting ≤ room → j.limited room = j
  | _, null, _ | _, bool _, _ | _, int _, _ | _, decimal _, _ | _, float32 _, _ | _, float64 _, _
  | _, str _, _ | _, unreadable, _ => rfl
  | 0, arr _, fits | 0, obj _, fits => absurd fits (Nat.not_succ_le_zero _)
  | _ + 1, arr _, fits => congrArg arr (limitedItems_of_nesting_le (Nat.le_of_succ_le_succ fits))
  | _ + 1, obj _, fits => congrArg obj (limitedFields_of_nesting_le (Nat.le_of_succ_le_succ fits))

theorem limitedItems_of_nesting_le : ∀ {room : Nat} {js : List Json}, nestingItems js ≤ room →
    limitedItems room js = js
  | _, [], _ => rfl
  | _, _ :: _, fits =>
    congrArg₂ List.cons (limited_of_nesting_le (Nat.le_trans (Nat.le_max_left _ _) fits))
      (limitedItems_of_nesting_le (Nat.le_trans (Nat.le_max_right _ _) fits))

theorem limitedFields_of_nesting_le :
    ∀ {room : Nat} {fs : List (String × Json)}, nestingFields fs ≤ room → limitedFields room fs = fs
  | _, [], _ => rfl
  | _, (name, _) :: _, fits =>
    congrArg₂ (fun j fs => (name, j) :: fs)
      (limited_of_nesting_le (Nat.le_trans (Nat.le_max_left _ _) fits))
      (limitedFields_of_nesting_le (Nat.le_trans (Nat.le_max_right _ _) fits))

end

/-! ## Bounds -/

theorem nesting_arr_le_iff {js : List Json} {room : Nat} :
    (arr js).nesting ≤ room + 1 ↔ ∀ j ∈ js, j.nesting ≤ room := by
  rw [nesting, Nat.add_le_add_iff_right]
  induction js with
  | nil => exact iff_of_true (Nat.zero_le _) nofun
  | cons j js ih => rw [nestingItems, Nat.max_le, ih, List.forall_mem_cons]

theorem nesting_obj_le_iff {fs : List (String × Json)} {room : Nat} :
    (obj fs).nesting ≤ room + 1 ↔ ∀ f ∈ fs, f.2.nesting ≤ room := by
  rw [nesting, Nat.add_le_add_iff_right]
  induction fs with
  | nil => exact iff_of_true (Nat.zero_le _) nofun
  | cons f fs ih => rw [nestingFields, Nat.max_le, ih, List.forall_mem_cons]

theorem limitedItems_eq (room : Nat) (js : List Json) :
    limitedItems room js = js.map (limited room) := by
  induction js with
  | nil => rfl
  | cons j js ih => exact congrArg (j.limited room :: ·) ih

/-- If a list is read, then each of its items is read with the room that is left. -/
theorem exists_of_list?_limited {α : Type} {read : Json → Option α} {js : List Json} {room : Nat}
    {as : List α} (reads : list? read ((arr js).limited (room + 1)) = some as) :
    ∀ j ∈ js, ∃ a, read (j.limited room) = some a := by
  replace reads : (limitedItems room js).mapM read = some as := reads
  rw [limitedItems_eq] at reads
  induction js generalizing as with
  | nil => nofun
  | cons j js ih =>
    rw [List.map_cons, List.mapM_cons] at reads
    obtain ⟨a, first, others⟩ := Option.bind_eq_some_iff.mp reads
    obtain ⟨as, others, -⟩ := Option.bind_eq_some_iff.mp others
    exact List.forall_mem_cons.mpr ⟨⟨a, first⟩, ih others⟩

/-! ## Written documents -/

theorem ofDocument?_text (j : Json) :
    ofDocument? j.text = some (j.reread.limited Limits.documentNesting) := by
  rw [ofDocument?, ofText?_text, Option.map_some]

theorem ofDocument?_prettyText (j : Json) :
    ofDocument? j.prettyText = some (j.reread.limited Limits.documentNesting) := by
  rw [ofDocument?, ofText?_prettyText, Option.map_some]

end ClassInit.Json
