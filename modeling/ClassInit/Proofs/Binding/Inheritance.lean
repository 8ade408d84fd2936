import ClassInit.Proofs.Binding.Ranges
import Mathlib.Data.Fintype.Card
import Mathlib.Logic.Relation

/-!
# Searching along superclasses

The field that a search finds in a type is the first one on the way along the superclasses, however
long that way is (`BindingTable.findField_eq_some`), and it finds none exactly if no type of the
whole chain declares one (`BindingTable.findField_eq_none`): after as many steps as the table has
types the way only repeats itself. The search depends on nothing but the fields and on the
superclasses of the types that it passes (`BindingTable.findField_eq_of_passes`).
-/

set_option autoImplicit false

namespace ClassInit

namespace BindingTable

variable {t t' : BindingTable} {id p q : TypeId} {name : String} {v : VariableId}

/-- The second type is the first or one of its superclasses, however far up. -/
def Inherits (t : BindingTable) : TypeId → TypeId → Prop :=
  Relation.ReflTransGen fun a b => t.superclass? a = some b

/-- The search for a field from the first type on comes to the second: the types before that do not
declare it. -/
def Passes (t : BindingTable) (name : String) : TypeId → TypeId → Prop :=
  Relation.ReflTransGen fun a b => t.declaredField a name = none ∧ t.superclass? a = some b

theorem Passes.inherits (passes : t.Passes name id p) : t.Inherits id p :=
  Relation.ReflTransGen.mono (fun _ _ step => step.2) _ _ passes

/-- The search stops at the first type that declares the field. -/
theorem Passes.eq_of_declared {w : VariableId} (first : t.Passes name id p)
    (second : t.Passes name id q) (found : t.declaredField p name = some v)
    (found' : t.declaredField q name = some w) : p = q := by
  have stays : ∀ {a b : TypeId} {x : VariableId}, t.Passes name a b →
      t.declaredField a name = some x → a = b := by
    intro a b x way declared
    rcases Relation.ReflTransGen.cases_head way with same | ⟨c, ⟨none, -⟩, -⟩
    · exact same
    · rw [none] at declared
      cases declared
  have unique :
      Relator.RightUnique fun a b => t.declaredField a name = none ∧ t.superclass? a = some b :=
    fun a b c one other => Option.some.inj (one.2.symm.trans other.2)
  rcases Relation.ReflTransGen.total_of_right_unique unique first second with way | way
  · exact stays way found
  · exact (stays way found').symm

/-! ## Steps along superclasses -/

/-- The type that lies some superclasses above. -/
def ancestor? (t : BindingTable) : Nat → TypeId → Option TypeId
  | 0, id => some id
  | n + 1, id => (t.superclass? id).bind (t.ancestor? n)

theorem ancestor?_add (t : BindingTable) (m n : Nat) (id : TypeId) :
    t.ancestor? (m + n) id = (t.ancestor? m id).bind (t.ancestor? n) := by
  induction m generalizing id with
  | zero => rw [Nat.zero_add, ancestor?, Option.bind_some]
  | succ m ih =>
    rw [Nat.succ_add, ancestor?, ancestor?, Option.bind_assoc]
    exact Option.bind_congr fun s _ => ih s

theorem exists_ancestor? (inherits : t.Inherits id p) : ∃ n, t.ancestor? n id = some p := by
  induction inherits using Relation.ReflTransGen.head_induction_on with
  | refl => exact ⟨0, rfl⟩
  | head step _ ih =>
    obtain ⟨n, found⟩ := ih
    exact ⟨n + 1, by rw [ancestor?, step]; exact found⟩

/-- Types with superclasses on the way are entries of the table. -/
theorem lt_of_ancestor? {m n : Nat} (found : t.ancestor? n id = some p) (before : m < n) :
    ∃ q, t.ancestor? m id = some q ∧ q.index < t.types.size := by
  obtain ⟨k, rfl⟩ := Nat.exists_eq_add_of_lt before
  rw [Nat.add_assoc, ancestor?_add] at found
  obtain ⟨q, reached, rest⟩ := Option.bind_eq_some_iff.mp found
  obtain ⟨s, up, -⟩ := Option.bind_eq_some_iff.mp rest
  exact ⟨q, reached, lt_of_superclass? up⟩

/-- No way is longer than the table has types, unless it repeats itself. -/
theorem exists_ancestor?_le (inherits : t.Inherits id p) :
    ∃ n ≤ t.types.size, t.ancestor? n id = some p := by
  classical
  have reached := exists_ancestor? inherits
  refine ⟨Nat.find reached, ?_, Nat.find_spec reached⟩
  have found := Nat.find_spec reached
  have shortest : ∀ m, t.ancestor? m id = some p → Nat.find reached ≤ m :=
    fun m => Nat.find_min' reached
  generalize Nat.find reached = n at found shortest
  choose at' holds below using fun m : Fin n => lt_of_ancestor? found m.isLt
  have injective :
      Function.Injective fun m : Fin n => (⟨(at' m).index, below m⟩ : Fin t.types.size) := by
    -- Of two places with the same type, what comes after the later one can be reached from the
    -- earlier one.
    have apart : ∀ i j : Fin n, i < j → at' i ≠ at' j := by
      intro i j earlier same
      have rest : n = j.val + (n - j.val) := by omega
      rw [rest, ancestor?_add, holds j, ← same, ← holds i, ← ancestor?_add] at found
      have shorter := shortest _ found
      have less : i.val < j.val := earlier
      omega
    intro i j same
    have sameType : at' i = at' j := congrArg TypeId.mk (Fin.mk.inj same)
    rcases lt_trichotomy i j with earlier | rfl | later
    · exact absurd sameType (apart i j earlier)
    · rfl
    · exact absurd sameType.symm (apart j i later)
  simpa using Fintype.card_le_of_injective _ injective

/-! ## Searches -/

/-- What a search finds is declared where it comes to. -/
theorem passes_of_fieldWithin {n : Nat} (found : t.fieldWithin name n id = some v) :
    ∃ p, t.Passes name id p ∧ t.declaredField p name = some v := by
  induction n generalizing id with
  | zero =>
    unfold fieldWithin at found
    split at found
    · exact ⟨id, .refl, by rw [← found]; assumption⟩
    · cases found
  | succ n ih =>
    unfold fieldWithin at found
    split at found
    · exact ⟨id, .refl, by rw [← found]; assumption⟩
    · rename_i none
      dsimp only at found
      split at found
      · cases found
      · rename_i s up
        obtain ⟨p, passes, declared⟩ := ih found
        exact ⟨p, .head ⟨none, up⟩ passes, declared⟩

/-- A search that goes far enough finds something. -/
theorem fieldWithin_ne_none {m n : Nat} (reached : t.ancestor? m id = some p) (enough : m ≤ n)
    (declared : t.declaredField p name = some v) : t.fieldWithin name n id ≠ none := by
  induction m generalizing id n with
  | zero =>
    cases reached
    unfold fieldWithin
    rw [declared]
    exact Option.some_ne_none v
  | succ m ih =>
    obtain ⟨s, up, reached⟩ := Option.bind_eq_some_iff.mp reached
    obtain ⟨n, rfl⟩ : ∃ k, n = k + 1 := ⟨n - 1, by omega⟩
    unfold fieldWithin
    split
    · exact Option.some_ne_none _
    · dsimp only
      split
      · rename_i none
        cases none.symm.trans up
      · rename_i s' up'
        cases up'.symm.trans up
        exact ih reached (Nat.le_of_succ_le_succ enough)

/-- A search finds nothing exactly if no type of the whole chain declares the field. -/
theorem findField_eq_none :
    t.findField id name = none ↔ ∀ p, t.Inherits id p → t.declaredField p name = none := by
  constructor
  · intro none p inherits
    by_contra some
    obtain ⟨v, declared⟩ := Option.ne_none_iff_exists'.mp some
    obtain ⟨n, enough, reached⟩ := exists_ancestor?_le inherits
    exact fieldWithin_ne_none reached enough declared none
  · intro all
    by_contra some
    obtain ⟨v, found⟩ := Option.ne_none_iff_exists'.mp some
    obtain ⟨p, passes, declared⟩ := passes_of_fieldWithin found
    rw [all p passes.inherits] at declared
    cases declared

/-- A search finds what is declared where it comes to. -/
theorem findField_eq_some :
    t.findField id name = some v ↔ ∃ p, t.Passes name id p ∧ t.declaredField p name = some v := by
  refine ⟨passes_of_fieldWithin, fun ⟨p, passes, declared⟩ => ?_⟩
  cases found : t.findField id name with
  | none =>
    rw [findField_eq_none.mp found p passes.inherits] at declared
    cases declared
  | some w =>
    obtain ⟨q, passes', declared'⟩ := passes_of_fieldWithin found
    obtain rfl := passes.eq_of_declared passes' declared declared'
    rw [← declared', declared]

/-- A search in a later table finds what it found in an earlier one, if the types that it passes
there have kept their superclasses. -/
theorem findField_eq_of_passes (fields : t'.declaredField = t.declaredField) (inRange : t.InRange)
    (below : id.index < t.types.size)
    (kept : ∀ p, t'.Passes name id p → t'.declaredField p name = none → p.index < t.types.size →
      t'.superclass? p = t.superclass? p) : t'.findField id name = t.findField id name := by
  have known : ∀ {p q : TypeId}, t.superclass? p = some q → q.index < t.types.size := by
    intro p q up
    obtain ⟨d, entry, superclass⟩ := Option.bind_eq_some_iff.mp up
    exact inRange.superclasses d (Array.mem_of_getElem? entry) q superclass
  have later : ∀ {p}, t'.Passes name id p → t.Passes name id p ∧ p.index < t.types.size := by
    intro p passes
    induction passes with
    | refl => exact ⟨.refl, below⟩
    | @tail p q before step ih =>
      obtain ⟨none, up⟩ := step
      rw [kept p before none ih.2] at up
      rw [fields] at none
      exact ⟨.tail ih.1 ⟨none, up⟩, known up⟩
  have earlier : ∀ {p}, t.Passes name id p → t'.Passes name id p := by
    intro p passes
    induction passes with
    | refl => exact .refl
    | @tail p q before step ih =>
      obtain ⟨none, up⟩ := step
      rw [← fields] at none
      rw [← kept p ih none (later ih).2] at up
      exact .tail ih ⟨none, up⟩
  refine Option.ext fun v => ?_
  rw [findField_eq_some, findField_eq_some, fields]
  exact exists_congr fun p => and_congr_left fun _ => ⟨fun passes => (later passes).1, earlier⟩

end BindingTable

end ClassInit
