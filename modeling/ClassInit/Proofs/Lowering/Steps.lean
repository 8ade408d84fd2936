import ClassInit.Lowering.Basic
import ClassInit.Proofs.Step

/-!
# The steps of lowering

Lowering touches its state in four ways only: it takes node ids, asks the table, adds a method to
the table, and counts. What a whole run does to the table is therefore said once, by
`BindingTable.Grows`: types and variables stay, and methods are added at the end, each of them
synthetic, without parameters and without a result.
-/

set_option autoImplicit false

namespace ClassInit

/-! ## Growth of the table -/

/-- How long an array is that continues another one. -/
theorem size_of_append {α : Type} {as bs : Array α} {added : List α}
    (all : bs.toList = as.toList ++ added) : bs.size = as.size + added.length := by
  have lengths := congrArg List.length all
  rw [List.length_append, Array.length_toList, Array.length_toList] at lengths
  exact lengths

/-- The second table is the first with entries of synthesized methods added. -/
structure BindingTable.Grows (t t' : BindingTable) : Prop where
  sameTypes : t'.types = t.types
  sameVariables : t'.vars = t.vars
  addedMethods : ∃ added : List MethodBinding, t'.methods.toList = t.methods.toList ++ added ∧
    ∀ m ∈ added, m.isSynthetic = true ∧ m.parameterTypes = [] ∧ m.returnType = .void

namespace BindingTable.Grows

theorem refl (t : BindingTable) : t.Grows t :=
  ⟨rfl, rfl, [], by simp, by simp⟩

/-- A table that grows twice grows. -/
theorem trans {a b c : BindingTable} (first : a.Grows b) (second : b.Grows c) : a.Grows c := by
  obtain ⟨added, hadded, synthetic⟩ := first.addedMethods
  obtain ⟨added', hadded', synthetic'⟩ := second.addedMethods
  refine ⟨second.sameTypes.trans first.sameTypes, second.sameVariables.trans first.sameVariables,
    added ++ added', ?_, ?_⟩
  · rw [hadded', hadded, List.append_assoc]
  · intro m hm
    rcases List.mem_append.mp hm with hm | hm
    · exact synthetic m hm
    · exact synthetic' m hm

/-- Growing removes no methods. -/
theorem size_le {t t' : BindingTable} (grown : t.Grows t') : t.methods.size ≤ t'.methods.size := by
  obtain ⟨added, all, -⟩ := grown.addedMethods
  have size := size_of_append all
  omega

/-- A synthesized method without parameters is what growing allows. -/
theorem addMethod (t : BindingTable) {m : MethodBinding} (synthetic : m.isSynthetic = true)
    (parameters : m.parameterTypes = []) (result : m.returnType = .void) :
    t.Grows (t.addMethod m).2 := by
  refine ⟨rfl, rfl, [m], ?_, ?_⟩
  · show (t.methods.push m).toList = _
    rw [Array.toList_push]
  · intro m' hm'
    rw [List.mem_singleton.mp hm']
    exact ⟨synthetic, parameters, result⟩

end BindingTable.Grows

namespace Lowering

/-- What lowering may do to its state. -/
def State.Grows (s s' : State) : Prop := s.table.Grows s'.table

theorem State.Grows.refl (s : State) : s.Grows s := BindingTable.Grows.refl s.table

theorem State.Grows.trans (a b c : State) (first : a.Grows b) (second : b.Grows c) : a.Grows c :=
  BindingTable.Grows.trans first second

variable {α : Type}

/-! ## Steps that succeeded -/

/-- Drawing ids succeeds and changes the supply only. -/
theorem mint_eq_ok {m : Numbered α} {a : α} {s s' : State} :
    (mint m).run s = (.ok a, s') ↔
      (m s.supply).1 = a ∧ { s with supply := (m s.supply).2 } = s' := by
  rw [mint, Step.lift_eq_ok]
  show (((m s.supply).1, { s with supply := (m s.supply).2 }) : α × State) = (a, s') ↔ _
  rw [Prod.ext_iff]

/-- A question to the table changes nothing, and it fails with the name of the type it is asked
for. -/
theorem ask_run (name : String) (span : Span) (question : BindingTable → Except ResolveError α)
    (s : State) :
    (ask name span question).run s =
      match question s.table with
      | .ok a => (.ok a, s)
      | .error e => (.error (.ofResolve name span e), s) := by
  show (match question s.table with
    | .ok a => (pure a : Step α)
    | .error e => throw (Failure.ofResolve name span e)).run s = _
  rcases question s.table with e | a <;> rfl

/-- A question that is answered leaves the state as it was. -/
theorem ask_eq_ok {name : String} {span : Span} {question : BindingTable → Except ResolveError α}
    {a : α} {s s' : State} :
    (ask name span question).run s = (.ok a, s') ↔ question s.table = .ok a ∧ s = s' := by
  rw [ask_run]
  rcases question s.table with e | b
  · show ((.error _, s) : Except Failure α × State) = (.ok a, s') ↔ _
    simp
  · show ((.ok b, s) : Except Failure α × State) = (.ok a, s') ↔ _
    simp

/-- Entering a method that succeeds changes the table only. -/
theorem enter_eq_ok {name : String} {span : Span}
    {add : BindingTable → Except ResolveError (MethodId × BindingTable)} {id : MethodId}
    {s s' : State} :
    (enter name span add).run s = (.ok id, s') ↔
      ∃ table, add s.table = .ok (id, table) ∧ { s with table } = s' := by
  rw [enter, Step.bind_eq_ok]
  constructor
  · rintro ⟨⟨id', table⟩, s₁, hask, hrest⟩
    obtain ⟨hadd, rfl⟩ := ask_eq_ok.mp hask
    obtain ⟨u, s₂, hmodify, hpure⟩ := Step.bind_eq_ok.mp hrest
    obtain ⟨rfl, rfl⟩ := Step.pure_eq_ok.mp hpure
    exact ⟨table, hadd, Step.modify_eq_ok.mp hmodify⟩
  · rintro ⟨table, hadd, rfl⟩
    exact ⟨(id, table), s, ask_eq_ok.mpr ⟨hadd, rfl⟩, rfl⟩

/-- An edit made of a step is done if the step succeeds. -/
theorem editBy_eq_done {left a : α} {m : Step α} {s s' : State} :
    editBy left m s = (.done a, s') ↔ m.run s = (.ok a, s') := by
  unfold editBy
  generalize (m.run s : Except Failure α × State) = r
  rcases r with ⟨e | b, s₁⟩
  · show _ ↔ ((.error e, s₁) : Except Failure α × State) = (.ok a, s')
    simp
  · show _ ↔ ((.ok b, s₁) : Except Failure α × State) = (.ok a, s')
    simp

/-! ## What steps do to the table -/

theorem ask_then_eq_ok {β : Type} {x : Except ResolveError α} {b b' : β} :
    (x >>= fun _ => pure b) = .ok b' ↔ (∃ a, x = .ok a) ∧ b = b' := by
  rcases x with e | a
  · show (.error e : Except ResolveError β) = .ok b' ↔ _
    simp
  · show (.ok b : Except ResolveError β) = .ok b' ↔ _
    simp

/-- A constructor is entered for a type that is in the table. -/
theorem newConstructor_eq_ok {t t' : BindingTable} {owner : TypeId} {modifiers : Modifiers}
    {id : MethodId} :
    newConstructor t owner modifiers = .ok (id, t') ↔
      (∃ d, t.typeAt owner = .ok d) ∧
        t.addMethod ⟨Names.constructor, owner, modifiers, .void, [], true, true⟩ = (id, t') :=
  ask_then_eq_ok

/-- A method is entered for a type that is in the table. -/
theorem newMethod_eq_ok {t t' : BindingTable} {owner : TypeId} {name : String}
    {modifiers : Modifiers} {returnType : TypeRef} {id : MethodId} :
    newMethod t owner name modifiers returnType = .ok (id, t') ↔
      (∃ d, t.typeAt owner = .ok d) ∧
        t.addMethod ⟨name, owner, modifiers, returnType, [], false, true⟩ = (id, t') :=
  ask_then_eq_ok

theorem mint_moves (m : Numbered α) : Step.Moves State.Grows (mint m) :=
  fun s => BindingTable.Grows.refl s.table

theorem count_moves (f : Stats → Stats) :
    Step.Moves State.Grows (liftM (count f) : Step Unit) :=
  fun s => BindingTable.Grows.refl s.table

theorem ask_moves (name : String) (span : Span) (question : BindingTable → Except ResolveError α) :
    Step.Moves State.Grows (ask name span question) := by
  intro s
  rw [ask_run]
  rcases question s.table with e | a <;> exact State.Grows.refl s

/-- Adding an entry grows the table if what is added does. -/
theorem enter_moves (name : String) (span : Span)
    {add : BindingTable → Except ResolveError (MethodId × BindingTable)}
    (grows : ∀ t id t', add t = .ok (id, t') → t.Grows t') :
    Step.Moves State.Grows (enter name span add) := by
  intro s
  rcases hadd : add s.table with e | ⟨id, table⟩
  · rw [enter, Step.run_bind, ask_run, hadd]
    exact State.Grows.refl s
  · rw [enter_eq_ok.mpr ⟨table, hadd, rfl⟩]
    exact grows _ _ _ hadd

/-- Entering a constructor grows the table. -/
theorem newConstructor_grows (owner : TypeId) (modifiers : Modifiers) (t : BindingTable)
    (id : MethodId) (t' : BindingTable) (added : newConstructor t owner modifiers = .ok (id, t')) :
    t.Grows t' := by
  obtain ⟨-, h⟩ := newConstructor_eq_ok.mp added
  have grown := BindingTable.Grows.addMethod t
    (m := ⟨Names.constructor, owner, modifiers, .void, [], true, true⟩) rfl rfl rfl
  rw [h] at grown
  exact grown

/-- Entering a method grows the table. -/
theorem newMethod_grows (owner : TypeId) (name : String) (modifiers : Modifiers) (t : BindingTable)
    (id : MethodId) (t' : BindingTable)
    (added : newMethod t owner name modifiers .void = .ok (id, t')) : t.Grows t' := by
  obtain ⟨-, h⟩ := newMethod_eq_ok.mp added
  have grown := BindingTable.Grows.addMethod t
    (m := ⟨name, owner, modifiers, .void, [], false, true⟩) rfl rfl rfl
  rw [h] at grown
  exact grown

/-- An edit made of a step moves the state as the step does. -/
theorem editBy_moves {R : State → State → Prop} {left : α} {m : Step α} (h : Step.Moves R m) :
    (editBy left m).Moves R := by
  intro s
  have moved := h s
  unfold editBy
  revert moved
  generalize (m.run s : Except Failure α × State) = r
  rcases r with ⟨e | a, s₁⟩ <;> exact id

end Lowering

end ClassInit
