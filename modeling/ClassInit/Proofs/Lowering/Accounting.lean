import ClassInit.Proofs.Lowering.Types

/-!
# What a run adds up to

Lowering a unit lowers each declaration of the unit once, at whatever depth it stands and however
often it is copied. Whatever the lowering of one type alone adds to a count of its state, the run
therefore adds for every declaration of the input (`CompilationUnit.lower_adds`).
-/

set_option autoImplicit false

namespace ClassInit

namespace Lowering

open Edit (Tally)

/-- The state with one more type counted. -/
def State.countedType (s : State) : State :=
  { s with stats := { s.stats with types := s.stats.types + 1 } }

/-- Lowering a type adds the sum over the declarations in it, if its own lowering adds what belongs
to it and this does not depend on the contents of the types in it. -/
theorem lowerType_adds {options : Options} {t : BindingTable} {Adds : Nat → State → State → Prop}
    (tally : Tally Adds) {own : TypeDecl → Nat}
    (outline : ∀ d d₁ : TypeDecl, d₁.head = d.head →
      d₁.members.map Member.outline = d.members.map Member.outline → own d₁ = own d)
    (single : ∀ type descriptor d d' s s', d.head.binding = some type →
      t.typeAt type = .ok descriptor → t.Grows s.table →
      lowerOwn options type descriptor.isInterface d s = (.done d', s') →
      Adds (own d) s s'.countedType)
    (levels : Nat) {d d' : TypeDecl} {s s' : State} (grown : t.Grows s.table)
    (run : lowerType options levels d s = (.done d', s')) :
    Adds (d.declarations.map own).sum s s' := by
  induction levels generalizing d d' s s' with
  | zero => exact absurd run Edit.stop_ne_done
  | succ levels ih =>
    obtain ⟨type, descriptor, d₁, s₁, s₂, bound, described, nested, lowered, rfl⟩ :=
      lowerType_steps run
    obtain ⟨listed, head, sameOutline⟩ := lowerNested_done nested
    have moved : s.table.Grows s₁.table :=
      (lowerNested_moves (lowerType_moves options levels) d).run nested
    have inside : Adds (d.inner.map fun x => (x.declarations.map own).sum).sum s s₁ := by
      refine Edit.list_adds tally (fun s => t.Grows s.table) (fun a b s s' inv step => ?_) grown
        listed
      exact ⟨inv.trans ((lowerType_moves options levels a).run step), ih inv step⟩
    -- What the type itself adds does not depend on its nested types, which are lowered by now.
    have self : Adds (own d) s₁ s₂.countedType := by
      rw [← outline d d₁ head sameOutline]
      rw [← head] at bound
      rw [grown.typeAt] at described
      exact single type descriptor d₁ d' s₁ s₂ bound described (grown.trans moved) lowered
    have all : (d.declarations.map own).sum =
        (d.inner.map fun x => (x.declarations.map own).sum).sum + own d := by
      rw [TypeDecl.declarations_eq, List.map_cons, List.sum_cons, List.map_flatMap,
        List.flatMap_def, List.sum_flatten, List.map_map, Nat.add_comm]
      rfl
    rw [all]
    exact tally.add inside self

end Lowering

/-- Lowering a unit adds the sum over its declarations. -/
theorem CompilationUnit.lower_adds {u : CompilationUnit} {t : BindingTable}
    {options : Lowering.Options} {stats : Lowering.Stats}
    (success : (u.lower t options).result = .ok stats)
    {Adds : Nat → Lowering.State → Lowering.State → Prop} (tally : Edit.Tally Adds)
    {own : TypeDecl → Nat}
    (outline : ∀ d d₁ : TypeDecl, d₁.head = d.head →
      d₁.members.map Member.outline = d.members.map Member.outline → own d₁ = own d)
    (single : ∀ type descriptor d d' s s', d.head.binding = some type →
      t.typeAt type = .ok descriptor → t.Grows s.table →
      Lowering.lowerOwn options type descriptor.isInterface d s = (.done d', s') →
      Adds (own d) s s'.countedType) :
    Adds (u.declarations.map own).sum ⟨t, u.supply, .zero⟩
      ⟨(u.lower t options).table, (u.lower t options).unit.supply, stats⟩ := by
  have all :
      (u.declarations.map own).sum = (u.types.map fun x => (x.declarations.map own).sum).sum := by
    rw [declarations, List.map_flatMap, List.flatMap_def, List.sum_flatten, List.map_map]
    rfl
  rw [all]
  refine Edit.list_adds tally (fun s => t.Grows s.table) (fun a b s s' inv step => ?_)
    (BindingTable.Grows.refl t) (lower_run success)
  exact ⟨inv.trans ((Lowering.lowerType_moves options _ a).run step),
    Lowering.lowerType_adds tally outline single _ inv step⟩

end ClassInit
