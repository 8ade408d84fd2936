import ClassInit.Proofs.Lowering.Issues
import Mathlib.Data.List.Nodup

/-!
# Node ids stay distinct

A run takes a known number of ids from the supply of the unit (`CompilationUnit.idsTaken`). As long
as the supply can hand out so many, every node of the lowered unit has an id of its own, whichever
nodes were moved, copied or made (`CompilationUnit.lower_distinctIds`).
-/

set_option autoImplicit false

namespace ClassInit

open IdSupply (Issues)

/-! ## Distinct ids -/

namespace IdSupply.Issues

variable {n : Nat} {ids ids' : List NodeId} {s s' : IdSupply} {i : NodeId}

/-- An id that occurs afterwards is old or new, since the ledger bounds how often it occurs. -/
theorem mem_or_mem (issues : Issues n ids ids' s s') (found : i ∈ ids') :
    i ∈ ids ∨ i ∈ s.handOut n := by
  have positive := List.count_pos_iff.mpr found
  have counted := issues.counts i
  by_cases old : i ∈ ids
  · exact .inl old
  · rw [List.count_eq_zero.mpr old] at counted
    exact .inr (List.count_pos_iff.mp (by omega))

theorem nodup (issues : Issues n ids ids' s s') (room : s.next.toNat + n < 2 ^ 32)
    (distinct : ids.Nodup) (issued : ∀ i ∈ ids, i.word < s.next) : ids'.Nodup := by
  -- Old ids are below the counter, and what is handed out is not.
  have notNew : ∀ i ∈ ids, i ∉ s.handOut n := by
    intro i old new
    have low := (IdSupply.mem_handOut room new).1
    have high := UInt32.lt_iff_toNat_lt.mp (issued i old)
    omega
  refine List.nodup_iff_count_le_one.mpr fun i => ?_
  have counted := issues.counts i
  by_cases old : i ∈ ids
  · have once := List.nodup_iff_count_le_one.mp distinct i
    rw [List.count_eq_zero.mpr (notNew i old)] at counted
    omega
  · have once := List.nodup_iff_count_le_one.mp (IdSupply.nodup_handOut room) i
    rw [List.count_eq_zero.mpr old] at counted
    omega

end IdSupply.Issues

namespace Lowering

/-! ## Types -/

/-- The number of ids that lowering a type takes when it starts in the state. The types in it come
first, each in the state in which it is lowered; what the type itself takes is told by what they
leave. -/
def idsTaken (options : Options) (t : BindingTable) : Nat → TypeDecl → State → Nat
  | 0, _, _ => 0
  | levels + 1, d, s =>
    let d₁ := (lowerNested (lowerType options levels) d s).1.value
    Edit.total (idsTaken options t levels) (lowerType options levels) d.inner s +
      ownTaken options t (!t.isClass d₁) d₁

/-- Lowering a type and the types in it takes the ids that it is said to take, and no node is left
twice. -/
theorem lowerType_issues {options : Options} {t : BindingTable} (levels : Nat) {d d' : TypeDecl}
    {s s' : State} (grown : t.Grows s.table)
    (run : lowerType options levels d s = (.done d', s')) :
    Issues (idsTaken options t levels d s) d.ids d'.ids s.supply s'.supply := by
  induction levels generalizing d d' s s' with
  | zero => exact absurd run Edit.stop_ne_done
  | succ levels ih =>
    obtain ⟨type, descriptor, d₁, s₁, s₂, bound, described, nested, own, rfl⟩ := lowerType_steps run
    obtain ⟨listed, head, outline⟩ := lowerNested_done nested
    have moved : s.table.Grows s₁.table :=
      (lowerNested_moves (lowerType_moves options levels) d).run nested
    have step : ∀ a b s s', t.Grows s.table → lowerType options levels a s = (.done b, s') →
        t.Grows s'.table ∧ Issues (idsTaken options t levels a s) a.ids b.ids s.supply s'.supply :=
      fun a b s s' inv one => ⟨inv.trans ((lowerType_moves options levels a).run one), ih inv one⟩
    have inside := list_issues TypeDecl.ids (fun s => t.Grows s.table) step grown listed
    have size : d₁.inner.length = d.inner.length :=
      (Edit.forall₂_of_done (R := fun _ _ => True) (fun _ _ _ _ _ => trivial) listed).length_eq.symm
    -- Apart from the types in it, the type still has its own nodes.
    have around :
        Issues (Edit.total (idsTaken options t levels) (lowerType options levels) d.inner s)
          d.ids d₁.ids s.supply s₁.supply :=
      inside.within fun j => Nat.le_of_eq (TypeDecl.count_ids_of_outline head outline size j)
    have isInterface : (!t.isClass d₁) = descriptor.isInterface := by
      rw [grown.typeAt] at described
      rw [BindingTable.isClass, head, bound, Option.any_some, described, Bool.not_not]
    rw [idsTaken, nested]
    dsimp only [Outcome.value]
    rw [isInterface]
    exact around.trans (lowerOwn_issues (grown.trans moved) own)

end Lowering

/-! ## Units -/

/-- The number of ids that a run takes from the supply of the unit. -/
def CompilationUnit.idsTaken (u : CompilationUnit) (t : BindingTable) (options : Lowering.Options) :
    Nat :=
  Edit.total (Lowering.idsTaken options t (Limits.typeNesting + 1)) (Lowering.lowerTopLevel options)
    u.types ⟨t, u.supply, .zero⟩

namespace CompilationUnit

variable {u : CompilationUnit} {t : BindingTable} {options : Lowering.Options}
variable {stats : Lowering.Stats}

theorem lower_issues (success : (u.lower t options).result = .ok stats) :
    Issues (u.idsTaken t options) u.ids (u.lower t options).unit.ids u.supply
      (u.lower t options).unit.supply := by
  refine Lowering.list_issues TypeDecl.ids (fun s => t.Grows s.table)
    (fun a b s s' inv one => ⟨?_, ?_⟩) (BindingTable.Grows.refl t) (lower_run success)
  · exact inv.trans ((Lowering.lowerType_moves options _ a).run one)
  · exact Lowering.lowerType_issues _ inv one

/-- Nothing is made for a unit without types. -/
theorem exists_id_of_lowered {i : NodeId} (found : i ∈ (u.lower t options).unit.ids) :
    ∃ j, j ∈ u.ids := by
  by_cases none : u.types = []
  · have nothing : (u.lower t options).unit.ids = [] := by
      unfold lower
      rw [none]
      rfl
    rw [nothing] at found
    exact absurd found List.not_mem_nil
  · obtain ⟨⟨h, ms⟩, hd⟩ := List.exists_mem_of_ne_nil _ none
    refine ⟨h.id, List.mem_flatMap.mpr ⟨_, hd, ?_⟩⟩
    rw [TypeDecl.ids, TypeHead.ids]
    exact List.mem_append_left _ List.mem_cons_self

/-- If every node of the unit has an id of its own and the supply can hand out what the run takes,
then every node of the lowered unit has an id of its own, among them those of the copies of one
instance list in several constructors. -/
theorem lower_distinctIds (distinct : u.DistinctIds)
    (success : (u.lower t options).result = .ok stats)
    (room : u.supply.next.toNat + u.idsTaken t options < 2 ^ 32) :
    (u.lower t options).unit.supply = u.supply.after (u.idsTaken t options) ∧
      (u.lower t options).unit.DistinctIds := by
  have issues := lower_issues success
  have supply := issues.supply
  refine ⟨supply, ⟨issues.nodup room distinct.nodup distinct.issued, fun i found => ?_,
    fun i found => ?_⟩⟩
  · rcases issues.mem_or_mem found with old | new
    · exact distinct.assigned i old
    · -- A new id is above an old one, and the unit has some node to begin with.
      obtain ⟨j, hj⟩ := exists_id_of_lowered found
      have issued := UInt32.lt_iff_toNat_lt.mp (distinct.issued j hj)
      have low := (IdSupply.mem_handOut room new).1
      refine bne_iff_ne.mpr fun zero => ?_
      rw [zero, UInt32.toNat_zero] at low
      omega
  · rw [supply, UInt32.lt_iff_toNat_lt, IdSupply.toNat_next_after room]
    rcases issues.mem_or_mem found with old | new
    · have issued := UInt32.lt_iff_toNat_lt.mp (distinct.issued i old)
      omega
    · exact (IdSupply.mem_handOut room new).2

/-- The sample class with its nodes numbered from one. -/
def numberedSample : CompilationUnit :=
  let (d, supply) := Lowering.sampleClass.copy .initial
  ⟨"A.java", none, [d], supply⟩

theorem lower_distinctIds_sample :
    numberedSample.DistinctIds ∧
      (numberedSample.lower Lowering.sampleState.table .standard).unit.supply =
        numberedSample.supply.after 13 ∧
      (numberedSample.lower Lowering.sampleState.table .standard).unit.DistinctIds := by
  have distinct : numberedSample.DistinctIds := ⟨by decide, by decide, by decide⟩
  have success : ∃ stats,
      (numberedSample.lower Lowering.sampleState.table .standard).result = .ok stats := ⟨_, rfl⟩
  obtain ⟨stats, success⟩ := success
  have taken : numberedSample.idsTaken Lowering.sampleState.table .standard = 13 := by
    decide +kernel
  have room : numberedSample.supply.next.toNat +
      numberedSample.idsTaken Lowering.sampleState.table .standard < 2 ^ 32 := by
    rw [taken]
    decide
  have lowered := lower_distinctIds distinct success room
  rw [taken] at lowered
  exact ⟨distinct, lowered⟩

end CompilationUnit

end ClassInit
