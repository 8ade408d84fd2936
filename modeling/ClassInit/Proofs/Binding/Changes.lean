import ClassInit.Proofs.Binding.Labels
import Mathlib.Logic.Relation

/-!
# The changes that binding makes

Binding a unit changes the table in single steps, whether it succeeds or fails: it adds a type under
a free name, an external class, a variable or a method, or it records a superclass
(`CompilationUnit.bind_changes`). What every such step keeps, binding keeps.
-/

set_option autoImplicit false

namespace ClassInit

open Binding

/-- What a single step of binding does to a table. -/
inductive BindingTable.Change : BindingTable → BindingTable → Prop where
  | addType (t : BindingTable) (qualifier : Option String) (name : String) (kind : TypeKind)
    (modifiers : Modifiers) (outer : Option TypeId) :
    Change t (t.addType ⟨t.uniqueTypeName qualifier name, kind, modifiers, none, outer⟩).2
  | internClass (t : BindingTable) (name : String) : Change t (t.internClass name).2
  | addVariable (t : BindingTable) (v : VariableBinding) : Change t (t.addVariable v).2
  | addMethod (t : BindingTable) (m : MethodBinding) : Change t (t.addMethod m).2
  | setSuperclass {t t' : BindingTable} {id superclass : TypeId}
    (set : t.setSuperclass id superclass = .ok t') :
    Change t t'

/-- The table comes about by changes. -/
abbrev BindingTable.Changes : BindingTable → BindingTable → Prop :=
  Relation.ReflTransGen BindingTable.Change

namespace BindingTable

variable {t t' : BindingTable}

/-- No change removes a type. -/
theorem Change.moreTypes (change : t.Change t') : t.types.size ≤ t'.types.size := by
  cases change with
  | addType => exact (addType_spec t _).1.moreTypes
  | internClass => exact (Extends.internClass t _).moreTypes
  | addVariable => exact Nat.le_refl _
  | addMethod => exact Nat.le_refl _
  | setSuperclass set => exact (Extends.setSuperclass set).moreTypes

theorem Changes.moreTypes (changes : t.Changes t') : t.types.size ≤ t'.types.size := by
  induction changes with
  | refl => exact Nat.le_refl _
  | tail _ change ih => exact Nat.le_trans ih change.moreTypes

/-- What every change keeps holds of a changed table. -/
theorem Changes.keeps {P : BindingTable → Prop} (single : ∀ t t', t.Change t' → P t → P t')
    (changes : t.Changes t') (holds : P t) : P t' := by
  induction changes with
  | refl => exact holds
  | tail _ change ih => exact single _ _ change ih

end BindingTable

namespace Binding

/-- The table of the second state comes about by changes from that of the first. -/
def State.Changes (s s' : State) : Prop := s.table.Changes s'.table

theorem declareType_changes (levels : Nat) (qualifier : Option String) (outer : Option TypeId)
    (d : TypeDecl) :
    (declareType levels qualifier outer d).Moves State.Changes := by
  refine declareType_moves (fun _ => .refl) (fun _ _ _ => .trans) ?_ ?_ ?_ levels qualifier outer d
  · intro qualifier outer d s
    unfold declareHead
    split
    · split <;> exact .refl
    · exact .single (.addType s.table qualifier d.head.name d.head.kind d.head.modifiers outer)
  · intro owner modifiers type f s
    unfold declareFragment
    cases f.binding with
    | some v => exact .refl
    | none => exact .single (.addVariable s.table _)
  · intro owner h s
    unfold declareMethod
    cases h.binding with
    | some m => exact .refl
    | none => exact .single (.addMethod s.table _)

/-- Looking a superclass up adds an external class at most. -/
theorem superclassOf_changes (clause : TypeName) (s : State) :
    s.table.Changes (superclassOf clause s).2.table := by
  unfold superclassOf
  cases clause.binding with
  | some p => exact .refl
  | none =>
    show s.table.Changes (Binding.resolveSuperclass clause.name s).2.table
    rcases resolveSuperclass_finds clause.name s with ⟨id, -, found⟩ | interned
    · rw [found]
    · rw [interned]
      exact .single (.internClass s.table clause.name)

/-- The superclass of a type that the table has can be recorded. -/
theorem resolvable_of_known {t : BindingTable} {h : TypeHead} {id : TypeId}
    (bound : h.binding = some id) (known : id.index < t.types.size) :
    h.Resolvable t.Changes False := by
  constructor
  · intro unbound
    rw [bound] at unbound
    cases unbound
  · intro id' bound'
    rw [bound] at bound'
    cases bound'
    refine TypeHead.resolveSuperclass_yields fun c _ s changes => ?_
    have changes' := changes.trans (superclassOf_changes c s)
    have set : (superclassOf c s).2.table.setSuperclass id (superclassOf c s).1 =
        .ok ((superclassOf c s).2.table.withSuperclass id (superclassOf c s).1) := by
      unfold BindingTable.setSuperclass
      exact if_pos (Nat.lt_of_lt_of_le known (BindingTable.Changes.moreTypes changes'))
    rw [Records, set]
    exact changes'.tail (.setSuperclass set)

end Binding

/-- Binding a unit makes changes to the table, and nothing else, whether it succeeds or fails. -/
theorem CompilationUnit.bind_changes (u : CompilationUnit) (t : BindingTable) :
    t.Changes (u.bind t).table := by
  have declares :
      State.Changes (.start t) (Edit.list (declareTopLevel u.package) u.types (.start t)).2 :=
    Edit.Moves.list (fun _ => .refl) (fun _ _ _ => .trans)
      (fun d _ => declareType_changes (Limits.typeNesting + 1) u.package none d) (.start t)
  unfold bind
  rcases declaring : Edit.list (Binding.declareTopLevel u.package) u.types (.start t) with
    ⟨⟨ds⟩ | ⟨ds, e⟩, s⟩
  · rw [declaring] at declares
    obtain ⟨enters, -⟩ := declareTypes_enters declaring
    -- After declaring every type has its entry, so resolving does not stop.
    have heads :
        ∀ x ∈ ds.flatMap TypeDecl.declarations, x.head.Resolvable s.table.Changes False := by
      intro x hx
      have listed : x ∈ ds.flatMap TypeDecl.preorder :=
        (List.Perm.flatMap_left ds fun d _ => d.preorder_perm).mem_iff.mpr hx
      obtain ⟨id, bound, known⟩ := enters.known x.head (List.mem_map_of_mem listed)
      exact resolvable_of_known bound known
    obtain ⟨types, s', resolving, -, changes⟩ :=
      (resolveTypes_yields (fun _ _ _ _ changes => changes.tail (.addVariable _ _)) ds
        heads).succeeds .refl
    simp only
    rw [resolving]
    exact Relation.ReflTransGen.trans declares changes
  · rw [declaring] at declares
    exact declares

end ClassInit
