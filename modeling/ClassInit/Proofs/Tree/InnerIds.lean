import ClassInit.Proofs.Tree.Ids
import Mathlib.Data.List.Perm.Basic
import ClassInit.Proofs.Tree.Outline

/-!
# Node ids inside and outside nested types

A node of a declaration stands in a type directly inside it or belongs to its outline. An edit of
the inner types that keeps the outline therefore changes the ids by those of the inner types only
(`TypeDecl.count_ids_of_outline`).
-/

set_option autoImplicit false

namespace ClassInit

/-- The ids of the placeholders that an outline has for types. -/
def blankIds (ds : List TypeDecl) : List NodeId := ds.flatMap fun _ => (default : TypeDecl).ids

theorem blankIds_append (ds es : List TypeDecl) :
    blankIds (ds ++ es) = blankIds ds ++ blankIds es :=
  List.flatMap_append

/-- The ids are those of the outline, with the ids of the types in place of the placeholders. -/
def SplitsInto (j : NodeId) (ids outline : List NodeId) (ds : List TypeDecl) : Prop :=
  ids.count j + (blankIds ds).count j = outline.count j + (ds.flatMap TypeDecl.ids).count j

section

variable (j : NodeId)

theorem SplitsInto.refl (ids : List NodeId) : SplitsInto j ids ids [] := rfl

variable {j}

theorem SplitsInto.append {ids ids' outline outline' : List NodeId} {ds ds' : List TypeDecl}
    (first : SplitsInto j ids outline ds) (second : SplitsInto j ids' outline' ds') :
    SplitsInto j (ids ++ ids') (outline ++ outline') (ds ++ ds') := by
  unfold SplitsInto at *
  rw [blankIds_append, List.flatMap_append, List.count_append, List.count_append, List.count_append,
    List.count_append]
  omega

/-- Ids that belong to the outline may come before. -/
theorem SplitsInto.left {ids outline : List NodeId} {ds : List TypeDecl}
    (rest : SplitsInto j ids outline ds) (own : List NodeId) :
    SplitsInto j (own ++ ids) (own ++ outline) ds := (SplitsInto.refl j own).append rest

/-- Ids that belong to the outline may come after. -/
theorem SplitsInto.right {ids outline : List NodeId} {ds : List TypeDecl}
    (rest : SplitsInto j ids outline ds) (own : List NodeId) :
    SplitsInto j (ids ++ own) (outline ++ own) ds := by
  have split := rest.append (SplitsInto.refl j own)
  rw [List.append_nil] at split
  exact split

theorem SplitsInto.type (d : TypeDecl) : SplitsInto j d.ids (default : TypeDecl).ids [d] := by
  unfold SplitsInto blankIds
  rw [List.flatMap_singleton, List.flatMap_singleton, Nat.add_comm]

variable (j)

mutual

theorem Stmt.ids_split : ∀ s : Stmt, SplitsInto j s.ids s.outline.ids s.localTypes
  | .localType i d => by
    simp only [Stmt.ids, Stmt.outline, Stmt.localTypes]
    exact (SplitsInto.type d).right _
  | .block i ⟨bi, ss⟩ => by
    simp only [Stmt.ids, Block.ids, Stmt.outline, Stmt.localTypes]
    exact ((Stmt.idsOf_split ss).left [bi.id]).right _
  | .ifElse i c t none => by
    simp only [Stmt.ids, Stmt.outline, Stmt.localTypes]
    exact ((Stmt.ids_split t).right _).left _
  | .ifElse i c t (some e) => by
    simp only [Stmt.ids, Stmt.outline, Stmt.localTypes]
    exact ((Stmt.ids_split t).append ((Stmt.ids_split e).right _)).left _
  | .whileLoop i c b => by
    simp only [Stmt.ids, Stmt.outline, Stmt.localTypes]
    exact ((Stmt.ids_split b).right _).left _
  | .forLoop i init c us b => by
    simp only [Stmt.ids, Stmt.outline, Stmt.localTypes]
    exact (Stmt.idsOf_split init).append ((((Stmt.ids_split b).right _).left _).left _)
  | .tryCatch i ⟨bi, ss⟩ cs none => by
    simp only [Stmt.ids, Block.ids, Stmt.outline, Stmt.localTypes]
    exact ((Stmt.idsOf_split ss).left [bi.id]).append ((CatchClause.idsOf_split cs).right _)
  | .tryCatch i ⟨bi, ss⟩ cs (some ⟨fi, fs⟩) => by
    simp only [Stmt.ids, Block.ids, Stmt.outline, Stmt.localTypes, List.append_assoc]
    exact ((Stmt.idsOf_split ss).left [bi.id]).append ((CatchClause.idsOf_split cs).append
      (((Stmt.idsOf_split fs).left [fi.id]).right _))
  | .expression .. => SplitsInto.refl j _
  | .localVariable .. => SplitsInto.refl j _
  | .returnValue .. => SplitsInto.refl j _
  | .throwValue .. => SplitsInto.refl j _
  | .superCall .. => SplitsInto.refl j _
  | .thisCall .. => SplitsInto.refl j _
  | .empty _ => SplitsInto.refl j _

theorem Stmt.idsOf_split : ∀ ss : List Stmt,
    SplitsInto j (Stmt.idsOf ss) (Stmt.idsOf (Stmt.outlineOf ss)) (Stmt.localTypesOf ss)
  | [] => SplitsInto.refl j []
  | s :: ss => (Stmt.ids_split s).append (Stmt.idsOf_split ss)

theorem CatchClause.idsOf_split : ∀ cs : List CatchClause,
    SplitsInto j (CatchClause.idsOf cs) (CatchClause.idsOf (CatchClause.outlineOf cs))
      (CatchClause.localTypesOf cs)
  | [] => SplitsInto.refl j []
  | ⟨_, _, ⟨bi, ss⟩⟩ :: cs =>
    ((Stmt.idsOf_split ss).left [bi.id]).append (CatchClause.idsOf_split cs)

end

theorem Member.ids_split (m : Member) : SplitsInto j m.ids m.outline.ids m.inner := by
  rcases m with d | ⟨h, _ | ⟨i, ss⟩⟩ | ⟨i, s, ⟨b, ss⟩⟩ | f
  · exact SplitsInto.type d
  · exact SplitsInto.refl j _
  · exact (Stmt.idsOf_split j ss).left [h.id, i.id]
  · exact (Stmt.idsOf_split j ss).left [i.id, b.id]
  · exact SplitsInto.refl j _

theorem Member.idsOf_split (ms : List Member) :
    SplitsInto j (Member.idsOf ms) (Member.idsOf (ms.map Member.outline))
      (ms.flatMap Member.inner) := by
  induction ms with
  | nil => exact SplitsInto.refl j []
  | cons m ms ih => exact (m.ids_split j).append ih

end

/-- The types directly inside a type are those directly inside its members. -/
theorem TypeDecl.inner_perm (d : TypeDecl) : d.inner.Perm (d.members.flatMap Member.inner) := by
  rw [TypeDecl.inner, TypeDecl.memberTypes, List.filterMap_eq_flatMap_toList]
  exact List.flatMap_append_perm _ _ _

/-- Of two types with one head and one outline, the ids differ as those of their inner types do. -/
theorem TypeDecl.count_ids_of_outline {d d' : TypeDecl} (head : d'.head = d.head)
    (outline : d'.members.map Member.outline = d.members.map Member.outline)
    (size : d'.inner.length = d.inner.length) (j : NodeId) :
    d'.ids.count j + (d.inner.flatMap TypeDecl.ids).count j =
      d.ids.count j + (d'.inner.flatMap TypeDecl.ids).count j := by
  -- Both types split into their outlines, which agree, and the types inside.
  have split : ∀ x : TypeDecl, x.ids.count j + (blankIds x.inner).count j =
      (x.head.ids ++ Member.idsOf (x.members.map Member.outline)).count j +
        (x.inner.flatMap TypeDecl.ids).count j := by
    rintro ⟨h, ms⟩
    have whole := (Member.idsOf_split j ms).left h.ids
    unfold SplitsInto blankIds at whole
    have inner := TypeDecl.inner_perm ⟨h, ms⟩
    rw [blankIds, (inner.flatMap_right _).count_eq, (inner.flatMap_right _).count_eq]
    exact whole
  have blank : (blankIds d'.inner).count j = (blankIds d.inner).count j := by
    unfold blankIds
    rw [List.flatMap_def, List.flatMap_def, List.map_const', List.map_const', size]
  have first := split d
  have second := split d'
  rw [head, outline, blank] at second
  omega

end ClassInit
