import Mathlib.Data.List.Perm.Basic
import ClassInit.Proofs.Binding.Candidates
import ClassInit.Proofs.Tree.Outline

/-!
# Declarations in another order

A unit is rearranged if its types, the members of types at any depth and the declarators of fields
are put into another order. That changes the order of the declarators of all fields, and nothing
else about them (`CompilationUnit.Rearranges.allSlots`).
-/

set_option autoImplicit false

namespace ClassInit

mutual

/-- The second type is the first with its rearranged members in another order. -/
inductive TypeDecl.Rearranges : TypeDecl → TypeDecl → Prop where
  | intro {h : TypeHead} {ms ms' ms'' : List Member} (members : Member.RearrangesAll ms ms')
    (order : ms'.Perm ms'') :
    TypeDecl.Rearranges ⟨h, ms⟩ ⟨h, ms''⟩

/-- Each member of the second list is the member of the first as it is, with the declarators of a
field in another order, or with the types inside it rearranged. -/
inductive Member.RearrangesAll : List Member → List Member → Prop where
  | nil : Member.RearrangesAll [] []
  | same {m : Member} {ms ms' : List Member} (rest : Member.RearrangesAll ms ms') :
    Member.RearrangesAll (m :: ms) (m :: ms')
  | field {f : FieldDecl} {fs : List Fragment} {ms ms' : List Member} (order : f.fragments.Perm fs)
      (rest : Member.RearrangesAll ms ms') :
    Member.RearrangesAll (.field f :: ms) (.field { f with fragments := fs } :: ms')
  | types {m m' : Member} {ms ms' : List Member} (outline : m'.outline = m.outline)
      (types : TypeDecl.RearrangesAll m.inner m'.inner) (rest : Member.RearrangesAll ms ms') :
    Member.RearrangesAll (m :: ms) (m' :: ms')

/-- Each type of the second list is the type of the first, rearranged. -/
inductive TypeDecl.RearrangesAll : List TypeDecl → List TypeDecl → Prop where
  | nil : TypeDecl.RearrangesAll [] []
  | cons {d d' : TypeDecl} {ds ds' : List TypeDecl} (type : d.Rearranges d')
    (rest : TypeDecl.RearrangesAll ds ds') :
    TypeDecl.RearrangesAll (d :: ds) (d' :: ds')

end

/-- The second unit is the first with its rearranged types in another order. -/
inductive CompilationUnit.Rearranges (u : CompilationUnit) : CompilationUnit → Prop where
  | intro {ds ds' : List TypeDecl} (types : TypeDecl.RearrangesAll u.types ds)
    (order : ds.Perm ds') :
    u.Rearranges { u with types := ds' }

theorem Member.RearrangesAll.refl (ms : List Member) : Member.RearrangesAll ms ms := by
  induction ms with
  | nil => exact .nil
  | cons m ms ih => exact .same ih

theorem TypeDecl.RearrangesAll.refl (ds : List TypeDecl) : TypeDecl.RearrangesAll ds ds := by
  induction ds with
  | nil => exact .nil
  | cons d ds ih =>
    obtain ⟨h, ms⟩ := d
    exact .cons (.intro (.refl ms) (.refl ms)) ih

/-- Types in another order. -/
theorem CompilationUnit.Rearranges.of_perm (u : CompilationUnit) {ds : List TypeDecl}
    (order : u.types.Perm ds) :
    u.Rearranges { u with types := ds } := .intro (.refl u.types) order

/-! ## The declarators of fields -/

/-- The declarators of the fields in a member: those that it declares itself, then those of the
types inside it. -/
def Member.allSlots (m : Member) : List FieldSlot := m.slots ++ m.inner.flatMap TypeDecl.allSlots

theorem TypeDecl.allSlots_perm (d : TypeDecl) :
    d.allSlots.Perm (d.members.flatMap Member.allSlots) := by
  have inner : ∀ ms : List Member,
      (ms.filterMap Member.asType ++ ms.flatMap Member.localTypes).Perm
        (ms.flatMap Member.inner) := by
    intro ms
    have types : ms.filterMap Member.asType = ms.flatMap fun m => m.asType.toList := by
      induction ms with
      | nil => rfl
      | cons m ms ih =>
        cases m <;> simp only [List.filterMap_cons, List.flatMap_cons, Member.asType, ih] <;> rfl
    rw [types]
    exact List.flatMap_append_perm ms _ _
  rw [TypeDecl.allSlots, TypeDecl.declarations_eq, List.flatMap_cons, List.flatMap_assoc]
  refine ((inner d.members).flatMap_right _).append_left d.slots |>.trans ?_
  rw [TypeDecl.slots, List.flatMap_assoc]
  exact List.flatMap_append_perm d.members _ _

theorem Member.slots_outline (m : Member) : m.outline.slots = m.slots := by
  rcases m with d | ⟨h, _ | ⟨b, ss⟩⟩ | ⟨i, s, ⟨b, ss⟩⟩ | f <;> rfl

mutual

theorem TypeDecl.Rearranges.allSlots :
    ∀ {d d' : TypeDecl}, d.Rearranges d' → d.allSlots.Perm d'.allSlots
  | ⟨_, _⟩, ⟨_, _⟩, .intro members order =>
    (TypeDecl.allSlots_perm ⟨_, _⟩).trans
      ((members.allSlots.trans (order.flatMap_right _)).trans (TypeDecl.allSlots_perm ⟨_, _⟩).symm)

theorem Member.RearrangesAll.allSlots : ∀ {ms ms' : List Member}, Member.RearrangesAll ms ms' →
    (ms.flatMap Member.allSlots).Perm (ms'.flatMap Member.allSlots)
  | _, _, .nil => .refl _
  | _, _, .same rest => rest.allSlots.append_left _
  | _, _, .field order rest => (List.Perm.append_right _ (order.map _)).append rest.allSlots
  | m :: _, m' :: _, .types outline types rest => by
    have slots : m'.slots = m.slots := by rw [← m'.slots_outline, outline, m.slots_outline]
    rw [List.flatMap_cons, List.flatMap_cons, Member.allSlots, Member.allSlots, slots]
    exact (types.allSlots.append_left _).append rest.allSlots

theorem TypeDecl.RearrangesAll.allSlots :
    ∀ {ds ds' : List TypeDecl}, TypeDecl.RearrangesAll ds ds' →
      (ds.flatMap TypeDecl.allSlots).Perm (ds'.flatMap TypeDecl.allSlots)
  | _, _, .nil => .refl _
  | _, _, .cons type rest => type.allSlots.append rest.allSlots

end

/-- Rearranging a unit puts the declarators of its fields into another order. -/
theorem CompilationUnit.Rearranges.allSlots {u u' : CompilationUnit}
    (rearranged : u.Rearranges u') :
    u.allSlots.Perm u'.allSlots := by
  obtain ⟨types, order⟩ := rearranged
  have slots : ∀ u : CompilationUnit, u.allSlots = u.types.flatMap TypeDecl.allSlots := fun u =>
    List.flatMap_assoc
  rw [slots, slots]
  exact types.allSlots.trans (order.flatMap_right _)

end ClassInit
