import ClassInit.Proofs.Lowering.Rules
import ClassInit.Proofs.Tree.Outline

/-!
# What the types inside a type do not matter to

Lowering a type reads of its members what survives, whether they are designated constructors and
what they initialize. It reads none of this from the types inside, so it is the same for types of
one outline.
-/

set_option autoImplicit false

namespace ClassInit

/-! ## Constructors -/

theorem Stmt.isSuperCall_outline (s : Stmt) : s.outline.isSuperCall = s.isSuperCall := by
  fun_cases Stmt.outline s <;> rfl

theorem Stmt.isThisCall_outline (s : Stmt) : s.outline.isThisCall = s.isThisCall := by
  fun_cases Stmt.outline s <;> rfl

theorem MethodDecl.isDesignated_outline (h : MethodHead) (i : NodeInfo) (ss : List Stmt) :
    (MethodDecl.mk h (some ⟨i, Stmt.outlineOf ss⟩)).isDesignated =
      (MethodDecl.mk h (some ⟨i, ss⟩)).isDesignated := by
  have isThis : Stmt.isThisCall ∘ Stmt.outline = Stmt.isThisCall := funext Stmt.isThisCall_outline
  show (_ && !((Stmt.outlineOf ss).head?.map Stmt.isThisCall).getD false) =
    (_ && !(ss.head?.map Stmt.isThisCall).getD false)
  rw [Stmt.outlineOf_eq_map, List.head?_map, Option.map_map, isThis]

theorem Member.survives_outline (m : Member) :
    Lowering.survives m.outline = Lowering.survives m := by
  rcases m with d | ⟨h, _ | ⟨i, ss⟩⟩ | ⟨i, isStatic, ⟨b, ss⟩⟩ | f <;> rfl

theorem TypeDecl.survivors_length_of_outline {d d₁ : TypeDecl}
    (same : d₁.members.map Member.outline = d.members.map Member.outline) :
    (d₁.members.filter Lowering.survives).length = (d.members.filter Lowering.survives).length := by
  rw [← List.countP_eq_length_filter, ← List.countP_eq_length_filter]
  exact countP_of_outline same Member.survives_outline

namespace Lowering

variable {d d₁ : TypeDecl}

theorem any_methods (p : MethodDecl → Bool) :
    d.methods.any p = (d.members.map fun m => m.asMethod.any p).any id := by
  rw [TypeDecl.methods, List.any_filterMap, List.any_map]
  rfl

theorem any_methods_of_outline
    (same : d₁.members.map Member.outline = d.members.map Member.outline) {p : MethodDecl → Bool}
    (shape : ∀ h b b', p ⟨h, some b⟩ = p ⟨h, some b'⟩) : d₁.methods.any p = d.methods.any p := by
  have outlined : ∀ m : Member, (m.outline.asMethod.any p) = m.asMethod.any p := by
    intro m
    rcases m with d | ⟨h, _ | ⟨b, ss⟩⟩ | ⟨i, isStatic, ⟨b, ss⟩⟩ | f
    · rfl
    · rfl
    · exact shape h _ _
    · rfl
    · rfl
  rw [any_methods, any_methods, TypeDecl.map_of_outline same outlined]

/-! ## Statements that initialize -/

variable {t : BindingTable} {encoding : LiteralEncoding} {isInterface once : Bool}

theorem declaresName_outline (s : Stmt) : declaresName s.outline = declaresName s := by
  fun_cases Stmt.outline s <;> rfl

theorem blockInit_outline (i : NodeInfo) (ss : List Stmt) :
    blockInit ⟨i, Stmt.outlineOf ss⟩ = (blockInit ⟨i, ss⟩).map Stmt.outline := by
  have same : declaresName ∘ Stmt.outline = declaresName := funext declaresName_outline
  unfold blockInit
  rw [Stmt.outlineOf_eq_map, List.any_map, same]
  split
  · rw [List.map_singleton, Stmt.outline, Stmt.outlineOf_eq_map]
  · rfl

theorem fragmentInit_outline (f : Fragment) :
    (fragmentInit t encoding once f).map Stmt.outline = fragmentInit t encoding once f := by
  unfold fragmentInit
  split
  · split <;> rfl
  · rfl

theorem memberInit_outline (m : Member) :
    memberInit t encoding isInterface once m.outline =
      (memberInit t encoding isInterface once m).map Stmt.outline := by
  rcases m with d | ⟨h, _ | ⟨i, ss⟩⟩ | ⟨i, isStatic, ⟨b, ss⟩⟩ | f
  · rfl
  · rfl
  · rfl
  · simp only [Member.outline, memberInit]
    split
    · exact blockInit_outline b ss
    · rfl
  · simp only [Member.outline, memberInit]
    split
    · rw [List.map_flatMap]
      simp only [fragmentInit_outline]
    · rfl

/-- Types of one outline initialize by statements of one outline. -/
theorem initList_outline (same : d₁.members.map Member.outline = d.members.map Member.outline) :
    (initList t encoding isInterface once d₁.members).map Stmt.outline =
      (initList t encoding isInterface once d.members).map Stmt.outline := by
  have through : ∀ ms : List Member, (initList t encoding isInterface once ms).map Stmt.outline =
      (ms.map Member.outline).flatMap (memberInit t encoding isInterface once) := by
    intro ms
    rw [initList, List.map_flatMap, List.flatMap_map]
    exact List.flatMap_congr fun m _ => (memberInit_outline m).symm
  rw [through, same, ← through]

theorem initList_eq_nil_of_outline
    (same : d₁.members.map Member.outline = d.members.map Member.outline) (t : BindingTable)
    (encoding : LiteralEncoding) (isInterface once : Bool) :
    initList t encoding isInterface once d₁.members = [] ↔
      initList t encoding isInterface once d.members = [] := by
  rw [← List.map_eq_nil_iff, initList_outline same, List.map_eq_nil_iff]

end Lowering

end ClassInit
