import ClassInit.Proofs.Document.Parts

/-!
# Reading expressions

What is written for an expression is read back as the expression (`Expr.ofJson?_toJson`). The reader
counts down levels, so that the induction is over the expression, with any number of levels that its
document does not exceed.
-/

set_option autoImplicit false

namespace ClassInit

open Json

theorem Expr.read_null (fuel : Nat) : Expr.read fuel null = none := by
  cases fuel <;> rfl

section

variable {h : Json → Json} (keeps : Preserves h)

include keeps

/-! ## Headers -/

theorem ExprInfo.ofFields?_wrap {i : ExprInfo} {k : Json} (fit : ∀ l ∈ i.leaves, l.ReadBy h) :
    ∃ fs, h (i.wrap k) = obj fs ∧ ExprInfo.ofFields? fs = some i ∧ named fs "kind" = [h k] := by
  refine ⟨_, keeps.obj _, ?_, rfl⟩
  have type : nullable? TypeRef.ofJson? (h (ofOption TypeRef.toJson i.type)) = some i.type :=
    keeps.nullable rfl fun t ht =>
      TypeRef.ofJson?_toJson keeps fun l hl =>
        fit l (List.mem_flatMap_of_mem (Option.mem_toList.mpr ht) hl)
  show (do
    return ExprInfo.mk (← NodeId.ofJson? (h i.id.toJson)) (← Span.ofJson? (h i.span.toJson))
      (← nullable? TypeRef.ofJson? (h (ofOption TypeRef.toJson i.type)))) = some i
  rw [NodeId.ofJson?_toJson keeps, Span.ofJson?_toJson keeps, type]
  rfl

/-- An expression is read if its case is. -/
theorem Expr.read_wrap {i : ExprInfo} {k : Json} {e : Expr} {fuel : Nat}
    (deep : (h (i.wrap k)).depth ≤ fuel) (fit : ∀ l ∈ i.leaves, l.ReadBy h)
    (kind : ∀ n, (h k).depth ≤ n → Expr.readKind (Expr.read n) i (h k) = some e) :
    Expr.read fuel (h (i.wrap k)) = some e := by
  obtain ⟨fs, written, info, only⟩ := ExprInfo.ofFields?_wrap keeps (k := k) fit
  -- The case stands one level deeper than the node, which leaves a level for it.
  have inner : (h k).depth < fuel := keeps.depth_field deep 3 rfl
  obtain ⟨n, rfl⟩ := Nat.exists_eq_add_one.mpr (Nat.zero_lt_of_lt inner)
  rw [written, Expr.read, fields?, Option.bind_eq_bind, Option.bind_some, info, Option.bind_eq_bind,
    Option.bind_some, required, only]
  exact kind n (Nat.le_of_lt_succ inner)

/-! ## Cases -/

mutual

theorem Expr.read_toJson :
    ∀ (e : Expr) (fuel : Nat), (h e.toJson).depth ≤ fuel → (∀ l ∈ e.leaves, l.ReadBy h) →
      Expr.read fuel (h e.toJson) = some e
  | .literal i v, _, deep, fit => by
    obtain ⟨info, value⟩ := List.forall_mem_append.mp fit
    -- In every case the leaves of the node are those of its parts in turn, and each part is read by
    -- its own lemma.
    refine Expr.read_wrap keeps deep info fun n _ => ?_
    rw [keeps.tagged]
    show (Literal.ofJson? (h v.toJson)).map (Expr.literal i) = _
    rw [Literal.ofJson?_toJson keeps value]
    rfl
  | .name i x b, _, deep, fit => by
    obtain ⟨info, binding⟩ := List.forall_mem_append.mp fit
    refine Expr.read_wrap keeps deep info fun n _ => ?_
    rw [keeps.tagged, keeps.obj]
    show (do
      return Expr.name i (← string? (h (str x)))
        (← nullable? VariableId.ofJson? (h (ofOption VariableId.toJson b)))) = _
    rw [keeps.string, VariableId.nullable keeps binding]
    rfl
  | .this i, _, deep, fit => by
    refine Expr.read_wrap keeps deep fit fun n _ => ?_
    rw [keeps.str]
    rfl
  | .fieldAccess i t x b, _, deep, fit => by
    obtain ⟨others, binding⟩ := List.forall_mem_append.mp fit
    obtain ⟨info, target⟩ := List.forall_mem_append.mp others
    refine Expr.read_wrap keeps deep info fun n deep => ?_
    have target := Expr.read_toJson t n (keeps.depth_part deep 0 rfl) target
    rw [keeps.tagged, keeps.obj]
    show (do
      return Expr.fieldAccess i (← Expr.read n (h t.toJson)) (← string? (h (str x)))
        (← nullable? VariableId.ofJson? (h (ofOption VariableId.toJson b)))) = _
    rw [target, keeps.string, VariableId.nullable keeps binding]
    rfl
  | .unary i op e, _, deep, fit => by
    obtain ⟨info, operand⟩ := List.forall_mem_append.mp fit
    refine Expr.read_wrap keeps deep info fun n deep => ?_
    have operand := Expr.read_toJson e n (keeps.depth_part deep 1 rfl) operand
    rw [keeps.tagged, keeps.obj]
    show (do return Expr.unary i (← UnaryOp.ofJson? (h op.toJson)) (← Expr.read n (h e.toJson))) = _
    rw [UnaryOp.ofJson?_toJson keeps, operand]
    rfl
  | .step i op e, _, deep, fit => by
    obtain ⟨info, operand⟩ := List.forall_mem_append.mp fit
    refine Expr.read_wrap keeps deep info fun n deep => ?_
    have operand := Expr.read_toJson e n (keeps.depth_part deep 1 rfl) operand
    rw [keeps.tagged, keeps.obj]
    show (do return Expr.step i (← StepOp.ofJson? (h op.toJson)) (← Expr.read n (h e.toJson))) = _
    rw [StepOp.ofJson?_toJson keeps, operand]
    rfl
  | .binary i op l r, _, deep, fit => by
    obtain ⟨others, right⟩ := List.forall_mem_append.mp fit
    obtain ⟨info, left⟩ := List.forall_mem_append.mp others
    refine Expr.read_wrap keeps deep info fun n deep => ?_
    have left := Expr.read_toJson l n (keeps.depth_part deep 1 rfl) left
    have right := Expr.read_toJson r n (keeps.depth_part deep 2 rfl) right
    rw [keeps.tagged, keeps.obj]
    show (do
      return Expr.binary i (← BinaryOp.ofJson? (h op.toJson)) (← Expr.read n (h l.toJson))
        (← Expr.read n (h r.toJson))) = _
    rw [BinaryOp.ofJson?_toJson keeps, left, right]
    rfl
  | .conditional i c t e, _, deep, fit => by
    obtain ⟨others, otherwise⟩ := List.forall_mem_append.mp fit
    obtain ⟨others, positive⟩ := List.forall_mem_append.mp others
    obtain ⟨info, condition⟩ := List.forall_mem_append.mp others
    refine Expr.read_wrap keeps deep info fun n deep => ?_
    have condition := Expr.read_toJson c n (keeps.depth_part deep 0 rfl) condition
    have positive := Expr.read_toJson t n (keeps.depth_part deep 1 rfl) positive
    have otherwise := Expr.read_toJson e n (keeps.depth_part deep 2 rfl) otherwise
    rw [keeps.tagged, keeps.obj]
    show (do
      return Expr.conditional i (← Expr.read n (h c.toJson)) (← Expr.read n (h t.toJson))
        (← Expr.read n (h e.toJson))) = _
    rw [condition, positive, otherwise]
    rfl
  | .parenthesized i e, _, deep, fit => by
    obtain ⟨info, inner⟩ := List.forall_mem_append.mp fit
    refine Expr.read_wrap keeps deep info fun n deep => ?_
    have inner := Expr.read_toJson e n (Nat.le_of_lt (keeps.depth_tagged deep)) inner
    rw [keeps.tagged]
    show (Expr.read n (h e.toJson)).map (Expr.parenthesized i) = _
    rw [inner]
    rfl
  | .cast i t e, _, deep, fit => by
    obtain ⟨others, operand⟩ := List.forall_mem_append.mp fit
    obtain ⟨info, type⟩ := List.forall_mem_append.mp others
    refine Expr.read_wrap keeps deep info fun n deep => ?_
    have operand := Expr.read_toJson e n (keeps.depth_part deep 1 rfl) operand
    rw [keeps.tagged, keeps.obj]
    show (do return Expr.cast i (← TypeRef.ofJson? (h t.toJson)) (← Expr.read n (h e.toJson))) = _
    rw [TypeRef.ofJson?_toJson keeps type, operand]
    rfl
  | .assignment i op l r, _, deep, fit => by
    obtain ⟨others, right⟩ := List.forall_mem_append.mp fit
    obtain ⟨info, left⟩ := List.forall_mem_append.mp others
    refine Expr.read_wrap keeps deep info fun n deep => ?_
    have left := Expr.read_toJson l n (keeps.depth_part deep 1 rfl) left
    have right := Expr.read_toJson r n (keeps.depth_part deep 2 rfl) right
    rw [keeps.tagged, keeps.obj]
    show (do
      return Expr.assignment i (← AssignOp.ofJson? (h op.toJson)) (← Expr.read n (h l.toJson))
        (← Expr.read n (h r.toJson))) = _
    rw [AssignOp.ofJson?_toJson keeps, left, right]
    rfl
  -- `null` is the document of a receiver that is missing, and of no expression.
  | .call i none x as b, _, deep, fit => by
    obtain ⟨others, binding⟩ := List.forall_mem_append.mp fit
    obtain ⟨info, arguments⟩ := List.forall_mem_append.mp others
    refine Expr.read_wrap keeps deep info fun n deep => ?_
    have arguments := Expr.list_toJsons as n (keeps.depth_part deep 2 rfl) arguments
    rw [keeps.tagged, keeps.obj]
    show (do
      return Expr.call i (← nullable? (Expr.read n) (h null)) (← string? (h (str x)))
        (← list? (Expr.read n) (h (arr (Expr.toJsons as))))
        (← nullable? MethodId.ofJson? (h (ofOption MethodId.toJson b)))) = _
    rw [keeps.null, keeps.string, arguments, MethodId.nullable keeps binding]
    rfl
  | .call i (some r) x as b, _, deep, fit => by
    obtain ⟨others, binding⟩ := List.forall_mem_append.mp fit
    obtain ⟨others, arguments⟩ := List.forall_mem_append.mp others
    obtain ⟨info, receiver⟩ := List.forall_mem_append.mp others
    refine Expr.read_wrap keeps deep info fun n deep => ?_
    have receiver := nullable?_of_some (Expr.read_null n)
      (Expr.read_toJson r n (keeps.depth_part deep 0 rfl) receiver)
    have arguments := Expr.list_toJsons as n (keeps.depth_part deep 2 rfl) arguments
    rw [keeps.tagged, keeps.obj]
    show (do
      return Expr.call i (← nullable? (Expr.read n) (h r.toJson)) (← string? (h (str x)))
        (← list? (Expr.read n) (h (arr (Expr.toJsons as))))
        (← nullable? MethodId.ofJson? (h (ofOption MethodId.toJson b)))) = _
    rw [receiver, keeps.string, arguments, MethodId.nullable keeps binding]
    rfl
  | .new i t as b, _, deep, fit => by
    obtain ⟨others, binding⟩ := List.forall_mem_append.mp fit
    obtain ⟨others, arguments⟩ := List.forall_mem_append.mp others
    obtain ⟨info, type⟩ := List.forall_mem_append.mp others
    refine Expr.read_wrap keeps deep info fun n deep => ?_
    have arguments := Expr.list_toJsons as n (keeps.depth_part deep 1 rfl) arguments
    rw [keeps.tagged, keeps.obj]
    show (do
      return Expr.new i (← TypeName.ofJson? (h t.toJson))
        (← list? (Expr.read n) (h (arr (Expr.toJsons as))))
        (← nullable? MethodId.ofJson? (h (ofOption MethodId.toJson b)))) = _
    rw [TypeName.ofJson?_toJson keeps type, arguments, MethodId.nullable keeps binding]
    rfl

theorem Expr.list_toJsons :
    ∀ (es : List Expr) (fuel : Nat), (h (arr (Expr.toJsons es))).depth ≤ fuel →
      (∀ l ∈ Expr.leavesOf es, l.ReadBy h) →
      list? (Expr.read fuel) (h (arr (Expr.toJsons es))) = some es
  | [], _, _, _ => by
    rw [Expr.toJsons, keeps.arr]
    rfl
  | e :: es, fuel, deep, fit => by
    obtain ⟨one, others⟩ := List.forall_mem_append.mp fit
    have one :=
      Expr.read_toJson e fuel (Nat.le_of_lt (keeps.depth_item deep List.mem_cons_self)) one
    have others := Expr.list_toJsons es fuel (keeps.depth_rest deep) others
    exact keeps.list_cons one others

end

theorem Expr.ofJson?_toJson {e : Expr} (fit : ∀ l ∈ e.leaves, l.ReadBy h) :
    Expr.ofJson? (h e.toJson) = some e :=
  Expr.read_toJson keeps e _ (Nat.le_refl _) fit

end

end ClassInit
