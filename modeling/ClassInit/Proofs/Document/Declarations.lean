import ClassInit.Proofs.Document.Expressions

/-!
# Reading statements and declarations

What is written for a declaration is read back as the declaration (`TypeDecl.ofJson?_toJson`,
`CompilationUnit.ofJson?_of_preserves`). Statements and types nest in each other; the induction is
over both at once. As with expressions, the number of levels is any that the document does not
exceed.
-/

set_option autoImplicit false

namespace ClassInit

open Json

theorem Stmt.read_null (fuel : Nat) : Stmt.read fuel null = none := by
  cases fuel <;> rfl

section

variable {h : Json → Json} (keeps : Preserves h)

include keeps

/-! ## Parts without statements -/

/-- Parameters are read back. -/
theorem Parameter.ofJson?_toJson {p : Parameter} (fit : ∀ l ∈ p.leaves, l.ReadBy h) :
    Parameter.ofJson? (h p.toJson) = some p := by
  obtain ⟨type, binding⟩ := List.forall_mem_append.mp fit
  rw [Parameter.toJson, keeps.obj]
  show (do
    return Parameter.mk (← string? (h (str p.name))) (← TypeRef.ofJson? (h p.type.toJson))
      (← nullable? VariableId.ofJson? (h (ofOption VariableId.toJson p.binding)))) = some p
  rw [keeps.string, TypeRef.ofJson?_toJson keeps type, VariableId.nullable keeps binding]
  rfl

/-- An expression that may be missing. -/
theorem Expr.nullable {e : Option Expr} (fit : ∀ l ∈ e.toList.flatMap Expr.leaves, l.ReadBy h) :
    nullable? Expr.ofJson? (h (ofOption Expr.toJson e)) = some e :=
  keeps.nullable rfl fun _ he =>
    Expr.ofJson?_toJson keeps fun l hl =>
      fit l (List.mem_flatMap_of_mem (Option.mem_toList.mpr he) hl)

/-- The expressions of a list are read back one by one. -/
theorem Expr.ofJson?_toJsons {es : List Expr} (fit : ∀ l ∈ Expr.leavesOf es, l.ReadBy h) :
    list? Expr.ofJson? (h (arr (Expr.toJsons es))) = some es := by
  induction es with
  | nil =>
    rw [Expr.toJsons, keeps.arr]
    rfl
  | cons e es ih =>
    obtain ⟨one, others⟩ := List.forall_mem_append.mp fit
    exact keeps.list_cons (Expr.ofJson?_toJson keeps one) (ih others)

/-- Variables are read back, with and without an initializer. -/
theorem Fragment.ofJson?_toJson {f : Fragment} (fit : ∀ l ∈ f.leaves, l.ReadBy h) :
    Fragment.ofJson? (h f.toJson) = some f := by
  obtain ⟨initializer, binding⟩ := List.forall_mem_append.mp fit
  rw [Fragment.toJson, keeps.obj]
  show (do
    return Fragment.mk (← Span.ofJson? (h f.span.toJson)) (← string? (h (str f.name)))
      (← nullable? Expr.ofJson? (h (ofOption Expr.toJson f.initializer)))
      (← nullable? VariableId.ofJson? (h (ofOption VariableId.toJson f.binding)))) = some f
  rw [Span.ofJson?_toJson keeps, keeps.string, Expr.nullable keeps initializer,
    VariableId.nullable keeps binding]
  rfl

theorem Fragment.list {fs : List Fragment} (fit : ∀ l ∈ fs.flatMap Fragment.leaves, l.ReadBy h) :
    list? Fragment.ofJson? (h (arr (fs.map Fragment.toJson))) = some fs :=
  keeps.list fun _ hf => Fragment.ofJson?_toJson keeps fun l hl =>
    fit l (List.mem_flatMap_of_mem hf hl)

theorem EnumConstant.ofJson?_toJson {c : EnumConstant} (fit : ∀ l ∈ c.leaves, l.ReadBy h) :
    EnumConstant.ofJson? (h c.toJson) = some c := by
  rw [EnumConstant.toJson, keeps.obj]
  show (do
    return EnumConstant.mk (← string? (h (str c.name)))
      (← list? Expr.ofJson? (h (arr (Expr.toJsons c.arguments))))
        (← Span.ofJson? (h c.span.toJson))) = some c
  rw [keeps.string, Expr.ofJson?_toJsons keeps fit, Span.ofJson?_toJson keeps]
  rfl

/-- Fields are read back with all their variables. -/
theorem FieldDecl.ofJson?_toJson {f : FieldDecl} (fit : ∀ l ∈ f.leaves, l.ReadBy h) :
    FieldDecl.ofJson? (h f.toJson) = some f := by
  obtain ⟨type, fragments⟩ := List.forall_mem_append.mp fit
  rw [FieldDecl.toJson, keeps.obj]
  show (do
    return FieldDecl.mk (← NodeId.ofJson? (h f.id.toJson)) (← Span.ofJson? (h f.span.toJson))
      (← Modifiers.ofJson? (h f.modifiers.toJson)) (← TypeRef.ofJson? (h f.type.toJson))
      (← list? Fragment.ofJson? (h (arr (f.fragments.map Fragment.toJson))))) = some f
  rw [NodeId.ofJson?_toJson keeps, Span.ofJson?_toJson keeps, Modifiers.ofJson?_toJson keeps,
    TypeRef.ofJson?_toJson keeps type, Fragment.list keeps fragments]
  rfl

/-! ## Headers -/

/-- The id and the span of a node are fields of its object. -/
theorem NodeInfo.ofFields?_header (i : NodeInfo) {fs : List (String × Json)}
    (id : named fs "id" = [h i.id.toJson]) (span : named fs "span" = [h i.span.toJson]) :
    NodeInfo.ofFields? fs = some i := by
  rw [NodeInfo.ofFields?, withDefault, withDefault, id, span]
  show (do return NodeInfo.mk (← NodeId.ofJson? (h i.id.toJson)) (← Span.ofJson? (h i.span.toJson)))
    = some i
  rw [NodeId.ofJson?_toJson keeps, Span.ofJson?_toJson keeps]
  rfl

variable {statement : Json → Option Stmt} {type : Json → Option TypeDecl}

/-- A block is read back if its statements are. -/
theorem Block.readWith_blockJson {i : NodeInfo} {js : List Json} {ss : List Stmt}
    (statements : list? statement (h (arr js)) = some ss) :
    Block.readWith statement (h (i.blockJson js)) = some ⟨i, ss⟩ := by
  rw [NodeInfo.blockJson, keeps.obj, Block.readWith, fields?, Option.bind_eq_bind, Option.bind_some,
    NodeInfo.ofFields?_header keeps i]
  · show (do return Block.mk i (← list? statement (h (arr js)))) = _
    rw [statements]
    rfl
  · rfl
  · rfl

/-- A method is read back if its body is, where it has one. -/
theorem MethodDecl.readWith_wrap {m : MethodHead} {j : Json} {body : Option Block}
    (fit : ∀ l ∈ m.leaves, l.ReadBy h)
    (inner : nullable? (Block.readWith statement) (h j) = some body) :
    MethodDecl.readWith statement (h (m.wrap j)) = some ⟨m, body⟩ := by
  obtain ⟨others, binding⟩ := List.forall_mem_append.mp fit
  obtain ⟨returnType, parameters⟩ := List.forall_mem_append.mp others
  have parameters :
      list? Parameter.ofJson? (h (arr (m.parameters.map Parameter.toJson))) = some m.parameters :=
    keeps.list fun p hp =>
      Parameter.ofJson?_toJson keeps fun l hl => parameters l (List.mem_flatMap_of_mem hp hl)
  rw [MethodHead.wrap, keeps.obj]
  show (do
    return MethodDecl.mk
      (MethodHead.mk (← NodeId.ofJson? (h m.id.toJson)) (← Span.ofJson? (h m.span.toJson))
        (← string? (h (str m.name))) (← Modifiers.ofJson? (h m.modifiers.toJson))
        (← TypeRef.ofJson? (h m.returnType.toJson))
        (← list? Parameter.ofJson? (h (arr (m.parameters.map Parameter.toJson))))
        (← bool? (h (Json.bool m.isConstructor)))
        (← nullable? MethodId.ofJson? (h (ofOption MethodId.toJson m.binding)))
        (← bool? (h (Json.bool m.isSynthetic))))
      (← nullable? (Block.readWith statement) (h j))) = _
  rw [NodeId.ofJson?_toJson keeps, Span.ofJson?_toJson keeps, keeps.string,
    Modifiers.ofJson?_toJson keeps, TypeRef.ofJson?_toJson keeps returnType, parameters,
      keeps.boolean, MethodId.nullable keeps binding, keeps.boolean, inner]
  rfl

/-- A type is read back if its members are. -/
theorem TypeDecl.readWith_wrap {t : TypeHead} {js : List Json} {ms : List Member}
    (fit : ∀ l ∈ t.leaves, l.ReadBy h)
    (inner : list? (Member.readWith statement type) (h (arr js)) = some ms) :
    TypeDecl.readWith statement type (h (t.wrap js)) = some ⟨t, ms⟩ := by
  obtain ⟨others, constants⟩ := List.forall_mem_append.mp fit
  obtain ⟨superclass, binding⟩ := List.forall_mem_append.mp others
  have superclass :
      nullable? TypeName.ofJson? (h (ofOption TypeName.toJson t.superclass)) = some t.superclass :=
    keeps.nullable rfl fun n hn =>
      TypeName.ofJson?_toJson keeps fun l hl =>
        superclass l (List.mem_flatMap_of_mem (Option.mem_toList.mpr hn) hl)
  have constants : list? EnumConstant.ofJson? (h (arr (t.enumConstants.map EnumConstant.toJson))) =
      some t.enumConstants :=
    keeps.list fun c hc =>
      EnumConstant.ofJson?_toJson keeps fun l hl => constants l (List.mem_flatMap_of_mem hc hl)
  rw [TypeHead.wrap, keeps.obj]
  show (do
    return TypeDecl.mk
      (TypeHead.mk (← NodeId.ofJson? (h t.id.toJson)) (← Span.ofJson? (h t.span.toJson))
        (← TypeKind.ofJson? (h t.kind.toJson)) (← string? (h (str t.name)))
        (← Modifiers.ofJson? (h t.modifiers.toJson))
        (← nullable? TypeName.ofJson? (h (ofOption TypeName.toJson t.superclass)))
        (← nullable? TypeId.ofJson? (h (ofOption TypeId.toJson t.binding)))
        (← list? EnumConstant.ofJson? (h (arr (t.enumConstants.map EnumConstant.toJson)))))
      (← list? (Member.readWith statement type) (h (arr js)))) = _
  rw [NodeId.ofJson?_toJson keeps, Span.ofJson?_toJson keeps, TypeKind.ofJson?_toJson keeps,
    keeps.string, Modifiers.ofJson?_toJson keeps, superclass, TypeId.nullable keeps binding,
      constants, inner]
  rfl

/-- A statement is read if its case is. -/
theorem Stmt.read_wrap {i : NodeInfo} {k : Json} {s : Stmt} {fuel : Nat}
    (deep : (h (i.wrap k)).depth ≤ fuel)
    (kind : ∀ n, (h k).depth ≤ n → Stmt.readKind (Stmt.read n) (TypeDecl.read n) i (h k) = some s) :
    Stmt.read fuel (h (i.wrap k)) = some s := by
  have inner : (h k).depth < fuel := keeps.depth_field deep 2 rfl
  obtain ⟨n, rfl⟩ := Nat.exists_eq_add_one.mpr (Nat.zero_lt_of_lt inner)
  rw [NodeInfo.wrap, keeps.obj, Stmt.read, Stmt.readWith, fields?, Option.bind_eq_bind,
    Option.bind_some, NodeInfo.ofFields?_header keeps i]
  · exact kind n (Nat.le_of_lt_succ inner)
  · rfl
  · rfl

/-! ## Statements, members and types -/

mutual

theorem Block.read_toJson :
    ∀ (b : Block) (n : Nat), (h b.toJson).depth ≤ n → (∀ l ∈ b.leaves, l.ReadBy h) →
      Block.readWith (Stmt.read n) (h b.toJson) = some b
  | ⟨_, ss⟩, n, deep, fit =>
    Block.readWith_blockJson keeps
      (Stmt.list_toJsons ss n (Nat.le_of_lt (keeps.depth_field deep 2 rfl)) fit)

/-- A statement is read back with fuel for its levels. The walks over statements and declarations
prove it together, with the fuel as it is handed down. -/
theorem Stmt.read_toJson :
    ∀ (s : Stmt) (fuel : Nat), (h s.toJson).depth ≤ fuel → (∀ l ∈ s.leaves, l.ReadBy h) →
      Stmt.read fuel (h s.toJson) = some s
  | .expression i e, _, deep, fit => by
    refine Stmt.read_wrap keeps deep fun n _ => ?_
    rw [keeps.tagged]
    show (Expr.ofJson? (h e.toJson)).map (Stmt.expression i) = _
    rw [Expr.ofJson?_toJson keeps fit]
    rfl
  | .localVariable i m t fs, _, deep, fit => by
    obtain ⟨type, fragments⟩ := List.forall_mem_append.mp fit
    refine Stmt.read_wrap keeps deep fun n _ => ?_
    rw [keeps.tagged, keeps.obj]
    show (do
      return Stmt.localVariable i (← Modifiers.ofJson? (h m.toJson))
        (← TypeRef.ofJson? (h t.toJson))
        (← list? Fragment.ofJson? (h (arr (fs.map Fragment.toJson))))) = _
    rw [Modifiers.ofJson?_toJson keeps, TypeRef.ofJson?_toJson keeps type,
      Fragment.list keeps fragments]
    rfl
  | .block i b, _, deep, fit => by
    refine Stmt.read_wrap keeps deep fun n deep => ?_
    have body := Block.read_toJson b n (Nat.le_of_lt (keeps.depth_tagged deep)) fit
    rw [keeps.tagged]
    show (Block.readWith (Stmt.read n) (h b.toJson)).map (Stmt.block i) = _
    rw [body]
    rfl
  -- A part that is missing is written as `null`, which is no document of a statement.
  | .ifElse i c t none, _, deep, fit => by
    obtain ⟨condition, positive⟩ := List.forall_mem_append.mp fit
    refine Stmt.read_wrap keeps deep fun n deep => ?_
    have positive := Stmt.read_toJson t n (keeps.depth_part deep 1 rfl) positive
    rw [keeps.tagged, keeps.obj]
    show (do
      return Stmt.ifElse i (← Expr.ofJson? (h c.toJson)) (← Stmt.read n (h t.toJson))
        (← nullable? (Stmt.read n) (h null))) = _
    rw [Expr.ofJson?_toJson keeps condition, positive, keeps.null]
    rfl
  | .ifElse i c t (some e), _, deep, fit => by
    obtain ⟨others, otherwise⟩ := List.forall_mem_append.mp fit
    obtain ⟨condition, positive⟩ := List.forall_mem_append.mp others
    refine Stmt.read_wrap keeps deep fun n deep => ?_
    have positive := Stmt.read_toJson t n (keeps.depth_part deep 1 rfl) positive
    have otherwise := nullable?_of_some (Stmt.read_null n)
      (Stmt.read_toJson e n (keeps.depth_part deep 2 rfl) otherwise)
    rw [keeps.tagged, keeps.obj]
    show (do
      return Stmt.ifElse i (← Expr.ofJson? (h c.toJson)) (← Stmt.read n (h t.toJson))
        (← nullable? (Stmt.read n) (h e.toJson))) = _
    rw [Expr.ofJson?_toJson keeps condition, positive, otherwise]
    rfl
  | .whileLoop i c b, _, deep, fit => by
    obtain ⟨condition, body⟩ := List.forall_mem_append.mp fit
    refine Stmt.read_wrap keeps deep fun n deep => ?_
    have body := Stmt.read_toJson b n (keeps.depth_part deep 1 rfl) body
    rw [keeps.tagged, keeps.obj]
    show (do return Stmt.whileLoop i (← Expr.ofJson? (h c.toJson)) (← Stmt.read n (h b.toJson))) = _
    rw [Expr.ofJson?_toJson keeps condition, body]
    rfl
  | .forLoop i init c us b, _, deep, fit => by
    obtain ⟨others, body⟩ := List.forall_mem_append.mp fit
    obtain ⟨others, updates⟩ := List.forall_mem_append.mp others
    obtain ⟨start, condition⟩ := List.forall_mem_append.mp others
    refine Stmt.read_wrap keeps deep fun n deep => ?_
    have start := Stmt.list_toJsons init n (keeps.depth_part deep 0 rfl) start
    have body := Stmt.read_toJson b n (keeps.depth_part deep 3 rfl) body
    rw [keeps.tagged, keeps.obj]
    show (do
      return Stmt.forLoop i (← list? (Stmt.read n) (h (arr (Stmt.toJsons init))))
        (← nullable? Expr.ofJson? (h (ofOption Expr.toJson c)))
        (← list? Expr.ofJson? (h (arr (Expr.toJsons us)))) (← Stmt.read n (h b.toJson))) = _
    rw [start, Expr.nullable keeps condition, Expr.ofJson?_toJsons keeps updates, body]
    rfl
  | .tryCatch i b cs none, _, deep, fit => by
    obtain ⟨body, catches⟩ := List.forall_mem_append.mp fit
    refine Stmt.read_wrap keeps deep fun n deep => ?_
    have body := Block.read_toJson b n (keeps.depth_part deep 0 rfl) body
    have catches := CatchClause.list_toJsons cs n (keeps.depth_part deep 1 rfl) catches
    rw [keeps.tagged, keeps.obj]
    show (do
      return Stmt.tryCatch i (← Block.readWith (Stmt.read n) (h b.toJson))
        (← list? (CatchClause.readWith (Stmt.read n)) (h (arr (CatchClause.toJsons cs))))
        (← nullable? (Block.readWith (Stmt.read n)) (h null))) = _
    rw [body, catches, keeps.null]
    rfl
  | .tryCatch i b cs (some f), _, deep, fit => by
    obtain ⟨others, final⟩ := List.forall_mem_append.mp fit
    obtain ⟨body, catches⟩ := List.forall_mem_append.mp others
    refine Stmt.read_wrap keeps deep fun n deep => ?_
    have body := Block.read_toJson b n (keeps.depth_part deep 0 rfl) body
    have catches := CatchClause.list_toJsons cs n (keeps.depth_part deep 1 rfl) catches
    have final := nullable?_of_some rfl (Block.read_toJson f n (keeps.depth_part deep 2 rfl) final)
    rw [keeps.tagged, keeps.obj]
    show (do
      return Stmt.tryCatch i (← Block.readWith (Stmt.read n) (h b.toJson))
        (← list? (CatchClause.readWith (Stmt.read n)) (h (arr (CatchClause.toJsons cs))))
        (← nullable? (Block.readWith (Stmt.read n)) (h f.toJson))) = _
    rw [body, catches, final]
    rfl
  | .returnValue i e, _, deep, fit => by
    refine Stmt.read_wrap keeps deep fun n _ => ?_
    rw [keeps.tagged]
    show (nullable? Expr.ofJson? (h (ofOption Expr.toJson e))).map (Stmt.returnValue i) = _
    rw [Expr.nullable keeps fit]
    rfl
  | .throwValue i e, _, deep, fit => by
    refine Stmt.read_wrap keeps deep fun n _ => ?_
    rw [keeps.tagged]
    show (Expr.ofJson? (h e.toJson)).map (Stmt.throwValue i) = _
    rw [Expr.ofJson?_toJson keeps fit]
    rfl
  | .superCall i as b, _, deep, fit => by
    obtain ⟨arguments, binding⟩ := List.forall_mem_append.mp fit
    refine Stmt.read_wrap keeps deep fun n _ => ?_
    rw [keeps.tagged, constructorCallJson, keeps.obj]
    show (do
      return Stmt.superCall i (← list? Expr.ofJson? (h (arr (Expr.toJsons as))))
        (← nullable? MethodId.ofJson? (h (ofOption MethodId.toJson b)))) = _
    rw [Expr.ofJson?_toJsons keeps arguments, MethodId.nullable keeps binding]
    rfl
  | .thisCall i as b, _, deep, fit => by
    obtain ⟨arguments, binding⟩ := List.forall_mem_append.mp fit
    refine Stmt.read_wrap keeps deep fun n _ => ?_
    rw [keeps.tagged, constructorCallJson, keeps.obj]
    show (do
      return Stmt.thisCall i (← list? Expr.ofJson? (h (arr (Expr.toJsons as))))
        (← nullable? MethodId.ofJson? (h (ofOption MethodId.toJson b)))) = _
    rw [Expr.ofJson?_toJsons keeps arguments, MethodId.nullable keeps binding]
    rfl
  -- The type inside is smaller than the statement: the three kinds of trees are read in one
  -- induction.
  | .localType i d, _, deep, fit => by
    refine Stmt.read_wrap keeps deep fun n deep => ?_
    have decl := TypeDecl.read_toJson d n (Nat.le_of_lt (keeps.depth_tagged deep)) fit
    rw [keeps.tagged]
    show (TypeDecl.read n (h d.toJson)).map (Stmt.localType i) = _
    rw [decl]
    rfl
  | .empty i, _, deep, _ => by
    refine Stmt.read_wrap keeps deep fun n _ => ?_
    rw [keeps.str]
    rfl

theorem Stmt.list_toJsons : ∀ (ss : List Stmt) (n : Nat), (h (arr (Stmt.toJsons ss))).depth ≤ n →
    (∀ l ∈ Stmt.leavesOf ss, l.ReadBy h) → list? (Stmt.read n) (h (arr (Stmt.toJsons ss))) = some ss
  | [], _, _, _ => by
    rw [Stmt.toJsons, keeps.arr]
    rfl
  | s :: ss, n, deep, fit => by
    obtain ⟨one, others⟩ := List.forall_mem_append.mp fit
    have one := Stmt.read_toJson s n (Nat.le_of_lt (keeps.depth_item deep List.mem_cons_self)) one
    have others := Stmt.list_toJsons ss n (keeps.depth_rest deep) others
    exact keeps.list_cons one others

theorem CatchClause.list_toJsons : ∀ (cs : List CatchClause) (n : Nat),
    (h (arr (CatchClause.toJsons cs))).depth ≤ n → (∀ l ∈ CatchClause.leavesOf cs, l.ReadBy h) →
    list? (CatchClause.readWith (Stmt.read n)) (h (arr (CatchClause.toJsons cs))) = some cs
  | [], _, _, _ => by
    rw [CatchClause.toJsons, keeps.arr]
    rfl
  | ⟨sp, x, b⟩ :: cs, n, deep, fit => by
    obtain ⟨one, others⟩ := List.forall_mem_append.mp fit
    obtain ⟨exception, body⟩ := List.forall_mem_append.mp one
    have clause := keeps.depth_item deep List.mem_cons_self
    have body := Block.read_toJson b n
      (Nat.le_of_lt (keeps.depth_field (Nat.le_of_lt clause) 2 rfl)) body
    have others := CatchClause.list_toJsons cs n (keeps.depth_rest deep) others
    refine keeps.list_cons ?_ others
    rw [keeps.obj]
    show (do
      return CatchClause.mk (← Span.ofJson? (h sp.toJson)) (← Parameter.ofJson? (h x.toJson))
        (← Block.readWith (Stmt.read n) (h b.toJson))) = _
    rw [Span.ofJson?_toJson keeps, Parameter.ofJson?_toJson keeps exception, body]
    rfl

/-- A member is read back with fuel for its levels. -/
theorem Member.read_toJson :
    ∀ (m : Member) (n : Nat), (h m.toJson).depth ≤ n → (∀ l ∈ m.leaves, l.ReadBy h) →
      Member.readWith (Stmt.read n) (TypeDecl.read n) (h m.toJson) = some m
  | .type d, n, deep, fit => by
    have decl := TypeDecl.read_toJson d n (Nat.le_of_lt (keeps.depth_tagged deep)) fit
    rw [Member.toJson, keeps.tagged]
    show (TypeDecl.read n (h d.toJson)).map Member.type = _
    rw [decl]
    rfl
  | .method ⟨m, none⟩, n, _, fit => by
    rw [Member.toJson, keeps.tagged]
    show (MethodDecl.readWith (Stmt.read n) (h (m.wrap null))).map Member.method = _
    rw [MethodDecl.readWith_wrap keeps fit (by rw [keeps.null]; rfl)]
    rfl
  | .method ⟨m, some b⟩, n, deep, fit => by
    obtain ⟨head, body⟩ := List.forall_mem_append.mp fit
    have body := Block.read_toJson b n (keeps.depth_part deep 7 rfl) body
    rw [Member.toJson, keeps.tagged]
    show (MethodDecl.readWith (Stmt.read n) (h (m.wrap b.toJson))).map Member.method = _
    rw [MethodDecl.readWith_wrap keeps head (nullable?_of_some rfl body)]
    rfl
  | .initializer ⟨i, st, b⟩, n, deep, fit => by
    have body := Block.read_toJson b n (keeps.depth_part deep 3 rfl) fit
    rw [Member.toJson, keeps.tagged, keeps.obj]
    show (InitializerDecl.readWith (Stmt.read n) _).map Member.initializer = _
    rw [InitializerDecl.readWith, fields?, Option.bind_eq_bind, Option.bind_some,
      NodeInfo.ofFields?_header keeps i]
    · show (do
        return InitializerDecl.mk i (← bool? (h (Json.bool st)))
          (← Block.readWith (Stmt.read n) (h b.toJson))).map Member.initializer = _
      rw [keeps.boolean, body]
      rfl
    · rfl
    · rfl
  | .field f, _, _, fit => by
    rw [Member.toJson, keeps.tagged]
    show (FieldDecl.ofJson? (h f.toJson)).map Member.field = _
    rw [FieldDecl.ofJson?_toJson keeps fit]
    rfl

theorem Member.list_toJsons :
    ∀ (ms : List Member) (n : Nat), (h (arr (Member.toJsons ms))).depth ≤ n →
    (∀ l ∈ Member.leavesOf ms, l.ReadBy h) →
    list? (Member.readWith (Stmt.read n) (TypeDecl.read n)) (h (arr (Member.toJsons ms))) = some ms
  | [], _, _, _ => by
    rw [Member.toJsons, keeps.arr]
    rfl
  | m :: ms, n, deep, fit => by
    obtain ⟨one, others⟩ := List.forall_mem_append.mp fit
    have one := Member.read_toJson m n (Nat.le_of_lt (keeps.depth_item deep List.mem_cons_self)) one
    have others := Member.list_toJsons ms n (keeps.depth_rest deep) others
    exact keeps.list_cons one others

theorem TypeDecl.read_toJson : ∀ (d : TypeDecl) (fuel : Nat), (h d.toJson).depth ≤ fuel →
    (∀ l ∈ d.leaves, l.ReadBy h) → TypeDecl.read fuel (h d.toJson) = some d
  | ⟨t, ms⟩, fuel, deep, fit => by
    obtain ⟨head, members⟩ := List.forall_mem_append.mp fit
    have inner : (h (arr (Member.toJsons ms))).depth < fuel := keeps.depth_field deep 8 rfl
    obtain ⟨n, rfl⟩ := Nat.exists_eq_add_one.mpr (Nat.zero_lt_of_lt inner)
    exact TypeDecl.readWith_wrap keeps head
      (Member.list_toJsons ms n (Nat.le_of_lt_succ inner) members)

end

/-- Types are read back. -/
theorem TypeDecl.ofJson?_toJson {d : TypeDecl} (fit : ∀ l ∈ d.leaves, l.ReadBy h) :
    TypeDecl.ofJson? (h d.toJson) = some d := TypeDecl.read_toJson keeps d _ (Nat.le_refl _) fit

/-! ## Units -/

/-- Whatever becomes of the document, a unit is read back from it if its leaves are. -/
theorem CompilationUnit.ofJson?_of_preserves {u : CompilationUnit}
    (fit : ∀ l ∈ u.leaves, l.ReadBy h) :
    CompilationUnit.ofJson? (h u.toJson) = some u := by
  have package : nullable? string? (h (ofOption str u.package)) = some u.package :=
    keeps.nullable rfl fun s _ => keeps.string s
  have types : list? TypeDecl.ofJson? (h (arr (u.types.map TypeDecl.toJson))) = some u.types :=
    keeps.list fun d hd => TypeDecl.ofJson?_toJson keeps fun l hl =>
      fit l (List.mem_flatMap_of_mem hd hl)
  rw [CompilationUnit.toJson, keeps.obj]
  show (do
    return CompilationUnit.mk (← string? (h (str u.fileName)))
      (← nullable? string? (h (ofOption str u.package)))
      (← list? TypeDecl.ofJson? (h (arr (u.types.map TypeDecl.toJson))))
        (← IdSupply.ofJson? (h u.supply.toJson))) = _
  rw [keeps.string, package, types, IdSupply.ofJson?_toJson keeps]
  rfl

end

end ClassInit
