import ClassInit.Proofs.Document.Yields

/-!
# What documents denote

Whatever a unit is read from, its handles are 32-bit numbers, and its floating-point numbers are
finite if they were read from decimals (`CompilationUnit.yields`). So a document holds nothing that
it could not be written for.
-/

set_option autoImplicit false

namespace ClassInit

open Json Leaf

/-! ## Expressions -/

/-- The id, the span and the type of an expression are read with leaves that fit. -/
theorem ExprInfo.yields {fs : List (String × Json)} {i : ExprInfo} (plain : ArePlainFields fs)
    (reads : ExprInfo.ofFields? fs = some i) : AllFit i.leaves := by
  simp only [ExprInfo.ofFields?, bind_eq_some, pure_eq_some] at reads
  obtain ⟨id, -, span, -, type, reads, rfl⟩ := reads
  exact TypeRef.yields.nullableField plain reads

/-- The leaves of a list are those of its expressions. -/
theorem Expr.leavesOf_eq (es : List Expr) : Expr.leavesOf es = es.flatMap Expr.leaves := by
  induction es with
  | nil => rfl
  | cons e es ih => exact congrArg (e.leaves ++ ·) ih

theorem Expr.yields_list {read : Json → Option Expr} (yields : Yields read Expr.leaves) :
    Yields (list? read) Expr.leavesOf := by
  intro j es plain reads
  rw [Expr.leavesOf_eq]
  exact yields.list plain reads

/-- One level of an expression: given its parts, each kind is read with leaves that fit. -/
theorem Expr.readKind_yields {read : Json → Option Expr} (yields : Yields read Expr.leaves)
    {i : ExprInfo} (info : AllFit i.leaves) : Yields (Expr.readKind read i) Expr.leaves := by
  intro j e plain reads
  unfold Expr.readKind at reads
  -- First the cases with one part or none, then by tag those with an object of fields.
  split at reads
  next =>
    cases reads
    exact info
  next =>
    cases reads
    exact info
  next => cases reads
  next => cases reads
  next literal =>
    obtain ⟨v, one, rfl⟩ := Option.map_eq_some_iff.mp reads
    exact info.append (Literal.yields (isPlain_case? plain literal) one)
  next inner =>
    obtain ⟨e, one, rfl⟩ := Option.map_eq_some_iff.mp reads
    exact info.append (yields (isPlain_case? plain inner) one)
  next tag data _ _ _ case =>
    simp only [bind_eq_some] at reads
    obtain ⟨fs, object, reads⟩ := reads
    have plain := isPlain_fields? (isPlain_case? plain case) object
    split at reads
    any_goals simp only [bind_eq_some, pure_eq_some] at reads
    next name =>
      obtain ⟨n, -, b, binding, rfl⟩ := reads
      exact info.append (VariableId.yields.handle plain binding)
    next fieldAccess =>
      obtain ⟨t, target, n, -, b, binding, rfl⟩ := reads
      exact (info.append (yields.required plain target)).append
        (VariableId.yields.handle plain binding)
    next unary =>
      obtain ⟨op, -, e, operand, rfl⟩ := reads
      exact info.append (yields.required plain operand)
    next step =>
      obtain ⟨op, -, e, operand, rfl⟩ := reads
      exact info.append (yields.required plain operand)
    next binary =>
      obtain ⟨op, -, l, left, r, right, rfl⟩ := reads
      exact (info.append (yields.required plain left)).append (yields.required plain right)
    next conditional =>
      obtain ⟨c, condition, t, first, e, second, rfl⟩ := reads
      exact ((info.append (yields.required plain condition)).append
        (yields.required plain first)).append
        (yields.required plain second)
    next cast =>
      obtain ⟨t, type, e, operand, rfl⟩ := reads
      exact (info.append (TypeRef.yields.required plain type)).append
        (yields.required plain operand)
    next assignment =>
      obtain ⟨op, -, l, left, r, right, rfl⟩ := reads
      exact (info.append (yields.required plain left)).append (yields.required plain right)
    next call =>
      obtain ⟨r, receiver, n, -, as, arguments, b, binding, rfl⟩ := reads
      have arguments := (Expr.yields_list yields).withDefault plain arguments allFit_nil
      have binding := MethodId.yields.handle plain binding
      cases r with
      | none => exact (info.append arguments).append binding
      | some r =>
        have receiver : AllFit r.leaves := by simpa using yields.nullableField plain receiver
        exact ((info.append receiver).append arguments).append binding
    next new =>
      obtain ⟨t, type, as, arguments, b, binding, rfl⟩ := reads
      exact ((info.append (TypeName.yields.required plain type)).append
        ((Expr.yields_list yields).withDefault plain arguments allFit_nil)).append
          (MethodId.yields.handle plain binding)
    next => cases reads

/-- Expressions are read level by level; the induction is on the levels that are left. -/
theorem Expr.read_yields : ∀ fuel, Yields (Expr.read fuel) Expr.leaves
  | 0 => fun _ _ _ reads => nomatch reads
  | fuel + 1 => by
    intro j e plain reads
    simp only [Expr.read, bind_eq_some] at reads
    obtain ⟨fs, object, i, info, kind⟩ := reads
    have plain := isPlain_fields? plain object
    exact (Expr.readKind_yields (Expr.read_yields fuel) (ExprInfo.yields plain info)).required
      plain kind

theorem Expr.yields : Yields Expr.ofJson? Expr.leaves := fun _ _ plain reads =>
  Expr.read_yields _ plain reads

/-! ## Parts without statements -/

theorem Parameter.yields : Yields Parameter.ofJson? Parameter.leaves := by
  intro j p plain reads
  simp only [Parameter.ofJson?, bind_eq_some, pure_eq_some] at reads
  obtain ⟨fs, object, n, -, t, type, b, binding, rfl⟩ := reads
  have plain := isPlain_fields? plain object
  exact (TypeRef.yields.required plain type).append (VariableId.yields.handle plain binding)

theorem Fragment.yields : Yields Fragment.ofJson? Fragment.leaves := by
  intro j f plain reads
  simp only [Fragment.ofJson?, bind_eq_some, pure_eq_some] at reads
  obtain ⟨fs, object, s, -, n, -, e, initializer, b, binding, rfl⟩ := reads
  have plain := isPlain_fields? plain object
  exact (Expr.yields.nullableField plain initializer).append
    (VariableId.yields.handle plain binding)

theorem EnumConstant.yields : Yields EnumConstant.ofJson? EnumConstant.leaves := by
  intro j c plain reads
  simp only [EnumConstant.ofJson?, bind_eq_some, pure_eq_some] at reads
  obtain ⟨fs, object, n, -, as, arguments, s, -, rfl⟩ := reads
  exact (Expr.yields_list Expr.yields).withDefault (isPlain_fields? plain object) arguments
    allFit_nil

/-- A field that is read fits with all its variables. -/
theorem FieldDecl.yields : Yields FieldDecl.ofJson? FieldDecl.leaves := by
  intro j f plain reads
  simp only [FieldDecl.ofJson?, bind_eq_some, pure_eq_some] at reads
  obtain ⟨fs, object, id, -, s, -, m, -, t, type, ds, fragments, rfl⟩ := reads
  have plain := isPlain_fields? plain object
  exact (TypeRef.yields.required plain type).append (Fragment.yields.list.required plain fragments)

/-! ## Statements and declarations -/

theorem Stmt.leavesOf_eq (ss : List Stmt) : Stmt.leavesOf ss = ss.flatMap Stmt.leaves := by
  induction ss with
  | nil => rfl
  | cons s ss ih => exact congrArg (s.leaves ++ ·) ih

theorem CatchClause.leavesOf_eq (cs : List CatchClause) :
    CatchClause.leavesOf cs = cs.flatMap fun c => CatchClause.leavesOf [c] := by
  induction cs with
  | nil => rfl
  | cons c cs ih =>
    obtain ⟨s, x, b⟩ := c
    rw [List.flatMap_cons, ← ih]
    show x.leaves ++ b.leaves ++ CatchClause.leavesOf cs =
      x.leaves ++ b.leaves ++ [] ++ CatchClause.leavesOf cs
    rw [List.append_nil]

theorem Member.leavesOf_eq (ms : List Member) : Member.leavesOf ms = ms.flatMap Member.leaves := by
  induction ms with
  | nil => rfl
  | cons m ms ih => exact congrArg (m.leaves ++ ·) ih

section

variable {statement : Json → Option Stmt} {type : Json → Option TypeDecl}
  (statements : Yields statement Stmt.leaves)

include statements

theorem Stmt.yields_list : Yields (list? statement) Stmt.leavesOf := by
  intro j ss plain reads
  rw [Stmt.leavesOf_eq]
  exact statements.list plain reads

/-- A block that is read fits if its statements do. -/
theorem Block.yields : Yields (Block.readWith statement) Block.leaves := by
  intro j b plain reads
  simp only [Block.readWith, bind_eq_some, pure_eq_some] at reads
  obtain ⟨fs, object, i, -, ss, inner, rfl⟩ := reads
  exact (Stmt.yields_list statements).withDefault (isPlain_fields? plain object) inner allFit_nil

/-- A catch clause that is read fits if the statements in it do. -/
theorem CatchClause.yields :
    Yields (CatchClause.readWith statement) fun c => CatchClause.leavesOf [c] := by
  intro j c plain reads
  simp only [CatchClause.readWith, bind_eq_some, pure_eq_some] at reads
  obtain ⟨fs, object, s, -, x, exception, b, body, rfl⟩ := reads
  have plain := isPlain_fields? plain object
  exact ((Parameter.yields.required plain exception).append
    ((Block.yields statements).required plain body)).append
    allFit_nil

theorem CatchClause.yields_list :
    Yields (list? (CatchClause.readWith statement)) CatchClause.leavesOf := by
  intro j cs plain reads
  rw [CatchClause.leavesOf_eq]
  exact (CatchClause.yields statements).list plain reads

/-- One level of a statement: given its parts, each kind is read with leaves that fit. -/
theorem Stmt.readKind_yields (types : Yields type TypeDecl.leaves) (i : NodeInfo) :
    Yields (Stmt.readKind statement type i) Stmt.leaves := by
  intro j s plain reads
  unfold Stmt.readKind at reads
  -- As for expressions: by the form of the case, then by its tag.
  split at reads
  next =>
    cases reads
    exact allFit_nil
  next =>
    cases reads
    exact allFit_nil
  next => cases reads
  next => cases reads
  next expression => exact Expr.yields.map (isPlain_case? plain expression) reads fun _ => rfl
  next block => exact (Block.yields statements).map (isPlain_case? plain block) reads fun _ => rfl
  next value => exact Expr.yields.nullable.map (isPlain_case? plain value) reads fun _ => rfl
  next value => exact Expr.yields.map (isPlain_case? plain value) reads fun _ => rfl
  next declaration => exact types.map (isPlain_case? plain declaration) reads fun _ => rfl
  next tag data _ _ _ _ _ _ case =>
    simp only [bind_eq_some] at reads
    obtain ⟨fs, object, reads⟩ := reads
    have plain := isPlain_fields? (isPlain_case? plain case) object
    split at reads
    any_goals simp only [bind_eq_some, pure_eq_some] at reads
    next localVariable =>
      obtain ⟨m, -, t, type, ds, fragments, rfl⟩ := reads
      exact (TypeRef.yields.required plain type).append
        (Fragment.yields.list.required plain fragments)
    next ifElse =>
      obtain ⟨c, condition, t, first, e, second, rfl⟩ := reads
      have both := (Expr.yields.required plain condition).append (statements.required plain first)
      cases e with
      | none => exact both
      | some e =>
        have second : AllFit e.leaves := by simpa using statements.nullableField plain second
        exact both.append second
    next whileLoop =>
      obtain ⟨c, condition, b, body, rfl⟩ := reads
      exact (Expr.yields.required plain condition).append (statements.required plain body)
    next forLoop =>
      obtain ⟨ss, init, c, condition, us, updates, b, body, rfl⟩ := reads
      exact ((((Stmt.yields_list statements).withDefault plain init allFit_nil).append
        (Expr.yields.nullableField plain condition)).append
        ((Expr.yields_list Expr.yields).withDefault plain updates allFit_nil)).append
          (statements.required plain body)
    next tryCatch =>
      obtain ⟨b, body, cs, catches, f, last, rfl⟩ := reads
      have both := ((Block.yields statements).required plain body).append
        ((CatchClause.yields_list statements).withDefault plain catches allFit_nil)
      cases f with
      | none => exact both
      | some f =>
        have last : AllFit f.leaves := by
          simpa using (Block.yields statements).nullableField plain last
        exact both.append last
    next superCall =>
      obtain ⟨as, arguments, b, binding, rfl⟩ := reads
      exact ((Expr.yields_list Expr.yields).withDefault plain arguments allFit_nil).append
        (MethodId.yields.handle plain binding)
    next thisCall =>
      obtain ⟨as, arguments, b, binding, rfl⟩ := reads
      exact ((Expr.yields_list Expr.yields).withDefault plain arguments allFit_nil).append
        (MethodId.yields.handle plain binding)
    next => cases reads

theorem Stmt.readWith_yields (types : Yields type TypeDecl.leaves) :
    Yields (Stmt.readWith statement type) Stmt.leaves := by
  intro j s plain reads
  simp only [Stmt.readWith, bind_eq_some] at reads
  obtain ⟨fs, object, i, -, kind⟩ := reads
  exact (Stmt.readKind_yields statements types i).required (isPlain_fields? plain object) kind

/-- A method that is read fits if the statements in it do. -/
theorem MethodDecl.yields :
    Yields (MethodDecl.readWith statement) fun m => (Member.method m).leaves := by
  intro j m plain reads
  simp only [MethodDecl.readWith, bind_eq_some, pure_eq_some] at reads
  obtain ⟨fs, object, id, -, s, -, n, -, m, -, t, type, ps, parameters, c, -, h, binding, y, -, b,
    body, rfl⟩ := reads
  have plain := isPlain_fields? plain object
  have head := ((TypeRef.yields.withDefault plain type allFit_nil).append
    (Parameter.yields.list.withDefault plain parameters allFit_nil)).append
      (MethodId.yields.handle plain binding)
  cases b with
  | none => exact head
  | some b =>
    have body : AllFit b.leaves := by simpa using (Block.yields statements).nullableField plain body
    exact head.append body

theorem InitializerDecl.yields :
    Yields (InitializerDecl.readWith statement) fun i => (Member.initializer i).leaves := by
  intro j i plain reads
  simp only [InitializerDecl.readWith, bind_eq_some, pure_eq_some] at reads
  obtain ⟨fs, object, i, -, s, -, b, body, rfl⟩ := reads
  exact (Block.yields statements).required (isPlain_fields? plain object) body

/-- A member of any kind fits if the statements and the types in it do. -/
theorem Member.yields (types : Yields type TypeDecl.leaves) :
    Yields (Member.readWith statement type) Member.leaves := by
  intro j m plain reads
  unfold Member.readWith at reads
  split at reads
  next declaration => exact types.map (isPlain_case? plain declaration) reads fun _ => rfl
  next method =>
    exact (MethodDecl.yields statements).map (isPlain_case? plain method) reads fun _ => rfl
  next block =>
    exact (InitializerDecl.yields statements).map (isPlain_case? plain block) reads fun _ => rfl
  next field => exact FieldDecl.yields.map (isPlain_case? plain field) reads fun _ => rfl
  next => cases reads

/-- A type that is read fits if the statements and the types in it do. -/
theorem TypeDecl.readWith_yields (types : Yields type TypeDecl.leaves) :
    Yields (TypeDecl.readWith statement type) TypeDecl.leaves := by
  intro j d plain reads
  simp only [TypeDecl.readWith, bind_eq_some, pure_eq_some] at reads
  obtain ⟨fs, object, id, -, s, -, k, -, n, -, m, -, e, superclass, b, binding, cs, constants, ms,
    members, rfl⟩ := reads
  have plain := isPlain_fields? plain object
  have head :=
    ((TypeName.yields.nullableField plain superclass).append
      (TypeId.yields.handle plain binding)).append
    (EnumConstant.yields.list.withDefault plain constants allFit_nil)
  have members := (Member.yields statements types).list.withDefault plain members allFit_nil
  rw [← Member.leavesOf_eq] at members
  exact head.append members

end

/-- Statements and types are read by one recursion, so both are shown at once. -/
theorem TypeDecl.read_yields :
    ∀ fuel, Yields (Stmt.read fuel) Stmt.leaves ∧ Yields (TypeDecl.read fuel) TypeDecl.leaves
  | 0 => ⟨fun _ _ _ reads => (nomatch reads), fun _ _ _ reads => nomatch reads⟩
  | fuel + 1 => by
    obtain ⟨statements, types⟩ := TypeDecl.read_yields fuel
    exact ⟨Stmt.readWith_yields statements types, TypeDecl.readWith_yields statements types⟩

theorem TypeDecl.yields : Yields TypeDecl.ofJson? TypeDecl.leaves := fun _ _ plain reads =>
  (TypeDecl.read_yields _).2 plain reads

/-- All leaves of a unit that was read fit. -/
theorem CompilationUnit.yields : Yields CompilationUnit.ofJson? CompilationUnit.leaves := by
  intro j u plain reads
  simp only [CompilationUnit.ofJson?, bind_eq_some, pure_eq_some] at reads
  obtain ⟨fs, object, n, -, p, -, ds, types, s, -, rfl⟩ := reads
  exact TypeDecl.yields.list.required (isPlain_fields? plain object) types

end ClassInit
