import ClassInit.Proofs.Tree.Plain

/-!
# Texts without line breaks

A tree whose names have no line break is printed on lines that have none (`Stmt.oneLine_lines`,
`TypeDecl.oneLine_lines`): a literal escapes its line breaks, and what stands in the header of a
`for` is on one line.
-/

set_option autoImplicit false

namespace ClassInit

open Text (oneLine oneLine_comma)

/-! ## Expressions and parts of lines -/

/-- The last part of a plain name is plain. -/
theorem TypeName.oneLine_simpleName (n : TypeName) (plain : n.isPlain = true) :
    oneLine n.simpleName = true := by
  apply Text.oneLine_of_subset _ plain
  intro c mem
  rw [List.mem_reverse] at mem
  exact List.mem_reverse.mp ((List.takeWhile_prefix _).subset mem)

/-- A type whose names are plain is written on one line. -/
theorem TypeRef.oneLine_text : ∀ (t : TypeRef), t.isPlain = true → oneLine t.text = true
  | .primitive p, _ => by cases p <;> rfl
  | .declared n, plain => n.oneLine_simpleName plain
  | .array e, plain => by
    rw [TypeRef.text, Text.oneLine_append, e.oneLine_text plain]
    rfl
  | .null, _ => rfl

theorem UnaryOp.oneLine_text (op : UnaryOp) : oneLine op.text = true := by cases op <;> rfl

theorem StepOp.oneLine_text (op : StepOp) : oneLine op.text = true := by cases op <;> rfl

theorem BinaryOp.oneLine_text (op : BinaryOp) : oneLine op.text = true := by cases op <;> rfl

theorem AssignOp.oneLine_text (op : AssignOp) : oneLine op.text = true := by cases op <;> rfl

mutual

/-- An expression whose names are plain is written on one line. -/
theorem Expr.oneLine_text : ∀ (e : Expr), e.isPlain = true → oneLine e.text = true
  | .literal _ v, _ => v.oneLine_text
  | .name .., plain => plain
  | .this _, _ => by
    rw [Expr.text]
    rfl
  | .fieldAccess _ t n _, plain => by
    simp only [Expr.isPlain, Bool.and_eq_true] at plain
    simp +decide [Expr.text, t.oneLine_text plain.1, plain.2]
  | .unary _ op e, plain => by simp [Expr.text, op.oneLine_text, e.oneLine_text plain]
  | .step _ op e, plain => by simp [Expr.text, op.oneLine_text, e.oneLine_text plain]
  | .binary _ op l r, plain => by
    simp only [Expr.isPlain, Bool.and_eq_true] at plain
    simp +decide [Expr.text, op.oneLine_text, l.oneLine_text plain.1, r.oneLine_text plain.2]
  | .conditional _ c t e, plain => by
    simp only [Expr.isPlain, Bool.and_eq_true] at plain
    simp +decide [Expr.text, c.oneLine_text plain.1.1, t.oneLine_text plain.1.2,
      e.oneLine_text plain.2]
  | .parenthesized _ e, plain => by simp +decide [Expr.text, e.oneLine_text plain]
  | .cast _ t e, plain => by
    simp only [Expr.isPlain, Bool.and_eq_true] at plain
    simp +decide [Expr.text, t.oneLine_text plain.1, e.oneLine_text plain.2]
  | .assignment _ op l r, plain => by
    simp only [Expr.isPlain, Bool.and_eq_true] at plain
    simp +decide [Expr.text, op.oneLine_text, l.oneLine_text plain.1, r.oneLine_text plain.2]
  | .call _ none n as _, plain => by
    simp only [Expr.isPlain, Bool.and_eq_true] at plain
    have arguments := Text.oneLine_intercalate oneLine_comma (Expr.oneLine_texts as plain.2)
    simp +decide [Expr.text, plain.1, arguments]
  | .call _ (some r) n as _, plain => by
    simp only [Expr.isPlain, Bool.and_eq_true] at plain
    have arguments := Text.oneLine_intercalate oneLine_comma (Expr.oneLine_texts as plain.2)
    simp +decide [Expr.text, r.oneLine_text plain.1.1, plain.1.2, arguments]
  | .new _ t as _, plain => by
    simp only [Expr.isPlain, Bool.and_eq_true] at plain
    have arguments := Text.oneLine_intercalate oneLine_comma (Expr.oneLine_texts as plain.2)
    simp +decide [Expr.text, t.oneLine_simpleName plain.1, arguments]

/-- So are the expressions of a list. -/
theorem Expr.oneLine_texts :
    ∀ (es : List Expr), Expr.allPlain es = true → ∀ t ∈ Expr.texts es, oneLine t = true
  | [], _ => nofun
  | e :: es, plain => by
    simp only [Expr.allPlain, Bool.and_eq_true] at plain
    exact List.forall_mem_cons.mpr ⟨e.oneLine_text plain.1, Expr.oneLine_texts es plain.2⟩

end

/-- The arguments of a call are written on one line. -/
theorem Expr.oneLine_argumentText (es : List Expr) (plain : Expr.allPlain es = true) :
    oneLine (Expr.argumentText es) = true :=
  Text.oneLine_intercalate oneLine_comma (Expr.oneLine_texts es plain)

/-- Modifiers are words with a space after each. -/
theorem Modifiers.oneLine_lead (m : Modifiers) : oneLine m.lead = true := by
  apply Text.oneLine_join
  intro t mem
  obtain ⟨word, known, rfl⟩ := List.mem_map.mp mem
  obtain ⟨modifier, _, rfl⟩ := List.mem_map.mp known
  cases modifier <;> rfl

theorem Fragment.oneLine_text (f : Fragment) (plain : f.isPlain = true) :
    oneLine f.text = true := by
  simp only [Fragment.isPlain, Bool.and_eq_true] at plain
  rw [Fragment.text]
  cases is : f.initializer with
  | none => exact plain.1
  | some e =>
    rw [is] at plain
    simp +decide [plain.1, e.oneLine_text plain.2]

/-- The declaration of a field or a local is one line if its names are plain. -/
theorem oneLine_declarationText (m : Modifiers) (t : TypeRef) (fs : List Fragment)
    (type : t.isPlain = true) (fragments : fs.all Fragment.isPlain = true) :
    oneLine (declarationText m t fs) = true := by
  have texts := Text.oneLine_commas fun (f : Fragment) mem =>
    f.oneLine_text (List.all_eq_true.mp fragments f mem)
  simp +decide [declarationText, m.oneLine_lead, t.oneLine_text type, texts]

theorem Parameter.oneLine_text (p : Parameter) (plain : p.isPlain = true) :
    oneLine p.text = true := by
  simp only [Parameter.isPlain, Bool.and_eq_true] at plain
  simp +decide [Parameter.text, plain.1, p.type.oneLine_text plain.2]

/-- The head of a method is one line if its names are plain and so is the name of its type. -/
theorem MethodHead.oneLine_text (h : MethodHead) {typeName : String} (plain : h.isPlain = true)
    (named : oneLine typeName = true) : oneLine (h.text typeName) = true := by
  simp only [MethodHead.isPlain, Bool.and_eq_true] at plain
  obtain ⟨⟨name, type⟩, parameters⟩ := plain
  have texts := Text.oneLine_commas fun (p : Parameter) mem =>
    p.oneLine_text (List.all_eq_true.mp parameters p mem)
  unfold MethodHead.text
  split
    <;> simp +decide [h.modifiers.oneLine_lead, named, h.returnType.oneLine_text type, name, texts]

theorem EnumConstant.oneLine_text (c : EnumConstant) (plain : c.isPlain = true) :
    oneLine c.text = true := by
  simp only [EnumConstant.isPlain, Bool.and_eq_true] at plain
  unfold EnumConstant.text
  split
  · exact plain.1
  · simp +decide [plain.1, Expr.oneLine_argumentText c.arguments plain.2]

/-- The head of a type is one line if its names are plain. -/
theorem TypeHead.oneLine_text (h : TypeHead) (plain : h.isPlain = true) :
    oneLine h.text = true := by
  simp only [TypeHead.isPlain, Bool.and_eq_true] at plain
  have keyword : oneLine h.kind.keyword = true := by cases h.kind <;> rfl
  have word := h.modifiers.oneLine_lead
  unfold TypeHead.text
  cases is : h.superclass with
  | none => simp +decide [word, keyword, plain.1.1]
  | some n =>
    have super := plain.1.2
    rw [is] at super
    simp +decide [word, keyword, plain.1.1, n.oneLine_simpleName super]

/-- The enum constants of a type stand on one line. -/
theorem TypeHead.oneLine_constants (h : TypeHead) (plain : h.isPlain = true) :
    oneLine (", ".intercalate (h.enumConstants.map EnumConstant.text) ++ ";") = true := by
  simp only [TypeHead.isPlain, Bool.and_eq_true] at plain
  have texts := Text.oneLine_commas fun (c : EnumConstant) mem =>
    c.oneLine_text (List.all_eq_true.mp plain.2 c mem)
  simp +decide [texts]

/-! ## Lines -/

namespace Line

variable {n : Nat} {head text : String} {isEmpty : Bool} {body ls : List Line}

/-- Whether no line has a line break in its text. -/
def AllOneLine (ls : List Line) : Prop := ∀ l ∈ ls, oneLine l.text = true

theorem allOneLine_cons {l : Line} (one : oneLine l.text = true) (rest : AllOneLine ls) :
    AllOneLine (l :: ls) :=
  List.forall_mem_cons.mpr ⟨one, rest⟩

theorem allOneLine_singleton (one : oneLine text = true) : AllOneLine [⟨n, text⟩] :=
  allOneLine_cons one nofun

theorem allOneLine_append {ls' : List Line} (first : AllOneLine ls) (last : AllOneLine ls') :
    AllOneLine (ls ++ ls') :=
  List.forall_mem_append.mpr ⟨first, last⟩

/-- A braced block of such lines consists of such lines. -/
theorem allOneLine_braced (one : oneLine head = true) (all : AllOneLine body) :
    AllOneLine (braced n head isEmpty body) := by
  unfold braced
  split
  · apply allOneLine_singleton
    simp +decide [one]
  · apply allOneLine_cons
    · simp +decide [one]
    · exact allOneLine_append all (allOneLine_singleton (by decide))

end Line

open Line

/-- A single line in the header of a `for`: its line break is a blank at its end. -/
theorem oneLine_headerText {text : String} (one : oneLine text = true) :
    oneLine (headerText [⟨0, text⟩]) = true := by
  have rendered :
      (renderAll defaultWidth [⟨0, text⟩]).toList.reverse = '\n' :: text.toList.reverse := by
    simp [renderAll, render]
  apply Text.oneLine_of_subset _ one
  intro c mem
  rw [trimmed, rendered, List.dropWhile_cons_of_pos (by decide), List.reverse_reverse,
    List.mem_reverse] at mem
  have inside := (List.dropWhile_suffix _).subset ((List.dropWhile_suffix _).subset mem)
  exact List.mem_reverse.mp inside

/-- The lines of a statement that may stand in the header of a `for`. -/
theorem Stmt.lines_of_isHeader : ∀ {s : Stmt}, s.isHeader = true → s.isPlain = true →
    ∃ text, (∀ n, s.lines n = [⟨n, text⟩]) ∧ oneLine text = true
  | .expression _ e, _, plain => by
    refine ⟨e.text ++ ";", fun n => rfl, ?_⟩
    simp +decide [e.oneLine_text plain]
  | .localVariable _ m t fs, _, plain => by
    simp only [Stmt.isPlain, Bool.and_eq_true] at plain
    refine ⟨declarationText m t fs ++ ";", fun n => rfl, ?_⟩
    simp +decide [oneLine_declarationText m t fs plain.1 plain.2]

/-- The statements in the head of a `for` loop are written on one line. -/
theorem Stmt.oneLine_headerTexts :
    ∀ (ss : List Stmt), ss.all Stmt.isHeader = true → Stmt.allPlain ss = true →
      ∀ t ∈ Stmt.headerTexts ss, oneLine t = true
  | [], _, _ => nofun
  | s :: ss, header, plain => by
    rw [List.all_cons, Bool.and_eq_true] at header
    rw [Stmt.allPlain, Bool.and_eq_true] at plain
    obtain ⟨text, lines, one⟩ := Stmt.lines_of_isHeader header.1 plain.1
    rw [Stmt.headerTexts, lines 0]
    exact List.forall_mem_cons.mpr
      ⟨oneLine_headerText one, Stmt.oneLine_headerTexts ss header.2 plain.2⟩

mutual

/-- No line of a plain statement has a break in it, at any level. -/
theorem Stmt.oneLine_lines : ∀ (s : Stmt), s.isPlain = true → ∀ n, AllOneLine (s.lines n)
  | .expression _ e, plain, n => by
    apply allOneLine_singleton
    simp +decide [e.oneLine_text plain]
  | .localVariable _ m t fs, plain, n => by
    simp only [Stmt.isPlain, Bool.and_eq_true] at plain
    apply allOneLine_singleton
    simp +decide [oneLine_declarationText m t fs plain.1 plain.2]
  | .block _ ⟨_, ss⟩, plain, n => allOneLine_braced rfl (Stmt.oneLine_linesOf ss plain (n + 1))
  | .ifElse _ c t none, plain, n => by
    simp only [Stmt.isPlain, Bool.and_eq_true] at plain
    apply allOneLine_cons
    · simp +decide [c.oneLine_text plain.1]
    · exact t.oneLine_lines plain.2 _
  | .ifElse _ c t (some e), plain, n => by
    simp only [Stmt.isPlain, Bool.and_eq_true] at plain
    rw [Stmt.lines]
    apply allOneLine_cons
    · simp +decide [c.oneLine_text plain.1.1]
    · apply allOneLine_append (t.oneLine_lines plain.1.2 _)
      exact allOneLine_cons (by simp +decide) (e.oneLine_lines plain.2 _)
  | .whileLoop _ c b, plain, n => by
    simp only [Stmt.isPlain, Bool.and_eq_true] at plain
    apply allOneLine_cons
    · simp +decide [c.oneLine_text plain.1]
    · exact b.oneLine_lines plain.2 _
  -- All three parts of the header of a `for` are on its first line.
  | .forLoop _ init c us b, plain, n => by
    simp only [Stmt.isPlain, Bool.and_eq_true] at plain
    obtain ⟨⟨⟨⟨header, inits⟩, condition⟩, updates⟩, body⟩ := plain
    apply allOneLine_cons
    · have texts :=
        Text.oneLine_intercalate oneLine_comma (Stmt.oneLine_headerTexts init header inits)
      have text : oneLine ((c.map Expr.text).getD "") = true := by
        cases c with
        | none => rfl
        | some e => exact e.oneLine_text condition
      simp +decide [texts, text, Expr.oneLine_argumentText us updates]
    · exact b.oneLine_lines body _
  | .tryCatch _ ⟨_, ss⟩ cs none, plain, n => by
    simp only [Stmt.isPlain, Block.isPlain, Bool.and_eq_true] at plain
    apply allOneLine_append
    · exact allOneLine_braced rfl (Stmt.oneLine_linesOf ss plain.1 _)
    · exact CatchClause.oneLine_linesOf cs plain.2 n
  | .tryCatch _ ⟨_, ss⟩ cs (some ⟨_, fs⟩), plain, n => by
    simp only [Stmt.isPlain, Block.isPlain, Bool.and_eq_true] at plain
    apply allOneLine_append
    · apply allOneLine_append
      · exact allOneLine_braced rfl (Stmt.oneLine_linesOf ss plain.1.1 _)
      · exact CatchClause.oneLine_linesOf cs plain.1.2 n
    · exact allOneLine_braced rfl (Stmt.oneLine_linesOf fs plain.2 _)
  | .returnValue _ none, _, n => allOneLine_singleton rfl
  | .returnValue _ (some e), plain, n => by
    apply allOneLine_singleton
    simp +decide [e.oneLine_text plain]
  | .throwValue _ e, plain, n => by
    apply allOneLine_singleton
    simp +decide [e.oneLine_text plain]
  | .superCall _ as _, plain, n => by
    apply allOneLine_singleton
    simp +decide [Expr.oneLine_argumentText as plain]
  | .thisCall _ as _, plain, n => by
    apply allOneLine_singleton
    simp +decide [Expr.oneLine_argumentText as plain]
  | .localType _ d, plain, n => d.oneLine_lines plain n
  | .empty _, _, n => allOneLine_singleton rfl

theorem Stmt.oneLine_linesOf :
    ∀ (ss : List Stmt), Stmt.allPlain ss = true → ∀ n, AllOneLine (Stmt.linesOf n ss)
  | [], _, n => nofun
  | s :: ss, plain, n => by
    simp only [Stmt.allPlain, Bool.and_eq_true] at plain
    exact allOneLine_append (s.oneLine_lines plain.1 n) (Stmt.oneLine_linesOf ss plain.2 n)

/-- No line of the catch clauses has one. -/
theorem CatchClause.oneLine_linesOf : ∀ (cs : List CatchClause), CatchClause.allPlain cs = true →
    ∀ n, AllOneLine (CatchClause.linesOf n cs)
  | [], _, n => nofun
  | ⟨_, x, ⟨_, ss⟩⟩ :: cs, plain, n => by
    simp only [CatchClause.allPlain, Block.isPlain, Bool.and_eq_true] at plain
    apply allOneLine_append
    · apply allOneLine_braced
      · simp +decide [x.oneLine_text plain.1.1]
      · exact Stmt.oneLine_linesOf ss plain.1.2 _
    · exact CatchClause.oneLine_linesOf cs plain.2 n

/-- No line of a plain member has a break in it if the name of its type is plain. -/
theorem Member.oneLine_lines {typeName : String} (named : oneLine typeName = true) :
    ∀ (m : Member), m.isPlain = true → ∀ n, AllOneLine (m.lines n typeName)
  | .type d, plain, n => d.oneLine_lines plain n
  | .field f, plain, n => by
    simp only [Member.isPlain, FieldDecl.isPlain, Bool.and_eq_true] at plain
    apply allOneLine_singleton
    simp +decide [oneLine_declarationText f.modifiers f.type f.fragments plain.1 plain.2]
  | .initializer ⟨_, isStatic, ⟨_, ss⟩⟩, plain, n => by
    apply allOneLine_braced
    · cases isStatic <;> rfl
    · exact Stmt.oneLine_linesOf ss plain _
  | .method ⟨h, none⟩, plain, n => by
    apply allOneLine_singleton
    simp +decide [h.oneLine_text plain named]
  | .method ⟨h, some ⟨_, ss⟩⟩, plain, n => by
    simp only [Member.isPlain, Block.isPlain, Bool.and_eq_true] at plain
    apply allOneLine_braced
    · simp +decide [h.oneLine_text plain.1 named]
    · exact Stmt.oneLine_linesOf ss plain.2 _

theorem Member.oneLine_linesOf {typeName : String} (named : oneLine typeName = true) :
    ∀ (ms : List Member), Member.allPlain ms = true → ∀ n, AllOneLine (Member.linesOf n typeName ms)
  | [], _, n => nofun
  | m :: ms, plain, n => by
    simp only [Member.allPlain, Bool.and_eq_true] at plain
    exact allOneLine_append (Member.oneLine_lines named m plain.1 n)
      (Member.oneLine_linesOf named ms plain.2 n)

/-- No line of a plain type has a break in it. -/
theorem TypeDecl.oneLine_lines : ∀ (d : TypeDecl), d.isPlain = true → ∀ n, AllOneLine (d.lines n)
  | ⟨h, ms⟩, plain, n => by
    simp only [TypeDecl.isPlain, Bool.and_eq_true] at plain
    have named : oneLine h.name = true := by
      have head := plain.1
      simp only [TypeHead.isPlain, Bool.and_eq_true] at head
      exact head.1.1
    rw [TypeDecl.lines]
    apply allOneLine_cons
    · exact h.oneLine_text plain.1
    · apply allOneLine_append
      · apply allOneLine_append
        · split
          · nofun
          · exact allOneLine_singleton (h.oneLine_constants plain.1)
        · exact Member.oneLine_linesOf named ms plain.2 _
      · exact allOneLine_singleton rfl

end

end ClassInit
