import ClassInit.Tree.DeclText

/-!
# What the text of a tree does not depend on

`unmarked` clears the node ids, the spans, the handles and the types recorded at expressions. It
keeps the lines of a statement and of a declaration (`Stmt.lines_unmarked`,
`TypeDecl.lines_unmarked`).
-/

set_option autoImplicit false

namespace ClassInit

/-! ## Clearing -/

def TypeName.unmarked (n : TypeName) : TypeName := { n with binding := none }

def TypeRef.unmarked : TypeRef → TypeRef
  | .declared n => .declared n.unmarked
  | .array e => .array e.unmarked
  | t => t

mutual

/-- The expression without node ids, spans, handles and recorded types. -/
def Expr.unmarked : Expr → Expr
  | .literal _ v => .literal default v
  | .name _ n _ => .name default n none
  | .this _ => .this default
  | .fieldAccess _ t n _ => .fieldAccess default t.unmarked n none
  | .unary _ op e => .unary default op e.unmarked
  | .step _ op e => .step default op e.unmarked
  | .binary _ op l r => .binary default op l.unmarked r.unmarked
  | .conditional _ c t e => .conditional default c.unmarked t.unmarked e.unmarked
  | .parenthesized _ e => .parenthesized default e.unmarked
  | .cast _ t e => .cast default t.unmarked e.unmarked
  | .assignment _ op l r => .assignment default op l.unmarked r.unmarked
  | .call _ none n as _ => .call default none n (Expr.unmarkedAll as) none
  | .call _ (some r) n as _ => .call default (some r.unmarked) n (Expr.unmarkedAll as) none
  | .new _ t as _ => .new default t.unmarked (Expr.unmarkedAll as) none

def Expr.unmarkedAll : List Expr → List Expr
  | [] => []
  | e :: es => e.unmarked :: Expr.unmarkedAll es

end

def Fragment.unmarked (f : Fragment) : Fragment :=
  ⟨default, f.name, f.initializer.map Expr.unmarked, none⟩

def Parameter.unmarked (p : Parameter) : Parameter := ⟨p.name, p.type.unmarked, none⟩

def FieldDecl.unmarked (f : FieldDecl) : FieldDecl :=
  ⟨default, default, f.modifiers, f.type.unmarked, f.fragments.map Fragment.unmarked⟩

def EnumConstant.unmarked (c : EnumConstant) : EnumConstant :=
  ⟨c.name, Expr.unmarkedAll c.arguments, default⟩

def TypeHead.unmarked (h : TypeHead) : TypeHead :=
  ⟨default, default, h.kind, h.name, h.modifiers, h.superclass.map TypeName.unmarked, none,
    h.enumConstants.map EnumConstant.unmarked⟩

def MethodHead.unmarked (h : MethodHead) : MethodHead :=
  ⟨default, default, h.name, h.modifiers, h.returnType.unmarked,
    h.parameters.map Parameter.unmarked,
    h.isConstructor, none, h.isSynthetic⟩

mutual

def Block.unmarked : Block → Block
  | ⟨_, ss⟩ => ⟨default, Stmt.unmarkedAll ss⟩

/-- The statement without node ids, spans, handles and recorded types. -/
def Stmt.unmarked : Stmt → Stmt
  | .expression _ e => .expression default e.unmarked
  | .localVariable _ m t fs => .localVariable default m t.unmarked (fs.map Fragment.unmarked)
  | .block _ b => .block default b.unmarked
  | .ifElse _ c t none => .ifElse default c.unmarked t.unmarked none
  | .ifElse _ c t (some e) => .ifElse default c.unmarked t.unmarked (some e.unmarked)
  | .whileLoop _ c b => .whileLoop default c.unmarked b.unmarked
  | .forLoop _ init c us b =>
    .forLoop default (Stmt.unmarkedAll init) (c.map Expr.unmarked) (Expr.unmarkedAll us) b.unmarked
  | .tryCatch _ b cs none => .tryCatch default b.unmarked (CatchClause.unmarkedAll cs) none
  | .tryCatch _ b cs (some f) =>
    .tryCatch default b.unmarked (CatchClause.unmarkedAll cs) (some f.unmarked)
  | .returnValue _ e => .returnValue default (e.map Expr.unmarked)
  | .throwValue _ e => .throwValue default e.unmarked
  | .superCall _ as _ => .superCall default (Expr.unmarkedAll as) none
  | .thisCall _ as _ => .thisCall default (Expr.unmarkedAll as) none
  | .localType _ d => .localType default d.unmarked
  | .empty _ => .empty default

def Stmt.unmarkedAll : List Stmt → List Stmt
  | [] => []
  | s :: ss => s.unmarked :: Stmt.unmarkedAll ss

def CatchClause.unmarkedAll : List CatchClause → List CatchClause
  | [] => []
  | ⟨_, x, b⟩ :: cs => ⟨default, x.unmarked, b.unmarked⟩ :: CatchClause.unmarkedAll cs

def Member.unmarked : Member → Member
  | .type d => .type d.unmarked
  | .method ⟨h, none⟩ => .method ⟨h.unmarked, none⟩
  | .method ⟨h, some b⟩ => .method ⟨h.unmarked, some b.unmarked⟩
  | .initializer ⟨_, isStatic, b⟩ => .initializer ⟨default, isStatic, b.unmarked⟩
  | .field f => .field f.unmarked

def Member.unmarkedAll : List Member → List Member
  | [] => []
  | m :: ms => m.unmarked :: Member.unmarkedAll ms

/-- The declaration without node ids, spans, handles and recorded types. -/
def TypeDecl.unmarked : TypeDecl → TypeDecl
  | ⟨h, ms⟩ => ⟨h.unmarked, Member.unmarkedAll ms⟩

end

/-! ## Texts -/

@[simp] theorem TypeName.simpleName_unmarked (n : TypeName) :
    n.unmarked.simpleName = n.simpleName := rfl

/-- A type is printed by its name, not by its handle. -/
@[simp] theorem TypeRef.text_unmarked : ∀ t : TypeRef, t.unmarked.text = t.text
  | .primitive _ | .declared _ | .null => rfl
  | .array e => by rw [TypeRef.unmarked, TypeRef.text, TypeRef.text, e.text_unmarked]

mutual

/-- Ids, spans and handles do not show in the text of an expression. -/
@[simp] theorem Expr.text_unmarked : ∀ e : Expr, e.unmarked.text = e.text
  | .literal _ v => rfl
  | .name .. => rfl
  | .this _ => by rw [Expr.unmarked, Expr.text, Expr.text]
  | .fieldAccess _ t n _ => by rw [Expr.unmarked, Expr.text, Expr.text, t.text_unmarked]
  | .unary _ op e => by rw [Expr.unmarked, Expr.text, Expr.text, e.text_unmarked]
  | .step _ op e => by rw [Expr.unmarked, Expr.text, Expr.text, e.text_unmarked]
  | .binary _ op l r => by
    rw [Expr.unmarked, Expr.text, Expr.text, l.text_unmarked, r.text_unmarked]
  | .conditional _ c t e => by
    rw [Expr.unmarked, Expr.text, Expr.text, c.text_unmarked, t.text_unmarked, e.text_unmarked]
  | .parenthesized _ e => by rw [Expr.unmarked, Expr.text, Expr.text, e.text_unmarked]
  | .cast _ t e => by rw [Expr.unmarked, Expr.text, Expr.text, t.text_unmarked, e.text_unmarked]
  | .assignment _ op l r => by
    rw [Expr.unmarked, Expr.text, Expr.text, l.text_unmarked, r.text_unmarked]
  | .call _ none n as _ => by rw [Expr.unmarked, Expr.text, Expr.text, Expr.texts_unmarkedAll as]
  | .call _ (some r) n as _ => by
    rw [Expr.unmarked, Expr.text, Expr.text, r.text_unmarked, Expr.texts_unmarkedAll as]
  | .new _ t as _ => by
    rw [Expr.unmarked, Expr.text, Expr.text, t.simpleName_unmarked, Expr.texts_unmarkedAll as]

/-- Nor do they in the texts of several. -/
@[simp] theorem Expr.texts_unmarkedAll :
    ∀ es : List Expr, Expr.texts (Expr.unmarkedAll es) = Expr.texts es
  | [] => rfl
  | e :: es => by
    rw [Expr.unmarkedAll, Expr.texts, Expr.texts, e.text_unmarked, Expr.texts_unmarkedAll es]

end

@[simp] theorem Expr.argumentText_unmarkedAll (es : List Expr) :
    Expr.argumentText (Expr.unmarkedAll es) = Expr.argumentText es := by
  rw [Expr.argumentText, Expr.argumentText, Expr.texts_unmarkedAll]

@[simp] theorem Expr.isEmpty_unmarkedAll (es : List Expr) :
    (Expr.unmarkedAll es).isEmpty = es.isEmpty := by
  cases es <;> rfl

@[simp] theorem Fragment.text_unmarked (f : Fragment) : f.unmarked.text = f.text := by
  rw [Fragment.text, Fragment.text, Fragment.unmarked]
  cases f.initializer with
  | none => rfl
  | some e => simp

/-- The text of a declaration of fields or locals does not show them. -/
@[simp] theorem declarationText_unmarked (m : Modifiers) (t : TypeRef) (fs : List Fragment) :
    declarationText m t.unmarked (fs.map Fragment.unmarked) = declarationText m t fs := by
  simp [declarationText, Function.comp_def]

@[simp] theorem Parameter.text_unmarked (p : Parameter) : p.unmarked.text = p.text := by
  rw [Parameter.text, Parameter.text, Parameter.unmarked, p.type.text_unmarked]

@[simp] theorem EnumConstant.text_unmarked (c : EnumConstant) : c.unmarked.text = c.text := by
  simp [EnumConstant.text, EnumConstant.unmarked]

/-- The head of a method does not show them. -/
@[simp] theorem MethodHead.text_unmarked (h : MethodHead) (typeName : String) :
    h.unmarked.text typeName = h.text typeName := by
  simp [MethodHead.text, MethodHead.unmarked, Function.comp_def]

/-- The head of a type does not show them. -/
@[simp] theorem TypeHead.text_unmarked (h : TypeHead) : h.unmarked.text = h.text := by
  rw [TypeHead.text, TypeHead.text, TypeHead.unmarked]
  cases h.superclass <;> rfl

/-! ## Lines -/

/-- A statement in a loop or branch is printed at the level of its kind, with or without them. -/
theorem Stmt.nestedLevel_unmarked (s : Stmt) (n : Nat) :
    s.unmarked.nestedLevel n = s.nestedLevel n := by
  cases s with
  | ifElse _ _ _ e => cases e <;> rfl
  | tryCatch _ _ _ f => cases f <;> rfl
  | _ => rfl

theorem Stmt.isEmpty_unmarkedAll (ss : List Stmt) : (Stmt.unmarkedAll ss).isEmpty = ss.isEmpty := by
  cases ss <;> rfl

mutual

/-- A statement has the same lines with its ids, spans and handles cleared. -/
theorem Stmt.lines_unmarked : ∀ (s : Stmt) (n : Nat), s.unmarked.lines n = s.lines n
  | .expression _ e, n => by rw [Stmt.unmarked, Stmt.lines, Stmt.lines, e.text_unmarked]
  | .localVariable _ m t fs, n => by
    rw [Stmt.unmarked, Stmt.lines, Stmt.lines, declarationText_unmarked]
  | .block _ ⟨_, ss⟩, n => by
    rw [Stmt.unmarked, Block.unmarked, Stmt.lines, Stmt.lines, Stmt.isEmpty_unmarkedAll,
      Stmt.linesOf_unmarkedAll ss]
  | .ifElse _ c t none, n => by
    rw [Stmt.unmarked, Stmt.lines, Stmt.lines, c.text_unmarked, t.nestedLevel_unmarked,
      t.lines_unmarked]
  | .ifElse _ c t (some e), n => by
    rw [Stmt.unmarked, Stmt.lines, Stmt.lines, c.text_unmarked, t.nestedLevel_unmarked,
      t.lines_unmarked, e.nestedLevel_unmarked, e.lines_unmarked]
  | .whileLoop _ c b, n => by
    rw [Stmt.unmarked, Stmt.lines, Stmt.lines, c.text_unmarked, b.nestedLevel_unmarked,
      b.lines_unmarked]
  | .forLoop _ init c us b, n => by
    rw [Stmt.unmarked, Stmt.lines, Stmt.lines, Stmt.headerTexts_unmarkedAll init,
      Expr.argumentText_unmarkedAll, b.nestedLevel_unmarked, b.lines_unmarked]
    cases c with
    | none => rfl
    | some e => simp
  | .tryCatch _ ⟨_, ss⟩ cs none, n => by
    rw [Stmt.unmarked, Block.unmarked, Stmt.lines, Stmt.lines, Stmt.isEmpty_unmarkedAll,
      Stmt.linesOf_unmarkedAll ss, CatchClause.linesOf_unmarkedAll cs]
  | .tryCatch _ ⟨_, ss⟩ cs (some ⟨_, fs⟩), n => by
    rw [Stmt.unmarked, Block.unmarked, Block.unmarked, Stmt.lines, Stmt.lines,
      Stmt.isEmpty_unmarkedAll, Stmt.linesOf_unmarkedAll ss, CatchClause.linesOf_unmarkedAll cs,
        Stmt.isEmpty_unmarkedAll, Stmt.linesOf_unmarkedAll fs]
  | .returnValue _ none, n => rfl
  | .returnValue _ (some e), n => by
    rw [Stmt.unmarked, Option.map_some, Stmt.lines, Stmt.lines, e.text_unmarked]
  | .throwValue _ e, n => by rw [Stmt.unmarked, Stmt.lines, Stmt.lines, e.text_unmarked]
  | .superCall _ as _, n => by
    rw [Stmt.unmarked, Stmt.lines, Stmt.lines, Expr.argumentText_unmarkedAll]
  | .thisCall _ as _, n => by
    rw [Stmt.unmarked, Stmt.lines, Stmt.lines, Expr.argumentText_unmarkedAll]
  | .localType _ d, n => by rw [Stmt.unmarked, Stmt.lines, Stmt.lines, d.lines_unmarked]
  | .empty _, n => rfl

theorem Stmt.linesOf_unmarkedAll :
    ∀ (ss : List Stmt) (n : Nat), Stmt.linesOf n (Stmt.unmarkedAll ss) = Stmt.linesOf n ss
  | [], n => rfl
  | s :: ss, n => by
    rw [Stmt.unmarkedAll, Stmt.linesOf, Stmt.linesOf, s.lines_unmarked, Stmt.linesOf_unmarkedAll ss]

/-- The statements in the head of a `for` loop do not show them. -/
theorem Stmt.headerTexts_unmarkedAll :
    ∀ ss : List Stmt, Stmt.headerTexts (Stmt.unmarkedAll ss) = Stmt.headerTexts ss
  | [] => rfl
  | s :: ss => by
    rw [Stmt.unmarkedAll, Stmt.headerTexts, Stmt.headerTexts, s.lines_unmarked,
      Stmt.headerTexts_unmarkedAll ss]

theorem CatchClause.linesOf_unmarkedAll : ∀ (cs : List CatchClause) (n : Nat),
    CatchClause.linesOf n (CatchClause.unmarkedAll cs) = CatchClause.linesOf n cs
  | [], n => rfl
  | ⟨_, x, ⟨_, ss⟩⟩ :: cs, n => by
    rw [CatchClause.unmarkedAll, Block.unmarked, CatchClause.linesOf, CatchClause.linesOf,
      x.text_unmarked, Stmt.isEmpty_unmarkedAll, Stmt.linesOf_unmarkedAll ss,
        CatchClause.linesOf_unmarkedAll cs]

/-- A member has the same lines with them cleared. -/
theorem Member.lines_unmarked (typeName : String) :
    ∀ (m : Member) (n : Nat), m.unmarked.lines n typeName = m.lines n typeName
  | .type d, n => by rw [Member.unmarked, Member.lines, Member.lines, d.lines_unmarked]
  | .field f, n => by
    rw [Member.unmarked, Member.lines, Member.lines, FieldDecl.unmarked, declarationText_unmarked]
  | .initializer ⟨_, _, ⟨_, ss⟩⟩, n => by
    rw [Member.unmarked, Block.unmarked, Member.lines, Member.lines, Stmt.isEmpty_unmarkedAll,
      Stmt.linesOf_unmarkedAll ss]
  | .method ⟨h, none⟩, n => by rw [Member.unmarked, Member.lines, Member.lines, h.text_unmarked]
  | .method ⟨h, some ⟨_, ss⟩⟩, n => by
    rw [Member.unmarked, Block.unmarked, Member.lines, Member.lines, h.text_unmarked,
      Stmt.isEmpty_unmarkedAll, Stmt.linesOf_unmarkedAll ss]

theorem Member.linesOf_unmarkedAll (typeName : String) : ∀ (ms : List Member) (n : Nat),
    Member.linesOf n typeName (Member.unmarkedAll ms) = Member.linesOf n typeName ms
  | [], n => rfl
  | m :: ms, n => by
    rw [Member.unmarkedAll, Member.linesOf, Member.linesOf, Member.lines_unmarked typeName m,
      Member.linesOf_unmarkedAll typeName ms]

/-- A type has the same lines with them cleared. -/
theorem TypeDecl.lines_unmarked : ∀ (d : TypeDecl) (n : Nat), d.unmarked.lines n = d.lines n
  | ⟨h, ms⟩, n => by
    have constants :
        h.unmarked.enumConstants.map EnumConstant.text = h.enumConstants.map EnumConstant.text := by
      simp [TypeHead.unmarked, Function.comp_def]
    have empty : h.unmarked.enumConstants.isEmpty = h.enumConstants.isEmpty := List.isEmpty_map
    rw [TypeDecl.unmarked, TypeDecl.lines, TypeDecl.lines, h.text_unmarked, constants, empty,
      Member.linesOf_unmarkedAll _ ms]
    rfl

end

end ClassInit
