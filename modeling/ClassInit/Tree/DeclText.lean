import ClassInit.Text.Blank
import ClassInit.Tree.Access
import ClassInit.Tree.ExprText

/-!
The source text of statements and declarations, as lines that know their nesting level: what a
printer appends. Rendering indents a line by a number of spaces for each level; only the statements
in the header of a `for` are rendered on their own, at level zero with two spaces a level.
-/

set_option autoImplicit false

namespace ClassInit

/-- A line of source text at a nesting level. -/
structure Line where
  level : Nat
  text : String
deriving DecidableEq, Inhabited

namespace Line

/-- The line with its indentation and its line break. -/
def render (width : Nat) (l : Line) : String :=
  String.ofList (List.replicate (l.level * width) ' ') ++ l.text ++ "\n"

def renderAll (width : Nat) (ls : List Line) : String := String.join (ls.map (render width))

/-- The usual number of spaces a level. -/
def defaultWidth : Nat := 2

/-- Lines as one text at the usual width, without blanks at the end. -/
def trimmed (ls : List Line) : List Char :=
  ((renderAll defaultWidth ls).toList.reverse.dropWhile Text.isBlank).reverse

end Line

/-! ## Parts of lines -/

/-- The modifiers before a declaration, each with a space after it. -/
def Modifiers.lead (m : Modifiers) : String := String.join (m.keywords.map (· ++ " "))

def Fragment.text (f : Fragment) : String :=
  match f.initializer with
  | none => f.name
  | some e => f.name ++ " = " ++ e.text

/-- A field or local variable declaration without its semicolon. -/
def declarationText (m : Modifiers) (t : TypeRef) (fs : List Fragment) : String :=
  m.lead ++ t.text ++ " " ++ ", ".intercalate (fs.map Fragment.text)

def Parameter.text (p : Parameter) : String := p.type.text ++ " " ++ p.name

/-- A method without its body; a constructor has the name of its type. -/
def MethodHead.text (h : MethodHead) (typeName : String) : String :=
  h.modifiers.lead ++
    (if h.isConstructor then typeName else h.returnType.text ++ " " ++ h.name) ++
    "(" ++ ", ".intercalate (h.parameters.map Parameter.text) ++ ")"

def EnumConstant.text (c : EnumConstant) : String :=
  if c.arguments.isEmpty then c.name else c.name ++ "(" ++ Expr.argumentText c.arguments ++ ")"

def TypeHead.text (h : TypeHead) : String :=
  h.modifiers.lead ++ h.kind.keyword ++ " " ++ h.name ++
    (match h.superclass with
    | none => ""
    | some n => " extends " ++ n.simpleName) ++ " \x7b"

/-- A statement in the header of a `for`: its text without the semicolons at its end. -/
def headerText (ls : List Line) : String :=
  String.ofList (((Line.trimmed ls).reverse.dropWhile (· = ';')).reverse)

/-- A sub-statement that is no block stands one level deeper. -/
def Stmt.nestedLevel (level : Nat) : Stmt → Nat
  | .block .. => level
  | _ => level + 1

/-- Lines between braces after a head; without lines the braces stand on the line of the head. -/
def braced (level : Nat) (head : String) (isEmpty : Bool) (body : List Line) : List Line :=
  if isEmpty then [⟨level, head ++ "\x7b\x7d"⟩]
  else ⟨level, head ++ "\x7b"⟩ :: (body ++ [⟨level, "\x7d"⟩])

/-! ## Lines -/

mutual

def Stmt.lines : Nat → Stmt → List Line
  | n, .expression _ e => [⟨n, e.text ++ ";"⟩]
  | n, .localVariable _ m t fs => [⟨n, declarationText m t fs ++ ";"⟩]
  | n, .block _ ⟨_, ss⟩ => braced n "" ss.isEmpty (Stmt.linesOf (n + 1) ss)
  | n, .ifElse _ c t none => ⟨n, "if (" ++ c.text ++ ")"⟩ :: t.lines (t.nestedLevel n)
  | n, .ifElse _ c t (some e) =>
    ⟨n, "if (" ++ c.text ++ ")"⟩ ::
      (t.lines (t.nestedLevel n) ++ ⟨n, "else"⟩ :: e.lines (e.nestedLevel n))
  | n, .whileLoop _ c b => ⟨n, "while (" ++ c.text ++ ")"⟩ :: b.lines (b.nestedLevel n)
  | n, .forLoop _ init c us b =>
    ⟨n, "for (" ++ ", ".intercalate (Stmt.headerTexts init) ++ "; " ++
        (c.map Expr.text).getD "" ++ "; " ++ Expr.argumentText us ++ ")"⟩ ::
      b.lines (b.nestedLevel n)
  | n, .tryCatch _ ⟨_, ss⟩ cs none =>
    braced n "try " ss.isEmpty (Stmt.linesOf (n + 1) ss) ++ CatchClause.linesOf n cs
  | n, .tryCatch _ ⟨_, ss⟩ cs (some ⟨_, fs⟩) =>
    braced n "try " ss.isEmpty (Stmt.linesOf (n + 1) ss) ++ CatchClause.linesOf n cs ++
      braced n "finally " fs.isEmpty (Stmt.linesOf (n + 1) fs)
  | n, .returnValue _ none => [⟨n, "return;"⟩]
  | n, .returnValue _ (some e) => [⟨n, "return " ++ e.text ++ ";"⟩]
  | n, .throwValue _ e => [⟨n, "throw " ++ e.text ++ ";"⟩]
  | n, .superCall _ as _ => [⟨n, "super(" ++ Expr.argumentText as ++ ");"⟩]
  | n, .thisCall _ as _ => [⟨n, "this(" ++ Expr.argumentText as ++ ");"⟩]
  | n, .localType _ d => d.lines n
  | n, .empty _ => [⟨n, ";"⟩]

def Stmt.linesOf : Nat → List Stmt → List Line
  | _, [] => []
  | n, s :: ss => s.lines n ++ Stmt.linesOf n ss

/-- The texts of statements in the header of a `for`. -/
def Stmt.headerTexts : List Stmt → List String
  | [] => []
  | s :: ss => headerText (s.lines 0) :: Stmt.headerTexts ss

def CatchClause.linesOf : Nat → List CatchClause → List Line
  | _, [] => []
  | n, ⟨_, x, ⟨_, ss⟩⟩ :: cs =>
    braced n ("catch (" ++ x.text ++ ") ") ss.isEmpty (Stmt.linesOf (n + 1) ss) ++
      CatchClause.linesOf n cs

/-- The lines of a member of the type with the given name. -/
def Member.lines : Nat → String → Member → List Line
  | n, _, .type d => d.lines n
  | n, _, .field f => [⟨n, declarationText f.modifiers f.type f.fragments ++ ";"⟩]
  | n, _, .initializer ⟨_, isStatic, ⟨_, ss⟩⟩ =>
    braced n (if isStatic then "static " else "") ss.isEmpty (Stmt.linesOf (n + 1) ss)
  | n, typeName, .method ⟨h, none⟩ => [⟨n, h.text typeName ++ ";"⟩]
  | n, typeName, .method ⟨h, some ⟨_, ss⟩⟩ =>
    braced n (h.text typeName ++ " ") ss.isEmpty (Stmt.linesOf (n + 1) ss)

def Member.linesOf : Nat → String → List Member → List Line
  | _, _, [] => []
  | n, typeName, m :: ms => m.lines n typeName ++ Member.linesOf n typeName ms

def TypeDecl.lines : Nat → TypeDecl → List Line
  | n, ⟨h, ms⟩ =>
    ⟨n, h.text⟩ ::
      ((if h.enumConstants.isEmpty then []
        else [⟨n + 1, ", ".intercalate (h.enumConstants.map EnumConstant.text) ++ ";"⟩]) ++
        Member.linesOf (n + 1) h.name ms ++ [⟨n, "\x7d"⟩])

end

/-- The lines of a unit: its package, then its types, with an empty line after the package and
between two types. -/
def CompilationUnit.lines (u : CompilationUnit) : List Line :=
  (match u.package with
    | none => []
    | some p => [⟨0, "package " ++ p ++ ";"⟩, ⟨0, ""⟩]) ++
    [⟨0, ""⟩].intercalate (u.types.map (TypeDecl.lines 0))

end ClassInit
