import ClassInit.Tree.DeclText

/-!
Printing. A printer holds the text so far and the indentation level, which it raises for the body of
a block, for a branch without braces and for the members of a type, and lowers again after them. The
statements in the header of a `for` are printed by a printer of their own, at level zero and with
the usual width.
-/

set_option autoImplicit false

namespace ClassInit

structure Printer where
  out : String
  level : Nat
  /-- The number of spaces a level. -/
  width : Nat
deriving DecidableEq, Inhabited

namespace Printer

def ofWidth (width : Nat) : Printer := ⟨"", 0, width⟩

def new : Printer := ofWidth Line.defaultWidth

def push (text : String) (p : Printer) : Printer := { p with out := p.out ++ text }

/-- Prints a line at the current level. -/
def line (text : String) (p : Printer) : Printer := p.push (Line.render p.width ⟨p.level, text⟩)

def indent (p : Printer) : Printer := { p with level := p.level + 1 }

def dedent (p : Printer) : Printer := { p with level := p.level - 1 }

/-- A sub-statement that is no block is printed one level deeper. -/
def nested (isBlock : Bool) (body : Printer → Printer) (p : Printer) : Printer :=
  if isBlock then body p else (body p.indent).dedent

/-- Prints a body between braces after a head; without statements the braces stand on the line of
the head. -/
def block (head : String) (isEmpty : Bool) (body : Printer → Printer) (p : Printer) : Printer :=
  if isEmpty then p.line (head ++ "\x7b\x7d")
  else ((body (p.line (head ++ "\x7b")).indent).dedent).line "\x7d"

/-- The text without blanks at its end. -/
def trimmed (p : Printer) : List Char := (p.out.toList.reverse.dropWhile Text.isBlank).reverse

end Printer

def Stmt.isBlock : Stmt → Bool
  | .block .. => true
  | _ => false

mutual

def Stmt.print : Stmt → Printer → Printer
  | .expression _ e, p => p.line (e.text ++ ";")
  | .localVariable _ m t fs, p => p.line (declarationText m t fs ++ ";")
  | .block _ ⟨_, ss⟩, p => p.block "" ss.isEmpty (Stmt.printAll ss)
  | .ifElse _ c t none, p => (p.line ("if (" ++ c.text ++ ")")).nested t.isBlock t.print
  | .ifElse _ c t (some e), p =>
    let p := (p.line ("if (" ++ c.text ++ ")")).nested t.isBlock t.print
    (p.line "else").nested e.isBlock e.print
  | .whileLoop _ c b, p => (p.line ("while (" ++ c.text ++ ")")).nested b.isBlock b.print
  | .forLoop _ init c us b, p =>
    let header :=
      "for (" ++ ", ".intercalate (Stmt.printedHeaders init) ++ "; " ++ (c.map Expr.text).getD "" ++
        "; " ++
      Expr.argumentText us ++ ")"
    (p.line header).nested b.isBlock b.print
  | .tryCatch _ ⟨_, ss⟩ cs none, p =>
    CatchClause.printAll cs (p.block "try " ss.isEmpty (Stmt.printAll ss))
  | .tryCatch _ ⟨_, ss⟩ cs (some ⟨_, fs⟩), p =>
    let p := CatchClause.printAll cs (p.block "try " ss.isEmpty (Stmt.printAll ss))
    p.block "finally " fs.isEmpty (Stmt.printAll fs)
  | .returnValue _ none, p => p.line "return;"
  | .returnValue _ (some e), p => p.line ("return " ++ e.text ++ ";")
  | .throwValue _ e, p => p.line ("throw " ++ e.text ++ ";")
  | .superCall _ as _, p => p.line ("super(" ++ Expr.argumentText as ++ ");")
  | .thisCall _ as _, p => p.line ("this(" ++ Expr.argumentText as ++ ");")
  | .localType _ d, p => d.print p
  | .empty _, p => p.line ";"

def Stmt.printAll : List Stmt → Printer → Printer
  | [], p => p
  | s :: ss, p => Stmt.printAll ss (s.print p)

/-- The texts of statements in the header of a `for`, without the semicolons at their ends. -/
def Stmt.printedHeaders : List Stmt → List String
  | [] => []
  | s :: ss =>
    String.ofList (((s.print .new).trimmed.reverse.dropWhile (· = ';')).reverse) ::
      Stmt.printedHeaders ss

def CatchClause.printAll : List CatchClause → Printer → Printer
  | [], p => p
  | ⟨_, x, ⟨_, ss⟩⟩ :: cs, p =>
    CatchClause.printAll cs (p.block ("catch (" ++ x.text ++ ") ") ss.isEmpty (Stmt.printAll ss))

/-- Prints a member of the type with the given name. -/
def Member.print (typeName : String) : Member → Printer → Printer
  | .type d, p => d.print p
  | .field f, p => p.line (declarationText f.modifiers f.type f.fragments ++ ";")
  | .initializer ⟨_, isStatic, ⟨_, ss⟩⟩, p =>
    p.block (if isStatic then "static " else "") ss.isEmpty (Stmt.printAll ss)
  | .method ⟨h, none⟩, p => p.line (h.text typeName ++ ";")
  | .method ⟨h, some ⟨_, ss⟩⟩, p => p.block (h.text typeName ++ " ") ss.isEmpty (Stmt.printAll ss)

def Member.printAll (typeName : String) : List Member → Printer → Printer
  | [], p => p
  | m :: ms, p => Member.printAll typeName ms (m.print typeName p)

def TypeDecl.print : TypeDecl → Printer → Printer
  | ⟨h, ms⟩, p =>
    let p := (p.line h.text).indent
    let p :=
      if h.enumConstants.isEmpty then p
      else p.line (", ".intercalate (h.enumConstants.map EnumConstant.text) ++ ";")
    (Member.printAll h.name ms p).dedent.line "\x7d"

end

/-- Prints types with an empty line between two of them. -/
def TypeDecl.printSeparated : List TypeDecl → Printer → Printer
  | [], p => p
  | [d], p => d.print p
  | d :: ds, p => TypeDecl.printSeparated ds ((d.print p).push "\n")

/-- Prints the package, then the types, with an empty line after the package and between two
types. -/
def CompilationUnit.print (u : CompilationUnit) (p : Printer) : Printer :=
  TypeDecl.printSeparated u.types
    (match u.package with
    | none => p
    | some n => (p.line ("package " ++ n ++ ";")).push "\n")

/-! ## Texts -/

/-- The text of a statement without blanks at its end. -/
def Stmt.text (s : Stmt) : String := String.ofList (s.print .new).trimmed

def TypeDecl.text (d : TypeDecl) : String := (d.print .new).out

def CompilationUnit.text (u : CompilationUnit) : String := (u.print .new).out

end ClassInit
