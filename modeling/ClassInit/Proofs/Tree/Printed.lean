import ClassInit.Proofs.Tree.Unmarked
import ClassInit.Proofs.Tree.Lines
import ClassInit.Proofs.Tree.OneLine
import ClassInit.Tree.Printer

/-!
# What is printed

A printer that is given a statement or a declaration appends its lines at the current level and
leaves the level as it is (`Stmt.prints`, `TypeDecl.prints`). The lines of whatever stands inside a
tree are among those of the tree, deeper by as much as it stands deeper (`Printed.Inside.among`).
-/

set_option autoImplicit false

namespace ClassInit

/-! ## What a printer appends -/

namespace Printer

variable {f g : Printer → Printer} {ls ls' : Nat → List Line} {head : String} {isEmpty : Bool}

/-- The printer after lines that know their own levels. -/
def write (ls : List Line) (p : Printer) : Printer := p.push (Line.renderAll p.width ls)

/-- The function appends the lines that belong to the current level, and changes nothing else. -/
def Prints (f : Printer → Printer) (ls : Nat → List Line) : Prop := ∀ p, f p = p.write (ls p.level)

/-- Lines are written one after the other. -/
theorem write_append (ms ns : List Line) (p : Printer) :
    p.write (ms ++ ns) = (p.write ms).write ns := by
  simp [write, push, Line.renderAll, String.append_assoc]

/-- A step that writes nothing prints no lines. -/
theorem prints_nothing : Prints id fun _ => [] := by
  intro p
  simp [write, push, Line.renderAll]

/-- Writing a text prints one line at the level of the printer. -/
theorem prints_line (text : String) : Prints (line text) fun n => [⟨n, text⟩] := by
  intro p
  simp [line, write, Line.renderAll]

/-- Two steps print the lines of the first and then those of the second. -/
theorem Prints.andThen (first : Prints f ls) (last : Prints g ls') :
    Prints (fun p => g (f p)) fun n => ls n ++ ls' n := by
  intro p
  show g (f p) = _
  rw [last (f p), first p, write_append]
  rfl

/-- Between an indent and a dedent the lines stand one level deeper, and the printer is back at its
level. -/
theorem Prints.indented (body : Prints f ls) :
    Prints (fun p => (f p.indent).dedent) fun n => ls (n + 1) := by
  intro p
  show (f p.indent).dedent = _
  rw [body p.indent]
  rfl

/-- A statement in a loop or branch is indented unless it is a block. -/
theorem Prints.nested (body : Prints f ls) (s : Stmt) :
    Prints (Printer.nested s.isBlock f) fun n => ls (s.nestedLevel n) := by
  cases s with
  | block => exact body
  | _ => exact body.indented

/-- A braced block prints its head, the body one level deeper and the closing brace. -/
theorem Prints.block (body : Prints f ls) (head : String) (isEmpty : Bool) :
    Prints (Printer.block head isEmpty f) fun n => braced n head isEmpty (ls (n + 1)) := by
  cases isEmpty with
  | true => exact prints_line (head ++ "\x7b\x7d")
  | false =>
    exact ((prints_line (head ++ "\x7b")).andThen body.indented).andThen (prints_line "\x7d")

end Printer

open Printer

mutual

/-- The printer writes the lines of a statement. Each kind of statement is put together from the
steps above. -/
theorem Stmt.prints : ∀ s : Stmt, Prints s.print fun n => s.lines n
  | .expression .. => prints_line _
  | .localVariable .. => prints_line _
  | .block _ ⟨_, ss⟩ => (Stmt.prints_all ss).block "" ss.isEmpty
  | .ifElse _ c t none => (prints_line _).andThen (t.prints.nested t)
  | .ifElse _ c t (some e) => by
    have first := (prints_line ("if (" ++ c.text ++ ")")).andThen (t.prints.nested t)
    have last := (prints_line "else").andThen (e.prints.nested e)
    exact first.andThen last
  | .whileLoop _ c b => (prints_line _).andThen (b.prints.nested b)
  | .forLoop _ init c us b => by
    intro p
    rw [Stmt.print, Stmt.printedHeaders_eq init]
    exact (prints_line _).andThen (b.prints.nested b) p
  | .tryCatch _ ⟨_, ss⟩ cs none =>
    ((Stmt.prints_all ss).block "try " ss.isEmpty).andThen (CatchClause.prints_all cs)
  | .tryCatch _ ⟨_, ss⟩ cs (some ⟨_, fs⟩) => by
    have first := ((Stmt.prints_all ss).block "try " ss.isEmpty).andThen (CatchClause.prints_all cs)
    exact first.andThen ((Stmt.prints_all fs).block "finally " fs.isEmpty)
  | .returnValue _ none => prints_line _
  | .returnValue _ (some _) => prints_line _
  | .throwValue .. => prints_line _
  | .superCall .. => prints_line _
  | .thisCall .. => prints_line _
  | .localType _ d => d.prints
  | .empty _ => prints_line _

theorem Stmt.prints_all : ∀ ss : List Stmt, Prints (Stmt.printAll ss) fun n => Stmt.linesOf n ss
  | [] => prints_nothing
  | s :: ss => s.prints.andThen (Stmt.prints_all ss)

/-- The printer and the lines agree on the head of a `for` loop. -/
theorem Stmt.printedHeaders_eq : ∀ ss : List Stmt, Stmt.printedHeaders ss = Stmt.headerTexts ss
  | [] => rfl
  | s :: ss => by
    have printed : (s.print .new).trimmed = Line.trimmed (s.lines 0) := by
      rw [s.prints .new]
      simp [Printer.trimmed, Line.trimmed, write, push, Printer.new, ofWidth]
    rw [Stmt.printedHeaders, Stmt.headerTexts, headerText, printed, Stmt.printedHeaders_eq ss]

theorem CatchClause.prints_all : ∀ cs : List CatchClause,
    Prints (CatchClause.printAll cs) fun n => CatchClause.linesOf n cs
  | [] => prints_nothing
  | ⟨_, x, ⟨_, ss⟩⟩ :: cs =>
    ((Stmt.prints_all ss).block ("catch (" ++ x.text ++ ") ") ss.isEmpty).andThen
      (CatchClause.prints_all cs)

/-- The printer writes the lines of a member. -/
theorem Member.prints (typeName : String) :
    ∀ m : Member, Prints (m.print typeName) fun n => m.lines n typeName
  | .type d => d.prints
  | .field _ => prints_line _
  | .initializer ⟨_, isStatic, ⟨_, ss⟩⟩ =>
    (Stmt.prints_all ss).block (if isStatic then "static " else "") ss.isEmpty
  | .method ⟨_, none⟩ => prints_line _
  | .method ⟨h, some ⟨_, ss⟩⟩ => (Stmt.prints_all ss).block (h.text typeName ++ " ") ss.isEmpty

theorem Member.prints_all (typeName : String) : ∀ ms : List Member,
    Prints (Member.printAll typeName ms) fun n => Member.linesOf n typeName ms
  | [] => prints_nothing
  | m :: ms => (Member.prints typeName m).andThen (Member.prints_all typeName ms)

/-- The printer writes the lines of a type. -/
theorem TypeDecl.prints : ∀ d : TypeDecl, Prints d.print fun n => d.lines n
  | ⟨h, ms⟩ => by
    have constants : Prints
        (fun p => if h.enumConstants.isEmpty then p
          else p.line (", ".intercalate (h.enumConstants.map EnumConstant.text) ++ ";"))
        fun n => if h.enumConstants.isEmpty then []
          else [⟨n, ", ".intercalate (h.enumConstants.map EnumConstant.text) ++ ";"⟩] := by
      cases h.enumConstants.isEmpty with
      | true => exact prints_nothing
      | false => exact prints_line _
    have body := (constants.andThen (Member.prints_all h.name ms)).indented
    exact ((prints_line h.text).andThen body).andThen (prints_line "\x7d")

end

/-! ## Units -/

/-- A line break is an empty line at level zero. -/
theorem Printer.push_break (p : Printer) : p.push "\n" = p.write [⟨0, ""⟩] := by
  simp [write, Line.renderAll, Line.render]

/-- At level zero the types of a unit are printed with an empty line between two of them. -/
theorem TypeDecl.printSeparated_eq : ∀ (ds : List TypeDecl) (p : Printer), p.level = 0 →
    TypeDecl.printSeparated ds p = p.write ([⟨0, ""⟩].intercalate (ds.map (TypeDecl.lines 0)))
  | [], p, _ => prints_nothing p
  | [d], p, level => by
    rw [TypeDecl.printSeparated, d.prints p, level]
    simp
  | d :: d' :: ds, p, level => by
    have rest := TypeDecl.printSeparated_eq (d' :: ds) ((p.write (d.lines 0)).write [⟨0, ""⟩]) level
    show TypeDecl.printSeparated (d' :: ds) ((d.print p).push "\n") = _
    rw [d.prints p, push_break, level, rest, ← write_append, ← write_append]
    simp

/-- The text of a unit is its lines at the usual width. -/
theorem CompilationUnit.text_eq (u : CompilationUnit) :
    u.text = Line.renderAll Line.defaultWidth u.lines := by
  have whole : u.print .new = Printer.new.write u.lines := by
    rw [CompilationUnit.print, CompilationUnit.lines]
    cases u.package with
    | none => exact TypeDecl.printSeparated_eq u.types .new rfl
    | some n =>
      dsimp only
      rw [push_break, prints_line, TypeDecl.printSeparated_eq u.types _ rfl, ← write_append,
        ← write_append]
      rfl
  rw [CompilationUnit.text, whole]
  exact String.empty_append

/-! ## Trees on lines of their own -/

/-- What is printed on lines of its own. -/
inductive Printed where
  | stmt (s : Stmt)
  | type (d : TypeDecl)

namespace Printed

def print : Printed → Printer → Printer
  | stmt s => s.print
  | type d => d.print

def lines : Printed → Nat → List Line
  | stmt s, n => s.lines n
  | type d, n => d.lines n

/-- No name has a line break, and the headers of `for`s have expressions and local variables
only. -/
def isPlain : Printed → Bool
  | stmt s => s.isPlain
  | type d => d.isPlain

/-- Without node ids, spans, handles and recorded types. -/
def unmarked : Printed → Printed
  | stmt s => .stmt s.unmarked
  | type d => .type d.unmarked

variable {x y z : Printed} {k m : Nat}

/-- A tree holds another one so many levels deeper: one for the body of a block, for a branch
without braces and for the body of a type. -/
inductive Holds : Printed → Nat → Printed → Prop where
  | block {i : NodeInfo} {b : Block} {s : Stmt} : s ∈ b.statements →
    Holds (stmt (.block i b)) 1 (stmt s)
  | thenBranch {i : NodeInfo} {c : Expr} {t : Stmt} {e : Option Stmt} :
      Holds (stmt (.ifElse i c t e)) (t.nestedLevel 0) (stmt t)
  | elseBranch {i : NodeInfo} {c : Expr} {t e : Stmt} :
      Holds (stmt (.ifElse i c t (some e))) (e.nestedLevel 0) (stmt e)
  | whileBody {i : NodeInfo} {c : Expr} {b : Stmt} : Holds (stmt (.whileLoop i c b))
    (b.nestedLevel 0) (stmt b)
  | forBody {i : NodeInfo} {init : List Stmt} {c : Option Expr} {us : List Expr} {b : Stmt} :
      Holds (stmt (.forLoop i init c us b)) (b.nestedLevel 0) (stmt b)
  | tryBody {i : NodeInfo} {b : Block} {cs : List CatchClause} {f : Option Block} {s : Stmt} :
      s ∈ b.statements → Holds (stmt (.tryCatch i b cs f)) 1 (stmt s)
  | catchBody {i : NodeInfo} {b : Block} {cs : List CatchClause} {f : Option Block}
    {c : CatchClause} {s : Stmt} :
      c ∈ cs → s ∈ c.body.statements → Holds (stmt (.tryCatch i b cs f)) 1 (stmt s)
  | finallyBody {i : NodeInfo} {b f : Block} {cs : List CatchClause} {s : Stmt} :
      s ∈ f.statements → Holds (stmt (.tryCatch i b cs (some f))) 1 (stmt s)
  | localType {i : NodeInfo} {d : TypeDecl} : Holds (stmt (.localType i d)) 0 (type d)
  | member {d e : TypeDecl} : .type e ∈ d.members → Holds (type d) 1 (type e)
  | method {d : TypeDecl} {h : MethodHead} {b : Block} {s : Stmt} :
      .method ⟨h, some b⟩ ∈ d.members → s ∈ b.statements → Holds (type d) 2 (stmt s)
  | initializer {d : TypeDecl} {i : InitializerDecl} {s : Stmt} :
      .initializer i ∈ d.members → s ∈ i.body.statements → Holds (type d) 2 (stmt s)

/-- A tree stands anywhere in another one, so many levels deeper. -/
inductive Inside : Printed → Nat → Printed → Prop where
  | here (x : Printed) : Inside x 0 x
  | within {x y z : Printed} {k m : Nat} : Holds x k y → Inside y m z → Inside x (k + m) z

/-! ## Lines of parts -/

theorem infix_left {ls ms : List Line} (inside : ls <:+: ms) (ns : List Line) : ls <:+: ms ++ ns :=
  inside.trans (List.prefix_append ms ns).isInfix

theorem infix_right {ls ns : List Line} (inside : ls <:+: ns) (ms : List Line) : ls <:+: ms ++ ns :=
  inside.trans (List.suffix_append ms ns).isInfix

/-- The lines of a statement stand together among those of its list. -/
theorem infix_linesOf {ss : List Stmt} {s : Stmt} (mem : s ∈ ss) (n : Nat) :
    s.lines n <:+: Stmt.linesOf n ss := by
  induction ss with
  | nil => cases mem
  | cons t ss ih =>
    rw [Stmt.linesOf]
    rcases List.mem_cons.mp mem with rfl | mem
    · exact infix_left (List.infix_refl _) _
    · exact infix_right (ih mem) _

/-- The lines of a statement stand one level deeper in a braced block. -/
theorem infix_braced {ss : List Stmt} {s : Stmt} (mem : s ∈ ss) (n : Nat) (head : String) :
    s.lines (n + 1) <:+: braced n head ss.isEmpty (Stmt.linesOf (n + 1) ss) := by
  have filled : ss.isEmpty = false := by
    rw [List.isEmpty_eq_false_iff]
    exact List.ne_nil_of_mem mem
  rw [braced, filled]
  exact List.infix_cons (infix_left (infix_linesOf mem (n + 1)) _)

/-- The lines of a statement in a catch clause stand one level deeper among those of the clauses. -/
theorem infix_catches {cs : List CatchClause} {c : CatchClause} {s : Stmt} (clause : c ∈ cs)
    (mem : s ∈ c.body.statements) (n : Nat) : s.lines (n + 1) <:+: CatchClause.linesOf n cs := by
  induction cs with
  | nil => cases clause
  | cons c' cs ih =>
    obtain ⟨_, x, ⟨_, ss⟩⟩ := c'
    rw [CatchClause.linesOf]
    rcases List.mem_cons.mp clause with rfl | clause
    · exact infix_left (infix_braced mem n _) _
    · exact infix_right (ih clause) _

/-- The lines of a member stand together among those of its list. -/
theorem infix_members {typeName : String} {ms : List Member} {m : Member} (mem : m ∈ ms) (n : Nat) :
    m.lines n typeName <:+: Member.linesOf n typeName ms := by
  induction ms with
  | nil => cases mem
  | cons m' ms ih =>
    rw [Member.linesOf]
    rcases List.mem_cons.mp mem with rfl | mem
    · exact infix_left (List.infix_refl _) _
    · exact infix_right (ih mem) _

/-- The lines of a member stand one level deeper in its type. -/
theorem infix_type {d : TypeDecl} {m : Member} (mem : m ∈ d.members) (n : Nat) :
    m.lines (n + 1) d.head.name <:+: d.lines n := by
  obtain ⟨h, ms⟩ := d
  rw [TypeDecl.lines]
  apply List.infix_cons
  apply infix_left
  exact infix_right (infix_members mem (n + 1)) _

theorem nested_lines (s : Stmt) (n : Nat) :
    s.lines (n + s.nestedLevel 0) = s.lines (s.nestedLevel n) := by
  rw [Nat.add_comm, ← s.nestedLevel_add, Nat.zero_add]

/-- The lines of a tree that another one holds are among its lines. -/
theorem Holds.among (holds : Holds x k y) (n : Nat) : y.lines (n + k) <:+: x.lines n := by
  cases holds with
  | @block i b s mem =>
    obtain ⟨_, ss⟩ := b
    exact infix_braced mem n ""
  -- A branch that is no block stands one level deeper, which `nested_lines` accounts for.
  | @thenBranch i c t e =>
    show t.lines (n + t.nestedLevel 0) <:+: _
    rw [nested_lines]
    cases e with
    | none => exact List.infix_cons (List.infix_refl _)
    | some e => exact List.infix_cons (infix_left (List.infix_refl _) _)
  | @elseBranch i c t e =>
    show e.lines (n + e.nestedLevel 0) <:+: _
    rw [nested_lines]
    exact List.infix_cons (infix_right (List.infix_cons (List.infix_refl _)) _)
  | @whileBody i c b =>
    show b.lines (n + b.nestedLevel 0) <:+: _
    rw [nested_lines]
    exact List.infix_cons (List.infix_refl _)
  | @forBody i init c us b =>
    show b.lines (n + b.nestedLevel 0) <:+: _
    rw [nested_lines]
    exact List.infix_cons (List.infix_refl _)
  | @tryBody i b cs f s mem =>
    obtain ⟨_, ss⟩ := b
    have inner := infix_left (infix_braced mem n "try ") (CatchClause.linesOf n cs)
    cases f with
    | none => exact inner
    | some f =>
      obtain ⟨_, fs⟩ := f
      exact infix_left inner _
  -- The clauses follow the lines of the body, and those of `finally` follow the clauses.
  | @catchBody i b cs f c s clause mem =>
    obtain ⟨_, ss⟩ := b
    have inner :=
      infix_right (infix_catches clause mem n)
        (braced n "try " ss.isEmpty (Stmt.linesOf (n + 1) ss))
    cases f with
    | none => exact inner
    | some f =>
      obtain ⟨_, fs⟩ := f
      exact infix_left inner _
  | @finallyBody i b f cs s mem =>
    obtain ⟨_, ss⟩ := b
    obtain ⟨_, fs⟩ := f
    exact infix_right (infix_braced mem n "finally ") _
  | localType => exact List.infix_refl _
  | member mem => exact infix_type mem n
  | @method d h b s mem inside =>
    obtain ⟨_, ss⟩ := b
    exact (infix_braced inside (n + 1) (h.text d.head.name ++ " ")).trans (infix_type mem n)
  | @initializer d i s mem inside =>
    obtain ⟨_, isStatic, ⟨_, ss⟩⟩ := i
    exact (infix_braced inside (n + 1) (if isStatic then "static " else "")).trans
      (infix_type mem n)

/-- Whatever is inside a tree has its lines together among those of the tree, deeper by its
depth. -/
theorem Inside.among (inside : Inside x k y) (n : Nat) : y.lines (n + k) <:+: x.lines n := by
  induction inside generalizing n with
  | here => exact List.infix_refl _
  | @within _ _ _ k m holds _ ih =>
    rw [← Nat.add_assoc]
    exact (ih (n + k)).trans (holds.among n)

end Printed

end ClassInit
