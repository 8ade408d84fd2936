import ClassInit.Proofs.Tree.Printed

/-!
# Printing and indentation

A text at a level is the text at level zero with its lines shifted, wherever the tree stands
(`Printed.print_at_level`), since a tree without line breaks in its names is printed line by line
(`Printed.print_eq`).
-/

set_option autoImplicit false

namespace ClassInit

open Printer

/-! ## Lines of a text -/

/-- The text is these lines, each with a line break after it. -/
structure HasLines (text : String) (ls : List String) : Prop where
  oneLine : ∀ l ∈ ls, Text.oneLine l = true
  join : text = String.join (ls.map (· ++ "\n"))

/-- A text of lines ends with a line break. -/
theorem HasLines.getLast? {text : String} {ls : List String} (lines : HasLines text ls)
    (some : ls ≠ []) :
    text.toList.getLast? = .some '\n' := by
  obtain ⟨init, last, rfl⟩ := (List.eq_nil_or_concat' ls).resolve_left some
  rw [lines.join]
  simp

namespace Line

def spaces (n : Nat) : String := String.ofList (List.replicate n ' ')

/-- The line with its indentation. -/
def indented (width : Nat) (l : Line) : String := spaces (l.level * width) ++ l.text

/-- Indentation by two levels is the indentation by one after that by the other. -/
theorem spaces_add (m n : Nat) : spaces (m + n) = spaces m ++ spaces n := by
  rw [spaces, List.replicate_add, String.ofList_append]
  rfl

theorem oneLine_spaces (n : Nat) : Text.oneLine (spaces n) = true := by
  rw [spaces, Text.oneLine_ofList, List.all_eq_true]
  intro c mem
  rw [List.eq_of_mem_replicate mem]
  rfl

/-- A deeper line has that many more spaces before it. -/
theorem indented_deepen (width n : Nat) (l : Line) :
    (l.deepen n).indented width = spaces (n * width) ++ l.indented width := by
  show spaces ((l.level + n) * width) ++ l.text = _
  rw [Nat.add_mul, Nat.add_comm, spaces_add, String.append_assoc]
  rfl

theorem map_indented_deepen (width n : Nat) (ls : List Line) :
    (ls.map (deepen n)).map (indented width) =
      (ls.map (indented width)).map (spaces (n * width) ++ ·) := by
  rw [List.map_map, List.map_map]
  apply List.map_congr_left
  intro l _
  exact indented_deepen width n l

/-- Levels play no part in line breaks. -/
theorem allOneLine_deepen {ls : List Line} {n : Nat} :
    AllOneLine (ls.map (deepen n)) ↔ AllOneLine ls :=
  List.forall_mem_map

/-- Rendered lines are the lines of the text. -/
theorem hasLines_renderAll {ls : List Line} (one : AllOneLine ls) (width : Nat) :
    HasLines (renderAll width ls) (ls.map (indented width)) where
  oneLine := by
    intro text mem
    obtain ⟨l, inside, rfl⟩ := List.mem_map.mp mem
    rw [indented, Text.oneLine_append, oneLine_spaces, one l inside]
    rfl
  join := by
    rw [List.map_map]
    rfl

end Line

/-! ## Printing at a level -/

namespace Printed

variable {x y : Printed} {k : Nat}

/-- A printer at any level appends the lines for that level. -/
theorem print_eq (x : Printed) (p : Printer) : x.print p = p.write (x.lines p.level) := by
  cases x with
  | stmt s => exact s.prints p
  | type d => exact d.prints p

/-- A new printer writes the lines at level zero. -/
theorem out_print (x : Printed) (width : Nat) :
    (x.print (.ofWidth width)).out = Line.renderAll width (x.lines 0) := by
  rw [print_eq]
  exact String.empty_append

theorem lines_add (x : Printed) (n k : Nat) :
    x.lines (n + k) = (x.lines n).map (Line.deepen k) := by
  cases x with
  | stmt s => exact s.lines_add k n
  | type d => exact d.lines_add k n

/-- The lines at a level are those at level zero, deeper. -/
theorem lines_eq (x : Printed) (n : Nat) : x.lines n = (x.lines 0).map (Line.deepen n) := by
  rw [← x.lines_add 0 n, Nat.zero_add]

/-- Ids, spans and handles do not show in any printed tree. -/
theorem lines_unmarked (x : Printed) (n : Nat) : x.unmarked.lines n = x.lines n := by
  cases x with
  | stmt s => exact s.lines_unmarked n
  | type d => exact d.lines_unmarked n

/-- No line of a plain tree has a break in it. -/
theorem allOneLine_lines (plain : x.isPlain = true) (n : Nat) : Line.AllOneLine (x.lines n) := by
  cases x with
  | stmt s => exact s.oneLine_lines plain n
  | type d => exact d.oneLine_lines plain n

/-- The lines of a part are among the lines of the whole. -/
theorem Inside.allOneLine (inside : Inside x k y) (plain : x.isPlain = true) :
    Line.AllOneLine (y.lines 0) := by
  have whole := allOneLine_lines plain 0
  rw [← Line.allOneLine_deepen (n := k), ← lines_add]
  intro l mem
  exact whole l ((inside.among 0).subset mem)

theorem braced_ne_nil (n : Nat) (head : String) (isEmpty : Bool) (body : List Line) :
    braced n head isEmpty body ≠ [] := by
  cases isEmpty <;> exact List.cons_ne_nil _ _

/-- Every printed tree has a line. -/
theorem lines_ne_nil (x : Printed) (n : Nat) : x.lines n ≠ [] := by
  have declaration : ∀ d : TypeDecl, d.lines n ≠ [] := by
    rintro ⟨h, ms⟩
    exact List.cons_ne_nil _ _
  cases x with
  | type d => exact declaration d
  | stmt s =>
    cases s with
    | block i b =>
      obtain ⟨_, ss⟩ := b
      exact braced_ne_nil _ _ _ _
    | ifElse i c t e => cases e <;> exact List.cons_ne_nil _ _
    | tryCatch i b cs f =>
      obtain ⟨_, ss⟩ := b
      have first := List.append_ne_nil_of_left_ne_nil
        (braced_ne_nil n "try " ss.isEmpty (Stmt.linesOf (n + 1) ss)) (CatchClause.linesOf n cs)
      cases f with
      | none => exact first
      | some f =>
        obtain ⟨_, fs⟩ := f
        exact List.append_ne_nil_of_left_ne_nil first _
    | returnValue i e => cases e <;> exact List.cons_ne_nil _ _
    | localType i d => exact declaration d
    | _ => exact List.cons_ne_nil _ _

/-- For every statement and declaration whose names have no line break and whose `for` headers have
expressions and local variables only, and for every width: there are lines, at least one, such that

* printed alone, it is these lines;
* a printer at any level appends these lines, each behind the level's spaces, ends them with a line
  break and is at the same level afterwards;
* every part of it, printed alone, is among these lines behind the spaces of its depth in it;
* a tree that differs from it in node ids, spans, handles and recorded types only is printed
  alike. -/
theorem print_at_level (x : Printed) (plain : x.isPlain = true) (width : Nat) :
    ∃ ls ≠ [], HasLines (x.print (.ofWidth width)).out ls ∧
      (∀ out level, ∃ text, x.print ⟨out, level, width⟩ = ⟨out ++ text, level, width⟩ ∧
        HasLines text (ls.map (Line.spaces (level * width) ++ ·)) ∧
          text.toList.getLast? = some '\n') ∧
      (∀ k y, x.Inside k y → ∃ inner, HasLines (y.print (.ofWidth width)).out inner ∧
        inner.map (Line.spaces (k * width) ++ ·) <:+: ls) ∧
      ∀ x' : Printed, x'.unmarked = x.unmarked → x'.print = x.print := by
  refine ⟨(x.lines 0).map (Line.indented width), ?_, ?_, ?_, ?_, ?_⟩
  · intro empty
    exact x.lines_ne_nil 0 (List.map_eq_nil_iff.mp empty)
  · rw [out_print]
    exact Line.hasLines_renderAll (allOneLine_lines plain 0) width
  · intro out level
    have lines := Line.hasLines_renderAll (allOneLine_lines plain level) width
    have last := lines.getLast? (by
      intro empty
      exact x.lines_ne_nil level (List.map_eq_nil_iff.mp empty))
    refine ⟨Line.renderAll width (x.lines level), x.print_eq _, ?_, last⟩
    rwa [← Line.map_indented_deepen, ← lines_eq]
  · intro k y inside
    refine ⟨(y.lines 0).map (Line.indented width), ?_, ?_⟩
    · rw [out_print]
      exact Line.hasLines_renderAll (inside.allOneLine plain) width
    · rw [← Line.map_indented_deepen, ← lines_eq]
      have part := inside.among 0
      rw [Nat.zero_add] at part
      exact part.map (Line.indented width)
  · intro x' same
    funext p
    rw [print_eq, print_eq, ← x'.lines_unmarked, same, x.lines_unmarked]

/-- A loop whose header declares a variable, with a branch without braces in its body. -/
def loopSample : Stmt :=
  let i : Expr := .name default "i" none
  let int (n : Int32) : Expr := .literal default (.int n)
  .forLoop default
    [.localVariable default .empty (.primitive .int) [⟨default, "i", some (int 0), none⟩]]
    (some (.binary default .lt i (int 9))) [.step default .increment i]
    (.block default
      ⟨default, [.ifElse default (.binary default .eq i (int 3)) (.throwValue default i) none]⟩)

/-- Two levels down the loop is printed with eight spaces before each line. -/
theorem print_at_level_loop :
    let loop := stmt loopSample
    let text := "for (int i = 0; i < 9; i++)\n\x7b\n    if (i == 3)\n        throw i;\n\x7d\n"
    let shifted := "        for (int i = 0; i < 9; i++)\n        \x7b\n            if (i == 3)\n" ++
      "                throw i;\n        \x7d\n"
    loop.isPlain = true ∧ (loop.print (.ofWidth 4)).out = text ∧
      loop.print ⟨"try ", 2, 4⟩ = ⟨"try " ++ shifted, 2, 4⟩ ∧
      ∃ ls ≠ [], HasLines text ls ∧ HasLines shifted (ls.map (Line.spaces 8 ++ ·)) ∧
        (∀ k y, loop.Inside k y → ∃ inner, HasLines (y.print (.ofWidth 4)).out inner ∧
          inner.map (Line.spaces (k * 4) ++ ·) <:+: ls) ∧
        ∀ x' : Printed, x'.unmarked = loop.unmarked → x'.print = loop.print := by
  intro loop text shifted
  have plain : loop.isPlain = true := by decide
  have alone : (loop.print (.ofWidth 4)).out = text := by decide +kernel
  obtain ⟨ls, some, lines, levels, parts, marks⟩ := print_at_level loop plain 4
  obtain ⟨below, printed, linesBelow, -⟩ := levels "" 2
  have same : below = shifted := by
    have out : (loop.print ⟨"", 2, 4⟩).out = shifted := by decide +kernel
    rw [printed, String.empty_append] at out
    exact out
  rw [alone] at lines
  rw [same] at linesBelow
  exact ⟨plain, alone, by decide +kernel, ls, some, lines, linesBelow, parts, marks⟩

end Printed

end ClassInit
