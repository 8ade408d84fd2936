import ClassInit.Proofs.Json.Numerals
import ClassInit.Proofs.Tree.LiteralText
import ClassInit.Tree.DeclText

/-!
# Plain trees

A text without line breaks stays so when it is put together with others. Literals are such texts,
since they escape their line breaks; a tree is plain if its names are (`Expr.isPlain`,
`Stmt.isPlain`, `TypeDecl.isPlain`).
-/

set_option autoImplicit false

namespace ClassInit

/-! ## Texts without line breaks -/

namespace Text

variable {s t : String} {ss : List String} {cs ds : List Char}

/-- Whether a text has no line break. -/
def oneLine (s : String) : Bool := s.toList.all (· ≠ '\n')

@[simp] theorem oneLine_ofList : oneLine (String.ofList cs) = cs.all (· ≠ '\n') := by
  rw [oneLine, String.toList_ofList]

@[simp] theorem oneLine_append : oneLine (s ++ t) = (oneLine s && oneLine t) := by
  rw [oneLine, String.toList_append, List.all_append]
  rfl

/-- Some of the characters of a text without line breaks make a text without line breaks. -/
theorem oneLine_of_subset (subset : cs ⊆ s.toList) (one : oneLine s = true) :
    oneLine (String.ofList cs) = true := by
  rw [oneLine_ofList, List.all_eq_true]
  intro c mem
  exact List.all_eq_true.mp one c (subset mem)

/-- Texts without line breaks, put together, have none. -/
theorem oneLine_join (all : ∀ s ∈ ss, oneLine s = true) : oneLine (String.join ss) = true := by
  induction ss with
  | nil => rfl
  | cons s ss ih =>
    rw [String.join_cons, oneLine_append, all s List.mem_cons_self, Bool.true_and]
    apply ih
    intro t mem
    exact all t (List.mem_cons_of_mem s mem)

/-- Nor have they with a separator that has none. -/
theorem oneLine_intercalate (one : oneLine s = true) (all : ∀ t ∈ ss, oneLine t = true) :
    oneLine (s.intercalate ss) = true := by
  induction ss with
  | nil => rfl
  | cons t ss ih =>
    have first := all t List.mem_cons_self
    have rest := ih fun u mem => all u (List.mem_cons_of_mem t mem)
    by_cases last : ss = []
    · rw [last, String.intercalate_singleton]
      exact first
    · rw [String.intercalate_cons_of_ne_nil last, oneLine_append, oneLine_append, first, one, rest]
      rfl

theorem oneLine_comma : oneLine ", " = true := rfl

/-- A list of texts without line breaks, with commas between them, has none. -/
theorem oneLine_commas {α : Type} {f : α → String} {as : List α}
    (all : ∀ a ∈ as, oneLine (f a) = true) :
    oneLine (", ".intercalate (as.map f)) = true := by
  apply oneLine_intercalate oneLine_comma
  intro t mem
  obtain ⟨a, inside, rfl⟩ := List.mem_map.mp mem
  exact all a inside

end Text

open Text (oneLine oneLine_comma)

/-! ## Texts of literals -/

namespace Number.Decimal

/-- Digits are not line breaks. -/
theorem oneLine_toDigits (n : Nat) : (Nat.toDigits 10 n).all (· ≠ '\n') = true := by
  rw [List.all_eq_true]
  intro c mem
  have digit := Json.isDigit_toDigits n c mem
  rw [decide_eq_true_iff]
  rintro rfl
  exact absurd digit (by decide)

theorem oneLine_integer (n : Int) : (integer n).all (· ≠ '\n') = true := by
  have digits := oneLine_toDigits n.natAbs
  unfold integer
  split
  · rw [List.all_cons, digits]
    rfl
  · exact digits

/-- The plain form of a decimal stays on one line. -/
theorem oneLine_pointed (digits places : Nat) : (pointed digits places).all (· ≠ '\n') = true := by
  have inner := oneLine_toDigits digits
  unfold pointed
  dsimp only
  split
  · exact inner
  · have padded (k : Nat) :
        (List.replicate k '0' ++ Nat.toDigits 10 digits).all (· ≠ '\n') = true := by
      rw [List.all_append, inner, Bool.and_true, List.all_eq_true]
      intro c mem
      rw [List.eq_of_mem_replicate mem]
      rfl
    rw [List.all_append, List.all_cons, Bool.and_eq_true, Bool.and_eq_true]
    have all := List.all_eq_true.mp (padded (places + 1 - (Nat.toDigits 10 digits).length))
    refine ⟨?_, rfl, ?_⟩
    · rw [List.all_eq_true]
      intro c mem
      exact all c (List.mem_of_mem_take mem)
    · rw [List.all_eq_true]
      intro c mem
      exact all c (List.mem_of_mem_drop mem)

/-- So does every form in which a decimal is concatenated. -/
theorem oneLine_chars (d : Decimal) : (d.chars .concat).all (· ≠ '\n') = true := by
  have power (e : Int) : (ExponentStyle.concat.chars e).all (· ≠ '\n') = true := by
    rw [ExponentStyle.chars, List.all_cons, List.all_append, oneLine_integer]
    rfl
  rw [chars, List.all_append, List.all_append, oneLine_pointed]
  cases d.exponent with
  | none => cases d.negative <;> rfl
  | some e => cases d.negative <;> exact power e

end Number.Decimal

/-- The text of a floating-point number in a concatenation is one line. -/
theorem Number.oneLine_concatText (f : BinaryFormat) (bits : Nat) :
    oneLine (concatText f bits) = true := by
  unfold concatText
  split
  · rfl
  · split <;> rfl
  · rw [Text.oneLine_ofList]
    exact Decimal.oneLine_chars _

namespace Literal

/-- A quoted text has no line break, since a line break in it is written as an escape. -/
theorem IsQuoted.oneLine {quote : Char} {text : String} (quoted : IsQuoted quote text) :
    oneLine text = true := by
  rw [Text.oneLine, List.all_eq_true]
  intro c mem
  rw [decide_eq_true_iff]
  rintro rfl
  exact absurd (quoted.printable _ mem) (by decide)

/-- Literals are written on one line. -/
theorem oneLine_text (v : Literal) : oneLine v.text = true := by
  cases v with
  | boolean b => cases b <;> rfl
  | null => rfl
  | char c => exact (isQuoted_quoted (.inl rfl) [c]).oneLine
  | string s => exact (isQuoted_quoted (.inr rfl) (Text.utf16 s)).oneLine
  | int i =>
    rw [text, Constant.concatText, Constant.integerText, Text.oneLine_ofList]
    exact Number.Decimal.oneLine_integer _
  | long l =>
    rw [text, Constant.concatText, Constant.integerText, Text.oneLine_append, Text.oneLine_ofList,
      Number.Decimal.oneLine_integer]
    rfl
  | float f =>
    have plain := Number.oneLine_concatText .single f.toBits.toNat
    rw [text, floatingText, Constant.concatText]
    repeat' split
    all_goals simp +decide [plain]
  | double d =>
    have plain := Number.oneLine_concatText .double d.toBits.toNat
    rw [text, floatingText, Constant.concatText]
    repeat' split
    all_goals simp +decide [plain]

end Literal

/-! ## Trees without line breaks -/

def TypeName.isPlain (n : TypeName) : Bool := oneLine n.name

def TypeRef.isPlain : TypeRef → Bool
  | .declared n => n.isPlain
  | .array e => e.isPlain
  | _ => true

mutual

/-- Whether no name in the expression has a line break. -/
def Expr.isPlain : Expr → Bool
  | .literal .. | .this _ => true
  | .name _ n _ => oneLine n
  | .fieldAccess _ t n _ => t.isPlain && oneLine n
  | .unary _ _ e | .step _ _ e | .parenthesized _ e => e.isPlain
  | .binary _ _ l r | .assignment _ _ l r => l.isPlain && r.isPlain
  | .conditional _ c t e => c.isPlain && t.isPlain && e.isPlain
  | .cast _ t e => t.isPlain && e.isPlain
  | .call _ none n as _ => oneLine n && Expr.allPlain as
  | .call _ (some r) n as _ => r.isPlain && oneLine n && Expr.allPlain as
  | .new _ t as _ => t.isPlain && Expr.allPlain as

def Expr.allPlain : List Expr → Bool
  | [] => true
  | e :: es => e.isPlain && Expr.allPlain es

end

def Fragment.isPlain (f : Fragment) : Bool := oneLine f.name && f.initializer.all Expr.isPlain

def Parameter.isPlain (p : Parameter) : Bool := oneLine p.name && p.type.isPlain

def FieldDecl.isPlain (f : FieldDecl) : Bool := f.type.isPlain && f.fragments.all Fragment.isPlain

def EnumConstant.isPlain (c : EnumConstant) : Bool := oneLine c.name && Expr.allPlain c.arguments

def TypeHead.isPlain (h : TypeHead) : Bool :=
  oneLine h.name && h.superclass.all TypeName.isPlain && h.enumConstants.all EnumConstant.isPlain

def MethodHead.isPlain (h : MethodHead) : Bool :=
  oneLine h.name && h.returnType.isPlain && h.parameters.all Parameter.isPlain

/-- Whether the statement is an expression or declares local variables. -/
def Stmt.isHeader : Stmt → Bool
  | .expression .. | .localVariable .. => true
  | _ => false

mutual

def Block.isPlain : Block → Bool
  | ⟨_, ss⟩ => Stmt.allPlain ss

/-- Whether no name in the statement has a line break, and the headers of its `for`s have
expressions and local variables only. -/
def Stmt.isPlain : Stmt → Bool
  | .expression _ e => e.isPlain
  | .localVariable _ _ t fs => t.isPlain && fs.all Fragment.isPlain
  | .block _ b => b.isPlain
  | .ifElse _ c t none => c.isPlain && t.isPlain
  | .ifElse _ c t (some e) => c.isPlain && t.isPlain && e.isPlain
  | .whileLoop _ c b => c.isPlain && b.isPlain
  | .forLoop _ init c us b =>
    init.all Stmt.isHeader && Stmt.allPlain init && c.all Expr.isPlain && Expr.allPlain us &&
      b.isPlain
  | .tryCatch _ b cs none => b.isPlain && CatchClause.allPlain cs
  | .tryCatch _ b cs (some f) => b.isPlain && CatchClause.allPlain cs && f.isPlain
  | .returnValue _ e => e.all Expr.isPlain
  | .throwValue _ e => e.isPlain
  | .superCall _ as _ | .thisCall _ as _ => Expr.allPlain as
  | .localType _ d => d.isPlain
  | .empty _ => true

def Stmt.allPlain : List Stmt → Bool
  | [] => true
  | s :: ss => s.isPlain && Stmt.allPlain ss

def CatchClause.allPlain : List CatchClause → Bool
  | [] => true
  | ⟨_, x, b⟩ :: cs => x.isPlain && b.isPlain && CatchClause.allPlain cs

def Member.isPlain : Member → Bool
  | .type d => d.isPlain
  | .method ⟨h, none⟩ => h.isPlain
  | .method ⟨h, some b⟩ => h.isPlain && b.isPlain
  | .initializer ⟨_, _, b⟩ => b.isPlain
  | .field f => f.isPlain

def Member.allPlain : List Member → Bool
  | [] => true
  | m :: ms => m.isPlain && Member.allPlain ms

/-- Whether no name in the declaration has a line break, and the headers of its `for`s have
expressions and local variables only. -/
def TypeDecl.isPlain : TypeDecl → Bool
  | ⟨h, ms⟩ => h.isPlain && Member.allPlain ms

end

end ClassInit
