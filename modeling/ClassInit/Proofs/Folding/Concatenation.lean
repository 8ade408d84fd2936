import ClassInit.Proofs.Folding.Depth

/-!
# Concatenation in code units

A text is a sequence of UTF-16 code units, and a sum with a text among its summands appends to it
what the others contribute: a character its one unit, whatever it is, and a number its decimal
numeral (`Expr.sumValue`). A folded text consists of characters, so a unit that denotes none when it
stands alone, one half of a pair, becomes U+FFFD on the way. Folding a sum therefore gives the units
that the language gives exactly if no such half is appended to a text, and it gives some text in any
case (`Expr.fold_concatenation`).
-/

set_option autoImplicit false

namespace ClassInit

/-! ## Sums as the language evaluates them -/

/-- The value of a sum: the code units of a text, or a boolean or integer. -/
inductive SumValue where
  | text (units : List UInt16)
  | plain (value : ExactValue)
deriving DecidableEq

/-- The units that a value contributes to a text, where a character contributes `unit` of its
own. -/
def ExactValue.units (unit : UInt16 → UInt16) : ExactValue → List UInt16
  | boolean b => Text.utf16 (toString b)
  | integer .char n => [unit (.ofNat n.toNat)]
  | integer _ n => Text.utf16 (toString n)

namespace SumValue

def units (unit : UInt16 → UInt16) : SumValue → List UInt16
  | text us => us
  | plain v => v.units unit

/-- Two values without a text are added as numbers, all others one is appended to the other. -/
def add (unit : UInt16 → UInt16) : SumValue → SumValue → Option SumValue
  | plain v, plain w => (ExactValue.binary .add v w).map plain
  | v, w => some (text (v.units unit ++ w.units unit))

/-- Whether the value is that of a character which is one half of a pair. -/
def isHalf : SumValue → Bool
  | plain (.integer .char n) => Text.isSurrogate (.ofNat n.toNat)
  | _ => false

/-- Whether adding the values appends a half to a text, or a text to a half. -/
def appendsHalf : SumValue → SumValue → Bool
  | plain _, plain _ => false
  | v, w => v.isHalf || w.isHalf

end SumValue

/-- The value of a constant that is no floating-point number. -/
def Constant.sumValue? : Constant → Option SumValue
  | string s => some (.text (Text.utf16 s))
  | c => c.exactValue?.map .plain

namespace Expr

/-- The summands of an expression from the first to the last, however they are associated. -/
def summands : Expr → List Expr
  | .parenthesized _ e => e.summands
  | .binary i op l r => if op = .add then l.summands ++ r.summands else [.binary i op l r]
  | e => [e]

variable (env : VariableId → Option Constant)

/-- All summands are constants, and none of them is a floating-point number. -/
def SumsConstants (e : Expr) : Prop :=
  ∀ o ∈ e.summands, ∃ c v, o.foldFreely env = some c ∧ c.sumValue? = some v

/-- The value of a sum of constants, given what becomes of the units of characters in texts: each
operator adds the values of its operands. -/
def sumValue (unit : UInt16 → UInt16) : Expr → Option SumValue
  | .parenthesized _ e => e.sumValue unit
  | .binary i op l r =>
    if op = .add then (l.sumValue unit).bind fun v => (r.sumValue unit).bind fun w => v.add unit w
    else ((binary i op l r).foldFreely env).bind Constant.sumValue?
  | e => (e.foldFreely env).bind Constant.sumValue?

/-- Whether some operator of a sum appends a half to a text, or a text to a half. -/
def appendsHalf : Expr → Bool
  | .parenthesized _ e => e.appendsHalf
  | .binary _ op l r =>
    op = .add && (l.appendsHalf || r.appendsHalf ||
      (((l.sumValue env id).bind fun v => (r.sumValue env id).map v.appendsHalf).getD false))
  | _ => false

/-- Whether an expression is no sum, also not in parentheses. -/
def isSummand : Expr → Bool
  | .parenthesized .. => false
  | .binary _ op _ _ => op != .add
  | _ => true

/-- An expression is a sum of two, one in parentheses, or a summand. -/
@[elab_as_elim]
theorem sumInduction {motive : Expr → Prop}
    (parenthesized : ∀ i e, motive e → motive (.parenthesized i e))
    (add : ∀ i l r, motive l → motive r → motive (.binary i .add l r))
    (summand : ∀ e, e.isSummand = true → motive e) : ∀ e, motive e
  | .parenthesized i e => parenthesized i e (sumInduction parenthesized add summand e)
  | .binary i op l r => by
    by_cases sum : op = .add
    · subst sum
      exact add i l r (sumInduction parenthesized add summand l)
        (sumInduction parenthesized add summand r)
    · exact summand _ (bne_iff_ne.mpr sum)
  | .literal .. => summand _ rfl
  | .name .. => summand _ rfl
  | .fieldAccess .. => summand _ rfl
  | .unary .. => summand _ rfl
  | .cast .. => summand _ rfl
  | .conditional .. => summand _ rfl
  | .this _ => summand _ rfl
  | .step .. => summand _ rfl
  | .assignment .. => summand _ rfl
  | .call .. => summand _ rfl
  | .new .. => summand _ rfl

section

variable {env} {e : Expr} (single : e.isSummand = true)

include single

theorem summands_of_summand : e.summands = [e] := by
  cases e <;> first | rfl | cases single | exact if_neg (bne_iff_ne.mp single)

theorem sumValue_of_summand (unit : UInt16 → UInt16) :
    e.sumValue env unit = (e.foldFreely env).bind Constant.sumValue? := by
  cases e <;> first | rfl | cases single | exact if_neg (bne_iff_ne.mp single)

theorem appendsHalf_of_summand : e.appendsHalf env = false := by
  cases e <;> first | rfl | cases single | simp [appendsHalf, bne_iff_ne.mp single]

end

variable {env} {i : ExprInfo} {l r : Expr}

theorem summands_add : (binary i .add l r).summands = l.summands ++ r.summands := if_pos rfl

theorem sumValue_add (unit : UInt16 → UInt16) :
    (binary i .add l r).sumValue env unit = (l.sumValue env unit).bind fun v =>
      (r.sumValue env unit).bind fun w => v.add unit w := if_pos rfl

theorem SumsConstants.operands (constants : (binary i .add l r).SumsConstants env) :
    l.SumsConstants env ∧ r.SumsConstants env := by
  rw [SumsConstants, summands_add] at constants
  exact List.forall_mem_append.mp constants

end Expr

/-! ## Units of characters -/

namespace Text

theorem utf16_append (s t : String) : utf16 (s ++ t) = utf16 s ++ utf16 t := by
  rw [utf16, String.toList_append, List.flatMap_append]
  rfl

/-- The unit of the character that a unit denotes when it stands alone. -/
def unitAlone (u : UInt16) : UInt16 := if isSurrogate u then 0xFFFD else u

theorem unitAlone_eq_iff {u : UInt16} : unitAlone u = u ↔ isSurrogate u = false := by
  unfold unitAlone
  split
  · rename_i surrogate
    rw [surrogate]
    refine ⟨fun same => ?_, nofun⟩
    rw [← same] at surrogate
    exact absurd surrogate (by decide)
  · rename_i other
    exact ⟨fun _ => Bool.not_eq_true _ ▸ other, fun _ => rfl⟩

theorem unitsOfChar_charOfUnit (u : UInt16) : unitsOfChar (charOfUnit u) = [unitAlone u] := by
  unfold charOfUnit unitAlone
  split
  · decide
  · rename_i other
    have bound := u.toNat_lt
    have valid : u.toNat.isValidChar := by
      simp only [isSurrogate, Bool.and_eq_true, decide_eq_true_eq, UInt16.le_iff_toNat_le] at other
      simp only [Nat.isValidChar]
      have low : (0xD800 : UInt16).toNat = 0xD800 := rfl
      have high : (0xDFFF : UInt16).toNat = 0xDFFF := rfl
      omega
    have code : (Char.ofNat u.toNat).toNat = u.toNat := by
      rw [Char.ofNat, dif_pos valid]
      rfl
    unfold unitsOfChar
    rw [code]
    dsimp only
    rw [if_pos bound]
    exact congrArg (fun x => [x]) UInt16.ofNat_toNat

/-- No character is a half alone. -/
theorem unitsOfChar_ne_half {u : UInt16} (half : isSurrogate u = true) (c : Char) :
    unitsOfChar c ≠ [u] := by
  intro units
  unfold unitsOfChar at units
  dsimp only at units
  split at units
  · rename_i small
    obtain rfl := List.singleton_inj.mp units
    simp only [isSurrogate, Bool.and_eq_true, decide_eq_true_eq, UInt16.le_iff_toNat_le] at half
    have code : c.toNat.toUInt16.toNat = c.toNat := Nat.mod_eq_of_lt small
    have low : (0xD800 : UInt16).toNat = 0xD800 := rfl
    have high : (0xDFFF : UInt16).toNat = 0xDFFF := rfl
    have valid : c.toNat.isValidChar := c.valid
    simp only [Nat.isValidChar] at valid
    omega
  · exact absurd (congrArg List.length units) (by simp)

theorem length_unitsOfChar (c : Char) : 0 < (unitsOfChar c).length := by
  unfold unitsOfChar
  dsimp only
  split <;> exact Nat.succ_pos _

/-- No text is a half alone. -/
theorem utf16_ne_half {u : UInt16} (half : isSurrogate u = true) (s : String) : utf16 s ≠ [u] := by
  intro units
  rw [utf16] at units
  cases chars : s.toList with
  | nil =>
    rw [chars] at units
    cases units
  | cons c cs =>
    rw [chars, List.flatMap_cons] at units
    obtain ⟨first, -⟩ | ⟨first, -⟩ := List.append_eq_singleton_iff.mp units
    · exact absurd (length_unitsOfChar c) (by simp [first])
    · exact unitsOfChar_ne_half half c first

end Text

namespace Constant

theorem integerText_eq (n : Int) : integerText n = toString n := by
  rw [integerText, Number.Decimal.integer]
  cases n with
  | ofNat m =>
    rw [if_neg (show ¬Int.ofNat m < 0 from Int.not_lt.mpr (Int.natCast_nonneg m))]
    show _ = toString m
    rw [Nat.toString_eq_ofList_toDigits]
    rfl
  | negSucc m =>
    rw [if_pos (Int.negSucc_lt_zero m)]
    show _ = "-" ++ toString (m + 1)
    rw [Nat.toString_eq_ofList_toDigits, ← String.toList_inj]
    simp

/-- The text that a constant contributes has the units that its value contributes, but for halves of
pairs. -/
theorem utf16_concatText {c : Constant} {v : ExactValue} (value : c.exactValue? = some v) :
    Text.utf16 c.concatText = v.units Text.unitAlone := by
  cases c <;> cases value
  case boolean b => cases b <;> rfl
  case char u =>
    rw [concatText, Text.utf16, String.toList_singleton, List.flatMap_singleton,
      Text.unitsOfChar_charOfUnit, ExactValue.units, Int.toNat_natCast, UInt16.ofNat_toNat]
  all_goals
    rw [concatText, integerText_eq]
    rfl

/-- A constant with a value is a text, or a boolean or integer. -/
theorem sumValue?_cases {c : Constant} {v : SumValue} (value : c.sumValue? = some v) :
    (∃ s, c = string s ∧ v = .text (Text.utf16 s)) ∨
      ∃ x, c.exactValue? = some x ∧ v = .plain x ∧ c.isString = false := by
  cases c <;> cases value
  case string s => exact .inl ⟨s, rfl, rfl⟩
  all_goals exact .inr ⟨_, rfl, rfl, rfl⟩

theorem sumValue?_of_exact {c : Constant} {x : ExactValue} (value : c.exactValue? = some x) :
    c.sumValue? = some (.plain x) := by
  cases c <;> cases value <;> rfl

/-! ## What folding does -/

/-- Constants of given values are added as the values are, but for halves of pairs. -/
theorem foldBinary_add {c c' : Constant} {v w : SumValue} (left : c.sumValue? = some v)
    (right : c'.sumValue? = some w) :
    (foldBinary .add c c').map sumValue? = (v.add Text.unitAlone w).map some := by
  -- A text on either side makes a text; without one the sum is that of exact values.
  obtain ⟨s, rfl, rfl⟩ | ⟨x, value, rfl, noText⟩ := sumValue?_cases left
  · have appended : foldBinary .add (string s) c' = some (string (s ++ c'.concatText)) := rfl
    obtain ⟨s', rfl, rfl⟩ | ⟨y, value', rfl, -⟩ := sumValue?_cases right
    · rw [appended, Option.map_some, sumValue?, Text.utf16_append]
      rfl
    · rw [appended, Option.map_some, sumValue?, Text.utf16_append, utf16_concatText value']
      rfl
  · obtain ⟨s', rfl, rfl⟩ | ⟨y, value', rfl, noText'⟩ := sumValue?_cases right
    · have appended : foldBinary .add c (string s') = some (string (c.concatText ++ s')) := by
        rw [foldBinary, noText]
        rfl
      rw [appended, Option.map_some, sumValue?, Text.utf16_append, utf16_concatText value]
      rfl
    · have folds := foldBinary_exact .add value value'
      rw [SumValue.add, Option.map_map]
      cases sum : foldBinary .add c c' with
      | none =>
        rw [sum] at folds
        rw [folds.eq_none_iff.mp rfl]
        rfl
      | some k =>
        obtain ⟨z, valued⟩ : ∃ z, ExactValue.binary .add x y = some z := by
          refine Option.ne_none_iff_exists'.mp fun none => ?_
          rw [sum] at folds
          cases folds.eq_none_iff.mpr none
        rw [sum, valued, FoldsTo.some_iff] at folds
        rw [valued, Option.map_some, sumValue?_of_exact folds]
        rfl

end Constant

namespace Expr

variable {env : VariableId → Option Constant}

/-- Without a limit on depth, a sum of constants folds to the constant whose value is that of the
sum, but for halves of pairs. -/
theorem foldFreely_sum {e : Expr} (constants : e.SumsConstants env) :
    (e.foldFreely env).map Constant.sumValue? = (e.sumValue env Text.unitAlone).map some := by
  induction e using sumInduction with
  | parenthesized i e ih => exact ih constants
  | summand e single =>
    rw [SumsConstants, summands_of_summand single] at constants
    obtain ⟨c, v, folds, value⟩ := constants e (List.mem_singleton_self e)
    rw [sumValue_of_summand single, folds, Option.bind_some, Option.map_some, value]
    rfl
  | add i l r left right =>
    replace left := left constants.operands.1
    replace right := right constants.operands.2
    rw [sumValue_add, foldFreely]
    cases first : l.foldFreely env with
    | none =>
      rw [first] at left
      rw [Option.map_eq_none_iff.mp left.symm]
      rfl
    | some c =>
      cases second : r.foldFreely env with
      | none =>
        rw [second] at right
        rw [Option.map_eq_none_iff.mp right.symm]
        cases l.sumValue env Text.unitAlone <;> rfl
      | some c' =>
        rw [first, Option.map_some] at left
        rw [second, Option.map_some] at right
        obtain ⟨v, valued, same⟩ := Option.map_eq_some_iff.mp left.symm
        obtain ⟨w, valued', same'⟩ := Option.map_eq_some_iff.mp right.symm
        rw [valued, valued']
        exact Constant.foldBinary_add same.symm same'.symm

end Expr

/-! ## Where halves of pairs are lost -/

namespace SumValue

/-- How a value compares with the one that has U+FFFD for halves of pairs: texts have the same
length, and the same units exactly if no half is appended to a text. -/
inductive Compares : Bool → Option SumValue → Option SumValue → Prop where
  | none (lost : Bool) : Compares lost none none
  | plain (v : ExactValue) : Compares false (some (.plain v)) (some (.plain v))
  | text {lost : Bool} {us us' : List UInt16} (length : us'.length = us.length) (same : us' = us ↔
    lost = false) :
      Compares lost (some (.text us)) (some (.text us'))

/-- The units that compared values contribute differ if some were lost before, or the value is a
half. -/
theorem Compares.units {lost : Bool} {v v' : SumValue}
    (compares : Compares lost (some v) (some v')) :
    (v'.units Text.unitAlone).length = (v.units id).length ∧
      (v'.units Text.unitAlone = v.units id ↔ lost = false ∧ v.isHalf = false) := by
  cases compares with
  | text length same => exact ⟨length, same.trans (and_iff_left rfl).symm⟩
  | plain v =>
    rw [and_iff_right rfl]
    cases v with
    | boolean b => exact ⟨rfl, fun _ => rfl, fun _ => rfl⟩
    | integer t n =>
      cases t
      case char =>
        refine ⟨rfl, ?_⟩
        show [Text.unitAlone _] = [_] ↔ Text.isSurrogate _ = false
        rw [List.singleton_inj]
        exact Text.unitAlone_eq_iff
      all_goals exact ⟨rfl, fun _ => rfl, fun _ => rfl⟩

/-- Appending keeps the comparison. -/
theorem Compares.append {lost lost' : Bool} {v v' w w' : SumValue}
    (left : Compares lost (some v) (some v')) (right : Compares lost' (some w) (some w')) :
    Compares (lost || lost' || (v.isHalf || w.isHalf)) (some (.text (v.units id ++ w.units id)))
      (some (.text (v'.units Text.unitAlone ++ w'.units Text.unitAlone))) := by
  obtain ⟨length, same⟩ := left.units
  obtain ⟨length', same'⟩ := right.units
  refine .text (by rw [List.length_append, List.length_append, length, length']) ?_
  simp only [Bool.or_eq_false_iff]
  constructor
  · intro all
    obtain ⟨first, second⟩ := List.append_inj all length
    obtain ⟨kept, whole⟩ := same.mp first
    obtain ⟨kept', whole'⟩ := same'.mp second
    exact ⟨⟨kept, kept'⟩, whole, whole'⟩
  · rintro ⟨⟨kept, kept'⟩, whole, whole'⟩
    rw [same.mpr ⟨kept, whole⟩, same'.mpr ⟨kept', whole'⟩]

/-- Adding keeps the comparison. -/
theorem Compares.add {lost lost' : Bool} {a a' b b' : Option SumValue} (left : Compares lost a a')
    (right : Compares lost' b b') :
    Compares (lost || lost' || ((a.bind fun v => b.map v.appendsHalf).getD false))
      (a.bind fun v => b.bind fun w => v.add id w)
      (a'.bind fun v => b'.bind fun w => v.add Text.unitAlone w) := by
  cases left with
  | none => exact .none _
  | plain v =>
    cases right with
    | none => exact .none _
    | plain w =>
      show Compares false ((ExactValue.binary .add v w).map .plain)
        ((ExactValue.binary .add v w).map .plain)
      cases ExactValue.binary .add v w with
      | none => exact .none _
      | some x => exact .plain x
    | text length same => exact (Compares.plain v).append (.text length same)
  | text length same =>
    cases right with
    | none => exact .none _
    | plain w => exact (Compares.text length same).append (.plain w)
    | text length' same' => exact (Compares.text length same).append (.text length' same')

end SumValue

namespace Expr

variable {env : VariableId → Option Constant} {e : Expr}

/-- The value of a sum compares with the one that has U+FFFD for halves of pairs. -/
theorem sumValue_compares (env : VariableId → Option Constant) (e : Expr) :
    SumValue.Compares (e.appendsHalf env) (e.sumValue env id) (e.sumValue env Text.unitAlone) := by
  induction e using sumInduction with
  | parenthesized i e ih => exact ih
  | add i l r left right =>
    rw [sumValue_add, sumValue_add]
    exact left.add right
  | summand e single =>
    rw [sumValue_of_summand single, sumValue_of_summand single, appendsHalf_of_summand single]
    cases (e.foldFreely env).bind Constant.sumValue? with
    | none => exact .none _
    | some v =>
      cases v with
      | plain v => exact .plain v
      | text us => exact .text rfl (iff_of_true rfl rfl)

/-- Take a sum of constants none of which is a floating-point number. If it folds to a text, the
language makes a text of it as well, and the units of the two are the same exactly if no half of a
pair is appended to a text; else they differ in that the folded one has U+FFFD for such halves. And
wherever the language makes a text of a sum that is not too deep, folding gives a text, whether or
not one has the units that the language gives. -/
theorem fold_concatenation (constants : e.SumsConstants env) :
    (∀ s, e.fold env = some (.string s) →
      e.sumValue env Text.unitAlone = some (.text (Text.utf16 s)) ∧
        ∃ us, e.sumValue env id = some (.text us) ∧
          (Text.utf16 s = us ↔ e.appendsHalf env = false)) ∧
      ∀ us, e.operandDepth ≤ Limits.constantFold → e.sumValue env id = some (.text us) →
        ∃ s, e.fold env = some (.string s) := by
  have compares := sumValue_compares env e
  constructor
  · intro s folds
    rw [fold_eq_ite, Option.ite_none_right_eq_some] at folds
    have value := foldFreely_sum constants
    rw [folds.2, Option.map_some] at value
    have folded : e.sumValue env Text.unitAlone = some (.text (Text.utf16 s)) := by
      obtain ⟨v, valued, same⟩ := Option.map_eq_some_iff.mp value.symm
      rw [valued]
      exact same
    refine ⟨folded, ?_⟩
    rw [folded] at compares
    -- From here on only the comparison of the two readings matters.
    generalize e.appendsHalf env = lost, e.sumValue env id = meant at compares ⊢
    cases compares with
    | text length same => exact ⟨_, rfl, same⟩
  · intro us shallow meant
    rw [fold_eq_ite, if_pos shallow]
    rw [meant] at compares
    have value := foldFreely_sum constants
    generalize e.appendsHalf env = lost, e.sumValue env Text.unitAlone = folded at compares value
    cases compares with
    | text length same =>
      obtain ⟨c, folds, valued⟩ := Option.map_eq_some_iff.mp value
      obtain ⟨s, rfl, -⟩ | ⟨x, -, other, -⟩ := Constant.sumValue?_cases valued
      · exact ⟨s, folds⟩
      · cases other

/-- The sum `b + 'a' + "x"` and a character of the unit. -/
def labelled (u : UInt16) : Expr :=
  .binary default .add
    (.binary default .add
      (.parenthesized default
        (.binary default .add (.name default "b" (some ⟨0⟩)) (.literal default (.char 97))))
      (.literal default (.string "x")))
    (.literal default (.char u))

/-- If `b` is the byte 3, the numbers are added to 100 before the text is met. An accented letter is
appended to it as it is, one half of a pair is not. -/
theorem fold_concatenation_labelled :
    let env : VariableId → Option Constant := fun v => if v = ⟨0⟩ then some (.byte 3) else none
    (∀ u, (labelled u).SumsConstants env) ∧
      (labelled 0xE9).fold env = some (.string "100x\u00E9") ∧
        (labelled 0xE9).sumValue env id = some (.text (Text.utf16 "100x\u00E9")) ∧
      (labelled 0xDFFF).fold env = some (.string "100x\uFFFD") ∧
        (labelled 0xDFFF).sumValue env id ≠ some (.text (Text.utf16 "100x\uFFFD")) := by
  intro env
  have constants : ∀ u, (labelled u).SumsConstants env := by
    intro u
    refine List.forall_mem_cons.mpr
      ⟨⟨.byte 3, _, rfl, rfl⟩, List.forall_mem_cons.mpr ⟨⟨.char 97, _, rfl, rfl⟩, ?_⟩⟩
    exact List.forall_mem_cons.mpr
      ⟨⟨.string "x", _, rfl, rfl⟩, List.forall_mem_singleton.mpr ⟨.char u, _, rfl, rfl⟩⟩
  have text : Constant.integerText 100 = "100" := by decide +kernel
  have whole : (labelled 0xE9).fold env = some (.string "100x\u00E9") := by
    show some (Constant.string (Constant.integerText 100 ++ "x" ++ "\u00E9")) = _
    rw [text]
    rfl
  have half : (labelled 0xDFFF).fold env = some (.string "100x\uFFFD") := by
    show some (Constant.string (Constant.integerText 100 ++ "x" ++ "\uFFFD")) = _
    rw [text]
    rfl
  obtain ⟨-, us, meant, same⟩ := (fold_concatenation (constants 0xE9)).1 _ whole
  obtain ⟨-, us', meant', same'⟩ := (fold_concatenation (constants 0xDFFF)).1 _ half
  refine ⟨constants, whole, ?_, half, ?_⟩
  · rw [meant, same.mpr (by decide +kernel)]
  · rw [meant']
    intro equal
    cases equal
    exact absurd (same'.mp rfl) (by decide +kernel)

/-- Two halves that are appended to a text one after the other make a pair, but not when they are
folded; and a half that stays alone gives a sequence of units that no text has, and folding makes a
text of it nevertheless. -/
theorem fold_halves :
    let env : VariableId → Option Constant := fun _ => none
    let half : Expr :=
      .binary default .add (.literal default (.string "")) (.literal default (.char 0xD83D))
    let pair : Expr := .binary default .add half (.literal default (.char 0xDE00))
    pair.SumsConstants env ∧ half.SumsConstants env ∧
      pair.sumValue env id = some (.text (Text.utf16 (String.singleton (Char.ofNat 0x1F600)))) ∧
        pair.fold env = some (.string "\uFFFD\uFFFD") ∧
      half.sumValue env id = some (.text [0xD83D]) ∧ (∀ s, Text.utf16 s ≠ [0xD83D]) ∧
        half.fold env = some (.string "\uFFFD") := by
  intro env half pair
  have first : half.SumsConstants env := List.forall_mem_cons.mpr
    ⟨⟨.string "", _, rfl, rfl⟩, List.forall_mem_singleton.mpr ⟨.char 0xD83D, _, rfl, rfl⟩⟩
  have both : pair.SumsConstants env :=
    List.forall_mem_append.mpr ⟨first, List.forall_mem_singleton.mpr ⟨.char 0xDE00, _, rfl, rfl⟩⟩
  exact ⟨both,
    first, by decide +kernel, rfl, by decide +kernel, Text.utf16_ne_half (by decide), rfl⟩

end Expr

end ClassInit
