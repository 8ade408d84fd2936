import ClassInit.Proofs.Folding.Arithmetic

/-!
# The types of conditionals

The language types a conditional between two constants by their types and, if one of them is an
`int`, by its value: where the other type is smaller and holds that value, the conditional has the
smaller type (`Constant.narrowType?`). Folding promotes all pairs of different types alike. So a
folded conditional is what the language makes of it unless the language narrows the pair, and then
it is an `int` with the same number (`Expr.foldAt_conditional`), which a concatenation renders
differently exactly if the narrow type is `char`.
-/

set_option autoImplicit false

namespace ClassInit

/-- Whether the type has the integer. -/
def IntegralType.holds (t : IntegralType) (n : Int) : Bool := t.reduce n = n

namespace Constant

/-! ## What the language says -/

/-- The type of a conditional between constants of different types that is narrower than the one
that they are promoted to: `byte` and `short` give `short`, and a type smaller than `int` absorbs an
`int` that it holds. -/
def narrowType? : Constant → Constant → Option IntegralType
  | byte _, short _ | short _, byte _ => some .short
  | byte _, int i | int i, byte _ => if IntegralType.byte.holds i.toInt then some .byte else none
  | short _, int i | int i, short _ =>
    if IntegralType.short.holds i.toInt then some .short else none
  | char _, int i | int i, char _ => if IntegralType.char.holds i.toInt then some .char else none
  | _, _ => none

/-- The type of a conditional between two constants that are no strings. -/
def conditionalType (a b : Constant) : Option PrimitiveType := do
  let p ← a.primitiveType
  let q ← b.primitiveType
  if p = q then some p
  else ((narrowType? a b).map IntegralType.type).or (promotedPair p q)

/-- The constant that the language makes of a conditional: the chosen one, converted to the type of
the conditional. Two strings need no conversion. -/
def typedConditional (condition : Bool) (a b : Constant) : Option Constant :=
  let chosen := if condition then a else b
  if a.isString && b.isString then some chosen else (conditionalType a b).bind chosen.convert

/-! ## What folding does -/

theorem isString_iff {c : Constant} : c.isString = true ↔ c.primitiveType = none := by
  cases c <;> simp [isString, primitiveType]

/-- A constant is what it is converted to by its own type. -/
theorem convert_self {c : Constant} {p : PrimitiveType} (type : c.primitiveType = some p) :
    c.convert p = some c := by
  cases c <;> cases type <;> simp [convert, asInt, asLong, asFloat, asDouble]

/-- Unless the pair is narrowed, folding types a conditional as the language does. -/
theorem foldConditional_of_wide (condition : Bool) {a b : Constant}
    (wide : narrowType? a b = none) :
    foldConditional condition a b = typedConditional condition a b := by
  cases first : a.primitiveType with
  | none =>
    have text := isString_iff.mpr first
    cases second : b.primitiveType with
    | none => simp [foldConditional, typedConditional, first, second, text, isString_iff.mpr second]
    | some q =>
      have noText : b.isString = false := by simp [← Bool.not_eq_true, isString_iff, second]
      simp [foldConditional, typedConditional, conditionalType, first, second, noText]
  | some p =>
    have noText : a.isString = false := by simp [← Bool.not_eq_true, isString_iff, first]
    cases second : b.primitiveType with
    | none => simp [foldConditional, typedConditional, conditionalType, first, second, noText]
    | some q =>
      simp only [foldConditional, typedConditional, conditionalType, promotedType, first, second,
        noText, wide, Option.bind_eq_bind, Option.bind_some, Option.map_none, Option.none_or,
          Bool.false_and, Bool.false_eq_true, if_false]
      by_cases same : p = q
      · subst same
        rw [if_pos rfl, if_pos rfl, Option.bind_some]
        cases condition
        · exact (convert_self second).symm
        · exact (convert_self first).symm
      · rw [if_neg same, if_neg same]

/-- An integer of a constant is in the range of its type. -/
theorem reduce_of_exact {c : Constant} {t : IntegralType} {n : Int}
    (h : c.exactValue? = some (.integer t n)) :
    t.reduce n = n := by
  cases c <;> cases h
  case char c => exact Int.emod_eq_of_lt (Int.natCast_nonneg _) (Int.ofNat_lt.mpr c.toNat_lt)
  case byte b => exact Int8.toInt_bmod b
  case short s => exact Int16.toInt_bmod s
  case int i => exact Int32.toInt_bmod i
  case long l => exact Int64.toInt_bmod l

/-- The constants of a narrowed pair are integers of different types, both promoted to `int`, and
the narrow type has their values. -/
theorem exactValue?_of_narrow {a b : Constant} {t : IntegralType}
    (narrow : narrowType? a b = some t) :
    ∃ ta tb m n, a.exactValue? = some (.integer ta m) ∧ b.exactValue? = some (.integer tb n) ∧
      ta ≠ tb ∧
      ta.promoted = .int ∧ tb.promoted = .int ∧ t.reduce m = m ∧ t.reduce n = n := by
  -- Of a pair with an `int`, the other constant has the narrow type itself, and so lies in its
  -- range.
  have left : ∀ ta m, a.exactValue? = some (.integer ta m) → ta.reduce m = m :=
    fun _ _ => reduce_of_exact
  have right : ∀ tb n, b.exactValue? = some (.integer tb n) → tb.reduce n = n :=
    fun _ _ => reduce_of_exact
  cases a <;> cases b
    <;> simp only [narrowType?, Option.ite_none_right_eq_some, Option.some.injEq,
      reduceCtorEq] at narrow
  case byte.short b s =>
    subst narrow
    exact ⟨.byte, .short, _, _, rfl, rfl, nofun, rfl, rfl, Int8.toInt_bmod_65536 b,
      Int16.toInt_bmod s⟩
  case short.byte s b =>
    subst narrow
    exact ⟨.short, .byte, _, _, rfl, rfl, nofun, rfl, rfl, Int16.toInt_bmod s,
      Int8.toInt_bmod_65536 b⟩
  case byte.int | short.int | char.int =>
    obtain ⟨holds, rfl⟩ := narrow
    exact ⟨_, .int, _, _, rfl, rfl, nofun, rfl, rfl, left _ _ rfl, of_decide_eq_true holds⟩
  case int.byte | int.short | int.char =>
    obtain ⟨holds, rfl⟩ := narrow
    exact ⟨.int, _, _, _, rfl, rfl, nofun, rfl, rfl, of_decide_eq_true holds, right _ _ rfl⟩

theorem narrowType?_ne_int {a b : Constant} {t : IntegralType} (narrow : narrowType? a b = some t) :
    t.type ≠ .int := by
  cases a <;> cases b
    <;> simp only [narrowType?, Option.ite_none_right_eq_some, Option.some.injEq,
      reduceCtorEq] at narrow
  case byte.short | short.byte => exact narrow ▸ nofun
  all_goals exact narrow.2 ▸ nofun

/-! ## Texts -/

theorem concatText_of_integer {c : Constant} {t : IntegralType} {n : Int}
    (h : c.exactValue? = some (.integer t n)) (noChar : t ≠ .char) :
    c.concatText = integerText n := by
  cases c <;> cases h <;> first | rfl | exact absurd rfl noChar

/-- No character is written as the numeral of its code unit. -/
theorem singleton_charOfUnit_ne (u : UInt16) :
    String.singleton (Text.charOfUnit u) ≠ integerText u.toNat := by
  intro same
  have digits : [Text.charOfUnit u] = Nat.toDigits 10 u.toNat := by
    have lists := congrArg String.toList same
    rwa [String.toList_singleton, integerText, String.toList_ofList, Number.Decimal.integer,
      if_neg (Int.not_lt.mpr (Int.natCast_nonneg _)), Int.natAbs_natCast] at lists
  have digit : (Text.charOfUnit u).isDigit = true :=
    Nat.isDigit_of_mem_toDigits (by decide) (by decide) (digits ▸ List.mem_singleton_self _)
  -- The code unit of a digit has two digits.
  have range : 48 ≤ u.toNat ∧ u.toNat ≤ 57 := by
    rw [Text.charOfUnit] at digit
    by_cases surrogate : Text.isSurrogate u = true
    · rw [if_pos surrogate] at digit
      cases digit
    · rw [if_neg surrogate] at digit
      by_cases valid : u.toNat.isValidChar
      · rw [Char.ofNat, dif_pos valid] at digit
        exact Char.isDigit_iff_toNat.mp digit
      · rw [Char.ofNat, dif_neg valid] at digit
        cases digit
  have two : ∀ n ≤ 57, 48 ≤ n → (Nat.toDigits 10 n).length = 2 := by decide
  have length := two u.toNat range.2 range.1
  rw [← digits] at length
  cases length

/-- An integer is converted to the one of the type that agrees with it. -/
theorem exists_convert {c : Constant} {tc : IntegralType} {n : Int}
    (value : c.exactValue? = some (.integer tc n)) (t : IntegralType) :
    ∃ k, c.convert t.type = some k ∧ k.exactValue? = some (.integer t (t.reduce n)) := by
  have integral : t.type.isIntegral = true := by cases t <;> rfl
  have target : ExactValue.cast (.primitive t.type) (.integer tc n) =
    some (.integer t (t.reduce n)) := by cases t <;> rfl
  have folds := convert_exact (.inr integral) value
  rw [target] at folds
  cases converted : c.convert t.type with
  | none => cases folds.eq_none_iff.mp converted
  | some k => exact ⟨k, rfl, FoldsTo.some_iff.mp (converted ▸ folds)⟩

/-- A conditional between constants that the language narrows folds to an `int` of the same number,
which has the same text unless the language makes it a character. -/
theorem foldConditional_of_narrow (condition : Bool) {a b : Constant} {t : IntegralType}
    (narrow : narrowType? a b = some t) :
    ∃ n k k', foldConditional condition a b = some k ∧ typedConditional condition a b = some k' ∧
      k.exactValue? = some (.integer .int n) ∧ k'.exactValue? = some (.integer t n) ∧
      (k.concatText = k'.concatText ↔ t ≠ .char) := by
  obtain ⟨ta, tb, m, n, left, right, differ, smallA, smallB, holdsA, holdsB⟩ :=
    exactValue?_of_narrow narrow
  obtain ⟨tc, v, chosen, small, holds⟩ : ∃ tc v, (if condition then a else b).exactValue? =
    some (.integer tc v) ∧
      tc.promoted = .int ∧ t.reduce v = v := by
    cases condition
    · exact ⟨tb, n, right, smallB, holdsB⟩
    · exact ⟨ta, m, left, smallA, holdsA⟩
  have types : ta.type ≠ tb.type :=
    fun same => differ (by cases ta <;> cases tb <;> first | rfl | cases same)
  have promoted : promotedPair ta.type tb.type = some .int := by
    cases ta <;> cases smallA <;> cases tb <;> cases smallB <;> rfl
  have inRange : IntegralType.int.reduce v = v := by
    obtain ⟨i, -, rfl⟩ := asInt_of_promoted chosen small
    exact Int32.toInt_bmod i
  obtain ⟨k, folded, value⟩ := exists_convert chosen .int
  change (if condition then a else b).convert .int = some k at folded
  obtain ⟨k', typed, value'⟩ := exists_convert chosen t
  rw [inRange] at value
  rw [holds] at value'
  refine ⟨v, k, k', ?_, ?_, value, value', ?_⟩
  · simpa only [foldConditional, promotedType, primitiveType_of_integer left,
      primitiveType_of_integer right, if_neg types, promoted, Option.bind_eq_bind,
        Option.bind_some] using folded
  · simpa only [typedConditional, conditionalType, isString_of_integer left, Bool.false_and,
      Bool.false_eq_true, if_false, primitiveType_of_integer left, primitiveType_of_integer right,
        if_neg types, narrow, Option.map_some, Option.some_or, Option.bind_eq_bind,
          Option.bind_some] using typed
  · rw [concatText_of_integer value (by decide)]
    constructor
    · rintro same rfl
      obtain ⟨u, rfl, rfl⟩ : ∃ u, k' = char u ∧ (u.toNat : Int) = v := by
        cases k' <;> cases value'
        exact ⟨_, rfl, rfl⟩
      exact singleton_charOfUnit_ne u same.symm
    · exact fun noChar => (concatText_of_integer value' noChar).symm

theorem primitiveType_of_convert {c k : Constant} {p : PrimitiveType} (h : c.convert p = some k) :
    k.primitiveType = some p := by
  cases p <;> cases c <;> cases h <;> rfl

/-- What the language makes of a conditional has the type of the conditional. -/
theorem primitiveType_of_typedConditional {condition : Bool} {a b k : Constant}
    (typed : typedConditional condition a b = some k) : k.primitiveType = conditionalType a b := by
  rw [typedConditional] at typed
  split at typed
  · rename_i texts
    obtain ⟨first, second⟩ := Bool.and_eq_true_iff.mp texts
    cases typed
    rw [conditionalType, isString_iff.mp first]
    cases condition
    · exact isString_iff.mp second
    · exact isString_iff.mp first
  · obtain ⟨p, type, converted⟩ := Option.bind_eq_some_iff.mp typed
    rw [primitiveType_of_convert converted, type]

/-- How a folded conditional compares with what the language makes of it. It has the type that the
language gives it, and is the chosen operand converted to that type, unless the language narrows the
pair of operands: then it is an `int` with the number that the language gives it, and has another
text exactly if the language makes it a character. -/
structure ComparesWithTyped (condition : Bool) (a b k : Constant) : Prop where
  type_iff : k.primitiveType = conditionalType a b ↔ narrowType? a b = none
  wide : narrowType? a b = none → typedConditional condition a b = some k
  narrow : ∀ t, narrowType? a b = some t →
    ∃ n k', typedConditional condition a b = some k' ∧ k.exactValue? = some (.integer .int n) ∧
      k'.exactValue? = some (.integer t n) ∧ (k.concatText = k'.concatText ↔ t ≠ .char)

theorem foldConditional_compares {condition : Bool} {a b k : Constant}
    (folds : foldConditional condition a b = some k) : ComparesWithTyped condition a b k where
  type_iff := by
    constructor
    · intro type
      by_contra narrowed
      obtain ⟨t, narrow⟩ := Option.ne_none_iff_exists'.mp narrowed
      obtain ⟨n, k₁, k', folded, typed, value, value', -⟩ :=
        foldConditional_of_narrow condition narrow
      cases folds.symm.trans folded
      rw [← primitiveType_of_typedConditional typed, primitiveType_of_integer value,
        primitiveType_of_integer value'] at type
      exact narrowType?_ne_int narrow (Option.some.inj type).symm
    · intro wide
      exact primitiveType_of_typedConditional (foldConditional_of_wide condition wide ▸ folds)
  wide := fun wide => foldConditional_of_wide condition wide ▸ folds
  narrow := by
    intro t narrow
    obtain ⟨n, k₁, k', folded, typed, value, value', texts⟩ :=
      foldConditional_of_narrow condition narrow
    cases folds.symm.trans folded
    exact ⟨n, k', typed, value, value', texts⟩

end Constant

namespace Expr

open Constant

/-- A conditional that folds has operands that fold, and compares with what the language makes of
these as `Constant.ComparesWithTyped` says. -/
theorem foldAt_conditional {env : VariableId → Option Constant} {n : Nat} {i : ExprInfo}
    {c t e : Expr} {k : Constant} (folds : (conditional i c t e).foldAt env n = some k) :
    ∃ condition a b, c.foldAt env (n + 1) = some (.boolean condition) ∧
      t.foldAt env (n + 1) = some a ∧
      e.foldAt env (n + 1) = some b ∧ ComparesWithTyped condition a b k := by
  rw [foldAt] at folds
  split at folds
  · cases folds
  obtain ⟨test, tested, folds⟩ := Option.bind_eq_some_iff.mp folds
  obtain ⟨condition, truth, folds⟩ := Option.bind_eq_some_iff.mp folds
  obtain ⟨a, first, folds⟩ := Option.bind_eq_some_iff.mp folds
  obtain ⟨b, second, folds⟩ := Option.bind_eq_some_iff.mp folds
  have boolean : test = .boolean condition := by cases test <;> cases truth; rfl
  exact ⟨condition, a, b, boolean ▸ tested, first, second, foldConditional_compares folds⟩

/-- The conditional `true ? 'a' : 0`. -/
def letterOrZero : Expr :=
  .conditional default (.literal default (.boolean true)) (.literal default (.char 97))
    (.literal default (.int 0))

theorem foldAt_conditional_letterOrZero :
    letterOrZero.foldAt (fun _ => none) 0 = some (.int 97) ∧
      ComparesWithTyped true (.char 97) (.int 0) (.int 97) := by
  have folds : letterOrZero.foldAt (fun _ => none) 0 = some (.int 97) := rfl
  obtain ⟨condition, a, b, test, first, second, compares⟩ := foldAt_conditional folds
  cases test
  cases first
  cases second
  exact ⟨folds, compares⟩

/-- The language makes a letter of `true ? 'a' : 0`, since zero is a code unit. Folding makes an
`int` of it, so that a text that it is appended to ends in a numeral. -/
theorem fold_letterOrZero :
    conditionalType (.char 97) (.int 0) = some .char ∧
      typedConditional true (.char 97) (.int 0) = some (.char 97) ∧
      (Constant.char 97).concatText = "a" ∧
      letterOrZero.fold (fun _ => none) = some (.int 97) ∧
      (binary default .add (.literal default (.string ""))
        (.parenthesized default letterOrZero)).fold
        (fun _ => none) = some (.string "97") := by
  refine ⟨rfl, rfl, rfl, rfl, ?_⟩
  show some (Constant.string ("" ++ integerText 97)) = some (.string "97")
  exact congrArg (some ∘ Constant.string) (by decide +kernel)

end Expr

end ClassInit
