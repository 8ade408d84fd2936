import ClassInit.Proofs.Fold
import ClassInit.Proofs.Folding.ExactValues
import ClassInit.Proofs.Folding.Words

/-!
# Folding is exact arithmetic

Over booleans and integers, folding computes what the exact evaluator does, as far as an expression
is not too deep (`Expr.fold_exact`). Each operator on constants is compared with its exact
counterpart once; the words of the constants are related to integers by what the library and
`ClassInit.Proofs.Folding.Words` say about them.
-/

set_option autoImplicit false

namespace ClassInit

/-- A folded constant has an exact value, which is the given one, or both are missing. -/
def FoldsTo (c : Option Constant) (v : Option ExactValue) : Prop :=
  c.map Constant.exactValue? = v.map some

namespace FoldsTo

/-- A constant is what the exact value says if it has that value. -/
theorem some_iff {c : Constant} {v : ExactValue} :
    FoldsTo (some c) (some v) ↔ c.exactValue? = some v := by
  simp [FoldsTo]

/-- Integers are compared by value. -/
theorem integer {c : Constant} {t : IntegralType} {m n : Int}
    (value : c.exactValue? = some (.integer t m)) (same : m = n) :
    FoldsTo (some c) (some (.integer t n)) :=
  some_iff.mpr (same ▸ value)

/-- Folding fails where there is no exact value. -/
theorem eq_none_iff {c : Option Constant} {v : Option ExactValue} (h : FoldsTo c v) :
    c = none ↔ v = none := by
  cases c <;> cases v <;> simp_all [FoldsTo]

/-- Two computations that agree up to a constant agree if what they do next does. -/
theorem andThen {c : Option Constant} {v : Option ExactValue} {f : Constant → Option Constant}
    {g : ExactValue → Option ExactValue} (h : FoldsTo c v)
    (next : ∀ k x, k.exactValue? = some x → FoldsTo (f k) (g x)) :
    FoldsTo (c.bind f) (v.bind g) := by
  cases c with
  | none => cases v <;> simp_all [FoldsTo]
  | some k =>
    cases v with
    | none => simp [FoldsTo] at h
    | some x => exact next k x (some_iff.mp h)

end FoldsTo

namespace Constant

/-! ## Booleans and integers as constants -/

theorem eq_boolean_of_exact {c : Constant} {b : Bool} (h : c.exactValue? = some (.boolean b)) :
    c = boolean b := by
  cases c <;> cases h
  rfl

section

variable {c : Constant} {t : IntegralType} {n : Int} (h : c.exactValue? = some (.integer t n))
include h

theorem isString_of_integer : c.isString = false := by
  cases c <;> first | rfl | cases h

theorem asBool_of_integer : c.asBool = none := by
  cases c <;> first | rfl | cases h

theorem primitiveType_of_integer : c.primitiveType = some t.type := by
  cases c <;> cases h <;> rfl

/-- A value that is promoted to `int` is held exactly by one. -/
theorem asInt_of_promoted (small : t.promoted = .int) : ∃ i, c.asInt = some i ∧ i.toInt = n := by
  cases c <;> cases h
  case char c => exact ⟨_, rfl, Int32.toInt_ofNat_of_lt (Nat.lt_trans c.toNat_lt (by decide))⟩
  case byte b => exact ⟨_, rfl, Int8.toInt_toInt32 b⟩
  case short s => exact ⟨_, rfl, Int16.toInt_toInt32 s⟩
  case int i => exact ⟨i, rfl, rfl⟩
  case long l => cases small

/-- A value that is not promoted to `int` is a `long`. -/
theorem long_of_promoted (large : t.promoted = .long) : ∃ l, c = long l ∧ l.toInt = n := by
  cases c <;> cases h
  case long l => exact ⟨l, rfl, rfl⟩
  all_goals cases large

/-- Narrowing to `int` wraps around. -/
theorem asInt_of_integer : ∃ i, c.asInt = some i ∧ i.toInt = n.bmod (2 ^ 32) := by
  obtain promoted | promoted := t.promoted_cases
  · obtain ⟨i, value, rfl⟩ := asInt_of_promoted h promoted
    exact ⟨i, value, (Int32.toInt_bmod i).symm⟩
  · obtain ⟨l, rfl, rfl⟩ := long_of_promoted h promoted
    exact ⟨l.toInt32, rfl, Int64.toInt_toInt32 l⟩

theorem asLong_of_promoted (small : t.promoted = .int) : c.asLong = c.asInt.map Int32.toInt64 := by
  cases c <;> cases h <;> first | rfl | cases small

/-- Widening to `long` keeps the value. -/
theorem asLong_of_integer : ∃ l, c.asLong = some l ∧ l.toInt = n := by
  obtain promoted | promoted := t.promoted_cases
  · obtain ⟨i, value, rfl⟩ := asInt_of_promoted h promoted
    exact ⟨i.toInt64, by rw [asLong_of_promoted h promoted, value,
      Option.map_some], Int32.toInt_toInt64 i⟩
  · obtain ⟨l, rfl, rfl⟩ := long_of_promoted h promoted
    exact ⟨l, rfl, rfl⟩

/-- Promotion makes an `int` of every narrower integer. -/
theorem promote_of_promoted (small : t.promoted = .int) : c.promote = c.asInt.map int := by
  cases c <;> cases h <;> first | rfl | cases small

/-- An integer is converted to the small types through `int`. -/
theorem convert_of_integer :
    c.convert .byte = c.asInt.map (fun i => byte i.toInt8) ∧
      c.convert .short = c.asInt.map (fun i => short i.toInt16) ∧
      c.convert .char = c.asInt.map (fun i => char i.toUInt32.toUInt16) ∧
      c.convert .int = c.asInt.map int ∧
      c.convert .long = c.asLong.map long := by
  cases c <;> cases h <;> exact ⟨rfl, rfl, rfl, rfl, rfl⟩

theorem shiftDistance_of_integer : c.shiftDistance = c.asLong := by
  cases c <;> cases h <;> rfl

end

/-! ## Operators on words -/

section

attribute [local simp] exactValue? FoldsTo ExactValue.arithmetic IntegralType.reduce
  IntegralType.bits compared

/-- Arithmetic on `int` is exact arithmetic, wrapped around. -/
theorem foldInt_exact (op : BinaryOp) (l r : Int32) :
    FoldsTo (foldInt op l r) (ExactValue.arithmetic op .int l.toInt r.toInt) := by
  have zero : r = 0 ↔ r.toInt = 0 := Int32.toInt_inj.symm
  cases op
  case div | rem => by_cases byZero : r = 0 <;> simp [foldInt, byZero, ← zero]
  all_goals
    simp [foldInt, Int32.lt_iff_toInt_lt, Int32.le_iff_toInt_le, ← Int32.toInt_inj,
      Words.toInt_and32, Words.toInt_or32, Words.toInt_xor32]

/-- Arithmetic on `long` is exact arithmetic, wrapped around. -/
theorem foldLong_exact (op : BinaryOp) (l r : Int64) :
    FoldsTo (foldLong op l r) (ExactValue.arithmetic op .long l.toInt r.toInt) := by
  have zero : r = 0 ↔ r.toInt = 0 := Int64.toInt_inj.symm
  cases op
  case div | rem => by_cases byZero : r = 0 <;> simp [foldLong, byZero, ← zero]
  all_goals
    simp [foldLong, Int64.lt_iff_toInt_lt, Int64.le_iff_toInt_le, ← Int64.toInt_inj,
      Words.toInt_and64, Words.toInt_or64, Words.toInt_xor64]

end

/-! ## Shifts -/

/-- The places of a shift of an `int` are fewer than its bits. -/
theorem toNat_distanceInt (d : Int64) :
    (d &&& 0x1F).toInt32.toBitVec.toNat = IntegralType.int.places d.toInt := by
  have masked : ((d.toBitVec &&& 0x1F#64).toNat : Int) = d.toInt % 32 :=
    Words.toNat_and_mask d.toBitVec 5 (by decide)
  have low : (d &&& 0x1F).toInt32.toBitVec = (d.toBitVec &&& 0x1F#64).setWidth 32 := by
    rw [Int64.toBitVec_toInt32, Int64.toBitVec_and,
      BitVec.signExtend_eq_setWidth_of_le _ (by decide)]
    rfl
  rw [low, BitVec.toNat_setWidth, IntegralType.places, IntegralType.bits]
  omega

/-- A distance for `long` is taken from its last six bits. -/
theorem toNat_distanceLong (d : Int64) :
    (d &&& 0x3F).toBitVec.toNat = IntegralType.long.places d.toInt := by
  have masked : ((d.toBitVec &&& 0x3F#64).toNat : Int) = d.toInt % 64 :=
    Words.toNat_and_mask d.toBitVec 6 (by decide)
  show (d.toBitVec &&& 0x3F#64).toNat = (d.toInt % 64).toNat
  omega

/-- Shifting an `int` multiplies or divides by a power of two. -/
theorem toInt_shiftInt (k : ShiftKind) (value : Int32) (d : Int64) :
    (shiftInt k value d).toInt = IntegralType.int.shifted k value.toInt d.toInt := by
  have places := toNat_distanceInt d
  have few : (d &&& 0x1F).toInt32.toBitVec.toNat < (32#32).toNat :=
    places ▸ IntegralType.places_lt .int d.toInt
  unfold IntegralType.shifted
  rw [← places]
  cases k with
  | left => exact Words.toInt_shiftLeft_smod value.toBitVec (by decide) few
  | signed => exact Words.toInt_sshiftRight_smod value.toBitVec (by decide) few
  | unsigned => exact Words.toInt_ushiftRight_umod value.toBitVec few

/-- Shifting a `long` multiplies or divides by a power of two. -/
theorem toInt_shiftLong (k : ShiftKind) (value d : Int64) :
    (shiftLong k value d).toInt = IntegralType.long.shifted k value.toInt d.toInt := by
  have places := toNat_distanceLong d
  have few : (d &&& 0x3F).toBitVec.toNat < (64#64).toNat :=
    places ▸ IntegralType.places_lt .long d.toInt
  unfold IntegralType.shifted
  rw [← places]
  cases k with
  | left => exact Words.toInt_shiftLeft_smod value.toBitVec (by decide) few
  | signed => exact Words.toInt_sshiftRight_smod value.toBitVec (by decide) few
  | unsigned => exact Words.toInt_ushiftRight_umod value.toBitVec few

/-! ## Operators on constants -/

section

variable {c c' : Constant} {t t' : IntegralType} {m n : Int}

/-- A shift has the promoted type of its left operand, whatever the type of the distance. -/
theorem foldShift_exact (k : ShiftKind) (left : c.exactValue? = some (.integer t m))
    (right : c'.exactValue? = some (.integer t' n)) :
    FoldsTo (foldShift k c c') (some (.integer t.promoted (t.promoted.shifted k m n))) := by
  obtain ⟨d, distance, rfl⟩ := asLong_of_integer right
  rw [← shiftDistance_of_integer right] at distance
  obtain promoted | promoted := t.promoted_cases
  · obtain ⟨i, value, rfl⟩ := asInt_of_promoted left promoted
    rw [foldShift, distance, promote_of_promoted left promoted, value, promoted]
    exact FoldsTo.integer rfl (toInt_shiftInt k i d)
  · obtain ⟨l, rfl, rfl⟩ := long_of_promoted left promoted
    rw [foldShift, distance, promoted]
    exact FoldsTo.integer rfl (toInt_shiftLong k l d)

/-- Other operators on integers work in the wider of the promoted types. -/
theorem foldNumeric_exact (op : BinaryOp) (left : c.exactValue? = some (.integer t m))
    (right : c'.exactValue? = some (.integer t' n)) :
    FoldsTo (foldNumeric op c c') (ExactValue.arithmetic op (t.paired t') m n) := by
  have types : promotedType c c' = some (t.paired t').type := by
    rw [promotedType, primitiveType_of_integer left, primitiveType_of_integer right]
    cases t <;> cases t' <;> rfl
  obtain ⟨paired, small, small'⟩ | paired := t.paired_cases t'
  · obtain ⟨l, first, rfl⟩ := asInt_of_promoted left small
    obtain ⟨r, second, rfl⟩ := asInt_of_promoted right small'
    rw [foldNumeric, types, paired]
    simp only [IntegralType.type, first, second, Option.bind_eq_bind, Option.bind_some]
    exact foldInt_exact op l r
  · obtain ⟨l, first, rfl⟩ := asLong_of_integer left
    obtain ⟨r, second, rfl⟩ := asLong_of_integer right
    rw [foldNumeric, types, paired]
    simp only [IntegralType.type, first, second, Option.bind_eq_bind, Option.bind_some]
    exact foldLong_exact op l r

end

/-- Operators on booleans follow their truth tables. -/
theorem foldBoolean_exact (op : BinaryOp) (a b : Bool) :
    FoldsTo (foldBoolean op a b) (ExactValue.logical op a b) := by
  cases op <;> rfl

/-- A shift of a boolean, or by one, is no constant. -/
theorem foldShift_boolean (k : ShiftKind) (b : Bool) (c : Constant) :
    foldShift k (boolean b) c = none ∧ foldShift k c (boolean b) = none := by
  constructor
  · rw [foldShift]
    cases c.shiftDistance <;> rfl
  · rfl

/-- No numeric operator applies to a boolean. -/
theorem foldNumeric_boolean (op : BinaryOp) (b : Bool) (c : Constant) :
    foldNumeric op (boolean b) c = none ∧ foldNumeric op c (boolean b) = none := by
  cases c <;> exact ⟨rfl, rfl⟩

/-- Unless both operands are booleans or one is a string, an operator is a shift or numeric. -/
theorem foldBinary_of_not_logical (op : BinaryOp) {c c' : Constant} (noText : c.isString = false)
    (noText' : c'.isString = false) (mixed : c.asBool = none ∨ c'.asBool = none) :
    foldBinary op c c' = match ShiftKind.ofOp? op with
      | some k => foldShift k c c'
      | none => foldNumeric op c c' := by
  rw [foldBinary, noText, noText']
  obtain noBool | noBool := mixed <;> rw [noBool]
  · rfl
  · cases c.asBool <;> rfl

/-- Every binary operator on constants with exact values folds to the exact result. -/
theorem foldBinary_exact (op : BinaryOp) {c c' : Constant} {v w : ExactValue}
    (left : c.exactValue? = some v) (right : c'.exactValue? = some w) :
    FoldsTo (foldBinary op c c') (ExactValue.binary op v w) := by
  cases v with
  | boolean a =>
    obtain rfl := eq_boolean_of_exact left
    cases w with
    | boolean b =>
      obtain rfl := eq_boolean_of_exact right
      exact foldBoolean_exact op a b
    | integer t n =>
      -- Neither a shift nor a numeric operator has a result here.
      rw [foldBinary_of_not_logical op rfl (isString_of_integer right)
        (.inr (asBool_of_integer right)), (foldNumeric_boolean op a c').1]
      split
      · rw [(foldShift_boolean _ a c').1]
        rfl
      · rfl
  | integer t m =>
    have noText := isString_of_integer left
    have noBool := asBool_of_integer left
    cases w with
    | boolean b =>
      obtain rfl := eq_boolean_of_exact right
      rw [foldBinary_of_not_logical op noText rfl (.inl noBool), (foldNumeric_boolean op b c).2]
      split
      · rw [(foldShift_boolean _ b c).2]
        rfl
      · rfl
    | integer t' n =>
      rw [foldBinary_of_not_logical op noText (isString_of_integer right) (.inl noBool)]
      cases op
      case shl => exact foldShift_exact .left left right
      case shr => exact foldShift_exact .signed left right
      case ushr => exact foldShift_exact .unsigned left right
      all_goals exact foldNumeric_exact _ left right

/-- So does every unary operator. -/
theorem foldUnary_exact (op : UnaryOp) {c : Constant} {v : ExactValue}
    (value : c.exactValue? = some v) :
    FoldsTo (foldUnary op c) (ExactValue.unary op v) := by
  cases v with
  | boolean b =>
    obtain rfl := eq_boolean_of_exact value
    cases op <;> rfl
  | integer t n =>
    -- Operands are promoted to `int` unless they are `long`.
    obtain promoted | promoted := t.promoted_cases
    · obtain ⟨i, word, rfl⟩ := asInt_of_promoted value promoted
      have promotion : c.promote = some (int i) := by
        rw [promote_of_promoted value promoted, word, Option.map_some]
      cases op
      case plus =>
        rw [foldUnary, promotion, ExactValue.unary, promoted]
        exact FoldsTo.integer rfl rfl
      case minus =>
        rw [foldUnary, promotion, ExactValue.unary, promoted]
        exact FoldsTo.integer rfl (Int32.toInt_neg i)
      case complement =>
        rw [foldUnary, promotion, ExactValue.unary, promoted]
        exact FoldsTo.integer rfl (Words.toInt_not32 i)
      case not =>
        rw [foldUnary, asBool_of_integer value]
        rfl
      case preIncrement | preDecrement => rfl
    · obtain ⟨l, rfl, rfl⟩ := long_of_promoted value promoted
      cases op
      case plus =>
        rw [ExactValue.unary, promoted]
        exact FoldsTo.integer rfl rfl
      case minus =>
        rw [ExactValue.unary, promoted]
        exact FoldsTo.integer rfl (Int64.toInt_neg l)
      case complement =>
        rw [ExactValue.unary, promoted]
        exact FoldsTo.integer rfl (Words.toInt_not64 l)
      case not | preIncrement | preDecrement => rfl

/-- A conversion reduces the number of an integer, whichever words it passes through. -/
theorem convert_exact {p : PrimitiveType} (integral : p = .boolean ∨ p.isIntegral = true)
    {c : Constant} {v : ExactValue} (value : c.exactValue? = some v) :
    FoldsTo (c.convert p) (ExactValue.cast (.primitive p) v) := by
  cases v with
  | boolean b =>
    obtain rfl := eq_boolean_of_exact value
    cases p <;> rfl
  | integer t n =>
    -- The low 32 bits are enough for the narrow types: they keep the number modulo the smaller
    -- sizes.
    obtain ⟨i, word, low⟩ := asInt_of_integer value
    obtain ⟨toByte, toShort, toChar, toInt, toLong⟩ := convert_of_integer value
    cases p
    case boolean => cases c <;> cases value <;> rfl
    case byte =>
      have narrowed : i.toInt8.toInt = n.bmod (2 ^ 8) := by
        rw [Int32.toInt_toInt8, low, Int.bmod_bmod_of_dvd (by decide)]
      rw [toByte, word]
      exact FoldsTo.integer rfl narrowed
    case short =>
      have narrowed : i.toInt16.toInt = n.bmod (2 ^ 16) := by
        rw [Int32.toInt_toInt16, low, Int.bmod_bmod_of_dvd (by decide)]
      rw [toShort, word]
      exact FoldsTo.integer rfl narrowed
    case char =>
      have narrowed : (i.toUInt32.toUInt16.toNat : Int) = n % 2 ^ 16 := by
        have whole : (i.toUInt32.toNat : Int) = n % 2 ^ 32 := by
          rw [← Int32.toNat_toBitVec, Words.toNat_eq_emod, Int32.toInt_toBitVec, low, Int.bmod_emod]
          rfl
        rw [UInt32.toNat_toUInt16]
        omega
      rw [toChar, word]
      exact FoldsTo.integer rfl narrowed
    case int =>
      rw [toInt, word]
      exact FoldsTo.integer rfl low
    case long =>
      obtain ⟨l, word, rfl⟩ := asLong_of_integer value
      rw [toLong, word]
      exact FoldsTo.integer rfl (Int64.toInt_bmod l).symm
    all_goals simp [PrimitiveType.isIntegral] at integral

end Constant

/-! ## Expressions -/

/-- The exact values of variables. -/
def exactly (env : VariableId → Option Constant) (v : VariableId) : Option ExactValue :=
  (env v).bind Constant.exactValue?

/-- All variables that have a constant have an exact one. -/
def ExactEnv (env : VariableId → Option Constant) : Prop :=
  ∀ v c, env v = some c → c.exactValue?.isSome

namespace Expr

variable {env : VariableId → Option Constant}

theorem not_tooDeepToFold {n depth : Nat} (shallow : n + depth ≤ Limits.constantFold) :
    tooDeepToFold n = false := by
  rw [tooDeepToFold, decide_eq_false_iff_not]
  omega

/-- A constant that must have an exact value folds to it. -/
theorem foldsTo_exactValue? {c : Option Constant}
    (valued : ∀ k, c = some k → k.exactValue?.isSome) :
    FoldsTo c (c.bind Constant.exactValue?) := by
  cases c with
  | none => rfl
  | some k =>
    obtain ⟨v, value⟩ := Option.isSome_iff_exists.mp (valued k rfl)
    rw [Option.bind_some, value]
    exact FoldsTo.some_iff.mpr value

/-- By induction on the expression. The level rises by one towards the operands, so the bound is on
the level and the depth together. -/
theorem foldAt_exact (known : ExactEnv env) :
    ∀ {e : Expr} {n : Nat}, e.isExact = true → n + e.operandDepth ≤ Limits.constantFold →
      FoldsTo (e.foldAt env n) (e.exactValue (exactly env))
  | .literal i v, n, built, shallow => by
    rw [foldAt, not_tooDeepToFold shallow, exactValue, if_neg Bool.false_ne_true]
    refine foldsTo_exactValue? fun k value => ?_
    have valued : (v.constant.bind Constant.exactValue?).isSome = true := built
    rwa [value] at valued
  | .name i x b, n, _, shallow => by
    rw [foldAt, not_tooDeepToFold shallow, exactValue]
    cases b with
    | none => rfl
    | some v => exact foldsTo_exactValue? (known v)
  | .parenthesized i e, n, built, shallow => by
    rw [operandDepth] at shallow
    rw [foldAt, not_tooDeepToFold shallow, exactValue]
    exact foldAt_exact known (e := e) built (by omega)
  | .cast i (.primitive p) e, n, built, shallow => by
    obtain ⟨target, built⟩ := Bool.and_eq_true_iff.mp built
    rw [operandDepth] at shallow
    rw [foldAt, not_tooDeepToFold shallow, exactValue]
    refine (foldAt_exact known (e := e) built (by omega)).andThen fun k v value => ?_
    exact Constant.convert_exact (by simpa using target) value
  | .unary i op e, n, built, shallow => by
    obtain ⟨-, built⟩ := Bool.and_eq_true_iff.mp built
    rw [operandDepth] at shallow
    rw [foldAt, not_tooDeepToFold shallow, exactValue]
    refine (foldAt_exact known (e := e) built (by omega)).andThen fun k v value => ?_
    exact Constant.foldUnary_exact op value
  | .binary i op l r, n, built, shallow => by
    obtain ⟨left, right⟩ := Bool.and_eq_true_iff.mp built
    rw [operandDepth] at shallow
    rw [foldAt, not_tooDeepToFold shallow, exactValue]
    refine (foldAt_exact known (e := l) left (by omega)).andThen fun k v value => ?_
    refine (foldAt_exact known (e := r) right (by omega)).andThen fun k' w value' => ?_
    exact Constant.foldBinary_exact op value value'

/-- Folding is exact arithmetic: an expression over booleans and integers that is not too deep folds
to the constant that has the value that the exact evaluator gives it, and to none exactly if one of
its operands divides by zero, is a name without value, or applies an operator to operands of kinds
that it does not accept. -/
theorem fold_exact (known : ExactEnv env) {e : Expr} (built : e.isExact = true)
    (shallow : e.operandDepth ≤ Limits.constantFold) :
    (e.fold env).map Constant.exactValue? = (e.exactValue (exactly env)).map some ∧
      (e.fold env = none ↔ ∃ s ∈ e.operands, s.Obstructed (exactly env)) := by
  have folds : FoldsTo (e.fold env) (e.exactValue (exactly env)) :=
    foldAt_exact known built (by rwa [Nat.zero_add])
  exact ⟨folds, folds.eq_none_iff.trans (exactValue_eq_none_iff built)⟩

/-- The expression `(byte) (-b * 'a') >>> 33L`. -/
def shiftedCast : Expr :=
  .binary default .ushr
    (.cast default (.primitive .byte)
      (.parenthesized default
        (.binary default .mul (.unary default .minus (.name default "b" (some ⟨0⟩)))
          (.literal default (.char 97)))))
    (.literal default (.long 33))

/-- If `b` is -128, the product is 12416, as a byte -128, and the shift is by one place. -/
theorem fold_exact_shiftedCast :
    let env : VariableId → Option Constant := fun v => if v = ⟨0⟩ then some (.byte (-128)) else none
    ExactEnv env ∧ shiftedCast.isExact = true ∧ shiftedCast.operandDepth ≤ Limits.constantFold ∧
      (shiftedCast.fold env).map Constant.exactValue? = some (some (.integer .int 2147483584)) ∧
      ¬∃ s ∈ shiftedCast.operands, s.Obstructed (exactly env) := by
  intro env
  have known : ExactEnv env := by
    intro v c value
    obtain ⟨-, value⟩ := Option.ite_none_right_eq_some.mp value
    cases value
    rfl
  have built : shiftedCast.isExact = true := by decide
  have shallow : shiftedCast.operandDepth ≤ Limits.constantFold := by decide
  obtain ⟨value, missing⟩ := fold_exact known built shallow
  have folded :
      (shiftedCast.fold env).map Constant.exactValue? = some (some (.integer .int 2147483584)) :=
    value.trans (by decide +kernel)
  refine ⟨known, built, shallow, folded, fun found => ?_⟩
  rw [missing.mpr found] at folded
  cases folded

end Expr

end ClassInit
