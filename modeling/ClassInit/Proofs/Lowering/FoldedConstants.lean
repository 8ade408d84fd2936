import ClassInit.Proofs.Folding.Conditionals
import ClassInit.Proofs.Lowering.Types

/-!
# What a folded field still says

A folded initializer is replaced by a literal that records the type of the field. Literals have
fewer kinds than constants: a `byte` or a `short` is spelled as an `int`, and only the recorded type
can tell which one it was. It does if it is a primitive type that the constant converts to. A field
of any other type may hold every constant, and one that holds a `byte` or a `short` gets the literal
of an `int` and a type that says nothing about it (`collectFragment_fold`).
-/

set_option autoImplicit false

namespace ClassInit

/-! ## The constants that literals denote -/

namespace Constant

/-- Whether constants of the kind have literals of their own. -/
def hasLiteral : Constant → Bool
  | byte _ | short _ => false
  | _ => true

/-- The constant that is denoted by the literal that spells a constant. -/
def widened : Constant → Constant
  | byte b => int b.toInt32
  | short s => int s.toInt32
  | c => c

theorem widened_eq_self_iff {c : Constant} : c.widened = c ↔ c.hasLiteral = true := by
  cases c <;> simp [widened, hasLiteral]

/-- A `byte` or a `short` converts as the `int` of its literal does, since conversion goes through
`int`. -/
theorem convert_widened (c : Constant) (p : PrimitiveType) : c.widened.convert p = c.convert p := by
  cases c
  case byte | short => cases p <;> rfl
  all_goals rfl

end Constant

theorem Literal.constant_ofConstant (c : Constant) :
    (Literal.ofConstant c).constant = some c.widened := by
  cases c <;> rfl

/-! ## Reading a literal with its type -/

namespace Expr

/-- The constant of a literal. If a primitive type is recorded with it, the constant is converted to
that type where the conversion exists. -/
def recordedConstant? : Expr → Option Constant
  | literal info value =>
    value.constant.map fun c => ((info.type.bind TypeRef.asPrimitive).bind c.convert).getD c
  | _ => none

/-- The constant of a literal, read strictly: what does not convert to the primitive type that is
recorded with it has no constant. -/
def strictConstant? : Expr → Option Constant
  | literal info value =>
    value.constant.bind fun c =>
      match info.type.bind TypeRef.asPrimitive with
      | some p => c.convert p
      | none => some c
  | _ => none

end Expr

namespace Lowering

variable {c : Constant} {type : TypeRef}

/-- Whether a field of the type converts the constant. -/
def converts (c : Constant) (type : TypeRef) : Bool := (type.asPrimitive.bind c.convert).isSome

theorem foldedValue_of_not_converts (stays : ¬ converts c type = true) :
    foldedValue c type = c := by
  rw [foldedValue, Option.not_isSome_iff_eq_none.mp stays, Option.getD_none]

/-- A converted constant has the type of the field, so it comes back when its literal is converted
to that type. -/
theorem exists_convert_foldedValue (converted : converts c type = true) :
    ∃ p, type.asPrimitive = some p ∧
      (foldedValue c type).widened.convert p = some (foldedValue c type) := by
  obtain ⟨c', conversion⟩ := Option.isSome_iff_exists.mp converted
  obtain ⟨p, primitive, converted⟩ := Option.bind_eq_some_iff.mp conversion
  have value : foldedValue c type = c' := by
    rw [foldedValue, conversion, Option.getD_some]
  refine ⟨p, primitive, ?_⟩
  rw [value, Constant.convert_widened]
  exact Constant.convert_self (Constant.primitiveType_of_convert converted)

/-- The literal of a folded field reads back as the value of the field if that was converted, or has
a literal of its own. -/
theorem recordedConstant?_literalFor (n : NodeId) :
    (literalFor n c type).recordedConstant? = some (foldedValue c type) ↔
      converts c type = true ∨ c.hasLiteral = true := by
  rw [literalFor, Expr.recordedConstant?, Literal.constant_ofConstant, Option.map_some,
    Option.bind_some, Option.some.injEq]
  by_cases converted : converts c type = true
  · obtain ⟨p, primitive, back⟩ := exists_convert_foldedValue converted
    rw [primitive, Option.bind_some, back]
    exact ⟨fun _ => .inl converted, fun _ => rfl⟩
  · have unconverted : type.asPrimitive.bind c.widened.convert = none := by
      simp only [funext c.convert_widened]
      exact Option.not_isSome_iff_eq_none.mp converted
    rw [foldedValue_of_not_converts converted, unconverted, Option.getD_none,
      Constant.widened_eq_self_iff]
    exact ⟨.inr, fun own => own.resolve_left converted⟩

/-- Read strictly, it does if the field has a primitive type that converts the value, or another
type and the value has a literal of its own. -/
theorem strictConstant?_literalFor (n : NodeId) :
    (literalFor n c type).strictConstant? = some (foldedValue c type) ↔
      if type.asPrimitive.isSome then converts c type = true else c.hasLiteral = true := by
  rw [literalFor, Expr.strictConstant?, Literal.constant_ofConstant, Option.bind_some,
    Option.bind_some]
  by_cases converted : converts c type = true
  · obtain ⟨p, primitive, back⟩ := exists_convert_foldedValue converted
    simp only [primitive, back, Option.isSome_some, if_true, converted]
  · rw [foldedValue_of_not_converts converted]
    cases primitive : type.asPrimitive with
    | none =>
      simp only [Option.some.injEq, Constant.widened_eq_self_iff, Option.isSome_none,
        Bool.false_eq_true, if_false]
    | some p =>
      have unconverted : c.convert p = none := by
        simpa [converts, primitive] using converted
      simp only [Constant.convert_widened, unconverted, reduceCtorEq, Option.isSome_some, if_true,
        converted]

/-! ## Collecting -/

variable {options : Options} {name : String} {lists : InitLists} {f : Fragment} {e : Expr}
  {field : VariableId}
variable {s : State}

/-- A static initializer that is classified as a constant is replaced by the literal of the value
that the field has, and nothing else happens but that a node id is taken and the literal is
counted. -/
theorem collectFragment_run_fold (init : f.initializer = some e) (bound : f.binding = some field)
    (fold : classify s.table options.literalEncoding e field = .ok (.fold c)) :
    (collectFragment options name true type lists f).run s =
      (.ok ({ f with initializer := some (literalFor ⟨s.supply.next⟩ c type) }, lists),
        { s with supply := ⟨s.supply.next + 1⟩,
                 stats := { s.stats with foldedLiterals := s.stats.foldedLiterals + 1 } }) := by
  have fate : (eligibility options name true f field e).run s = (.ok (.fold c), s) :=
    eligibility_eq_ok.mpr ⟨fold, rfl⟩
  unfold collectFragment
  rw [init, bound]
  refine Step.bind_eq_ok.mpr ⟨_, s, fate, ?_⟩
  rfl

/-- A static initializer that is classified as a constant, in a field of any type, is replaced by a
literal that records this type. Read with its type the literal is the value that the field has
exactly if the type is primitive and converts the constant, or the constant is no `byte` and no
`short`. Read strictly, the type has to convert it if it is primitive. -/
theorem collectFragment_fold (init : f.initializer = some e) (bound : f.binding = some field)
    (fold : classify s.table options.literalEncoding e field = .ok (.fold c)) :
    ∃ literal s', (collectFragment options name true type lists f).run s =
        (.ok ({ f with initializer := some literal }, lists), s') ∧
      s'.table = s.table ∧ literal.info.type = some type ∧
      (literal.recordedConstant? = some (foldedValue c type) ↔ converts c type = true ∨
        c.hasLiteral = true) ∧
      (literal.strictConstant? = some (foldedValue c type) ↔
        if type.asPrimitive.isSome then converts c type = true else c.hasLiteral = true) :=
  ⟨_, _, collectFragment_run_fold init bound fold, rfl, rfl, recordedConstant?_literalFor _,
    strictConstant?_literalFor _⟩

/-- A static field of class `A` with the given initializer. -/
def staticFragment (initializer : Expr) : Fragment := ⟨.dummy, "o", some initializer, some ⟨0⟩⟩

/-- A state that knows the field, of the given type. -/
def staticState (type : TypeRef) : State :=
  let field : VariableBinding := ⟨"o", type, .of .static, some ⟨2⟩, true, none⟩
  { sampleState with table := { sampleState.table with vars := #[field] } }

/-- The initializer `(byte) 1`. -/
def byteCast : Expr := .cast default (.primitive .byte) (.literal default (.int 1))

/-- A field of type `short` converts the `byte`, and its literal reads back as the `short`, although
it is spelled as an `int`. -/
theorem collectFragment_fold_short : ∃ literal s',
    (collectFragment .standard "A" true (.primitive .short) .empty (staticFragment byteCast)).run
        (staticState (.primitive .short)) = (.ok (staticFragment literal, .empty), s') ∧
      literal.asLiteral.bind Literal.constant = some (.int 1) ∧
      literal.recordedConstant? = some (.short 1) ∧
      literal.strictConstant? = some (.short 1) := by
  obtain ⟨literal, s', run, -, -, back, strict⟩ :=
    @collectFragment_fold (.byte 1) (.primitive .short) .standard "A" .empty
      (staticFragment byteCast) byteCast ⟨0⟩ (staticState (.primitive .short)) rfl rfl rfl
  obtain ⟨same, -⟩ := Prod.mk.inj run
  cases same
  exact ⟨_, _, run, rfl, back.mpr (.inl rfl), strict.mpr rfl⟩

/-- A field of type `Object` holds the `byte` if its initializer is `(byte) 1` and the `int` if it
is `(1)`. Both get the same literal, which reads back as the `int`. -/
theorem collectFragment_fold_object :
    let object : TypeRef := .declared ⟨"Object", none⟩
    let number : Expr := .parenthesized default (.literal default (.int 1))
    let collected e :=
      (collectFragment .standard "A" true object .empty (staticFragment e)).run (staticState object)
    classify (staticState object).table .cpp byteCast ⟨0⟩ = .ok (.fold (.byte 1)) ∧
      classify (staticState object).table .cpp number ⟨0⟩ = .ok (.fold (.int 1)) ∧
      collected byteCast = collected number ∧
      ∃ literal s', collected byteCast = (.ok (staticFragment literal, .empty), s') ∧
        foldedValue (.byte 1) object = .byte 1 ∧ literal.recordedConstant? = some (.int 1) ∧
        literal.recordedConstant? ≠ some (foldedValue (.byte 1) object) := by
  refine ⟨rfl, rfl, rfl, _, _, rfl, rfl, rfl, nofun⟩

end Lowering

end ClassInit
