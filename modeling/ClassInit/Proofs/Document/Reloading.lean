import ClassInit.CommandLine
import ClassInit.Proofs.Document.Readings
import ClassInit.Proofs.Document.RoundTrip
import ClassInit.Proofs.Json.Nesting
import ClassInit.Proofs.Number.Floats

/-!
# Reloading

What a run prints as a document denotes the unit of the run if and only if every floating-point
number in the unit is finite and every handle is a 32-bit number, as long as the document does not
nest too deep (`RunResult.document?_render_iff`). Folding can yield numbers that are not finite from
an input that holds none.
-/

set_option autoImplicit false

namespace ClassInit

open Json Number

namespace Json

/-- Reading changes the items of an array one by one. -/
theorem rereadItems_eq (js : List Json) : rereadItems js = js.map reread := by
  induction js with
  | nil => rfl
  | cons j js ih => exact congrArg (j.reread :: ·) ih

theorem rereadFields_eq (fs : List (String × Json)) :
    rereadFields fs = fs.map fun f => (f.1, f.2.reread) := by
  induction fs with
  | nil => rfl
  | cons f fs ih => exact congrArg ((f.1, f.2.reread) :: ·) ih

/-- Reading changes numbers only, so it keeps the shape of a document. -/
theorem preserves_reread : Preserves reread :=
  ⟨rfl, fun _ => rfl, fun _ => rfl, fun _ => rfl, fun js => congrArg arr (rereadItems_eq js),
    fun fs => congrArg obj (rereadFields_eq fs)⟩

theorem isPlain_ofDecimal (d : Decimal) : (ofDecimal d).IsPlain := by
  unfold ofDecimal
  split <;> trivial

theorem isPlain_ofDecimal? : ∀ d : Option Decimal, (ofDecimal? d).IsPlain
  | none => trivial
  | some d => isPlain_ofDecimal d

mutual

/-- A document that was read has decimals in place of floats. -/
theorem isPlain_reread : ∀ j : Json, j.reread.IsPlain
  | null | bool _ | int _ | str _ | unreadable => trivial
  | decimal d => isPlain_ofDecimal d
  | float32 _ | float64 _ => isPlain_ofDecimal? _
  | arr js => arePlain_rereadItems js
  | obj fs => arePlainFields_rereadFields fs

theorem arePlain_rereadItems : ∀ js : List Json, ArePlain (rereadItems js)
  | [] => trivial
  | j :: js => ⟨isPlain_reread j, arePlain_rereadItems js⟩

theorem arePlainFields_rereadFields : ∀ fs : List (String × Json), ArePlainFields (rereadFields fs)
  | [] => trivial
  | (_, j) :: fs => ⟨isPlain_reread j, arePlainFields_rereadFields fs⟩

end

/-- A decimal is read as an integer only if it is the decimal of that integer. -/
theorem ofDecimal_cases (d : Decimal) :
    ofDecimal d = decimal d ∨ ∃ n, ofDecimal d = int n ∧ Decimal.ofInt n = d := by
  unfold ofDecimal
  split
  next whole =>
    obtain ⟨negative, digits, places, exponent⟩ := d
    obtain ⟨rfl, absent, signed⟩ := whole
    obtain rfl := Option.isNone_iff_eq_none.mp absent
    refine .inr ⟨_, rfl, ?_⟩
    cases negative with
    | false => simp [Decimal.ofInt]
    | true =>
      have positive : 0 < digits := Nat.pos_of_ne_zero fun zero => signed ⟨rfl, zero⟩
      simp [Decimal.ofInt, positive]
  next => exact .inl rfl

/-- A decimal that was read is rounded to the nearest 64-bit float. -/
theorem float64?_ofDecimal (d : Decimal) : float64? (ofDecimal d) = d.toFloat? := by
  obtain same | ⟨n, same, integer⟩ := ofDecimal_cases d
  · rw [same, float64?]
  · rw [same, float64?, integer]

theorem float32?_ofDecimal (d : Decimal) : float32? (ofDecimal d) = d.toFloat32? := by
  obtain same | ⟨n, same, integer⟩ := ofDecimal_cases d
  · rw [same, float32?]
  · rw [same, float32?, integer]

end Json

/-- Leaves that are finite and fit their words are read back. -/
theorem Leaf.readBy_reread {l : Leaf} (finite : l.IsFinite) (word : l.IsWord) :
    l.ReadBy reread := by
  cases l with
  | handle n => exact word
  | single x =>
    obtain ⟨d, written, reads⟩ := toFloat32?_documentDecimal? finite .document32
    show float32? (ofDecimal? (documentDecimal? .single .document32 x.toBits.toNat)) = some x
    rw [written, ofDecimal?, float32?_ofDecimal, reads]
  | double x =>
    obtain ⟨d, written, reads⟩ := toFloat?_documentDecimal? finite .document64
    show float64? (ofDecimal? (documentDecimal? .double .document64 x.toBits.toNat)) = some x
    rw [written, ofDecimal?, float64?_ofDecimal, reads]

theorem CompilationUnit.ofJson?_reread {u : CompilationUnit}
    (fits : ∀ l ∈ u.leaves, l.IsFinite ∧ l.IsWord) :
    ofJson? u.toJson.reread = some u :=
  ofJson?_of_preserves preserves_reread fun l hl => Leaf.readBy_reread (fits l hl).1 (fits l hl).2

/-! ## Texts -/

section

open CommandLine (document?)

/-- A written document is read as far as it is nested within the limit. -/
theorem document?_prettyText {α : Type} (read : Json → Option α) (j : Json) :
    document? read j.prettyText = read (j.reread.limited Limits.documentNesting) := by
  rw [document?, ofDocument?_prettyText, Option.bind_some]

/-- A document within the limit is read whole. -/
theorem document?_prettyText_of_nesting_le {α : Type} (read : Json → Option α) {j : Json}
    (shallow : j.nesting ≤ Limits.documentNesting) :
    document? read j.prettyText = read j.reread := by
  rw [document?_prettyText, limited_of_nesting_le (by rwa [nesting_reread])]

/-- The unit of a result is loaded from its document just if all numbers in it are finite and all
indices fit. -/
theorem RunResult.document?_render_iff (r : RunResult)
    (shallow : r.unit.toJson.nesting ≤ Limits.documentNesting) :
    document? CompilationUnit.ofJson? (r.render .json) = some r.unit ↔
      ∀ l ∈ r.unit.leaves, l.IsFinite ∧ l.IsWord := by
  rw [RunResult.render, document?_prettyText_of_nesting_le _ shallow]
  constructor
  · exact fun reads => CompilationUnit.yields (isPlain_reread _) reads
  · exact CompilationUnit.ofJson?_reread

namespace Input

/-- The input document of a unit alone. -/
def documentOf (u : CompilationUnit) : String := (obj [("unit", u.toJson)]).prettyText

theorem document?_documentOf {u : CompilationUnit}
    (shallow : (obj [("unit", u.toJson)]).nesting ≤ Limits.documentNesting)
    (fits : ∀ l ∈ u.leaves, l.IsFinite ∧ l.IsWord) :
    document? ofJson? (documentOf u) = some ⟨.new, u⟩ := by
  rw [documentOf, document?_prettyText_of_nesting_le _ shallow, preserves_reread.obj]
  show (CompilationUnit.ofJson? u.toJson.reread).bind (fun u => some (Input.mk .new u)) = _
  rw [CompilationUnit.ofJson?_reread fits]
  rfl

/-- A class with a static field that is initialized with a quotient. -/
def quotientSample (divisor : Float) : CompilationUnit :=
  let i : ExprInfo := ⟨.unassigned, .dummy, none⟩
  let number (x : Float) : Expr := .literal i (.double x)
  let field : FieldDecl := ⟨.unassigned, .dummy, .of .static, .primitive .double,
    [⟨.dummy, "x", some (.binary i .div (number 1) (number divisor)), none⟩]⟩
  ⟨"A.java", none,
    [⟨⟨.unassigned, .dummy, .classType, "A", .empty, none, none, []⟩, [.field field]⟩], .initial⟩

/-- What is known of a run from what its result, if it has one, is mapped to. -/
theorem exists_run {α : Type} (input : Input) (options : Lowering.Options) (f : RunResult → α)
    (a : α) (outcome : (input.run options).toOption.map f = some a) :
    ∃ r, input.run options = .ok r ∧ f r = a := by
  cases ran : input.run options with
  | error e =>
    rw [ran] at outcome
    cases outcome
  | ok r =>
    rw [ran] at outcome
    exact ⟨r, rfl, Option.some.inj outcome⟩

/-- A finite quotient becomes a literal, and the document of the result is read as the result. -/
theorem quotientSample_reloaded :
    ∃ r, (Input.mk .new (quotientSample 2)).run .standard = .ok r ∧
      r.unit.toJson.nesting ≤ Limits.documentNesting ∧
      document? CompilationUnit.ofJson? (r.render .json) = some r.unit := by
  obtain ⟨r, ran, outcome⟩ := exists_run ⟨.new, quotientSample 2⟩ .standard
    (fun r => decide (r.unit.toJson.nesting ≤ Limits.documentNesting ∧
      ∀ l ∈ r.unit.leaves, l.IsFinite ∧ l.IsWord)) true (by decide +kernel)
  obtain ⟨shallow, fits⟩ := of_decide_eq_true outcome
  exact ⟨r, ran, shallow, (r.document?_render_iff shallow).mpr fits⟩

/-- An infinite quotient becomes a literal too, but the document of the result has it as null. -/
theorem quotientSample_refused :
    ∃ input r, document? ofJson? (documentOf (quotientSample 0)) = some input ∧
      input.run .standard = .ok r ∧ r.hasErrors = false ∧
      document? CompilationUnit.ofJson? (r.render .json) = none := by
  obtain ⟨r, ran, outcome⟩ := exists_run ⟨.new, quotientSample 0⟩ .standard
    (fun r => (r.hasErrors,
      (CompilationUnit.ofJson? (r.unit.toJson.reread.limited Limits.documentNesting)).isSome))
    (false, false) (by decide +kernel)
  obtain ⟨clean, refused⟩ := Prod.mk.inj outcome
  refine ⟨_, r, document?_documentOf (by decide +kernel) (by decide +kernel), ran, clean, ?_⟩
  rw [RunResult.render, document?_prettyText]
  exact Option.isNone_iff_eq_none.mp (Option.isSome_eq_false_iff.mp refused)

end Input

end

end ClassInit
