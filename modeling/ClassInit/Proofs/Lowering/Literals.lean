import ClassInit.Binding.Unit
import ClassInit.Proofs.Lowering.Origins
import ClassInit.Tree.Printer

/-!
# Only safe initializers stay

In a lowered unit no type, at whatever depth, has an initializer block, and what still stands as a
field initializer is safe for a declaration of the target: a literal that the target can spell, or
the initializer of a primitive constant, and in a field that belongs to the type
(`CompilationUnit.lower_literalSafe`).
-/

set_option autoImplicit false

namespace ClassInit

namespace Lowering

/-! ## Safe initializers -/

/-- Whether the target can spell the literal: any but a string, and a string of admitted
characters. -/
def Spellable (encoding : LiteralEncoding) (v : Literal) : Prop :=
  ∀ text, v = .string text → ∀ c ∈ text.toList, encoding.admitsChar c = true

/-- An initializer that may stand in a declaration: a literal that the target can spell, or the
initializer of a primitive constant. -/
def SafeInitializer (t : BindingTable) (encoding : LiteralEncoding) (f : Fragment) (e : Expr) :
    Prop :=
  match e.asLiteral with
  | some v => Spellable encoding v
  | none => ∃ v, f.binding = some v ∧ t.isPrimitiveConstant v = .ok true

/-- Whether the table has the declaration as an interface-like type. -/
def IsInterfaceLike (t : BindingTable) (d : TypeDecl) : Prop :=
  ∃ type descriptor, d.head.binding = some type ∧ t.typeAt type = .ok descriptor ∧
    descriptor.isInterface = true

/-- A type without initializer blocks whose remaining field initializers are safe and belong to the
type and not to its instances. -/
structure LiteralSafe (t : BindingTable) (encoding : LiteralEncoding) (d : TypeDecl) : Prop where
  noBlocks : ∀ m ∈ d.members, m.asInitializer = none
  fields : ∀ f, Member.field f ∈ d.members → ∀ g ∈ f.fragments, ∀ e, g.initializer = some e →
    (f.modifiers.isStatic = true ∨ IsInterfaceLike t d) ∧ SafeInitializer t encoding g e

theorem spells_iff {encoding : LiteralEncoding} {v : Literal} :
    spells encoding v = true ↔ Spellable encoding v := by
  cases v with
  | string text =>
    show encoding.admits text = true ↔ _
    rw [LiteralEncoding.admits, List.all_eq_true]
    constructor
    · intro admitted text' same
      cases same
      exact admitted
    · intro admitted
      exact admitted text rfl
  | boolean _ | char _ | null | int _ | long _ | float _ | double _ =>
    refine ⟨fun _ text same => ?_, fun _ => rfl⟩
    cases same

variable {t : BindingTable} {encoding : LiteralEncoding} {e : Expr} {v : VariableId}

/-- What is no literal is asked of the table. -/
theorem classify_eq_of_not_literal (notLiteral : e.asLiteral = none) :
    classify t encoding e v =
      (t.isPrimitiveConstant v).bind fun isConstant =>
        if isConstant then .ok .keep else .ok (.ofConstant encoding (t.constantValue e)) := by
  cases e with
  | literal _ _ => cases notLiteral
  | _ => rfl

/-- What is no literal is decided by the table: the initializer of a primitive constant stays, any
other one is judged by its constant value. -/
theorem classify_of_not_literal (notLiteral : e.asLiteral = none) {fate : Eligibility}
    (decided : classify t encoding e v = .ok fate) :
    (t.isPrimitiveConstant v = .ok true ∧ fate = .keep) ∨
      fate = .ofConstant encoding (t.constantValue e) := by
  rw [classify_eq_of_not_literal notLiteral] at decided
  generalize t.isPrimitiveConstant v = answer at decided ⊢
  rcases answer with _ | isConstant
  · cases decided
  · cases isConstant with
    | true =>
      cases decided
      exact .inl ⟨rfl, rfl⟩
    | false =>
      cases decided
      exact .inr rfl

theorem ofConstant_ne_keep (c : Option Constant) : Eligibility.ofConstant encoding c ≠ .keep := by
  unfold Eligibility.ofConstant
  split
  · simp
  · split <;> simp
  · simp

theorem admits_of_ofConstant {c : Option Constant} {text : String}
    (fold : Eligibility.ofConstant encoding c = .fold (.string text)) :
    encoding.admits text = true := by
  unfold Eligibility.ofConstant at fold
  split at fold
  · cases fold
  · split at fold
    · cases fold
      assumption
    · cases fold
  · rename_i notString
    cases fold
    exact absurd rfl (notString text)

/-- An initializer that stays is safe. -/
theorem SafeInitializer.of_keep {f : Fragment} (bound : f.binding = some v)
    (keep : classify t encoding e v = .ok .keep) : SafeInitializer t encoding f e := by
  unfold SafeInitializer
  cases literal : e.asLiteral with
  | some value =>
    cases e <;> cases literal
    rw [classify] at keep
    by_cases spelled : spells encoding value = true
    · exact spells_iff.mp spelled
    · rw [if_neg spelled] at keep
      cases keep
  | none =>
    rcases classify_of_not_literal literal keep with ⟨isConstant, -⟩ | fate
    · exact ⟨v, bound, isConstant⟩
    · exact absurd fate.symm (ofConstant_ne_keep _)

/-- A string that is folded to is one that the target can spell. -/
theorem admits_of_fold {text : String}
    (fold : classify t encoding e v = .ok (.fold (.string text))) :
    encoding.admits text = true := by
  cases literal : e.asLiteral with
  | some value =>
    cases e <;> cases literal
    rw [classify] at fold
    split at fold <;> cases fold
  | none =>
    rcases classify_of_not_literal literal fold with ⟨-, fate⟩ | fate
    · cases fate
    · exact admits_of_ofConstant fate.symm

/-- Converting never makes a string. -/
theorem convert_ne_string (c : Constant) (p : PrimitiveType) (text : String) :
    c.convert p ≠ some (.string text) := by
  cases c <;> cases p <;> simp [Constant.convert, Constant.asInt, Constant.asLong, Constant.asFloat,
    Constant.asDouble]

/-- A folded field holds a string literal only if its constant is that string. -/
theorem eq_string_of_foldedValue {c : Constant} {type : TypeRef} {text : String}
    (folded : Literal.ofConstant (foldedValue c type) = .string text) : c = .string text := by
  have value : foldedValue c type = .string text := by
    revert folded
    cases foldedValue c type <;> simp [Literal.ofConstant]
  unfold foldedValue at value
  cases converted : type.asPrimitive.bind c.convert with
  | none =>
    rw [converted] at value
    exact value
  | some c' =>
    rw [converted] at value
    obtain ⟨p, -, isConverted⟩ := Option.bind_eq_some_iff.mp converted
    have value : c' = .string text := value
    rw [value] at isConverted
    exact absurd isConverted (convert_ne_string c p text)

/-- What a field is folded to is safe. -/
theorem SafeInitializer.of_fold {f : Fragment} {c : Constant} {type : TypeRef} {n : NodeId}
    (fold : classify t encoding e v = .ok (.fold c)) :
    SafeInitializer t encoding f (literalFor n c type) := by
  intro text same
  rw [eq_string_of_foldedValue same] at fold
  exact List.all_eq_true.mp (admits_of_fold fold)

/-- What is left of a field that belongs to the type is safe; nothing is left of any other one. -/
theorem FragmentLowered.safe {once : Bool} {type : TypeRef} {f g : Fragment}
    (lowered : FragmentLowered t encoding once type f g) (some : g.initializer = some e) :
    once = true ∧ SafeInitializer t encoding g e := by
  cases lowered with
  | bare none =>
    rw [none] at some
    cases some
  | moved _ _ _ => cases some
  | kept init bound isOnce keep =>
    rw [init] at some
    cases some
    exact ⟨isOnce, .of_keep bound keep⟩
  | folded _ _ isOnce fold =>
    cases some
    exact ⟨isOnce, .of_fold fold⟩
  | demoted _ _ _ _ => cases some

/-! ## Types -/

/-- A type that is lowered by the rules is safe. -/
theorem TypeLowered.literalSafe {options : Options} {type : TypeId} {descriptor : TypeDescriptor}
    {d d' : TypeDecl} (bound : d.head.binding = some type)
    (described : t.typeAt type = .ok descriptor)
    (lowered : TypeLowered options t descriptor.isInterface descriptor.modifiers.access d d') :
    LiteralSafe t options.literalEncoding d' := by
  constructor
  · intro m' hm'
    rcases lowered.mem_cases hm' with ⟨m, -, one⟩ | ⟨call, ss, -, -, n, bodyId, handle, rfl⟩ |
      ⟨ss, -, n, bodyId, handle, rfl⟩
    · cases one <;> rfl
    · rfl
    · rfl
  · intro f' hf' g' hg' e some
    obtain ⟨f, fs, -, rfl, fragments⟩ := lowered.exists_field hf'
    obtain ⟨g, -, fragment⟩ := exists_mem_left fragments hg'
    obtain ⟨once, safe⟩ := fragment.safe some
    refine ⟨?_, safe⟩
    rcases Bool.or_eq_true_iff.mp once with isStatic | isInterface
    · exact .inl isStatic
    · refine .inr ⟨type, descriptor, ?_, described, isInterface⟩
      rw [lowered.head, bound]

/-! ## Copies -/

theorem asLiteral_erase (h : Option MethodId → Option MethodId) (e : Expr) :
    (e.erase h).asLiteral = e.asLiteral := by
  fun_cases Expr.erase h e <;> rfl

theorem asInitializer_erase (h : Option MethodId → Option MethodId) (m : Member) :
    (m.erase h).asInitializer = none ↔ m.asInitializer = none := by
  fun_cases Member.erase h m <;> simp [Member.asInitializer]

theorem exists_field_of_erase {h : Option MethodId → Option MethodId} {m : Member} {f : FieldDecl}
    (erased : m.erase h = (Member.field f).erase h) :
    ∃ f', m = .field f' ∧ f'.erase h = f.erase h := by
  cases Member.eraseAlike_of_eq erased with
  | field same => exact ⟨_, rfl, same⟩

/-- A fragment of one of two types that erase alike has a counterpart in the other. -/
theorem exists_fragment_of_erase {h : Option MethodId → Option MethodId} {d d' : TypeDecl}
    (same : d.erase h = d'.erase h) {f' : FieldDecl} (hf' : Member.field f' ∈ d'.members)
    {g' : Fragment} (hg' : g' ∈ f'.fragments) :
    ∃ f, Member.field f ∈ d.members ∧ f.modifiers = f'.modifiers ∧
      ∃ g ∈ f.fragments, g.erase h = g'.erase h := by
  obtain ⟨m, hm, erased⟩ := TypeDecl.exists_member_of_erase h same hf'
  obtain ⟨f, rfl, sameField⟩ := exists_field_of_erase erased
  simp only [FieldDecl.erase, FieldDecl.mk.injEq] at sameField
  obtain ⟨-, -, modifiers, -, fragments⟩ := sameField
  have erasedFragment : g'.erase h ∈ f.fragments.map (Fragment.erase h) := by
    rw [fragments]
    exact List.mem_map_of_mem hg'
  obtain ⟨g, hg, sameFragment⟩ := List.mem_map.mp erasedFragment
  exact ⟨f, hm, modifiers, g, hg, sameFragment⟩

/-- A safe initializer stays safe in a fragment that differs in node ids only. -/
theorem SafeInitializer.of_erase {f f' : Fragment} {e' : Expr}
    (h : Option MethodId → Option MethodId) (same : f.erase h = f'.erase h)
    (initializer : f'.initializer = some e') :
    ∃ e, f.initializer = some e ∧
      (SafeInitializer t encoding f e → SafeInitializer t encoding f' e') := by
  simp only [Fragment.erase, Fragment.mk.injEq] at same
  obtain ⟨-, -, erased, binding⟩ := same
  rw [initializer, Option.map_some, Option.map_eq_some_iff] at erased
  obtain ⟨e, initializer', erased⟩ := erased
  refine ⟨e, initializer', fun safe => ?_⟩
  unfold SafeInitializer at safe ⊢
  rw [← asLiteral_erase h e', ← erased, asLiteral_erase, ← binding]
  exact safe

/-- A copy of a safe type is safe. -/
theorem LiteralSafe.of_erase {d d' : TypeDecl} (safe : LiteralSafe t encoding d)
    (same : d.erase id = d'.erase id) : LiteralSafe t encoding d' := by
  constructor
  · intro m' hm'
    obtain ⟨m, hm, erased⟩ := TypeDecl.exists_member_of_erase id same hm'
    rw [← asInitializer_erase id, ← erased, asInitializer_erase]
    exact safe.noBlocks m hm
  · intro f' hf' g' hg' e' initializer
    obtain ⟨f, hf, modifiers, g, hg, sameFragment⟩ := exists_fragment_of_erase same hf' hg'
    obtain ⟨e, hasInitializer, keeps⟩ :=
      SafeInitializer.of_erase id sameFragment initializer
    obtain ⟨owner, safeInitializer⟩ := safe.fields f hf g hg e hasInitializer
    refine ⟨?_, keeps safeInitializer⟩
    rw [← modifiers]
    rcases owner with isStatic | ⟨type, descriptor, bound, described⟩
    · exact .inl isStatic
    · exact .inr ⟨type, descriptor, (TypeDecl.binding_of_erase id same).symm.trans bound, described⟩

/-- What is safe with a table is safe with any table that lowering leaves of it. -/
theorem LiteralSafe.of_grows {t' : BindingTable} (grown : t.Grows t') {d : TypeDecl}
    (safe : LiteralSafe t encoding d) : LiteralSafe t' encoding d := by
  refine ⟨safe.noBlocks, fun f hf g hg e some => ?_⟩
  obtain ⟨owner, safeInitializer⟩ := safe.fields f hf g hg e some
  constructor
  · rcases owner with isStatic | ⟨type, descriptor, bound, described⟩
    · exact .inl isStatic
    · refine .inr ⟨type, descriptor, bound, ?_⟩
      rw [grown.typeAt]
      exact described
  · unfold SafeInitializer BindingTable.isPrimitiveConstant at safeInitializer ⊢
    simp only [grown.variableAt]
    exact safeInitializer

end Lowering

/-! ## Units -/

/-- In a unit that is lowered successfully every type declaration, at any depth and in any copy, is
without initializer blocks and keeps field initializers only in fields that belong to the type, and
only literals that the target can spell and initializers of primitive constants. -/
theorem CompilationUnit.lower_literalSafe {u : CompilationUnit} {t : BindingTable}
    {options : Lowering.Options} {stats : Lowering.Stats}
    (success : (u.lower t options).result = .ok stats) :
    ∀ d ∈ (u.lower t options).unit.declarations,
      Lowering.LiteralSafe (u.lower t options).table options.literalEncoding d := by
  intro d' hd'
  obtain ⟨d, -, origin⟩ := u.lower_origin success d' hd'
  obtain ⟨type, descriptor, d₁, d₂, bound, described, head, -, lowered, same⟩ := origin.lowered
  have bound₁ : d₁.head.binding = some type := by
    rw [head]
    exact bound
  have safe := lowered.literalSafe bound₁ described
  exact (safe.of_erase same).of_grows (u.lower_grows t options)

/-- `class A { static int n = 3; static String s = "ok", e = "é"; { class L { static String t = "a"
+ "b"; } } }`, with a field for each text. -/
def literalSample : CompilationUnit :=
  let i : ExprInfo := ⟨.unassigned, .dummy, none⟩
  let n : NodeInfo := ⟨.unassigned, .dummy⟩
  let string (text : String) : Expr := .literal i (.string text)
  let field (type : TypeRef) (name : String) (e : Expr) : Member :=
    .field ⟨.unassigned, .dummy, .of .static, type, [⟨.dummy, name, some e, none⟩]⟩
  let text := field (.declared ⟨"String", none⟩)
  let type (name : String) (ms : List Member) : TypeDecl :=
    ⟨⟨.unassigned, .dummy, .classType, name, .empty, none, none, []⟩, ms⟩
  ⟨"A.java", none,
    [type "A"
      [field (.primitive .int) "n" (.literal i (.int 3)), text "s" (string "ok"),
        text "e" (string "\u00e9"),
        .initializer ⟨n, false, ⟨n,
          [.localType n (type "L" [text "t" (.binary i .add (string "a") (string "b"))])]⟩⟩]],
    .initial⟩

/-- The literals of the class that can be spelled stay, and so does the sum of texts in the local
class, which moves into the constructor. -/
theorem CompilationUnit.lower_literalSafe_sample :
    let bound := literalSample.bind .new
    let r := bound.unit.lower bound.table ⟨"initialize", .ascii⟩
    r.unit.text =
      "class A \x7b\n  static int n = 3;\n  static String s = \"ok\";\n  static String e;\n" ++
      "  A() \x7b\n    super();\n    \x7b\n      class L \x7b\n" ++
      "        static String t = \"ab\";\n        L() \x7b\n          super();\n" ++
      "        \x7d\n      \x7d\n    \x7d\n  \x7d\n  public static void initialize() \x7b\n" ++
      "    e = \"\\u00e9\";\n  \x7d\n\x7d\n" ∧
      ∀ d ∈ r.unit.declarations, Lowering.LiteralSafe r.table .ascii d := by
  intro bound r
  refine ⟨by decide +kernel, ?_⟩
  have succeeds : r.result.isOk = true := by decide +kernel
  cases success : r.result with
  | error e =>
    rw [success] at succeeds
    cases succeeds
  | ok stats => exact lower_literalSafe success

end ClassInit
