import Mathlib.Data.UInt
import ClassInit.Document.Decl
import ClassInit.Proofs.Document.Leaves
import ClassInit.Proofs.Document.ModifierText

/-!
# Reading the parts of a document

What is written for an id, a span, a set of modifiers, a type or a literal is read back as what it
was (`TypeRef.ofJson?_toJson`, `Literal.ofJson?_toJson`). Between writing and reading,
floating-point numbers may take another form; the rest of a document stays (`Json.Preserves`).
-/

set_option autoImplicit false

namespace ClassInit

open Json

/-- What happens to a document leaves everything but floating-point numbers as it is. -/
structure Json.Preserves (h : Json → Json) : Prop where
  null : h Json.null = Json.null
  bool : ∀ b, h (Json.bool b) = Json.bool b
  int : ∀ n, h (Json.int n) = Json.int n
  str : ∀ s, h (Json.str s) = Json.str s
  arr : ∀ js, h (Json.arr js) = Json.arr (js.map h)
  obj : ∀ fs, h (Json.obj fs) = Json.obj (fs.map fun f => (f.1, h f.2))

/-- What becomes of the leaf is read as the leaf. -/
def Leaf.ReadBy (h : Json → Json) : Leaf → Prop
  | .handle n => n < UInt32.size
  | .single x => float32? (h (float32 x)) = some x
  | .double x => float64? (h (float64 x)) = some x

namespace Json

/-! ## Integers -/

/-- An integer within the bounds is read back. -/
theorem integer?_of_le {least most n : Int} (low : least ≤ n) (high : n ≤ most) :
    integer? least most (int n) = some n :=
  if_pos ⟨low, high⟩

/-- An index that fits a 32-bit word is read back. -/
theorem index?_ofNat {n : Nat} (small : n < UInt32.size) : index? (ofNat n) = some n := by
  rw [index?, ofNat, integer?_of_le (Int.natCast_nonneg n)
    (Int.ofNat_le.mpr (Nat.le_sub_one_of_lt small))]
  rfl

theorem uint32?_ofUInt32 (n : UInt32) : uint32? (ofUInt32 n) = some n := by
  have index := index?_ofNat n.toNat_lt_size
  rw [uint32?, show ofUInt32 n = ofNat n.toNat from rfl, index]
  exact congrArg some UInt32.ofNat_toNat

theorem uint16?_ofNat (c : UInt16) : uint16? (ofNat c.toNat) = some c := by
  rw [uint16?, ofNat, integer?_of_le (Int.natCast_nonneg _)
    (Int.ofNat_le.mpr (Nat.le_sub_one_of_lt c.toNat_lt_size))]
  exact congrArg some UInt16.ofNat_toNat

/-- A 32-bit integer is read back with its sign. -/
theorem int32?_int (i : Int32) : int32? (int i.toInt) = some i := by
  rw [int32?, integer?_of_le i.minValue_le_toInt i.toInt_le]
  exact congrArg some i.ofInt_toInt

theorem int64?_int (l : Int64) : int64? (int l.toInt) = some l := by
  rw [int64?, integer?_of_le l.minValue_le_toInt l.toInt_le]
  exact congrArg some l.ofInt_toInt

/-! ## Levels -/

/-- Every value has a level of its own. -/
theorem depth_pos (j : Json) : 0 < j.depth := by
  cases j <;> simp only [depth] <;> omega

/-- The items of an array have fewer levels than the array. -/
theorem depth_lt_of_mem_items {j : Json} {js : List Json} (listed : j ∈ js) :
    j.depth < (arr js).depth := by
  have below : j.depth ≤ depthList js := by
    induction js with
    | nil => exact absurd listed List.not_mem_nil
    | cons k ks ih =>
      rcases List.mem_cons.mp listed with rfl | listed
      · exact Nat.le_max_left _ _
      · exact Nat.le_trans (ih listed) (Nat.le_max_right _ _)
  exact Nat.lt_succ_of_le below

/-- The values in an object have fewer levels than the object. -/
theorem depth_lt_of_mem_fields {f : String × Json} {fs : List (String × Json)} (listed : f ∈ fs) :
    f.2.depth < (obj fs).depth := by
  have below : f.2.depth ≤ depthFields fs := by
    induction fs with
    | nil => exact absurd listed List.not_mem_nil
    | cons g gs ih =>
      rcases List.mem_cons.mp listed with rfl | listed
      · exact Nat.le_max_left _ _
      · exact Nat.le_trans (ih listed) (Nat.le_max_right _ _)
  exact Nat.lt_succ_of_le below

/-! ## Parts that may be missing, and lists -/

/-- What is not written as null is read back where null is allowed. -/
theorem nullable?_of_some {α : Type} {read : Json → Option α} {j : Json} {a : α}
    (refuses : read null = none) (reads : read j = some a) : nullable? read j = some (some a) := by
  unfold nullable?
  split
  · rw [refuses] at reads
    cases reads
  · rw [reads]
    rfl

end Json

section

variable {h : Json → Json} (keeps : Preserves h)

include keeps

namespace Json.Preserves

/-- A tag stays in front of what it tags. -/
theorem tagged (tag : String) (j : Json) : h (Json.tagged tag j) = Json.tagged tag (h j) :=
  keeps.obj _

/-- Fuel for an array is more than enough for each of its items. -/
theorem depth_item {n : Nat} {j : Json} {js : List Json} (deep : (h (Json.arr js)).depth ≤ n)
    (listed : j ∈ js) : (h j).depth < n := by
  rw [keeps.arr] at deep
  exact Nat.lt_of_lt_of_le (depth_lt_of_mem_items (List.mem_map_of_mem listed)) deep

/-- Fuel for an array is enough for the array without its first item. -/
theorem depth_rest {n : Nat} {j : Json} {js : List Json}
    (deep : (h (Json.arr (j :: js))).depth ≤ n) :
    (h (Json.arr js)).depth ≤ n := by
  rw [keeps.arr] at deep ⊢
  exact Nat.le_trans (Nat.succ_le_succ (Nat.le_max_right _ _)) deep

/-- A field has fewer levels than its object; the field is given by its position. -/
theorem depth_field {n : Nat} {name : String} {j : Json} {fs : List (String × Json)}
    (deep : (h (Json.obj fs)).depth ≤ n) (k : Nat) (found : fs[k]? = some (name, j)) :
    (h j).depth < n := by
  rw [keeps.obj] at deep
  have listed : (name, h j) ∈ fs.map fun f => (f.1, h f.2) :=
    List.mem_map_of_mem (f := fun f : String × Json => (f.1, h f.2)) (List.mem_of_getElem? found)
  exact Nat.lt_of_lt_of_le (depth_lt_of_mem_fields listed) deep

/-- Fuel for a tagged value is more than enough for the value. -/
theorem depth_tagged {n : Nat} {tag : String} {j : Json}
    (deep : (h (Json.tagged tag j)).depth ≤ n) :
    (h j).depth < n := keeps.depth_field deep 0 rfl

/-- A field of the data of a case. -/
theorem depth_part {n : Nat} {tag name : String} {j : Json} {fs : List (String × Json)}
    (deep : (h (Json.tagged tag (Json.obj fs))).depth ≤ n) (k : Nat)
    (found : fs[k]? = some (name, j)) :
    (h j).depth ≤ n :=
  Nat.le_of_lt (keeps.depth_field (Nat.le_of_lt (keeps.depth_tagged deep)) k found)

/-- A part that may be missing is read back if it is read back where it is there. -/
theorem nullable {α : Type} {write : α → Json} {read : Json → Option α}
    (refuses : read Json.null = none) {a : Option α}
    (reads : ∀ b ∈ a, read (h (write b)) = some b) :
    nullable? read (h (ofOption write a)) = some a := by
  cases a with
  | none =>
    rw [ofOption, keeps.null]
    rfl
  | some b => exact nullable?_of_some refuses (reads b rfl)

/-- A list is read back item by item. -/
theorem list_cons {α : Type} {read : Json → Option α} {a : α} {as : List α} {j : Json}
    {js : List Json} (one : read (h j) = some a) (others : list? read (h (Json.arr js)) = some as) :
    list? read (h (Json.arr (j :: js))) = some (a :: as) := by
  rw [keeps.arr] at others ⊢
  have others : (js.map h).mapM read = some as := others
  show ((j :: js).map h).mapM read = some (a :: as)
  rw [List.map_cons, List.mapM_cons, one, others]
  rfl

/-- A list is read back if each of its items is. -/
theorem list {α : Type} {write : α → Json} {read : Json → Option α} {as : List α}
    (reads : ∀ a ∈ as, read (h (write a)) = some a) :
    list? read (h (Json.arr (as.map write))) = some as := by
  induction as with
  | nil =>
    rw [List.map_nil, keeps.arr]
    rfl
  | cons a as ih =>
    obtain ⟨one, others⟩ := List.forall_mem_cons.mp reads
    exact keeps.list_cons one (ih others)

theorem string (s : String) : string? (h (Json.str s)) = some s := by
  rw [keeps.str]
  rfl

theorem boolean (b : Bool) : bool? (h (Json.bool b)) = some b := by
  rw [keeps.bool]
  rfl

end Json.Preserves

/-! ## Ids, spans and modifiers -/

/-- Node ids are read back. -/
theorem NodeId.ofJson?_toJson (id : NodeId) : NodeId.ofJson? (h id.toJson) = some id := by
  rw [NodeId.toJson, ofUInt32, keeps.int]
  show (uint32? (ofUInt32 id.word)).map NodeId.mk = some id
  rw [uint32?_ofUInt32]
  rfl

/-- Spans are read back. -/
theorem Span.ofJson?_toJson (s : Span) : Span.ofJson? (h s.toJson) = some s := by
  rw [Span.toJson, keeps.obj]
  show (do return Span.mk (← uint32? (h (ofUInt32 s.start))) (← uint32? (h (ofUInt32 s.stop)))) =
    some s
  rw [ofUInt32, ofUInt32, keeps.int, keeps.int, ← ofUInt32, ← ofUInt32, uint32?_ofUInt32,
    uint32?_ofUInt32]
  rfl

theorem IdSupply.ofJson?_toJson (s : IdSupply) : IdSupply.ofJson? (h s.toJson) = some s := by
  rw [IdSupply.toJson, keeps.obj]
  show (do return IdSupply.mk (← uint32? (h (ofUInt32 s.next)))) = some s
  rw [ofUInt32, keeps.int, ← ofUInt32, uint32?_ofUInt32]
  rfl

/-- Modifiers are read back from their bits. -/
theorem Modifiers.ofJson?_toJson (m : Modifiers) : Modifiers.ofJson? (h m.toJson) = some m := by
  rw [Modifiers.toJson, Modifiers.ofJson?, keeps.string, Option.bind_some, Modifiers.ofText?_text]

/-! ### Handles -/

/-- Indices that fit are read back. -/
theorem Json.Preserves.index {n : Nat} (fits : n < UInt32.size) :
    index? (h (ofNat n)) = some n := by
  rw [ofNat, keeps.int, ← ofNat, index?_ofNat fits]

/-- Handles of types are read back if their leaf is. -/
theorem TypeId.ofJson?_toJson {id : TypeId} (fits : id.leaf.ReadBy h) :
    TypeId.ofJson? (h id.toJson) = some id := by
  rw [TypeId.toJson, TypeId.ofJson?, keeps.index fits]
  rfl

theorem VariableId.ofJson?_toJson {id : VariableId} (fits : id.leaf.ReadBy h) :
    VariableId.ofJson? (h id.toJson) = some id := by
  rw [VariableId.toJson, VariableId.ofJson?, keeps.index fits]
  rfl

theorem MethodId.ofJson?_toJson {id : MethodId} (fits : id.leaf.ReadBy h) :
    MethodId.ofJson? (h id.toJson) = some id := by
  rw [MethodId.toJson, MethodId.ofJson?, keeps.index fits]
  rfl

/-- A handle that may be missing. -/
theorem Json.Preserves.handle {α : Type} {write : α → Json} {read : Json → Option α}
    {leaf : α → Leaf} (refuses : read Json.null = none)
    (reads : ∀ {a}, (leaf a).ReadBy h → read (h (write a)) = some a) {a : Option α}
    (fit : ∀ l ∈ a.toList.map leaf, l.ReadBy h) : nullable? read (h (ofOption write a)) = some a :=
  keeps.nullable refuses fun _ hb => reads (fit _ (List.mem_map_of_mem (Option.mem_toList.mpr hb)))

/-- So are places for handles of types. -/
theorem TypeId.nullable {id : Option TypeId} (fit : ∀ l ∈ id.toList.map TypeId.leaf, l.ReadBy h) :
    nullable? TypeId.ofJson? (h (ofOption TypeId.toJson id)) = some id :=
  keeps.handle rfl (TypeId.ofJson?_toJson keeps) fit

theorem VariableId.nullable {id : Option VariableId}
    (fit : ∀ l ∈ id.toList.map VariableId.leaf, l.ReadBy h) :
    nullable? VariableId.ofJson? (h (ofOption VariableId.toJson id)) = some id :=
  keeps.handle rfl (VariableId.ofJson?_toJson keeps) fit

theorem MethodId.nullable {id : Option MethodId}
    (fit : ∀ l ∈ id.toList.map MethodId.leaf, l.ReadBy h) :
    nullable? MethodId.ofJson? (h (ofOption MethodId.toJson id)) = some id :=
  keeps.handle rfl (MethodId.ofJson?_toJson keeps) fit

/-! ## Types -/

/-- The kinds of types have different names. -/
theorem TypeKind.ofJson?_toJson (k : TypeKind) : TypeKind.ofJson? (h k.toJson) = some k := by
  rw [TypeKind.toJson, keeps.str]
  cases k <;> rfl

/-- The primitive types have different names. -/
theorem PrimitiveType.ofJson?_toJson (p : PrimitiveType) :
    PrimitiveType.ofJson? (h p.toJson) = some p := by
  rw [PrimitiveType.toJson, keeps.str]
  cases p <;> rfl

/-- A type name is read back with its handle. -/
theorem TypeName.ofJson?_toJson {n : TypeName} (fit : ∀ l ∈ n.leaves, l.ReadBy h) :
    TypeName.ofJson? (h n.toJson) = some n := by
  rw [TypeName.toJson, keeps.obj]
  show (do
    return TypeName.mk (← string? (h (str n.name)))
      (← nullable? TypeId.ofJson? (h (ofOption TypeId.toJson n.binding)))) = some n
  rw [keeps.string, TypeId.nullable keeps fit]
  rfl

/-- A type is read back with fuel for its levels. The induction is on the fuel. -/
theorem TypeRef.read_toJson : ∀ (t : TypeRef) (fuel : Nat), (h t.toJson).depth ≤ fuel →
    (∀ l ∈ t.leaves, l.ReadBy h) → TypeRef.read fuel (h t.toJson) = some t
  | t, 0, deep, _ => absurd deep (Nat.not_le.mpr (depth_pos _))
  | .primitive p, n + 1, _, _ => by
    rw [TypeRef.toJson, keeps.tagged]
    show (PrimitiveType.ofJson? (h p.toJson)).map TypeRef.primitive = _
    rw [PrimitiveType.ofJson?_toJson keeps]
    rfl
  | .declared c, n + 1, _, fit => by
    rw [TypeRef.toJson, keeps.tagged]
    show (TypeName.ofJson? (h c.toJson)).map TypeRef.declared = _
    rw [TypeName.ofJson?_toJson keeps fit]
    rfl
  | .array e, n + 1, deep, fit => by
    have inner := TypeRef.read_toJson e n (Nat.le_of_lt_succ (keeps.depth_tagged deep)) fit
    rw [TypeRef.toJson, keeps.tagged]
    show (TypeRef.read n (h e.toJson)).map TypeRef.array = _
    rw [inner]
    rfl
  | .null, n + 1, _, _ => by
    rw [TypeRef.toJson, keeps.str]
    rfl

/-- Types are read back, arrays of any dimension included. -/
theorem TypeRef.ofJson?_toJson {t : TypeRef} (fit : ∀ l ∈ t.leaves, l.ReadBy h) :
    TypeRef.ofJson? (h t.toJson) = some t := TypeRef.read_toJson keeps t _ (Nat.le_refl _) fit

/-! ## Literals and operators -/

/-- Literals are read back if their leaves are: the kind is a tag. -/
theorem Literal.ofJson?_toJson {v : Literal} (fit : ∀ l ∈ v.leaves, l.ReadBy h) :
    Literal.ofJson? (h v.toJson) = some v := by
  cases v with
  | boolean b =>
    rw [Literal.toJson, keeps.tagged, keeps.bool]
    rfl
  | char c =>
    rw [Literal.toJson, keeps.tagged, ofNat, keeps.int, ← ofNat]
    show (uint16? (ofNat c.toNat)).map Literal.char = _
    rw [uint16?_ofNat]
    rfl
  | null =>
    rw [Literal.toJson, keeps.str]
    rfl
  | int i =>
    rw [Literal.toJson, keeps.tagged, keeps.tagged, keeps.int]
    show (int32? (Json.int i.toInt)).map Literal.int = _
    rw [int32?_int]
    rfl
  | long i =>
    rw [Literal.toJson, keeps.tagged, keeps.tagged, keeps.int]
    show (int64? (Json.int i.toInt)).map Literal.long = _
    rw [int64?_int]
    rfl
  | float x =>
    rw [Literal.toJson, keeps.tagged, keeps.tagged]
    show (float32? (h (float32 x))).map Literal.float = _
    rw [show float32? (h (float32 x)) = some x from fit _ List.mem_cons_self]
    rfl
  | double x =>
    rw [Literal.toJson, keeps.tagged, keeps.tagged]
    show (float64? (h (float64 x))).map Literal.double = _
    rw [show float64? (h (float64 x)) = some x from fit _ List.mem_cons_self]
    rfl
  | string s =>
    rw [Literal.toJson, keeps.tagged, keeps.str]
    rfl

theorem UnaryOp.ofJson?_toJson (op : UnaryOp) : UnaryOp.ofJson? (h op.toJson) = some op := by
  rw [UnaryOp.toJson, tagIn, keeps.str]
  cases op <;> rfl

theorem StepOp.ofJson?_toJson (op : StepOp) : StepOp.ofJson? (h op.toJson) = some op := by
  rw [StepOp.toJson, tagIn, keeps.str]
  cases op <;> rfl

/-- The binary operators have different names. -/
theorem BinaryOp.ofJson?_toJson (op : BinaryOp) : BinaryOp.ofJson? (h op.toJson) = some op := by
  rw [BinaryOp.toJson, tagIn, keeps.str]
  cases op <;> rfl

theorem AssignOp.ofJson?_toJson (op : AssignOp) : AssignOp.ofJson? (h op.toJson) = some op := by
  rw [AssignOp.toJson, tagIn, keeps.str]
  cases op <;> rfl

end

end ClassInit
