import ClassInit.Document.Table
import ClassInit.Proofs.Binding.NamedTypes
import ClassInit.Proofs.Document.Reloading

/-!
# Documents of binding tables

Reading the document of a table loads the entries of the table (`BindingTable.ofJson?_toJson`). If
the table knows the well-known types, this is the table itself (`BindingTable.load_entries`), in
whatever layout the document is written, unless some type is so deep that the document is refused
(`BindingTable.document?_text`).
-/

set_option autoImplicit false

namespace ClassInit

open Json

/-! ## The leaves of a table -/

def Constant.leaves : Constant → List Leaf
  | .float x => [.single x]
  | .double x => [.double x]
  | .boolean _ | .char _ | .byte _ | .short _ | .int _ | .long _ | .string _ => []

def TypeDescriptor.leaves (d : TypeDescriptor) : List Leaf :=
  d.superclass.toList.map TypeId.leaf ++ d.declaringType.toList.map TypeId.leaf

def VariableBinding.leaves (v : VariableBinding) : List Leaf :=
  v.type.leaves ++ v.declaringType.toList.map TypeId.leaf ++ v.constantValue.toList.flatMap
    Constant.leaves

def MethodBinding.leaves (m : MethodBinding) : List Leaf :=
  m.declaringType.leaf :: (m.returnType.leaves ++ m.parameterTypes.flatMap TypeRef.leaves)

def BindingTable.leaves (t : BindingTable) : List Leaf :=
  t.types.toList.flatMap TypeDescriptor.leaves ++ t.vars.toList.flatMap VariableBinding.leaves ++
    t.methods.toList.flatMap MethodBinding.leaves

/-- Whether a constant is a floating-point number. -/
def Constant.isFloating : Constant → Bool
  | .float _ | .double _ => true
  | .boolean _ | .char _ | .byte _ | .short _ | .int _ | .long _ | .string _ => false

theorem TypeId.isFinite_of_mem {o : Option TypeId} {l : Leaf} (hl : l ∈ o.toList.map TypeId.leaf) :
    l.IsFinite := by
  obtain ⟨id, -, rfl⟩ := List.mem_map.mp hl
  trivial

theorem TypeRef.isFinite_of_mem {ty : TypeRef} {l : Leaf} (hl : l ∈ ty.leaves) : l.IsFinite := by
  induction ty with
  | primitive | null => cases hl
  | declared n => exact TypeId.isFinite_of_mem hl
  | array e ih => exact ih hl

/-- Only floating-point constants have leaves that reading may not give back. -/
theorem Constant.leaves_eq_nil {c : Constant} (exact : c.isFloating = false) : c.leaves = [] := by
  cases c with
  | float | double => cases exact
  | boolean | char | byte | short | int | long | string => rfl

/-- Only the constants of a table can be floating-point numbers. -/
theorem BindingTable.isFinite_of_mem {t : BindingTable}
    (exact : ∀ v ∈ t.vars, ∀ c ∈ v.constantValue, c.isFloating = false) :
    ∀ l ∈ t.leaves, l.IsFinite := by
  intro l hl
  simp only [leaves, TypeDescriptor.leaves, VariableBinding.leaves, MethodBinding.leaves,
    List.mem_append, List.mem_flatMap, List.mem_cons] at hl
  obtain (⟨d, -, hl | hl⟩ | ⟨v, hv, (hl | hl) | ⟨c, hc, hl⟩⟩) | ⟨m, -, rfl | hl | ⟨p, -, hl⟩⟩ := hl
  · exact TypeId.isFinite_of_mem hl
  · exact TypeId.isFinite_of_mem hl
  · exact TypeRef.isFinite_of_mem hl
  · exact TypeId.isFinite_of_mem hl
  · rw [Constant.leaves_eq_nil
      (exact v (Array.mem_toList_iff.mp hv) c (Option.mem_toList.mp hc))] at hl
    cases hl
  · trivial
  · exact TypeRef.isFinite_of_mem hl
  · exact TypeRef.isFinite_of_mem hl

/-! ## Reading entries -/

namespace Json

/-- An 8-bit integer is read back with its sign. -/
theorem int8?_int (b : Int8) : int8? (int b.toInt) = some b := by
  rw [int8?, integer?_of_le b.minValue_le_toInt b.toInt_le]
  exact congrArg some b.ofInt_toInt

theorem int16?_int (s : Int16) : int16? (int s.toInt) = some s := by
  rw [int16?, integer?_of_le s.minValue_le_toInt s.toInt_le]
  exact congrArg some s.ofInt_toInt

end Json

section

variable {h : Json → Json} (keeps : Preserves h)

include keeps

/-- Constants are read back with their kind. -/
theorem Constant.ofJson?_toJson {c : Constant} (fit : ∀ l ∈ c.leaves, l.ReadBy h) :
    Constant.ofJson? (h c.toJson) = some c := by
  -- The kind is read first and says how to read the value.
  have pair : ∀ (kind : String) (value : Json),
      Constant.ofJson? (h (obj [("kind", str kind), ("value", value)])) =
        Constant.ofJson? (obj [("kind", str kind), ("value", h value)]) := by
    intro kind value
    rw [keeps.obj, List.map_cons, List.map_cons, List.map_nil, keeps.str]
  cases c with
  | boolean b =>
    refine (pair _ _).trans ?_
    rw [keeps.bool]
    rfl
  | char c =>
    refine (pair _ _).trans ?_
    rw [ofNat, keeps.int, ← ofNat]
    show (uint16? (ofNat c.toNat)).map Constant.char = _
    rw [uint16?_ofNat]
    rfl
  | byte b =>
    refine (pair _ _).trans ?_
    rw [keeps.int]
    show (int8? (Json.int b.toInt)).map Constant.byte = _
    rw [int8?_int]
    rfl
  | short s =>
    refine (pair _ _).trans ?_
    rw [keeps.int]
    show (int16? (Json.int s.toInt)).map Constant.short = _
    rw [int16?_int]
    rfl
  | int i =>
    refine (pair _ _).trans ?_
    rw [keeps.int]
    show (int32? (Json.int i.toInt)).map Constant.int = _
    rw [int32?_int]
    rfl
  | long l =>
    refine (pair _ _).trans ?_
    rw [keeps.int]
    show (int64? (Json.int l.toInt)).map Constant.long = _
    rw [int64?_int]
    rfl
  | float x =>
    refine (pair _ _).trans ?_
    show (float32? (h (float32 x))).map Constant.float = _
    rw [show float32? (h (float32 x)) = some x from fit _ List.mem_cons_self]
    rfl
  | double x =>
    refine (pair _ _).trans ?_
    show (float64? (h (float64 x))).map Constant.double = _
    rw [show float64? (h (float64 x)) = some x from fit _ List.mem_cons_self]
    rfl
  | string s =>
    refine (pair _ _).trans ?_
    rw [keeps.str]
    rfl

/-- The entries of types are read back. -/
theorem TypeDescriptor.ofJson?_toJson {d : TypeDescriptor} (fit : ∀ l ∈ d.leaves, l.ReadBy h) :
    TypeDescriptor.ofJson? (h d.toJson) = some d := by
  obtain ⟨superclass, outer⟩ := List.forall_mem_append.mp fit
  rw [TypeDescriptor.toJson, keeps.obj]
  show (do
    return TypeDescriptor.mk (← string? (h (str d.name))) (← TypeKind.ofJson? (h d.kind.toJson))
      (← Modifiers.ofJson? (h d.modifiers.toJson))
      (← nullable? TypeId.ofJson? (h (ofOption TypeId.toJson d.superclass)))
      (← nullable? TypeId.ofJson? (h (ofOption TypeId.toJson d.declaringType)))) = some d
  rw [keeps.string, TypeKind.ofJson?_toJson keeps, Modifiers.ofJson?_toJson keeps,
    TypeId.nullable keeps superclass, TypeId.nullable keeps outer]
  rfl

/-- The entries of variables are read back. -/
theorem VariableBinding.ofJson?_toJson {v : VariableBinding} (fit : ∀ l ∈ v.leaves, l.ReadBy h) :
    VariableBinding.ofJson? (h v.toJson) = some v := by
  obtain ⟨front, value⟩ := List.forall_mem_append.mp fit
  obtain ⟨type, owner⟩ := List.forall_mem_append.mp front
  have constant : nullable? Constant.ofJson? (h (ofOption Constant.toJson v.constantValue)) =
      some v.constantValue :=
    keeps.nullable rfl fun c hc => Constant.ofJson?_toJson keeps fun l hl =>
      value l (List.mem_flatMap.mpr ⟨c, Option.mem_toList.mpr hc, hl⟩)
  rw [VariableBinding.toJson, keeps.obj]
  show (do
    return VariableBinding.mk (← string? (h (str v.name))) (← TypeRef.ofJson? (h v.type.toJson))
      (← Modifiers.ofJson? (h v.modifiers.toJson))
      (← nullable? TypeId.ofJson? (h (ofOption TypeId.toJson v.declaringType)))
      (← bool? (h (Json.bool v.isField)))
      (← nullable? Constant.ofJson? (h (ofOption Constant.toJson v.constantValue)))) = some v
  rw [keeps.string, TypeRef.ofJson?_toJson keeps type, Modifiers.ofJson?_toJson keeps,
    TypeId.nullable keeps owner, keeps.boolean, constant]
  rfl

/-- The entries of methods are read back. -/
theorem MethodBinding.ofJson?_toJson {m : MethodBinding} (fit : ∀ l ∈ m.leaves, l.ReadBy h) :
    MethodBinding.ofJson? (h m.toJson) = some m := by
  obtain ⟨owner, types⟩ := List.forall_mem_cons.mp fit
  obtain ⟨result, parameters⟩ := List.forall_mem_append.mp types
  have listed : list? TypeRef.ofJson? (h (arr (m.parameterTypes.map TypeRef.toJson))) =
      some m.parameterTypes :=
    keeps.list fun p hp => TypeRef.ofJson?_toJson keeps fun l hl =>
      parameters l (List.mem_flatMap.mpr ⟨p, hp, hl⟩)
  rw [MethodBinding.toJson, keeps.obj]
  show (do
    return MethodBinding.mk (← string? (h (str m.name)))
      (← TypeId.ofJson? (h m.declaringType.toJson))
      (← Modifiers.ofJson? (h m.modifiers.toJson)) (← TypeRef.ofJson? (h m.returnType.toJson))
      (← list? TypeRef.ofJson? (h (arr (m.parameterTypes.map TypeRef.toJson))))
      (← bool? (h (Json.bool m.isConstructor))) (← bool? (h (Json.bool m.isSynthetic)))) = some m
  rw [keeps.string, TypeId.ofJson?_toJson keeps owner, Modifiers.ofJson?_toJson keeps,
    TypeRef.ofJson?_toJson keeps result, listed, keeps.boolean, keeps.boolean]
  rfl

namespace BindingTable

/-- Reading a table loads its entries. -/
theorem ofJson?_toJson {t : BindingTable} (fit : ∀ l ∈ t.leaves, l.ReadBy h) :
    ofJson? (h t.toJson) = some (load t.types.toList t.vars.toList t.methods.toList) := by
  obtain ⟨front, inMethods⟩ := List.forall_mem_append.mp fit
  obtain ⟨inTypes, inVariables⟩ := List.forall_mem_append.mp front
  have types : list? TypeDescriptor.ofJson? (h (arr (t.types.toList.map TypeDescriptor.toJson))) =
      some t.types.toList :=
    keeps.list fun d hd => TypeDescriptor.ofJson?_toJson keeps fun l hl =>
      inTypes l (List.mem_flatMap.mpr ⟨d, hd, hl⟩)
  have vars : list? VariableBinding.ofJson? (h (arr (t.vars.toList.map VariableBinding.toJson))) =
      some t.vars.toList :=
    keeps.list fun v hv => VariableBinding.ofJson?_toJson keeps fun l hl =>
      inVariables l (List.mem_flatMap.mpr ⟨v, hv, hl⟩)
  have methods : list? MethodBinding.ofJson? (h (arr (t.methods.toList.map MethodBinding.toJson))) =
      some t.methods.toList :=
    keeps.list fun m hm => MethodBinding.ofJson?_toJson keeps fun l hl =>
      inMethods l (List.mem_flatMap.mpr ⟨m, hm, hl⟩)
  rw [BindingTable.toJson, keeps.obj]
  show (do
    return load
      (← list? TypeDescriptor.ofJson? (h (arr (t.types.toList.map TypeDescriptor.toJson))))
      (← list? VariableBinding.ofJson? (h (arr (t.vars.toList.map VariableBinding.toJson))))
      (← list? MethodBinding.ofJson? (h (arr (t.methods.toList.map MethodBinding.toJson))))) = _
  rw [types, vars, methods]
  rfl

end BindingTable

end

/-! ## Loading entries -/

namespace BindingTable

/-- The entries of types are loaded in order. -/
theorem pushTypes_types (t : BindingTable) (ds : List TypeDescriptor) :
    (t.pushTypes ds).types.toList = t.types.toList ++ ds ∧ (t.pushTypes ds).vars = t.vars ∧
      (t.pushTypes ds).methods = t.methods := by
  induction ds generalizing t with
  | nil => exact ⟨(List.append_nil _).symm, rfl, rfl⟩
  | cons d ds ih =>
    obtain ⟨types, vars, methods⟩ := ih (t.pushType d).2
    refine ⟨types.trans ?_, vars, methods⟩
    show (t.types.push d).toList ++ ds = _
    rw [Array.toList_push, List.append_assoc, List.singleton_append]

/-- Loading the entries of a table with the well-known types yields the table. -/
theorem load_entries {t : BindingTable} (root : t.objectType.isSome)
    (string : t.stringType.isSome) :
    load t.types.toList t.vars.toList t.methods.toList = t := by
  have pushed : (untyped t.vars.toList t.methods.toList).pushTypes t.types.toList = t := by
    obtain ⟨types, vars, methods⟩ :=
      (untyped t.vars.toList t.methods.toList).pushTypes_types t.types.toList
    exact ext_of_entries (Array.toList_inj.mp types) (vars.trans (Array.toArray_toList ..))
      (methods.trans (Array.toArray_toList ..))
  rw [load, pushed, ensureWellKnown, if_pos root]
  exact if_pos string

end BindingTable

/-! ## Nesting -/

/-- A part that may be missing is no deeper than it is where it is there. -/
theorem nesting_ofOption {α : Type} {write : α → Json} {o : Option α} {room : Nat}
    (parts : ∀ a ∈ o, (write a).nesting ≤ room) : (ofOption write o).nesting ≤ room := by
  cases o with
  | none => exact Nat.zero_le _
  | some a => exact parts a rfl

theorem TypeName.nesting_toJson (n : TypeName) : n.toJson.nesting = 1 := by
  obtain ⟨name, binding⟩ := n
  cases binding <;> rfl

/-- A type that is read stands nowhere too deep. -/
theorem TypeRef.nesting_le_of_read {ty : TypeRef} : ∀ {fuel room : Nat} {read : TypeRef},
    TypeRef.read fuel (ty.toJson.reread.limited room) = some read → ty.toJson.nesting ≤ room := by
  induction ty with
  | primitive p =>
    intro fuel room read reads
    match fuel, room with
    | 0, _ | _ + 1, 0 => cases reads
    | _ + 1, room + 1 => exact Nat.succ_le_succ (Nat.zero_le room)
  | declared n =>
    intro fuel room read reads
    have nests : (TypeRef.declared n).toJson.nesting = 2 := congrArg (max · 0 + 1) n.nesting_toJson
    match fuel, room with
    | 0, _ | _ + 1, 0 | _ + 1, 1 => cases reads
    | _ + 1, room + 2 =>
      rw [nests]
      exact Nat.le_add_left 2 room
  | array e ih =>
    intro fuel room read reads
    match fuel, room with
    | 0, _ | _ + 1, 0 => cases reads
    | fuel + 1, room + 1 =>
      have reads : (TypeRef.read fuel (e.toJson.reread.limited room)).map TypeRef.array =
        some read := reads
      obtain ⟨inner, reads, -⟩ := Option.map_eq_some_iff.mp reads
      show max e.toJson.nesting 0 + 1 ≤ room + 1
      exact Nat.succ_le_succ (Nat.max_le.mpr ⟨ih reads, Nat.zero_le room⟩)
  | null => exact fun _ => Nat.zero_le _

/-- If a written list is read, then each of its items is read. -/
theorem exists_of_list? {α β : Type} {read : Json → Option α} {write : β → Json} {bs : List β}
    {room : Nat} {as : List α}
    (reads : list? read ((arr (bs.map write)).reread.limited (room + 1)) = some as) :
    ∀ b ∈ bs, ∃ a, read ((write b).reread.limited room) = some a := by
  rw [preserves_reread.arr, List.map_map] at reads
  exact fun b hb => exists_of_list?_limited reads _ (List.mem_map_of_mem hb)

/-- The entry of a type is an object without deeper parts. -/
theorem TypeDescriptor.nesting_le {d : TypeDescriptor} {room : Nat} :
    d.toJson.nesting ≤ room + 1 := by
  have owner (o : Option TypeId) : (ofOption TypeId.toJson o).nesting ≤ room :=
    nesting_ofOption fun _ _ => Nat.zero_le _
  rw [toJson, nesting_obj_le_iff]
  simp only [List.forall_mem_cons]
  exact ⟨Nat.zero_le _, Nat.zero_le _, Nat.zero_le _, owner _, owner _, nofun⟩

namespace VariableBinding

/-- The entry of a variable is as deep as its type. -/
theorem nesting_le {v : VariableBinding} {room : Nat} (type : v.type.toJson.nesting ≤ room + 1) :
    v.toJson.nesting ≤ room + 2 := by
  have constant : (ofOption Constant.toJson v.constantValue).nesting ≤ room + 1 :=
    nesting_ofOption fun c _ => by cases c <;> exact Nat.succ_le_succ (Nat.zero_le room)
  have owner : (ofOption TypeId.toJson v.declaringType).nesting ≤ room + 1 :=
    nesting_ofOption fun _ _ => Nat.zero_le _
  rw [toJson, nesting_obj_le_iff]
  simp only [List.forall_mem_cons]
  exact ⟨Nat.zero_le _, type, Nat.zero_le _, owner, Nat.zero_le _, constant, nofun⟩

/-- If the entry of a variable is read within the limit, so is its type. -/
theorem exists_type_of_ofJson? {v read : VariableBinding} {room : Nat}
    (reads : ofJson? (v.toJson.reread.limited (room + 1)) = some read) :
    ∃ ty, TypeRef.ofJson? (v.type.toJson.reread.limited room) = some ty := by
  simp only [ofJson?, Option.bind_eq_bind, Option.bind_eq_some_iff] at reads
  obtain ⟨_, fields, _, -, ty, reads, -⟩ := reads
  cases fields
  exact ⟨ty, reads⟩

end VariableBinding

namespace MethodBinding

theorem nesting_le {m : MethodBinding} {room : Nat}
    (result : m.returnType.toJson.nesting ≤ room + 1)
    (parameters : ∀ p ∈ m.parameterTypes, p.toJson.nesting ≤ room) :
    m.toJson.nesting ≤ room + 2 := by
  have listed : (arr (m.parameterTypes.map TypeRef.toJson)).nesting ≤ room + 1 :=
    nesting_arr_le_iff.mpr (List.forall_mem_map.mpr parameters)
  rw [toJson, nesting_obj_le_iff]
  simp only [List.forall_mem_cons]
  exact ⟨Nat.zero_le _, Nat.zero_le _, Nat.zero_le _, result, listed, Nat.zero_le _,
    Nat.zero_le _, nofun⟩

/-- If the entry of a method is read within the limit, so are the types in it. -/
theorem exists_types_of_ofJson? {m read : MethodBinding} {room : Nat}
    (reads : ofJson? (m.toJson.reread.limited (room + 2)) = some read) :
    (∃ ty, TypeRef.ofJson? (m.returnType.toJson.reread.limited (room + 1)) = some ty) ∧
      ∀ p ∈ m.parameterTypes, ∃ ty, TypeRef.ofJson? (p.toJson.reread.limited room) = some ty := by
  simp only [ofJson?, Option.bind_eq_bind, Option.bind_eq_some_iff] at reads
  obtain ⟨_, fields, _, -, _, -, _, -, ty, result, _, parameters, -⟩ := reads
  cases fields
  exact ⟨⟨ty, result⟩, exists_of_list? parameters⟩

end MethodBinding

namespace BindingTable

/-- The types of variables and methods, which are all that can make the document of a table deep,
leave the rest of the document enough room. -/
structure IsShallow (t : BindingTable) (room : Nat) : Prop where
  vars : ∀ v ∈ t.vars.toList, v.type.toJson.nesting ≤ room + 1
  results : ∀ m ∈ t.methods.toList, m.returnType.toJson.nesting ≤ room + 1
  parameters : ∀ m ∈ t.methods.toList, ∀ p ∈ m.parameterTypes, p.toJson.nesting ≤ room

/-- A table is four levels deeper than the types in it may be. -/
theorem IsShallow.nesting_le {t : BindingTable} {room : Nat} (shallow : t.IsShallow room) :
    t.toJson.nesting ≤ room + 4 := by
  rw [toJson, nesting_obj_le_iff]
  simp only [List.forall_mem_cons, nesting_arr_le_iff, List.forall_mem_map]
  exact ⟨fun _ _ => TypeDescriptor.nesting_le, fun v hv =>
    VariableBinding.nesting_le (shallow.vars v hv),
    fun m hm => MethodBinding.nesting_le (shallow.results m hm) (shallow.parameters m hm), nofun⟩

/-- A table whose document is read, as whatever table, leaves enough room. -/
theorem isShallow_of_ofJson? {t read : BindingTable} {room : Nat}
    (reads : ofJson? (t.toJson.reread.limited (room + 4)) = some read) : t.IsShallow room := by
  simp only [ofJson?, Option.bind_eq_bind, Option.bind_eq_some_iff] at reads
  obtain ⟨_, fields, _, -, _, vars, _, methods, -⟩ := reads
  cases fields
  have methods := fun m hm =>
    (exists_of_list? methods m hm).elim fun _ reads => MethodBinding.exists_types_of_ofJson? reads
  refine ⟨fun v hv => ?_, fun m hm => ?_, fun m hm p hp => ?_⟩
  · obtain ⟨_, reads⟩ := exists_of_list? vars v hv
    obtain ⟨_, reads⟩ := VariableBinding.exists_type_of_ofJson? reads
    exact TypeRef.nesting_le_of_read reads
  · obtain ⟨_, reads⟩ := (methods m hm).1
    exact TypeRef.nesting_le_of_read reads
  · obtain ⟨_, reads⟩ := (methods m hm).2 p hp
    exact TypeRef.nesting_le_of_read reads

/-- The documents of a table, compact and indented, are read as the table if they do not nest too
deep, and are refused otherwise. -/
theorem document?_text {t : BindingTable} (root : t.objectType.isSome)
    (string : t.stringType.isSome) (fits : ∀ l ∈ t.leaves, l.IsFinite ∧ l.IsWord) :
    ∀ text ∈ [t.toJson.text, t.toJson.prettyText], CommandLine.document? ofJson? text =
      if t.toJson.nesting ≤ Limits.documentNesting then some t else none := by
  have whole : ofJson? t.toJson.reread = some t := by
    rw [ofJson?_toJson preserves_reread fun l hl => Leaf.readBy_reread (fits l hl).1 (fits l hl).2,
      load_entries root string]
  have reads : ofJson? (t.toJson.reread.limited Limits.documentNesting) =
      if t.toJson.nesting ≤ Limits.documentNesting then some t else none := by
    split
    next shallow => rw [limited_of_nesting_le (by rwa [nesting_reread]), whole]
    next deep =>
      refine Option.eq_none_iff_forall_ne_some.mpr fun read reads => deep ?_
      have shallow : t.IsShallow 123 := isShallow_of_ofJson? reads
      exact shallow.nesting_le
  intro text ht
  obtain rfl | rfl : text = t.toJson.text ∨ text = t.toJson.prettyText := by simpa using ht
  · rw [CommandLine.document?, ofDocument?_text, Option.bind_some, reads]
  · rw [document?_prettyText, reads]

end BindingTable

end ClassInit
