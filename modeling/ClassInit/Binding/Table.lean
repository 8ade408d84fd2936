import ClassInit.Binding.Entity
import ClassInit.Binding.NameIndex

/-!
The binding table: types, variables and methods under handles that are their indexes. Entries are
only ever added at the end, so that a handle keeps its meaning. Beside the types the table keeps an
index of their qualified names. Of several types with one name a search finds the last.
-/

set_option autoImplicit false

namespace ClassInit

/-- The entries of types, variables and methods. A handle is the index of an entry. -/
structure BindingTable where
  types : Array TypeDescriptor
  vars : Array VariableBinding
  methods : Array MethodBinding
  /-- The types by qualified name. -/
  byName : NameIndex
  /-- The index is the one that results from entering the types from the first to the last. -/
  indexed : byName = .ofNames (types.toList.map (·.name))

namespace BindingTable

/-- A table without types. -/
def untyped (vars : List VariableBinding) (methods : List MethodBinding) : BindingTable :=
  ⟨#[], vars.toArray, methods.toArray, .empty, rfl⟩

instance : Inhabited BindingTable := ⟨untyped [] []⟩

/-! ## Searching types -/

/-- The greatest index below `bound` of a type that passes a test. -/
def lastBelow (t : BindingTable) (test : TypeDescriptor → Bool) : Nat → Option TypeId
  | 0 => none
  | bound + 1 =>
    match t.types[bound]? with
    | some d => if test d then some ⟨bound⟩ else t.lastBelow test bound
    | none => t.lastBelow test bound

/-- The type with a qualified name, from the index. -/
def lookupType (t : BindingTable) (name : String) : Option TypeId := t.byName.find? name

/-- The last type with a simple name. -/
def lookupSimpleType (t : BindingTable) (simple : String) : Option TypeId :=
  t.lastBelow (·.simpleName == simple) t.types.size

def objectType (t : BindingTable) : Option TypeId := t.lookupType Names.objectType

def stringType (t : BindingTable) : Option TypeId := t.lookupType Names.stringType

/-! ## Adding entries -/

/-- Adds a type and enters its name in the index. -/
def pushType (t : BindingTable) (d : TypeDescriptor) : TypeId × BindingTable :=
  let id : TypeId := ⟨t.types.size⟩
  (id, { t with
    types := t.types.push d
    byName := t.byName.insert d.name id
    indexed := by
      rw [Array.toList_push, List.map_append, List.map_singleton, NameIndex.ofNames_concat,
        ← t.indexed, List.length_map, Array.length_toList] })

/-- Adds a class; without a superclass of its own it extends the root class, except the root class
itself. -/
def addClass (t : BindingTable) (d : TypeDescriptor) : TypeId × BindingTable :=
  if d.superclass.isNone ∧ d.name ≠ Names.objectType then
    t.pushType { d with superclass := t.objectType }
  else t.pushType d

/-- A public class that is only known by name. -/
def external (name : String) : TypeDescriptor := ⟨name, .classType, .of .pub, none, none⟩

/-- The type with a qualified name, added as an external class if there is none. -/
def internClass (t : BindingTable) (name : String) : TypeId × BindingTable :=
  match t.lookupType name with
  | some id => (id, t)
  | none => t.addClass (external name)

/-- Adds a type. Without a superclass of its own a class extends the root class and an enum the enum
class. -/
def addType (t : BindingTable) (d : TypeDescriptor) : TypeId × BindingTable :=
  if d.superclass.isNone ∧ d.name ≠ Names.objectType then
    match d.kind with
    | .classType => t.addClass d
    | .enumType =>
      let (enum, t) := t.internClass Names.enumType
      t.pushType { d with superclass := some enum }
    | .interfaceType | .annotationType => t.pushType d
  else t.pushType d

def addVariable (t : BindingTable) (v : VariableBinding) : VariableId × BindingTable :=
  (⟨t.vars.size⟩, { t with vars := t.vars.push v })

def addMethod (t : BindingTable) (m : MethodBinding) : MethodId × BindingTable :=
  (⟨t.methods.size⟩, { t with methods := t.methods.push m })

/-- Adds the root class and the string class where they are missing. -/
def ensureWellKnown (t : BindingTable) : BindingTable :=
  let t := if t.objectType.isSome then t else (t.pushType (external Names.objectType)).2
  if t.stringType.isSome then t
  else
    (t.pushType ⟨Names.stringType, .classType, .ofList [.pub, .final], t.objectType, none⟩).2

/-- Adds types from the first to the last. -/
def pushTypes (t : BindingTable) (types : List TypeDescriptor) : BindingTable :=
  types.foldl (fun t d => (t.pushType d).2) t

/-- The table with the given entries and the well-known types; its index is built anew. -/
def load (types : List TypeDescriptor) (vars : List VariableBinding)
    (methods : List MethodBinding) : BindingTable :=
  ((untyped vars methods).pushTypes types).ensureWellKnown

/-- The table that knows the well-known types only. -/
def new : BindingTable := load [] [] []

/-! ## Entries by handle -/

def typeAt (t : BindingTable) (id : TypeId) : Except ResolveError TypeDescriptor :=
  match t.types[id.index]? with
  | some d => .ok d
  | none => .error (.unknownType id)

def variableAt (t : BindingTable) (id : VariableId) : Except ResolveError VariableBinding :=
  match t.vars[id.index]? with
  | some v => .ok v
  | none => .error (.unknownVariable id)

def methodAt (t : BindingTable) (id : MethodId) : Except ResolveError MethodBinding :=
  match t.methods[id.index]? with
  | some m => .ok m
  | none => .error (.unknownMethod id)

/-- The superclass recorded for a type. -/
def superclass (t : BindingTable) (id : TypeId) : Except ResolveError TypeId := do
  let d ← t.typeAt id
  match d.superclass with
  | some s => .ok s
  | none => .error (.noSuperclass d.name)

def isInterface (t : BindingTable) (id : TypeId) : Except ResolveError Bool := do
  return (← t.typeAt id).isInterface

def isPrimitiveConstant (t : BindingTable) (id : VariableId) : Except ResolveError Bool := do
  return (← t.variableAt id).isPrimitiveConstant

/-- The constant value of a variable, if the table has one. -/
def variableConstant (t : BindingTable) (id : VariableId) : Option Constant :=
  t.vars[id.index]?.bind (·.constantValue)

/-- The methods that a type declares, in the order in which they were added. -/
def methodsOf (t : BindingTable) (id : TypeId) : List (MethodId × MethodBinding) :=
  (t.methods.toList.zipIdx.map fun (m, i) => (⟨i⟩, m)).filter fun m => m.2.declaringType = id

/-! ## Changing entries -/

/-- Another superclass for a type changes no name. -/
theorem names_modify (types : Array TypeDescriptor) (i : Nat) (superclass : Option TypeId) :
    (types.modify i fun d => { d with superclass }).toList.map (·.name) =
      types.toList.map (·.name) := by
  refine List.ext_getElem? fun j => ?_
  rw [List.getElem?_map, List.getElem?_map, Array.getElem?_toList, Array.getElem?_toList,
    Array.getElem?_modify]
  split
  · rw [Option.map_map]
    rfl
  · rfl

/-- The table with another superclass for a type. -/
def withSuperclass (t : BindingTable) (id superclass : TypeId) : BindingTable :=
  { t with
    types := t.types.modify id.index fun d => { d with superclass := some superclass }
    indexed := by rw [names_modify, t.indexed] }

section

variable (t : BindingTable) (id superclass : TypeId)

@[simp] theorem withSuperclass_types : (t.withSuperclass id superclass).types =
    t.types.modify id.index fun d => { d with superclass := some superclass } := rfl

@[simp] theorem withSuperclass_variables :
    (t.withSuperclass id superclass).vars = t.vars := rfl

@[simp] theorem withSuperclass_methods : (t.withSuperclass id superclass).methods = t.methods := rfl

end

def setSuperclass (t : BindingTable) (id superclass : TypeId) :
    Except ResolveError BindingTable :=
  if id.index < t.types.size then .ok (t.withSuperclass id superclass)
  else .error (.unknownType id)

def setConstant (t : BindingTable) (id : VariableId) (value : Constant) :
    Except ResolveError BindingTable :=
  if id.index < t.vars.size then
    .ok { t with
      vars := t.vars.modify id.index fun v => { v with constantValue := some value } }
  else .error (.unknownVariable id)

/-! ## Fields -/

/-- The first field with a name that a type itself declares. -/
def declaredField (t : BindingTable) (owner : TypeId) (name : String) : Option VariableId :=
  (t.vars.findIdx? fun v =>
    v.isField && v.declaringType == some owner && v.name == name).map VariableId.mk

/-- A field with a name on the walk along the superclasses, with at most `steps` steps. -/
def fieldWithin (t : BindingTable) (name : String) : Nat → TypeId → Option VariableId
  | steps, owner =>
    match t.declaredField owner name with
    | some v => some v
    | none =>
      match steps with
      | 0 => none
      | steps + 1 =>
        match t.types[owner.index]?.bind (·.superclass) with
        | none => none
        | some s => t.fieldWithin name steps s

/-- The field with a name that a type declares or inherits. A walk that is longer than the table has
types runs in a cycle. -/
def findField (t : BindingTable) (owner : TypeId) (name : String) : Option VariableId :=
  t.fieldWithin name t.types.size owner

/-! ## Unique names -/

/-- The `n`-th name that is tried for a type. -/
def candidateName (base : String) (n : Nat) : String :=
  if n = 0 then base else base ++ "$" ++ toString n

/-- The first candidate from the `n`-th on that no type has, if it is among the next `tries`. -/
def freeName (t : BindingTable) (base : String) : Nat → Nat → String
  | 0, n => candidateName base n
  | tries + 1, n =>
    if (t.lookupType (candidateName base n)).isNone then candidateName base n
    else t.freeName base tries (n + 1)

/-- A name inside a package or type. -/
def qualify (qualifier : Option String) (name : String) : String :=
  match qualifier with
  | some q => if q.isEmpty then name else q ++ "." ++ name
  | none => name

/-- The qualified name for a new type: with a number after it if the plain name is taken. One try
more than there are types is enough. -/
def uniqueTypeName (t : BindingTable) (qualifier : Option String) (name : String) : String :=
  t.freeName (qualify qualifier name) t.types.size 0

end BindingTable

end ClassInit
