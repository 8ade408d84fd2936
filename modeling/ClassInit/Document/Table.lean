import ClassInit.Binding.Table
import ClassInit.Document.Leaf

/-!
Binding tables as JSON values. A table is written as its three lists of entries; reading one adds
the well-known types where they are missing.
-/

set_option autoImplicit false

namespace ClassInit

open Json

/-- The entry of a type. The superclass and the type around it are written as indices, or as
null. -/
def TypeDescriptor.toJson (d : TypeDescriptor) : Json :=
  obj [("name", str d.name), ("kind", d.kind.toJson), ("modifiers", d.modifiers.toJson),
    ("superclass", ofOption TypeId.toJson d.superclass),
    ("declaring_type", ofOption TypeId.toJson d.declaringType)]

/-- An entry needs a name and a kind; what else is missing has its default. -/
def TypeDescriptor.ofJson? (j : Json) : Option TypeDescriptor := do
  let fs ← j.fields?
  return ⟨← required fs "name" string?, ← required fs "kind" TypeKind.ofJson?,
    ← withDefault fs "modifiers" Modifiers.empty Modifiers.ofJson?,
    ← nullableField fs "superclass" TypeId.ofJson?,
    ← nullableField fs "declaring_type" TypeId.ofJson?⟩

/-- The entry of a field or a local, with its constant value where it has one. -/
def VariableBinding.toJson (v : VariableBinding) : Json :=
  obj [("name", str v.name), ("ty", v.type.toJson), ("modifiers", v.modifiers.toJson),
    ("declaring_type", ofOption TypeId.toJson v.declaringType), ("is_field", bool v.isField),
    ("constant_value", ofOption Constant.toJson v.constantValue)]

/-- An entry needs a name and a type. Without a word about it the variable is a local. -/
def VariableBinding.ofJson? (j : Json) : Option VariableBinding := do
  let fs ← j.fields?
  return ⟨← required fs "name" string?, ← required fs "ty" TypeRef.ofJson?,
    ← withDefault fs "modifiers" Modifiers.empty Modifiers.ofJson?,
    ← nullableField fs "declaring_type" TypeId.ofJson?,
    ← withDefault fs "is_field" false bool?,
    ← nullableField fs "constant_value" Constant.ofJson?⟩

/-- The entry of a method or a constructor. -/
def MethodBinding.toJson (m : MethodBinding) : Json :=
  obj [("name", str m.name), ("declaring_type", m.declaringType.toJson),
    ("modifiers", m.modifiers.toJson), ("return_type", m.returnType.toJson),
    ("parameter_types", arr (m.parameterTypes.map TypeRef.toJson)),
    ("is_constructor", bool m.isConstructor), ("is_synthetic", bool m.isSynthetic)]

/-- An entry needs a name, the type that declares the method and a return type. -/
def MethodBinding.ofJson? (j : Json) : Option MethodBinding := do
  let fs ← j.fields?
  return ⟨← required fs "name" string?, ← required fs "declaring_type" TypeId.ofJson?,
    ← withDefault fs "modifiers" Modifiers.empty Modifiers.ofJson?,
    ← required fs "return_type" TypeRef.ofJson?,
    ← withDefault fs "parameter_types" [] (list? TypeRef.ofJson?),
    ← withDefault fs "is_constructor" false bool?, ← withDefault fs "is_synthetic" false bool?⟩

/-- A table is written as its entries. What is looked up by name is not written, since it follows
from them. -/
def BindingTable.toJson (t : BindingTable) : Json :=
  obj [("types", arr (t.types.toList.map TypeDescriptor.toJson)),
    ("variables", arr (t.vars.toList.map VariableBinding.toJson)),
    ("methods", arr (t.methods.toList.map MethodBinding.toJson))]

/-- Each list of entries may be missing. What is looked up by name is built again from the types
(`BindingTable.load`), and the well-known types are added. -/
def BindingTable.ofJson? (j : Json) : Option BindingTable := do
  let fs ← j.fields?
  return .load (← withDefault fs "types" [] (list? TypeDescriptor.ofJson?))
    (← withDefault fs "variables" [] (list? VariableBinding.ofJson?))
    (← withDefault fs "methods" [] (list? MethodBinding.ofJson?))

end ClassInit
