import ClassInit.Tree.Decl

/-!
The entries of a binding table: types, variables and methods as the trees refer to them by handle,
and the ways in which a question about them can fail.
-/

set_option autoImplicit false

namespace ClassInit

/-- A type, declared in a unit or known from elsewhere. -/
structure TypeDescriptor where
  /-- The qualified name: package, enclosing types and own name, joined by dots. -/
  name : String
  kind : TypeKind
  modifiers : Modifiers
  superclass : Option TypeId
  declaringType : Option TypeId
deriving DecidableEq, Inhabited

namespace TypeDescriptor

def isInterface (d : TypeDescriptor) : Bool := d.kind.isInterfaceLike

def simpleName (d : TypeDescriptor) : String := Names.simple d.name

end TypeDescriptor

/-- A field, a parameter or a local variable. Only fields have a declaring type. -/
structure VariableBinding where
  name : String
  type : TypeRef
  modifiers : Modifiers
  declaringType : Option TypeId
  isField : Bool
  constantValue : Option Constant
deriving Inhabited

namespace VariableBinding

/-- A `static final` field of primitive type whose constant value is known. -/
def isPrimitiveConstant (v : VariableBinding) : Bool :=
  v.isField && v.modifiers.isStatic && v.modifiers.isFinal && v.type.isPrimitive &&
    v.constantValue.isSome

/-- A parameter or local variable. -/
def ofLocal (name : String) (type : TypeRef) (modifiers : Modifiers) : VariableBinding :=
  ⟨name, type, modifiers, none, false, none⟩

end VariableBinding

/-- A method or constructor, declared or synthesized. -/
structure MethodBinding where
  name : String
  declaringType : TypeId
  modifiers : Modifiers
  returnType : TypeRef
  parameterTypes : List TypeRef
  isConstructor : Bool
  isSynthetic : Bool
deriving DecidableEq, Inhabited

/-- Why a question about the table has no answer. -/
inductive ResolveError where
  | unknownType (id : TypeId)
  | unknownVariable (id : VariableId)
  | unknownMethod (id : MethodId)
  | noSuperclass (typeName : String)
  | nestingTooDeep (name : String)
  | unresolvedTypeName (name : String)
deriving DecidableEq, Inhabited

namespace ResolveError

def message : ResolveError → String
  | unknownType id => "unknown type binding #" ++ toString id.index
  | unknownVariable id => "unknown variable binding #" ++ toString id.index
  | unknownMethod id => "unknown method binding #" ++ toString id.index
  | noSuperclass n => "type '" ++ n ++ "' has no superclass"
  | nestingTooDeep n => "type '" ++ n ++ "' is nested too deeply"
  | unresolvedTypeName n => "cannot resolve type '" ++ n ++ "'"

end ResolveError

end ClassInit
