import ClassInit.Binding.Constants
import ClassInit.Diagnostic
import ClassInit.LiteralEncoding
import ClassInit.Tree.Factory

/-!
What lowering a unit works with: its options, its counts, the ways in which it can fail, and the
state that it carries from type to type.
-/

set_option autoImplicit false

namespace ClassInit.Lowering

/-- What a caller chooses for a run. -/
structure Options where
  /-- The name of the static routine that a type gets. -/
  classInitializerName : String
  /-- Which strings may stay literals. -/
  literalEncoding : LiteralEncoding
deriving DecidableEq, Inhabited

namespace Options

def standard : Options := ⟨Names.classInitializer, .cpp⟩

end Options

/-- What a run has done so far. -/
structure Stats where
  types : Nat
  /-- Instance field initializers that became assignments in constructors. -/
  instanceAssignments : Nat
  /-- Static field initializers that became assignments in the static routine. -/
  staticAssignments : Nat
  keptLiterals : Nat
  foldedLiterals : Nat
  initializerBlocks : Nat
  designatedConstructors : Nat
  delegatingConstructors : Nat
  defaultConstructors : Nat
  classInitializers : Nat
deriving DecidableEq, Inhabited

namespace Stats

def zero : Stats := ⟨0, 0, 0, 0, 0, 0, 0, 0, 0, 0⟩

end Stats

/-! ## Failures -/

/-- Why a type cannot be lowered. Every failure names the type and has a span. -/
inductive Cause where
  | missingTypeBinding
  | missingVariableBinding (field : String)
  | missingSuperclass
  | missingConstructorBody
  | reservedNameCollision (method : String)
  | nestingTooDeep (limit : Nat)
  | resolve (error : ResolveError)
deriving DecidableEq, Inhabited

/-- A refusal, with the type and the place that it is about. -/
structure Failure where
  typeName : String
  span : Span
  cause : Cause
deriving DecidableEq, Inhabited

namespace Failure

/-- A failed question to the table; a type without a superclass is told apart. -/
def ofResolve (typeName : String) (span : Span) : ResolveError → Failure
  | .noSuperclass _ => ⟨typeName, span, .missingSuperclass⟩
  | e => ⟨typeName, span, .resolve e⟩

def message (f : Failure) : String :=
  match f.cause with
  | .missingTypeBinding => "type '" ++ f.typeName ++ "' has no resolved type binding"
  | .missingVariableBinding field =>
    "field '" ++ field ++ "' of '" ++ f.typeName ++ "' has no resolved variable binding"
  | .missingSuperclass => "superclass of '" ++ f.typeName ++ "' cannot be resolved"
  | .missingConstructorBody => "constructor of '" ++ f.typeName ++ "' has no body"
  | .reservedNameCollision method =>
    "method '" ++ method ++ "()' of '" ++ f.typeName ++
      "' collides with the synthesized static initializer"
  | .nestingTooDeep limit =>
    "type '" ++ f.typeName ++ "' is nested more than " ++ toString limit ++ " levels deep"
  | .resolve e => "cannot resolve '" ++ f.typeName ++ "': " ++ e.message

/-- The stable code of a failure. -/
def code (f : Failure) : UInt32 :=
  match f.cause with
  | .missingTypeBinding => 7001
  | .missingVariableBinding _ => 7002
  | .missingSuperclass => 7004
  | .missingConstructorBody => 7005
  | .reservedNameCollision _ => 7006
  | .nestingTooDeep _ => 7007
  | .resolve (.unknownVariable _) => 7002
  | .resolve (.unknownMethod _) => 7003
  | .resolve (.noSuperclass _) => 7004
  | .resolve (.nestingTooDeep _) => 7007
  | .resolve (.unknownType _) => 7001
  | .resolve (.unresolvedTypeName _) => 7001

def diagnostic (f : Failure) (file : String) : Diagnostic :=
  .error file f.span f.message f.code

end Failure

/-! ## State -/

/-- The table, which gets the entries of synthesized members, the supply of node ids, and the
counts. -/
structure State where
  table : BindingTable
  supply : IdSupply
  stats : Stats
deriving Inhabited

/-- A step that fails without leaving anything of the value it works on. -/
abbrev Step := ExceptT Failure (StateM State)

/-- Takes ids from the supply of the state. -/
def numbered {α : Type} (m : Numbered α) : StateM State α := fun s =>
  let (a, supply) := m s.supply
  (a, { s with supply })

/-- Takes ids from the supply of the state, as part of a step. -/
def mint {α : Type} (m : Numbered α) : Step α := liftM (numbered m)

def count (f : Stats → Stats) : StateM State Unit :=
  modify fun s => { s with stats := f s.stats }

/-- A question to the table, asked for a type. -/
def ask {α : Type} (typeName : String) (span : Span)
    (question : BindingTable → Except ResolveError α) : Step α := do
  match question (← get).table with
  | .ok a => return a
  | .error e => throw (.ofResolve typeName span e)

/-- An edit made of a step; `left` is what a failure leaves of the value. -/
def editBy {α : Type} (left : α) (m : Step α) : Edit State Failure α := fun s =>
  match m.run s with
  | (.ok a, s) => (.done a, s)
  | (.error e, s) => (.stopped left e, s)

/-- Adds an entry for a synthesized constructor without parameters. -/
def newConstructor (t : BindingTable) (owner : TypeId) (modifiers : Modifiers) :
    Except ResolveError (MethodId × BindingTable) := do
  let _ ← t.typeAt owner
  return t.addMethod ⟨Names.constructor, owner, modifiers, .void, [], true, true⟩

/-- Adds an entry for a synthesized method without parameters. -/
def newMethod (t : BindingTable) (owner : TypeId) (name : String) (modifiers : Modifiers)
    (returnType : TypeRef) : Except ResolveError (MethodId × BindingTable) := do
  let _ ← t.typeAt owner
  return t.addMethod ⟨name, owner, modifiers, returnType, [], false, true⟩

/-- Makes an entry in the table and yields its handle. -/
def enter (typeName : String) (span : Span)
    (add : BindingTable → Except ResolveError (MethodId × BindingTable)) : Step MethodId := do
  let (id, table) ← ask typeName span add
  modify fun s => { s with table }
  return id

end ClassInit.Lowering
