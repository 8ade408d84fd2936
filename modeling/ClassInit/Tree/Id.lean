/-!
Identities: node ids, the supply that hands them out, and the handles under which a binding table
keeps its entries. Node ids are 32-bit words, and the supply wraps around after the last one.
-/

set_option autoImplicit false

namespace ClassInit

/-- The identity of one node of a tree. Zero marks a node that has none yet. -/
structure NodeId where
  word : UInt32
deriving DecidableEq, Inhabited

namespace NodeId

def unassigned : NodeId := ⟨0⟩

def isAssigned (id : NodeId) : Bool := id.word != 0

end NodeId

/-- Hands out node ids in rising order. -/
structure IdSupply where
  next : UInt32
deriving DecidableEq, Inhabited

namespace IdSupply

/-- A supply that has handed out nothing. -/
def initial : IdSupply := ⟨1⟩

/-- The number of ids handed out. -/
def issued (s : IdSupply) : UInt32 := s.next - 1

end IdSupply

/-- A computation that may take ids from a supply. -/
abbrev Numbered := StateM IdSupply

/-- The next id of the supply. -/
def freshId : Numbered NodeId := fun s => (⟨s.next⟩, ⟨s.next + 1⟩)

/-- The handle of a type descriptor: its index in the table. -/
structure TypeId where
  index : Nat
deriving DecidableEq, Inhabited

/-- The handle of a variable binding: its index in the table. -/
structure VariableId where
  index : Nat
deriving DecidableEq, Inhabited

/-- The handle of a method binding: its index in the table. -/
structure MethodId where
  index : Nat
deriving DecidableEq, Inhabited

end ClassInit
