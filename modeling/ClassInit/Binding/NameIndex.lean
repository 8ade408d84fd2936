import ClassInit.Tree.Id

/-!
Types by name: a map from names to handles. Entering a name that is already there replaces its
handle.
-/

set_option autoImplicit false

namespace ClassInit

/-- The handles of types by name; each name stands in it once. -/
structure NameIndex where
  entries : List (String × TypeId)

namespace NameIndex

def empty : NameIndex := ⟨[]⟩

/-- The handle of a name. -/
def find? (index : NameIndex) (name : String) : Option TypeId := index.entries.lookup name

/-- Enters a handle under a name. -/
def insert (index : NameIndex) (name : String) (id : TypeId) : NameIndex :=
  ⟨(name, id) :: index.entries.filter fun e => e.1 != name⟩

/-- The index of types that have these names, in the order of their handles. -/
def ofNames (names : List String) : NameIndex :=
  names.zipIdx.foldl (fun index n => index.insert n.1 ⟨n.2⟩) empty

theorem ofNames_concat (names : List String) (name : String) :
    ofNames (names ++ [name]) = (ofNames names).insert name ⟨names.length⟩ := by
  rw [ofNames, List.zipIdx_append, List.foldl_append, Nat.zero_add]
  rfl

end NameIndex

end ClassInit
