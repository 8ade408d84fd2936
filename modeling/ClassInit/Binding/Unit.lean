import ClassInit.Binding.Resolve

/-!
Binding a unit: first everything it declares is declared, then its names are resolved, so that a
name may mean what is declared further down.
-/

set_option autoImplicit false

namespace ClassInit

namespace Binding

/-- The state in which binding a unit starts. -/
def State.start (t : BindingTable) : State := ⟨t, .zero, [], []⟩

end Binding

/-- What binding a unit leaves: the unit and the table as far as it came, and its counts or the
error that stopped it. -/
structure BindResult where
  unit : CompilationUnit
  table : BindingTable
  result : Except ResolveError Binding.Stats

/-- Declares and resolves everything in the unit. -/
def CompilationUnit.bind (u : CompilationUnit) (t : BindingTable) : BindResult :=
  match Edit.list (Binding.declareTopLevel u.package) u.types (.start t) with
  | (.stopped types e, s) => ⟨{ u with types }, s.table, .error e⟩
  | (.done types, s) =>
    match (types.mapM TypeDecl.resolve).run s with
    | (.error e, s) => ⟨{ u with types }, s.table, .error e⟩
    | (.ok types, s) => ⟨{ u with types }, s.table, .ok s.stats⟩

end ClassInit
