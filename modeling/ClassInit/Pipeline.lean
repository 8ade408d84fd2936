import ClassInit.Document.Run
import ClassInit.Json.Reader
import ClassInit.Json.Writer
import ClassInit.Lowering.Unit
import ClassInit.Tree.Printer

/-!
The whole pass over one unit: its names are bound, its constants found, and its types lowered.
Failures to bind are errors of the run; a failure to lower becomes a diagnostic, and the unit stays
as bound.
-/

set_option autoImplicit false

namespace ClassInit

/-- A unit with the bindings it refers to. -/
structure Input where
  bindings : BindingTable
  unit : CompilationUnit
deriving Inhabited

/-- Reads an input document; without bindings only the well-known types are known. -/
def Input.ofJson? (j : Json) : Option Input := do
  let fs ← j.fields?
  return ⟨← Json.withDefault fs "bindings" BindingTable.new BindingTable.ofJson?,
    ← Json.required fs "unit" CompilationUnit.ofJson?⟩

/-- What a run produced. -/
structure RunResult where
  unit : CompilationUnit
  bindStats : Binding.Stats
  boundConstants : Nat
  /-- Absent if a type could not be lowered. -/
  stats : Option Lowering.Stats
  diagnostics : List Diagnostic

/-- Which stage of a run failed, with the name of the file. -/
inductive RunError where
  | bind (file : String) (error : ResolveError)
  | constants (file : String) (error : ResolveError)
deriving DecidableEq

namespace RunError

/-- The error that made the run fail. -/
def cause : RunError → ResolveError
  | bind _ e => e
  | constants _ e => e

def message : RunError → String
  | bind file e => "failed to bind " ++ file ++ ": " ++ e.message
  | constants file e => "failed to fold constants of " ++ file ++ ": " ++ e.message

end RunError

/-- Binds and lowers a unit. -/
def Input.run (input : Input) (options : Lowering.Options) : Except RunError RunResult :=
  let bound := input.unit.bind input.bindings
  match bound.result with
  | .error e => .error (.bind input.unit.fileName e)
  | .ok bindStats =>
    match bound.table.bindConstants bound.unit with
    | (.error e, _) => .error (.constants input.unit.fileName e)
    | (.ok boundConstants, table) =>
      let lowered := bound.unit.lower table options
      match lowered.result with
      | .ok stats => .ok ⟨lowered.unit, bindStats, boundConstants, some stats, []⟩
      | .error f =>
        .ok ⟨lowered.unit, bindStats, boundConstants, none, [f.diagnostic input.unit.fileName]⟩

namespace RunResult

def hasErrors (r : RunResult) : Bool := r.diagnostics.any Diagnostic.isError

end RunResult

/-- The forms in which a lowered unit is printed. -/
inductive OutputFormat where
  | text
  | json
deriving DecidableEq, Inhabited

/-- The unit in a form. -/
def RunResult.render (r : RunResult) : OutputFormat → String
  | .text => r.unit.text
  | .json => r.unit.toJson.prettyText

end ClassInit
