import ClassInit.Pipeline

/-!
The command line. Arguments are taken one after the other; a value that stands in an argument of its
own is judged only when the next argument is taken, and an unknown argument is refused before that.
The configuration is read before the input, and options given on the command line override it.
-/

set_option autoImplicit false

namespace ClassInit.CommandLine

/-- Why the arguments are refused, or what else they ask for. -/
inductive UsageError where
  | invalidValue
  | unknownArgument
  | argumentConflict
  | tooManyValues
  | missingRequiredArgument
  | displayHelp
  | displayVersion
deriving DecidableEq, Inhabited

/-- What the arguments say. -/
structure Arguments where
  input : Option String
  format : Option OutputFormat
  config : Option String
  classInitName : Option String
  literalEncoding : Option LiteralEncoding
  stats : Bool
deriving DecidableEq, Inhabited

namespace Arguments

def none : Arguments := ⟨.none, .none, .none, .none, .none, false⟩

end Arguments

/-! ## Values -/

/-- The options that take a value. -/
inductive ValueOption where
  | format
  | config
  | classInitName
  | literalEncoding
deriving DecidableEq, Inhabited

def formatOf? : String → Option OutputFormat
  | "text" => some .text
  | "json" => some .json
  | _ => .none

/-- Encodings are named in any case. -/
def encodingOf? (value : String) : Option LiteralEncoding :=
  match value.toLower with
  | "cpp" => some .cpp
  | "ascii" => some .ascii
  | _ => .none

/-- A path must not be empty. -/
def pathOf? (value : String) : Option String := if value.isEmpty then .none else some value

/-- Puts a value into a place that must be free. -/
def place {α : Type} (current : Option α) (value : Option α) : Except UsageError (Option α) :=
  match current, value with
  | some _, _ => .error .argumentConflict
  | .none, .none => .error .invalidValue
  | .none, some v => .ok (some v)

/-- Sets an option. -/
def assign (o : ValueOption) (value : String) (a : Arguments) : Except UsageError Arguments :=
  match o with
  | .format => return { a with format := ← place a.format (formatOf? value) }
  | .config => return { a with config := ← place a.config (pathOf? value) }
  | .classInitName => return { a with classInitName := ← place a.classInitName (some value) }
  | .literalEncoding =>
    return { a with literalEncoding := ← place a.literalEncoding (encodingOf? value) }

/-! ## Arguments one by one -/

/-- What the last argument left open. -/
inductive Pending where
  | nothing
  /-- An option that still needs its value. -/
  | awaiting (o : ValueOption)
  /-- An option whose value is not judged yet. -/
  | holding (o : ValueOption) (value : String)
deriving DecidableEq, Inhabited

/-- Where the reading of arguments stands. After a lone double dash no argument is an option. -/
structure Reading where
  arguments : Arguments
  pending : Pending
  onlyPositional : Bool
deriving DecidableEq, Inhabited

/-- Finishes what the last argument left open. -/
def settle (r : Reading) : Except UsageError Arguments :=
  match r.pending with
  | .nothing => .ok r.arguments
  | .awaiting _ => .error .invalidValue
  | .holding o value => assign o value r.arguments

/-- What the name of a long option means. -/
inductive LongOption where
  | value (o : ValueOption)
  | stats
  | help
  | version
deriving DecidableEq, Inhabited

def longOption? : String → Option LongOption
  | "format" => some (.value .format)
  | "config" => some (.value .config)
  | "class-init-name" | "classInitName" => some (.value .classInitName)
  | "literal-encoding" => some (.value .literalEncoding)
  | "stats" => some .stats
  | "help" => some .help
  | "version" => some .version
  | _ => .none

/-- An option with a value in the same argument, or with one to come. -/
def takeValue (r : Reading) (o : ValueOption) (attached : Option String) :
    Except UsageError Reading := do
  let a ← settle r
  match attached with
  | some value => return { r with arguments := ← assign o value a, pending := .nothing }
  | .none => return { r with arguments := a, pending := .awaiting o }

def takeStats (r : Reading) : Except UsageError Reading := do
  let a ← settle r
  if a.stats then .error .argumentConflict
  else return { r with arguments := { a with stats := true }, pending := .nothing }

/-- A request that ends the reading of arguments. -/
def request (r : Reading) (e : UsageError) : Except UsageError Reading := do
  let _ ← settle r
  .error e

def takeLong (r : Reading) (name : String) (attached : Option String) :
    Except UsageError Reading :=
  match longOption? name, attached with
  | .none, _ => .error .unknownArgument
  | some (.value o), _ => takeValue r o attached
  | some _, some _ => .error .tooManyValues
  | some .stats, .none => takeStats r
  | some .help, .none => request r .displayHelp
  | some .version, .none => request r .displayVersion

/-- A short option; what follows its letter is its value, with or without an equals sign. -/
def takeShort (r : Reading) (letter : Char) (rest : List Char) : Except UsageError Reading :=
  match letter, rest with
  | 'h', _ => request r .displayHelp
  | 'V', _ => request r .displayVersion
  | 'c', [] => takeValue r .config .none
  | 'c', '=' :: value => takeValue r .config (some (String.ofList value))
  | 'c', value => takeValue r .config (some (String.ofList value))
  | _, _ => .error .unknownArgument

/-- An argument that is no option: the value of an option that waits for one, or else the input. -/
def takePlain (r : Reading) (argument : String) : Except UsageError Reading :=
  match r.pending, r.onlyPositional, r.arguments.input with
  | .awaiting o, false, _ => .ok { r with pending := .holding o argument }
  | _, _, some _ => .error .unknownArgument
  | _, _, .none => do
    let a ← settle r
    let input ← place a.input (pathOf? argument)
    return { r with arguments := { a with input }, pending := .nothing }

/-- A long option's name and the value after its equals sign. -/
def splitLong (cs : List Char) : String × Option String :=
  let name := cs.takeWhile (· ≠ '=')
  match cs.drop name.length with
  | [] => (String.ofList name, .none)
  | _ :: value => (String.ofList name, some (String.ofList value))

def take (r : Reading) (argument : String) : Except UsageError Reading :=
  if r.onlyPositional then takePlain r argument
  else
    match argument.toList with
    | ['-', '-'] => .ok { r with onlyPositional := true }
    | '-' :: '-' :: cs =>
      let (name, attached) := splitLong cs
      takeLong r name attached
    | '-' :: letter :: rest => takeShort r letter rest
    | _ => takePlain r argument

/-- Reads all arguments; the input is required. -/
def parse (arguments : List String) : Except UsageError Arguments := do
  let r ← arguments.foldlM take ⟨.none, .nothing, false⟩
  let a ← settle r
  if a.input.isNone then .error .missingRequiredArgument else return a

/-! ## Running -/

/-- Why a command does not get to its output. -/
inductive CommandError where
  | usage (e : UsageError)
  | configRead
  | configParse
  | inputRead
  | inputParse
  | run (e : RunError)
deriving DecidableEq

/-- A command that ran. -/
structure Execution where
  options : Lowering.Options
  arguments : Arguments
  result : RunResult

/-- The value in a document. -/
def document? {α : Type} (read : Json → Option α) (text : String) : Option α :=
  (Json.ofDocument? text).bind read

/-- The options: the standard ones, then the configuration, then the command line. `file` gives the
text of a file that can be read. -/
def resolveOptions (file : String → Option String) (a : Arguments) :
    Except CommandError Lowering.Options := do
  let base ← match a.config with
    | .none => pure Lowering.Options.standard
    | some path =>
      match file path with
      | .none => .error .configRead
      | some text =>
        match document? Lowering.Options.ofJson? text with
        | .none => .error .configParse
        | some options => pure options
  return ⟨a.classInitName.getD base.classInitializerName,
    a.literalEncoding.getD base.literalEncoding⟩

/-- The input document. -/
def loadInput (file : String → Option String) (a : Arguments) : Except CommandError Input :=
  match a.input.bind file with
  | .none => .error .inputRead
  | some text =>
    match document? Input.ofJson? text with
    | .none => .error .inputParse
    | some input => .ok input

/-- Runs a command with the given files. -/
def execute (file : String → Option String) (arguments : List String) :
    Except CommandError Execution := do
  let a ← (parse arguments).mapError .usage
  let options ← resolveOptions file a
  let input ← loadInput file a
  let result ← (input.run options).mapError .run
  return ⟨options, a, result⟩

namespace Execution

/-- The exit code of a command whose diagnostics hold an error. -/
def diagnosticsExit : Nat := 2

def exitCode (x : Execution) : Nat := if x.result.hasErrors then diagnosticsExit else 0

/-- What goes to standard output: nothing if there are errors. -/
def output (x : Execution) : String :=
  if x.result.hasErrors then "" else x.result.render (x.arguments.format.getD .text)

/-- The lines for the error stream: the diagnostics. -/
def errorLines (x : Execution) : List String := x.result.diagnostics.map Diagnostic.text

/-- The counts, if they are asked for. -/
def statsText (x : Execution) : Option String :=
  if x.arguments.stats then
    some (Json.ofOption Lowering.Stats.toJson x.result.stats).prettyText
  else .none

end Execution

end ClassInit.CommandLine
