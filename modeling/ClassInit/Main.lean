import ClassInit.CommandLine

/-!
The program: reads the named files, runs the command and writes what it yields.
-/

set_option autoImplicit false

namespace ClassInit.CommandLine

/-- The text of a file, if it can be read. -/
def readText (path : String) : IO (Option String) := do
  try
    return some (← IO.FS.readFile path)
  catch _ =>
    return .none

/-- The texts of the files that the arguments name. -/
def readFiles (a : Arguments) : IO (String → Option String) := do
  let paths := a.config.toList ++ a.input.toList
  let texts ← paths.mapM fun path => return (path, ← readText path)
  return fun path => (texts.lookup path).join

def UsageError.text : UsageError → String
  | .invalidValue => "invalid value for an argument"
  | .unknownArgument => "unexpected argument"
  | .argumentConflict => "an argument cannot be used multiple times"
  | .tooManyValues => "unexpected value for an argument"
  | .missingRequiredArgument => "the input is missing"
  | .displayHelp =>
    "usage: INPUT [--format text|json] [-c FILE] [--class-init-name NAME]" ++
      " [--literal-encoding cpp|ascii] [--stats]"
  | .displayVersion => "0.1.0"

def CommandError.text : CommandError → String
  | .usage e => e.text
  | .configRead => "failed to read config"
  | .configParse => "failed to parse config"
  | .inputRead => "failed to read input"
  | .inputParse => "failed to parse input"
  | .run e => e.message

/-- Writes the outcome of a command and yields its exit code. -/
def finish : Except CommandError Execution → IO UInt32
  | .error (.usage .displayHelp) => do
    IO.println (UsageError.text .displayHelp)
    return 0
  | .error (.usage .displayVersion) => do
    IO.println (UsageError.text .displayVersion)
    return 0
  | .error (.usage e) => do
    IO.eprintln s!"error: {e.text}"
    return 2
  | .error e => do
    IO.eprintln s!"Error: {e.text}"
    return 1
  | .ok x => do
    x.errorLines.forM fun line => IO.eprintln line
    x.statsText.forM fun text => IO.eprintln text
    IO.print x.output
    return x.exitCode.toUInt32

end ClassInit.CommandLine

open ClassInit.CommandLine in
/-- Runs the command that the arguments give. -/
def main (arguments : List String) : IO UInt32 := do
  let files ← match parse arguments with
    | .ok a => readFiles a
    | .error _ => pure fun _ => none
  finish (execute files arguments)
