import ClassInit.Span

/-!
Diagnostics: what the user is told about a source file, with a stable code.
-/

set_option autoImplicit false

namespace ClassInit

inductive DiagnosticCategory where
  | warning
  | error
  | message
deriving DecidableEq, Inhabited

/-- The word for a category in a line of text. -/
def DiagnosticCategory.word : DiagnosticCategory → String
  | warning => "warning"
  | error => "error"
  | message => "message"

structure Diagnostic where
  category : DiagnosticCategory
  code : UInt32
  file : String
  start : UInt32
  length : UInt32
  message : String
deriving DecidableEq, Inhabited

namespace Diagnostic

/-- An error about a span of a file. -/
def error (file : String) (span : Span) (message : String) (code : UInt32) : Diagnostic :=
  ⟨.error, code, file, span.start, span.length, message⟩

def isError (d : Diagnostic) : Bool := d.category == .error

/-- The diagnostic as one line. -/
def text (d : Diagnostic) : String :=
  d.file ++ ":" ++ toString d.start.toNat ++ ": " ++ d.category.word ++ " XL" ++
    toString d.code.toNat ++ ": " ++ d.message

end Diagnostic

end ClassInit
