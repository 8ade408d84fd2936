import ClassInit.Binding.Unit
import ClassInit.Document.Decl
import ClassInit.Document.Table
import ClassInit.Lowering.Basic

/-!
Options, counts and diagnostics as JSON values.
-/

set_option autoImplicit false

namespace ClassInit

open Json

/-! ## Options -/

/-- The name of an encoding in documents. -/
def LiteralEncoding.tag : LiteralEncoding → String
  | .cpp => "cpp"
  | .ascii => "ascii"

def LiteralEncoding.tags : List (String × LiteralEncoding) :=
  [LiteralEncoding.cpp, LiteralEncoding.ascii].map fun e => (e.tag, e)

def LiteralEncoding.toJson (e : LiteralEncoding) : Json := str e.tag

def LiteralEncoding.ofJson? : Json → Option LiteralEncoding := caseIn? LiteralEncoding.tags

namespace Lowering

def Options.toJson (o : Options) : Json :=
  obj [("class_initializer_name", str o.classInitializerName),
    ("literal_encoding", o.literalEncoding.toJson)]

/-- Reads options; those that are missing have their standard value. -/
def Options.ofJson? (j : Json) : Option Options := do
  let fs ← j.fields?
  return ⟨← withDefault fs "class_initializer_name" Options.standard.classInitializerName string?,
    ← withDefault fs "literal_encoding" Options.standard.literalEncoding LiteralEncoding.ofJson?⟩

/-! ## Counts -/

def Stats.toJson (s : Stats) : Json :=
  obj [("types", ofNat s.types), ("instance_assignments", ofNat s.instanceAssignments),
    ("static_assignments", ofNat s.staticAssignments), ("kept_literals", ofNat s.keptLiterals),
    ("folded_literals", ofNat s.foldedLiterals), ("initializer_blocks", ofNat s.initializerBlocks),
    ("designated_constructors", ofNat s.designatedConstructors),
    ("delegating_constructors", ofNat s.delegatingConstructors),
    ("default_constructors", ofNat s.defaultConstructors),
    ("class_initializers", ofNat s.classInitializers)]

end Lowering

def Binding.Stats.toJson (s : Binding.Stats) : Json :=
  obj [("types", ofNat s.types), ("fields", ofNat s.fields), ("methods", ofNat s.methods),
    ("locals", ofNat s.locals), ("names", ofNat s.names)]

/-! ## Diagnostics -/

def DiagnosticCategory.tags : List (String × DiagnosticCategory) :=
  [("Warning", .warning), ("Error", .error), ("Message", .message)]

def DiagnosticCategory.toJson (c : DiagnosticCategory) : Json :=
  tagIn DiagnosticCategory.tags c

def DiagnosticCategory.ofJson? : Json → Option DiagnosticCategory :=
  caseIn? DiagnosticCategory.tags

def Diagnostic.toJson (d : Diagnostic) : Json :=
  obj [("category", d.category.toJson), ("code", ofUInt32 d.code), ("file", str d.file),
    ("start", ofUInt32 d.start), ("length", ofUInt32 d.length), ("message_text", str d.message)]

def Diagnostic.ofJson? (j : Json) : Option Diagnostic := do
  let fs ← j.fields?
  return ⟨← required fs "category" DiagnosticCategory.ofJson?, ← required fs "code" uint32?,
    ← required fs "file" string?, ← required fs "start" uint32?, ← required fs "length" uint32?,
    ← required fs "message_text" string?⟩

end ClassInit
