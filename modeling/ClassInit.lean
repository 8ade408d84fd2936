import ClassInit.Span
import ClassInit.Limits
import ClassInit.Names
import ClassInit.Text.Blank
import ClassInit.Text.Utf16
import ClassInit.LiteralEncoding
import ClassInit.Modifiers.Text
import ClassInit.Number.Decimal
import ClassInit.Json.Writer
import ClassInit.Json.Reader
import ClassInit.Json.Fields
import ClassInit.Constant
import ClassInit.Tree.Decl
import ClassInit.Tree.LocalTypes
import ClassInit.Tree.Copy
import ClassInit.Tree.Factory
import ClassInit.Tree.DeclText
import ClassInit.Tree.Printer
import ClassInit.Document.Decl
import ClassInit.Binding.Table
import ClassInit.Binding.Unit
import ClassInit.Binding.Constants
import ClassInit.Lowering.Unit
import ClassInit.Pipeline
import ClassInit.LogFormat
import ClassInit.Main
import ClassInit.Proofs.Edit
import ClassInit.Proofs.Tree.Erase
import ClassInit.Proofs.Tree.Declarations
import ClassInit.Proofs.Tree.Outline
import ClassInit.Proofs.Step
import ClassInit.Proofs.Lowering.Steps
import ClassInit.Proofs.Lowering.Frame
import ClassInit.Proofs.Lowering.Rules
import ClassInit.Proofs.Lowering.Outlines
import ClassInit.Proofs.Lowering.Members
import ClassInit.Proofs.Lowering.Constructors
import ClassInit.Proofs.Lowering.Types
import ClassInit.Proofs.Lowering.Creation
import ClassInit.Proofs.Lowering.Origins
import ClassInit.Proofs.Lowering.Literals
import ClassInit.Proofs.Tree.Nesting
import ClassInit.Proofs.Tree.Ids
import ClassInit.Proofs.Tree.InnerIds
import ClassInit.Proofs.Lowering.Settled
import ClassInit.Proofs.Lowering.Idempotence
import ClassInit.Proofs.Lowering.Accounting
import ClassInit.Proofs.Lowering.Entries
import ClassInit.Proofs.Lowering.Issues
import ClassInit.Proofs.Lowering.DistinctIds
import ClassInit.Proofs.Lowering.Statics
import ClassInit.Proofs.Lowering.StaticOrder
import ClassInit.Proofs.Fold
import ClassInit.Proofs.Lowering.StaticValues
import ClassInit.Proofs.Lowering.StaticRun
import ClassInit.Proofs.Binding.Handles
import ClassInit.Proofs.Binding.Declaring
import ClassInit.Proofs.Binding.Names
import ClassInit.Proofs.Binding.ResolvingSteps
import ClassInit.Proofs.Binding.Resolving
import ClassInit.Proofs.Binding.Candidates
import ClassInit.Proofs.Binding.Rounds
import ClassInit.Proofs.Binding.Units
import ClassInit.Proofs.Binding.Rooted
import ClassInit.Proofs.Binding.Failures
import ClassInit.Proofs.Binding.Sites
import ClassInit.Proofs.Binding.Scoping
import ClassInit.Proofs.Binding.Stacks
import ClassInit.Proofs.Binding.Uses
import ClassInit.Proofs.Binding.Bodies
import ClassInit.Proofs.Binding.Lookups
import ClassInit.Proofs.Binding.Occurrences
import ClassInit.Proofs.Binding.Standing
import ClassInit.Proofs.Binding.Unresolved
import ClassInit.Proofs.Binding.ExplainedNames
import ClassInit.Proofs.Binding.FieldNames
import ClassInit.Proofs.Lowering.StaticFields
import ClassInit.Proofs.Lowering.Refusals
import ClassInit.Proofs.Lowering.Failures
import ClassInit.Proofs.Lowering.PassCounts
import ClassInit.Proofs.Lowering.Statistics
import ClassInit.Proofs.Lowering.Comparison
import ClassInit.Proofs.Lowering.Alike
import ClassInit.Proofs.Lowering.Independence
import ClassInit.Proofs.Lowering.Splicing
import ClassInit.Proofs.Lowering.Capture
import ClassInit.Proofs.Tree.Pieces
import ClassInit.Proofs.Tree.Contents
import ClassInit.Proofs.Binding.Filled
import ClassInit.Proofs.Binding.FillingSteps
import ClassInit.Proofs.Binding.Filling
import ClassInit.Proofs.Binding.Listing
import ClassInit.Proofs.Binding.Entering
import ClassInit.Proofs.Binding.Labels
import ClassInit.Proofs.Lowering.Rebinding
import ClassInit.Proofs.Binding.Registry
import ClassInit.Proofs.Binding.Ranges
import ClassInit.Proofs.Binding.Registration
import ClassInit.Proofs.Binding.Surroundings
import ClassInit.Proofs.Binding.LocalClasses
import ClassInit.Proofs.Binding.Inheritance
import ClassInit.Proofs.Binding.ResolvingOrder
import ClassInit.Proofs.Binding.InheritedFields
import ClassInit.Proofs.Binding.Referring
import ClassInit.Proofs.Binding.Grounding
import ClassInit.Proofs.Binding.Dangling
import ClassInit.Proofs.Binding.Rearranging
import ClassInit.Proofs.Binding.LeastConstants
import ClassInit.Proofs.Document.ModifierText
import ClassInit.Proofs.Document.Leaves
import ClassInit.Proofs.Document.Parts
import ClassInit.Proofs.Document.Expressions
import ClassInit.Proofs.Document.Declarations
import ClassInit.Proofs.Document.RoundTrip
import ClassInit.Proofs.Json.Strings
import ClassInit.Proofs.Json.Numerals
import ClassInit.Proofs.Json.Layout
import ClassInit.Proofs.Json.Rereading
import ClassInit.Proofs.Number.Values
import ClassInit.Proofs.Number.Shortest
import ClassInit.Proofs.Number.Nearest
import ClassInit.Proofs.Number.Documents
import ClassInit.Proofs.Number.Floats
import ClassInit.Proofs.Document.Yields
import ClassInit.Proofs.Document.Readings
import ClassInit.Proofs.Document.Reloading
import ClassInit.Proofs.Binding.NamedTypes
import ClassInit.Proofs.Binding.FreeNames
import ClassInit.Proofs.Binding.Changes
import ClassInit.Proofs.Binding.QualifiedNames
import ClassInit.Proofs.Document.Tables
import ClassInit.Proofs.Binding.Histories
import ClassInit.Proofs.Folding.Arithmetic
import ClassInit.Proofs.Folding.Conditionals
import ClassInit.Proofs.Folding.Depth
import ClassInit.Proofs.Folding.Concatenation
import ClassInit.Proofs.Lowering.FoldedConstants
import ClassInit.Proofs.Lowering.Following
import ClassInit.Proofs.Lowering.Looks
import ClassInit.Proofs.Lowering.Encodings
import ClassInit.Proofs.Lowering.EncodingSteps
import ClassInit.Proofs.Lowering.EncodingOrder
import ClassInit.Proofs.Binding.Mentions
import ClassInit.Proofs.Binding.Creations
import ClassInit.Proofs.Binding.FieldSearch
import ClassInit.Proofs.Binding.SuperclassNames
import ClassInit.Proofs.Tree.Copies
import ClassInit.Proofs.Tree.Places
import ClassInit.Proofs.Tree.LocalWalks
import ClassInit.Proofs.Tree.LiteralText
import ClassInit.Proofs.Tree.Lines
import ClassInit.Proofs.Tree.Plain
import ClassInit.Proofs.Tree.OneLine
import ClassInit.Proofs.Tree.Unmarked
import ClassInit.Proofs.Tree.Printed
import ClassInit.Proofs.Tree.Printing
