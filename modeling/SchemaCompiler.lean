import SchemaCompiler.Binary64
import SchemaCompiler.CommandLine.Arguments
import SchemaCompiler.CommandLine.Command
import SchemaCompiler.CommandLine.FileAccess
import SchemaCompiler.CommandLine.FileTree
import SchemaCompiler.CommandLine.Invocation
import SchemaCompiler.CommandLine.Outcome
import SchemaCompiler.CommandLine.Path
import SchemaCompiler.CommandLine.UsageError
import SchemaCompiler.Config
import SchemaCompiler.Decimal.Shortest
import SchemaCompiler.Decimal.Text
import SchemaCompiler.Failure
import SchemaCompiler.Interface.BlockString
import SchemaCompiler.Interface.Description
import SchemaCompiler.Interface.Sdl
import SchemaCompiler.Interface.TypeReference
import SchemaCompiler.Json.Fault
import SchemaCompiler.Json.Reader
import SchemaCompiler.Json.Writer
import SchemaCompiler.Main
import SchemaCompiler.Model.Class
import SchemaCompiler.Model.Classification
import SchemaCompiler.Model.Compilation
import SchemaCompiler.Model.Compile
import SchemaCompiler.Model.FieldEnum
import SchemaCompiler.Model.Instance
import SchemaCompiler.Model.Lineage
import SchemaCompiler.Model.Options
import SchemaCompiler.Model.ReservedKey
import SchemaCompiler.Naming.Convention
import SchemaCompiler.Naming.MemberName
import SchemaCompiler.Naming.PascalCase
import SchemaCompiler.Schema.Document
import SchemaCompiler.Schema.Node
import SchemaCompiler.Schema.Operation
import SchemaCompiler.Schema.Parser
import SchemaCompiler.Schema.Tag
import SchemaCompiler.Schema.Text
import SchemaCompiler.Text.Blank
import SchemaCompiler.Text.Digit
import SchemaCompiler.Text.Identifier
import SchemaCompiler.Text.Lines
import SchemaCompiler.Text.Printable
import SchemaCompiler.Text.Ranges
import SchemaCompiler.Text.Similarity
import SchemaCompiler.Text.Terminal
import SchemaCompiler.Text.Upper
import SchemaCompiler.Text.Word
import SchemaCompiler.Types.EnumRules
import SchemaCompiler.Types.OutputType
import SchemaCompiler.Types.Registry
import SchemaCompiler.Value.Basic
import SchemaCompiler.Value.Equality
import SchemaCompiler.Value.Key
import SchemaCompiler.Value.Text
import SchemaCompiler.Workspace
import SchemaCompiler.Proofs.Outcome
import SchemaCompiler.Proofs.Schema.Parts
import SchemaCompiler.Proofs.Schema.Meeting
import SchemaCompiler.Proofs.Schema.Recursion
import SchemaCompiler.Proofs.Schema.ParserState
import SchemaCompiler.Proofs.Schema.Acceptance
import SchemaCompiler.Proofs.Schema.Malformed
import SchemaCompiler.Proofs.Schema.Alike
import SchemaCompiler.Proofs.Schema.Inlining
import SchemaCompiler.Proofs.Schema.Overlaying
import SchemaCompiler.Proofs.Schema.Transparency
import SchemaCompiler.Proofs.Registration
import SchemaCompiler.Proofs.Model.Closure
import SchemaCompiler.Proofs.Model.Fields
import SchemaCompiler.Proofs.Operations
import SchemaCompiler.Proofs.Changes
import SchemaCompiler.Proofs.Reachable
import SchemaCompiler.Proofs.Model.EnumMemo
import SchemaCompiler.Proofs.Retry
import SchemaCompiler.Proofs.Model.Stability
import SchemaCompiler.Proofs.View
import SchemaCompiler.Proofs.Model.Agreement
import SchemaCompiler.Proofs.Model.Isolation
import SchemaCompiler.Proofs.Model.Rejection
import SchemaCompiler.Proofs.Permanence
import SchemaCompiler.Proofs.Naming.MemberNames
import SchemaCompiler.Proofs.Types.EnumMembers
import SchemaCompiler.Proofs.Model.Titles
import SchemaCompiler.Proofs.Model.FieldChecks
import SchemaCompiler.Proofs.Model.Recording
import SchemaCompiler.Proofs.Model.FieldRecords
import SchemaCompiler.Proofs.Model.GeneratedNames
import SchemaCompiler.Proofs.Interface.Rendering
import SchemaCompiler.Proofs.CommandLine.FileTrees
import SchemaCompiler.Proofs.CommandLine.Reading
import SchemaCompiler.Proofs.CommandLine.Running
import SchemaCompiler.Proofs.CommandLine.AllOrNothing
import SchemaCompiler.Proofs.CommandLine.Repetition
import SchemaCompiler.Proofs.Interface.Declarations
import SchemaCompiler.Proofs.Naming.PascalCase
import SchemaCompiler.Proofs.Model.DistinctiveNames
import SchemaCompiler.Proofs.Model.TypeNames
import SchemaCompiler.Proofs.Model.Places
import SchemaCompiler.Proofs.Model.DrawnNames
import SchemaCompiler.Proofs.Model.TypesHeld
import SchemaCompiler.Proofs.Model.ApartNames
import SchemaCompiler.Proofs.Schema.Retagging
import SchemaCompiler.Proofs.Model.Retagged
import SchemaCompiler.Proofs.Model.Easing
import SchemaCompiler.Proofs.Schema.Required
import SchemaCompiler.Proofs.Model.OptionalProperty
import SchemaCompiler.Proofs.Interface.BlockStrings
import SchemaCompiler.Proofs.Schema.Placing
import SchemaCompiler.Proofs.Schema.Nullable
import SchemaCompiler.Proofs.Schema.Pointers
import SchemaCompiler.Proofs.Numerals
import SchemaCompiler.Proofs.Schema.Paths
import SchemaCompiler.Proofs.Schema.Descents
import SchemaCompiler.Proofs.Schema.Locations
import SchemaCompiler.Proofs.Naming.MemberSequence
import SchemaCompiler.Proofs.Naming.SafeNames
import SchemaCompiler.Proofs.Model.Instances
import SchemaCompiler.Proofs.Model.ShadowedNames
import SchemaCompiler.Proofs.Text.Patterns
import SchemaCompiler.Proofs.Naming.ColonTitles
import SchemaCompiler.Proofs.Naming.PascalWords
import SchemaCompiler.Proofs.Naming.Spellings
import SchemaCompiler.Proofs.Configuration
