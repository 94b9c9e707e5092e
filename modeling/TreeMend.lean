import TreeMend.Check
import TreeMend.Command.Action
import TreeMend.Command.Arguments
import TreeMend.Command.Basic
import TreeMend.Command.Configuration
import TreeMend.Command.Help
import TreeMend.Command.Run
import TreeMend.Config.Basic
import TreeMend.Config.Json
import TreeMend.Config.Toml
import TreeMend.Files.Discover
import TreeMend.Files.Glob
import TreeMend.Files.Ignore
import TreeMend.Files.Ignore.Pattern
import TreeMend.Files.Repository
import TreeMend.Files.Store
import TreeMend.Fix
import TreeMend.Format
import TreeMend.Json.Number
import TreeMend.Json.Printer
import TreeMend.Json.Reader
import TreeMend.Json.Value
import TreeMend.Lint
import TreeMend.Log
import TreeMend.Main
import TreeMend.ParseTree.Basic
import TreeMend.ParseTree.Dialect
import TreeMend.ParseTree.Json
import TreeMend.ParseTree.Lowering
import TreeMend.ParseTree.Vocabulary
import TreeMend.Path
import TreeMend.Program.Basic
import TreeMend.Program.Literal
import TreeMend.Program.Reading
import TreeMend.Report.Diagnostic
import TreeMend.Report.Display
import TreeMend.Report.Summary
import TreeMend.Report.Violation
import TreeMend.Rule.Basic
import TreeMend.Rule.Catalog
import TreeMend.Rule.Quotes
import TreeMend.Rule.Reassignment
import TreeMend.Rule.SuperCall
import TreeMend.SourceFile
import TreeMend.Text.Alphanumeric
import TreeMend.Text.Blank
import TreeMend.Text.Bytes
import TreeMend.Text.Hex
import TreeMend.Text.Lines
import TreeMend.Text.Reach
import TreeMend.Toml.Reader
import TreeMend.Toml.Value
import TreeMend.Traced
import TreeMend.Tree.Json
import TreeMend.Tree.Kind
import TreeMend.Tree.Node
import TreeMend.Tree.Outline
import TreeMend.Tree.Walk
import TreeMend.World
import TreeMend.Proofs.Tree.Edit
import TreeMend.Proofs.Reassignment.Search
import TreeMend.Proofs.Fix.Harmless
import TreeMend.Proofs.Fix.Simultaneous
import TreeMend.Proofs.Literal.Reading
import TreeMend.Proofs.Literal.Requote
import TreeMend.Proofs.Program.Parts
import TreeMend.Proofs.Program.Building
import TreeMend.Proofs.Program.Keywords
import TreeMend.Proofs.Program.Requoted
import TreeMend.Proofs.Program.Fixed
import TreeMend.Proofs.Program.Initialized
import TreeMend.Proofs.Lowering.Equations
import TreeMend.Proofs.Lowering.Place
import TreeMend.Proofs.Lowering.Assignments
import TreeMend.Proofs.Lowering.Origins
import TreeMend.Proofs.Reassignment.Uninitialized
import TreeMend.Proofs.Check.SuperCalls
import TreeMend.Proofs.Check.Derived
import TreeMend.Proofs.Text.Boundaries
import TreeMend.Proofs.Supported.Language
import TreeMend.Proofs.Supported.Expressions
import TreeMend.Proofs.Supported.Declarations
import TreeMend.Proofs.Supported.Formatting
import TreeMend.Proofs.Fix.Account
import TreeMend.Proofs.Fix.Idempotence
import TreeMend.Proofs.Literal.Grammar
import TreeMend.Proofs.Literal.Regenerated
import TreeMend.Proofs.Program.Operands
import TreeMend.Proofs.Literal.RoundTrip
import TreeMend.Proofs.Program.Readable
import TreeMend.Proofs.Program.Unambiguous
import TreeMend.Proofs.Check.Meaning
import TreeMend.Proofs.Config.Inert
import TreeMend.Proofs.Check.Commuting
import TreeMend.Proofs.Lowering.Slices
import TreeMend.Proofs.Lowering.Nesting
import TreeMend.Proofs.Lowering.Comments
import TreeMend.Proofs.Literal.Numeric
import TreeMend.Proofs.Literal.SingleQuoted
import TreeMend.Proofs.Files.Writing
import TreeMend.Proofs.Command.Steps
import TreeMend.Proofs.Command.Atomic
import TreeMend.Proofs.Report.Sorting
import TreeMend.Proofs.Lint.Order
import TreeMend.Proofs.Json.Literals
import TreeMend.Proofs.Json.RoundTrip
import TreeMend.Proofs.Tree.SourceOrder
import TreeMend.Proofs.Tree.Stored
import TreeMend.Proofs.Literal.Closed
import TreeMend.Proofs.Program.Lines
import TreeMend.Proofs.Report.Accumulated
import TreeMend.Proofs.Report.Places
import TreeMend.Proofs.Json.Members
import TreeMend.Proofs.Config.Stored
