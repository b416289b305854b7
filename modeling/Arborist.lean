import Arborist.Batch
import Arborist.Catalog
import Arborist.Command.Arguments
import Arborist.Command.Check
import Arborist.Command.ConfigLookup
import Arborist.Command.Excerpt
import Arborist.Command.Init
import Arborist.Command.Options
import Arborist.Command.Outcome
import Arborist.Command.Output
import Arborist.Command.RuleList
import Arborist.Command.Run
import Arborist.Config.Basic
import Arborist.Config.Json
import Arborist.Config.Reader
import Arborist.Diagnostic
import Arborist.Diagnostic.Json
import Arborist.Discovery
import Arborist.Engine
import Arborist.FileSystem
import Arborist.Fix.Edit
import Arborist.Fix.Json
import Arborist.Fix.Proposal
import Arborist.Fix.Resolver
import Arborist.Glob.Basic
import Arborist.Glob.Exclusion
import Arborist.Grammar.Attribute
import Arborist.Grammar.Control
import Arborist.Grammar.Expression
import Arborist.Grammar.File
import Arborist.Grammar.Function
import Arborist.Grammar.Generics
import Arborist.Grammar.Item
import Arborist.Grammar.Lookahead
import Arborist.Grammar.Operator
import Arborist.Grammar.Outline
import Arborist.Grammar.Parser
import Arborist.Grammar.Path
import Arborist.Grammar.Pattern
import Arborist.Grammar.Statement
import Arborist.Grammar.Type
import Arborist.Ignore.Directory
import Arborist.Ignore.Rule
import Arborist.Interest
import Arborist.Json.Basic
import Arborist.Json.Printer
import Arborist.Json.Reader
import Arborist.Main
import Arborist.Path
import Arborist.Report
import Arborist.Report.Json
import Arborist.Reporter
import Arborist.Rule.Basic
import Arborist.Rule.Descriptor
import Arborist.Rule.Json
import Arborist.Rules.CallText
import Arborist.Rules.DebugMacro
import Arborist.Rules.DocComment
import Arborist.Rules.LengthComparison
import Arborist.Rules.Placeholder
import Arborist.Rules.Preset
import Arborist.Rules.Surroundings
import Arborist.Rules.UnwrapExpect
import Arborist.Severity
import Arborist.Source.Comment
import Arborist.Source.Lexeme
import Arborist.Source.Literal
import Arborist.Source.Position
import Arborist.Source.Token
import Arborist.Source.Tokens
import Arborist.SourceFile
import Arborist.Suppression
import Arborist.Text.Bytes
import Arborist.Text.CodePoints
import Arborist.Text.Identifier
import Arborist.Text.LineIndex
import Arborist.Text.LowerCase
import Arborist.Text.Printable
import Arborist.Text.Range
import Arborist.Text.WhiteSpace
import Arborist.Text.Width
import Arborist.Text.Wrap
import Arborist.Toml.Document
import Arborist.Toml.Moment
import Arborist.Toml.Number
import Arborist.Toml.Reader
import Arborist.Toml.Text
import Arborist.Toml.Value
import Arborist.Tree.Basic
import Arborist.Tree.Builder
import Arborist.Tree.Json
import Arborist.Tree.Kind
import Arborist.Tree.OfSource
import Arborist.Tree.Validate
import Arborist.Walk
import Arborist.Proofs.Fix.Edit
import Arborist.Proofs.Fix.Proposal
import Arborist.Proofs.Fix.Resolver
import Arborist.Proofs.Tree.Ordered
import Arborist.Proofs.Tree.Validate
import Arborist.Proofs.Tree.Navigation
import Arborist.Proofs.Walk.Call
import Arborist.Proofs.Walk.Traversal
import Arborist.Proofs.Catalog
import Arborist.Proofs.Interest
import Arborist.Proofs.Walk.Refinement
import Arborist.Proofs.Reporter
import Arborist.Proofs.Walk.Independence
import Arborist.Proofs.Engine
import Arborist.Proofs.Text.Lines
import Arborist.Proofs.Reporter.Finalize
import Arborist.Proofs.Suppression
import Arborist.Proofs.Fix.Outcome
import Arborist.Proofs.Engine.CatalogOrder
import Arborist.Proofs.Fix.Edited
import Arborist.Proofs.Rules.CallText
import Arborist.Proofs.Rules.Preset
import Arborist.Proofs.Rules.SafeFix
import Arborist.Proofs.Walk.CallRecord
import Arborist.Proofs.Engine.Failures
import Arborist.Proofs.Path
import Arborist.Proofs.Batch
import Arborist.Proofs.Tree.Builder
import Arborist.Proofs.Tree.Descent
import Arborist.Proofs.Text.LineIndex
import Arborist.Proofs.Tree.OfSource
import Arborist.Proofs.Source.Tokens
import Arborist.Proofs.Grammar.Faithful
import Arborist.Proofs.Grammar.Keeps
import Arborist.Proofs.Grammar.Attribute
import Arborist.Proofs.Grammar.Type
import Arborist.Proofs.Grammar.Expression
import Arborist.Proofs.Grammar.Item
import Arborist.Proofs.Tree.Literals
import Arborist.Proofs.Engine.Attribution
import Arborist.Proofs.Engine.Lookup
import Arborist.Proofs.Fix.Locality
import Arborist.Proofs.Json.Layout
import Arborist.Proofs.Json.Reading
import Arborist.Proofs.Tree.Json
import Arborist.Proofs.Fix.Script
import Arborist.Proofs.Fix.Selection
import Arborist.Proofs.Fix.Validity
import Arborist.Proofs.Report.Json
import Arborist.Proofs.Rules.Reading
import Arborist.Proofs.Rules.Completion
import Arborist.Proofs.Rules.FittingFix
import Arborist.Proofs.Fix.Stability
import Arborist.Proofs.Tree.Growth
import Arborist.Proofs.Tree.Fitting
import Arborist.Proofs.Text.LineColumn
import Arborist.Proofs.Text.LineEnd
import Arborist.Proofs.Catalog.Verdict
import Arborist.Proofs.Interest.Table
import Arborist.Proofs.Walk.Conduct
import Arborist.Proofs.Engine.Findings
import Arborist.Proofs.Rules.Placeholder
import Arborist.Proofs.Engine.Repetition
import Arborist.Proofs.Rules.LengthComparison
import Arborist.Proofs.Rule.Template
import Arborist.Proofs.Suppression.Directive
import Arborist.Proofs.Batch.RecordedPath
import Arborist.Proofs.FileSystem
import Arborist.Proofs.Command.ConfigLookup
import Arborist.Proofs.Rules.Receiver
import Arborist.Proofs.Rules.MacroArguments
import Arborist.Proofs.Glob.Basic
import Arborist.Proofs.Glob.Exclusion
import Arborist.Proofs.Discovery
