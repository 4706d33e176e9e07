import TableDoc.Calendar
import TableDoc.Cell
import TableDoc.Cell.Dates
import TableDoc.CommandLine
import TableDoc.CommandLine.Arguments
import TableDoc.CommandLine.Folder
import TableDoc.Compilation
import TableDoc.Compilation.Fault
import TableDoc.Compilation.Pairing
import TableDoc.Compilation.Plan
import TableDoc.Compilation.Result
import TableDoc.Compilation.Rows
import TableDoc.Decimal.Binary
import TableDoc.Decimal.Layout
import TableDoc.Decimal.Numeral
import TableDoc.Decimal.Shortest
import TableDoc.Diagnostic
import TableDoc.Diagnostic.Code
import TableDoc.Document
import TableDoc.Formula.Dependency
import TableDoc.Formula.Error
import TableDoc.Formula.Evaluation
import TableDoc.Formula.Expr
import TableDoc.Formula.Function
import TableDoc.Formula.Lexer
import TableDoc.Formula.Operator
import TableDoc.Formula.Parser
import TableDoc.Formula.References
import TableDoc.Formula.Rounding
import TableDoc.Formula.Token
import TableDoc.Interpolation
import TableDoc.Interpolation.Reference
import TableDoc.Interpolation.Segment
import TableDoc.Json
import TableDoc.Markdown.Fence
import TableDoc.Markdown.PipeRow
import TableDoc.Markdown.Table
import TableDoc.Proofs.Calendar
import TableDoc.Proofs.Cell
import TableDoc.Proofs.Compilation.FrontSection
import TableDoc.Proofs.Compilation.LineBreaks
import TableDoc.Proofs.Compilation.NullKeys
import TableDoc.Proofs.Compilation.Order
import TableDoc.Proofs.Compilation.Pairing
import TableDoc.Proofs.Compilation.Places
import TableDoc.Proofs.Compilation.Preparation
import TableDoc.Proofs.Compilation.RowKeys
import TableDoc.Proofs.Compilation.Rows
import TableDoc.Proofs.Compilation.Shape
import TableDoc.Proofs.Decimal
import TableDoc.Proofs.Diagnostic
import TableDoc.Proofs.Diagnostic.Mentions
import TableDoc.Proofs.Document
import TableDoc.Proofs.Double
import TableDoc.Proofs.Formula.AggregateCalls
import TableDoc.Proofs.Formula.Arrangement
import TableDoc.Proofs.Formula.Boundaries
import TableDoc.Proofs.Formula.Comparisons
import TableDoc.Proofs.Formula.Correspondence
import TableDoc.Proofs.Formula.DependencyOrder
import TableDoc.Proofs.Formula.Ending
import TableDoc.Proofs.Formula.Errors
import TableDoc.Proofs.Formula.Folding
import TableDoc.Proofs.Formula.Grammar
import TableDoc.Proofs.Formula.Lexemes
import TableDoc.Proofs.Formula.Lossless
import TableDoc.Proofs.Formula.Nulls
import TableDoc.Proofs.Formula.ParserSteps
import TableDoc.Proofs.Formula.Parsing
import TableDoc.Proofs.Formula.Printing
import TableDoc.Proofs.Formula.References
import TableDoc.Proofs.Formula.Simulation
import TableDoc.Proofs.Formula.Spacing
import TableDoc.Proofs.Formula.Surroundings
import TableDoc.Proofs.Formula.Vocabulary
import TableDoc.Proofs.Interpolation.Groups
import TableDoc.Proofs.Interpolation.Offsets
import TableDoc.Proofs.Interpolation.Places
import TableDoc.Proofs.Interpolation.Reference
import TableDoc.Proofs.Interpolation.Runs
import TableDoc.Proofs.Interpolation.Scan
import TableDoc.Proofs.Interpolation.Substitution
import TableDoc.Proofs.Markdown.Cells
import TableDoc.Proofs.Markdown.Fences
import TableDoc.Proofs.Markdown.Printing
import TableDoc.Proofs.Markdown.Spans
import TableDoc.Proofs.Markdown.Table
import TableDoc.Proofs.Row
import TableDoc.Proofs.Schema.Blocks
import TableDoc.Proofs.Schema.Grouping
import TableDoc.Proofs.Schema.Keys
import TableDoc.Proofs.Schema.Levels
import TableDoc.Proofs.Schema.Names
import TableDoc.Proofs.Schema.Places
import TableDoc.Proofs.Sequence
import TableDoc.Proofs.Store.Calls
import TableDoc.Proofs.Store.Completion
import TableDoc.Proofs.Store.Errors
import TableDoc.Proofs.Store.Groups
import TableDoc.Proofs.Store.Lookups
import TableDoc.Proofs.Store.Recomputation
import TableDoc.Proofs.Store.Recursion
import TableDoc.Proofs.Store.Reordering
import TableDoc.Proofs.Store.Repetition
import TableDoc.Proofs.Store.Requests
import TableDoc.Proofs.Store.RowStates
import TableDoc.Proofs.Store.Run
import TableDoc.Proofs.Store.State
import TableDoc.Proofs.Store.Termination
import TableDoc.Proofs.Text
import TableDoc.Proofs.Text.Slices
import TableDoc.Proofs.Yaml.Keys
import TableDoc.Row
import TableDoc.Scalar
import TableDoc.Schema.Basic
import TableDoc.Schema.Declaration
import TableDoc.Schema.Fault
import TableDoc.Schema.Layout
import TableDoc.Span
import TableDoc.Store.Aggregate
import TableDoc.Store.Basic
import TableDoc.Store.Materialize
import TableDoc.Text.Blank
import TableDoc.Text.Bytes
import TableDoc.Text.Digit
import TableDoc.Text.Lines
import TableDoc.Text.Word
import TableDoc.Yaml.Cursor
import TableDoc.Yaml.Event
import TableDoc.Yaml.Load
import TableDoc.Yaml.Loader
import TableDoc.Yaml.Plain
import TableDoc.Yaml.Token
import TableDoc.Yaml.Token.Property
import TableDoc.Yaml.Token.Scalar
import TableDoc.Yaml.Token.Scan
import TableDoc.Yaml.Value
import TableDoc.Main
