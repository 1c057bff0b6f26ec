import Quill.Token
import Quill.Token.Lexer
import Quill.Decimal.Shortest
import Quill.Decimal.Layout
import Quill.Decimal.Reader
import Quill.Operator
import Quill.Tree
import Quill.Tree.Printer
import Quill.Tree.Traversal
import Quill.Diagnostic
import Quill.Parser.Cursor
import Quill.Parser.Statement
import Quill.Parser.Expression
import Quill.Parser
import Quill.Assoc
import Quill.Fault
import Quill.Value
import Quill.Value.Printer
import Quill.Value.Equality
import Quill.Text.Hidden
import Quill.Text
import Quill.Scope
import Quill.Output
import Quill.Machine
import Quill.Arithmetic.Integer
import Quill.Arithmetic.Floating
import Quill.Operation
import Quill.Builtin
import Quill.Quotation
import Quill.Evaluation
import Quill.Expansion
import Quill.Session
import Quill.CommandLine.Arguments
import Quill.CommandLine.Report
import Quill.CommandLine
import Quill.Main
import Quill.Proofs.Discipline
import Quill.Proofs.Discipline.Evaluation
import Quill.Proofs.Discipline.Watching
import Quill.Proofs.Discipline.Sessions
import Quill.Proofs.ControlValues
import Quill.Proofs.Grammar
import Quill.Proofs.Parser.Reading
import Quill.Proofs.Parser.Settling
import Quill.Proofs.Decimal
import Quill.Proofs.Grammar.FirstWords
import Quill.Proofs.Parser.Completeness
import Quill.Proofs.Parsing
import Quill.Proofs.Precedence
import Quill.Proofs.Rendering
import Quill.Proofs.Growth
import Quill.Proofs.Locality
import Quill.Proofs.Output
import Quill.Proofs.Layout
import Quill.Proofs.Lexer.Tiling
import Quill.Proofs.Store.Flat
import Quill.Proofs.Separation
import Quill.Proofs.MacroFree
import Quill.Proofs.Juxtaposition
import Quill.Proofs.Stepwise
import Quill.Proofs.Quotation
import Quill.Proofs.Parser.Progress
import Quill.Proofs.Termination
import Quill.Proofs.Arithmetic
import Quill.Proofs.Diagnostics
import Quill.Proofs.Tree.Walk
import Quill.Proofs.Tree.Noting
import Quill.Proofs.EarlyExit
import Quill.Proofs.Tree.Rewriting
import Quill.Proofs.Substitution
import Quill.Proofs.Tree.Sameness
import Quill.Proofs.Equality
import Quill.Proofs.Hashes
import Quill.Proofs.Tree.Calls
import Quill.Proofs.MacroDefinitions
import Quill.Proofs.Arithmetic.Power
import Quill.Proofs.WellFormed
import Quill.Proofs.Quotation.Returns
import Quill.Proofs.Tree.Rejection
import Quill.Proofs.Grammar.Placement
import Quill.Proofs.Rendering.Signs
import Quill.Proofs.Quotation.Integers
