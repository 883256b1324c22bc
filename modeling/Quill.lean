import Quill.Assoc
import Quill.Calendar.Date
import Quill.Calendar.Iso
import Quill.Catalogue
import Quill.Engine
import Quill.Engine.Directory
import Quill.Engine.Session
import Quill.Engine.Shortcut
import Quill.Expr
import Quill.Expr.Eval
import Quill.Expr.Lexeme
import Quill.Expr.Parse
import Quill.Fault
import Quill.Filter
import Quill.Filter.Dates
import Quill.Filter.Letters
import Quill.Filter.Money
import Quill.Filter.Standard
import Quill.Library
import Quill.Number
import Quill.Number.Binary64
import Quill.Number.Decimal
import Quill.Number.Exact
import Quill.Number.Shortest
import Quill.Path
import Quill.Pipeline
import Quill.Scope
import Quill.Scope.Tree
import Quill.Template
import Quill.Template.Excerpt
import Quill.Template.Nesting
import Quill.Template.Node
import Quill.Template.Parse
import Quill.Template.Paths
import Quill.Template.Render
import Quill.Template.Token
import Quill.Text.Blank
import Quill.Text.CaseTable
import Quill.Text.Casing
import Quill.Text.Digit
import Quill.Text.Html
import Quill.Text.Numeral
import Quill.Text.Phrase
import Quill.Text.Printable
import Quill.Text.Quoted
import Quill.Text.Ranges
import Quill.Text.Scan
import Quill.Text.Trim
import Quill.Text.Word
import Quill.Trace
import Quill.Value
import Quill.Value.Operator
import Quill.Value.Text
import Quill.Proofs.Expr.Grammar
import Quill.Proofs.Expr.Lexemes
import Quill.Proofs.Expr.Reading
import Quill.Proofs.Expr.Accepting
import Quill.Proofs.Template.Tags
import Quill.Proofs.Template.Grammar
import Quill.Proofs.Template.Building
import Quill.Proofs.Value.Inside
import Quill.Proofs.Expr.Outcomes
import Quill.Proofs.Number.Signaling
import Quill.Proofs.Expr.Faults
import Quill.Proofs.Text.Markup
import Quill.Proofs.Value.Unmarked
import Quill.Proofs.Template.Pieces
import Quill.Proofs.Template.Prefixes
import Quill.Proofs.Template.Unrolling
import Quill.Proofs.Template.Delimiters
import Quill.Proofs.Template.Concatenation
import Quill.Proofs.Template.Visits
import Quill.Proofs.Template.Depth
import Quill.Proofs.Template.Unplaced
import Quill.Proofs.Engine.Debug
import Quill.Proofs.Text.Lines
import Quill.Proofs.Engine.Excerpts
import Quill.Proofs.Text.Literals
import Quill.Proofs.Expr.Balance
import Quill.Proofs.Pipeline.Splitting
import Quill.Proofs.Pipeline.Stages
import Quill.Proofs.Engine.History
import Quill.Proofs.Engine.Lookups
import Quill.Proofs.Expr.Places
import Quill.Proofs.Expr.Shapes
import Quill.Proofs.Expr.Positions
import Quill.Proofs.Template.Carried
import Quill.Proofs.Template.Positions
import Quill.Proofs.Template.LoopNames
import Quill.Proofs.Template.PathTags
import Quill.Proofs.Template.Mentions
import Quill.Proofs.Expr.Braces
import Quill.Proofs.Template.MentionedNodes
import Quill.Proofs.Pipeline.Literals
import Quill.Proofs.Expr.Scanning
import Quill.Proofs.Expr.Recursion
import Quill.Proofs.Number.Worth
import Quill.Proofs.Value.Equality
import Quill.Proofs.Scope.Overlays
import Quill.Proofs.Scope.Growth
import Quill.Proofs.Template.Copies
import Quill.Proofs.Template.NodeTokens
import Quill.Proofs.Expr.Operands
import Quill.Proofs.Pipeline.Arguments
import Quill.Proofs.Text.Numerals
import Quill.Proofs.Number.Rounding
import Quill.Proofs.Number.Written
import Quill.Proofs.Filter.Money
import Quill.Proofs.Template.Levels
import Quill.Proofs.Template.FilterFailures
import Quill.Proofs.Template.Chains
import Quill.Proofs.Expr.WrittenPaths
import Quill.Proofs.Template.Assembly
import Quill.Proofs.Template.Mirroring
import Quill.Proofs.Template.Stack
import Quill.Proofs.Number.Truncation
import Quill.Proofs.Filter.Shortening
import Quill.Proofs.Expr.Walk
import Quill.Proofs.Expr.Moments
import Quill.Proofs.Expr.Progress
