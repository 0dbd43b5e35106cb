import MathMarkup.Conversion
import MathMarkup.Document.Delimiters
import MathMarkup.Document.Replacement
import MathMarkup.Formula.Brackets
import MathMarkup.Formula.Expression
import MathMarkup.Formula.Expression.Parser
import MathMarkup.Formula.Fault
import MathMarkup.Formula.Report
import MathMarkup.Formula.Spelling
import MathMarkup.Formula.Symbol
import MathMarkup.Formula.Token
import MathMarkup.Formula.Token.Lexer
import MathMarkup.Main
import MathMarkup.Markup.Element
import MathMarkup.Markup.Writer
import MathMarkup.Presentation.Elements
import MathMarkup.Presentation.Emission
import MathMarkup.Presentation.Matrix
import MathMarkup.Presentation.Node
import MathMarkup.Presentation.Typeset
import MathMarkup.Program.Arguments
import MathMarkup.Program.FileTree
import MathMarkup.Program.Run
import MathMarkup.Proofs.Formula.Bracketing
import MathMarkup.Proofs.Formula.Completeness
import MathMarkup.Proofs.Formula.Soundness
import MathMarkup.Proofs.Formula.Syntax
import MathMarkup.Proofs.Formula.Unambiguity
import MathMarkup.SettingsFile
import MathMarkup.Text.Blank
import MathMarkup.Text.Escape
import MathMarkup.Text.Location
import MathMarkup.Text.Reference
import MathMarkup.Toml.Document
import MathMarkup.Toml.Scalar
import MathMarkup.Toml.Strings
import MathMarkup.Toml.Value
import MathMarkup.Proofs.Formula.Scanning
import MathMarkup.Proofs.Formula.Grammar
import MathMarkup.Proofs.Formula.BracketFaults
import MathMarkup.Proofs.Presentation.Emission
import MathMarkup.Proofs.Conversion.Emission
import MathMarkup.Proofs.Conversion.WellFormed
import MathMarkup.Proofs.Conversion.Operands
import MathMarkup.Proofs.Formula.LexicalSyntax
import MathMarkup.Proofs.Formula.Tiling
import MathMarkup.Proofs.Formula.Separation
import MathMarkup.Proofs.Conversion.Juxtaposition
import MathMarkup.Proofs.Document.Occurrences
import MathMarkup.Proofs.Document.Splitting
import MathMarkup.Proofs.Formula.Prefixes
import MathMarkup.Proofs.Formula.Stopping
import MathMarkup.Proofs.Formula.OrderFaults
import MathMarkup.Proofs.Conversion.Alphabet
import MathMarkup.Proofs.Conversion.Lines
import MathMarkup.Proofs.Conversion.Spacing
import MathMarkup.Proofs.Document.Idempotence
import MathMarkup.Proofs.Formula.Relocation
import MathMarkup.Proofs.Formula.Spacing
import MathMarkup.Proofs.Formula.Texts
import MathMarkup.Proofs.Markup.Alphabet
import MathMarkup.Proofs.Markup.Pieces
import MathMarkup.Proofs.Presentation.Texts
import MathMarkup.Proofs.Program.FileTree
import MathMarkup.Proofs.Program.Pages
import MathMarkup.Proofs.Document.References
import MathMarkup.Proofs.Presentation.ColumnLines
import MathMarkup.Proofs.Document.Escapes
import MathMarkup.Proofs.Formula.Fractions
import MathMarkup.Proofs.Formula.Tidy
import MathMarkup.Proofs.Presentation.Rendering
import MathMarkup.Proofs.Conversion.Tidy
import MathMarkup.Proofs.Formula.Height
import MathMarkup.Proofs.Presentation.Height
import MathMarkup.Proofs.Conversion.Height
import MathMarkup.Formula.Expression.Counting
import MathMarkup.Proofs.Formula.Readers
import MathMarkup.Proofs.Formula.CutOff
import MathMarkup.Proofs.Formula.NestingLimit
import MathMarkup.Proofs.Formula.Tallies
import MathMarkup.Proofs.Document.RoundTrip
import MathMarkup.Proofs.Markup.Tags
import MathMarkup.Proofs.Conversion.SourceText
import MathMarkup.Proofs.Formula.Rewording
import MathMarkup.Proofs.Formula.Verbatim
import MathMarkup.Proofs.Markup.Rewording
import MathMarkup.Proofs.Presentation.Rewording
import MathMarkup.Proofs.Presentation.Dropped
import MathMarkup.Proofs.Conversion.Opacity
import MathMarkup.Loop
import MathMarkup.Text.Bytes
import MathMarkup.Formula.Spelling.Lookup
import MathMarkup.Document.Bytewise
import MathMarkup.Proofs.Text.Utf8
import MathMarkup.Proofs.Text.Locations
import MathMarkup.Proofs.Formula.LongestMatch
import MathMarkup.Proofs.Formula.Exceeding
import MathMarkup.Proofs.Formula.FaultSpans
import MathMarkup.Proofs.Document.ByteSearch
import MathMarkup.Proofs.Document.Bytewise
import MathMarkup.Proofs.Formula.Decomposition
