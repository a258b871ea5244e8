import CommandSyntax.Text
import CommandSyntax.Span
import CommandSyntax.Diagnostic
import CommandSyntax.Token
import CommandSyntax.ScanError
import CommandSyntax.Token.Rule
import CommandSyntax.Token.Lexeme
import CommandSyntax.Token.Scanner
import CommandSyntax.Token.Stream
import CommandSyntax.Script
import CommandSyntax.SyntaxError
import CommandSyntax.Quoting
import CommandSyntax.Grammar.Production
import CommandSyntax.Grammar.Word
import CommandSyntax.Grammar.Command
import CommandSyntax.Grammar.Statement
import CommandSyntax.Parse
import CommandSyntax.Script.Node
import CommandSyntax.Script.Query
import CommandSyntax.Script.Visitor
import CommandSyntax.Validation
import CommandSyntax.Validation.Inspector
import CommandSyntax.Log
import CommandSyntax.Json
import CommandSyntax.Json.Token
import CommandSyntax.Json.Limits
import CommandSyntax.Json.Script
import CommandSyntax.Proofs.Token.Tiling
import CommandSyntax.Proofs.Token.Layout
import CommandSyntax.Proofs.Grammar.Passing
import CommandSyntax.Proofs.Grammar.Standing
import CommandSyntax.Proofs.Grammar.ReadingBack
import CommandSyntax.Proofs.Grammar.Language
import CommandSyntax.Proofs.Grammar.Ahead
import CommandSyntax.Proofs.Grammar.Derivation
import CommandSyntax.Proofs.Grammar.WordAcceptance
import CommandSyntax.Proofs.Grammar.ScriptAcceptance
import CommandSyntax.Proofs.Grammar.Orderly
import CommandSyntax.Proofs.Grammar.Simulation
import CommandSyntax.Proofs.Grammar.Loop
import CommandSyntax.Proofs.Grammar.CommandSuccess
import CommandSyntax.Proofs.Grammar.StatementSuccess
import CommandSyntax.Proofs.Script.Nodes
import CommandSyntax.Proofs.Script.Spans
import CommandSyntax.Proofs.Script.Printing
import CommandSyntax.Proofs.Grammar.Origin
import CommandSyntax.Proofs.Grammar.WordSuccess
import CommandSyntax.Proofs.Token.Scanning
import CommandSyntax.Proofs.Token.Shape
import CommandSyntax.Proofs.Token.Cutting
import CommandSyntax.Proofs.Token.Moving
import CommandSyntax.Proofs.Token.Settling
import CommandSyntax.Proofs.Token.Unreadable
import CommandSyntax.Proofs.Parse.Trace
import CommandSyntax.Proofs.Parse.Separation
import CommandSyntax.Proofs.Parse.RoundTrip
import CommandSyntax.Proofs.Parse.Derivability
import CommandSyntax.Proofs.Grammar.Following
import CommandSyntax.Proofs.Parse.Finality
import CommandSyntax.Proofs.Grammar.Continuing
import CommandSyntax.Proofs.Parse.Composition
import CommandSyntax.Proofs.Parse.Enclosure
import CommandSyntax.Proofs.Script.Placement
import CommandSyntax.Proofs.Grammar.Framing
import CommandSyntax.Proofs.Parse.Placement
import CommandSyntax.Proofs.Script.Depth
import CommandSyntax.Proofs.Script.Violations
import CommandSyntax.Proofs.Grammar.Noticing
import CommandSyntax.Proofs.Token.Boundary
import CommandSyntax.Proofs.Token.Bytes
import CommandSyntax.Proofs.Token.Runs
import CommandSyntax.Proofs.Parse.Soundness
import CommandSyntax.Proofs.Parse.Reporting
import CommandSyntax.Proofs.Parse.Nesting
import CommandSyntax.Proofs.Script.Ways
import CommandSyntax.Proofs.Script.Inspection
import CommandSyntax.Proofs.Grammar.Alone
import CommandSyntax.Proofs.Token.Spelling
import CommandSyntax.Proofs.Token.Pairing
import CommandSyntax.Proofs.Parse.EmptyWords
import CommandSyntax.Proofs.Parse.Escaping
import CommandSyntax.Proofs.Parse.QuotedText
import CommandSyntax.Proofs.Token.Spacing
import CommandSyntax.Proofs.Token.Precedence
import CommandSyntax.Proofs.Token.Faults
import CommandSyntax.Proofs.Parse.Interleaving
import CommandSyntax.Proofs.Token.Recutting
import CommandSyntax.Proofs.Token.Respacing
import CommandSyntax.Proofs.Token.LayoutEdit
import CommandSyntax.Proofs.Grammar.Beside
import CommandSyntax.Proofs.Grammar.WordRespacing
import CommandSyntax.Proofs.Grammar.ScriptRespacing
import CommandSyntax.Proofs.Parse.Respacing
import CommandSyntax.Proofs.Script.Addresses
import CommandSyntax.Proofs.Script.Visiting
import CommandSyntax.Proofs.Script.Queries
import CommandSyntax.Proofs.Json.Members
import CommandSyntax.Proofs.Json.Loosening
import CommandSyntax.Proofs.Json.RoundTrip
import CommandSyntax.Proofs.Script.SourceOrder
import CommandSyntax.Proofs.Script.Mentions
import CommandSyntax.Proofs.Grammar.WordMentioning
import CommandSyntax.Proofs.Grammar.ScriptMentioning
import CommandSyntax.Proofs.Parse.Parameters
import CommandSyntax.Proofs.Diagnostic.Lines
import CommandSyntax.Proofs.Diagnostic.Locating
import CommandSyntax.Proofs.Diagnostic.Underlining
import CommandSyntax.Proofs.Grammar.Descent
import CommandSyntax.Proofs.Parse.Termination
