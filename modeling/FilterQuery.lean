import FilterQuery.Command
import FilterQuery.Compile
import FilterQuery.Expr
import FilterQuery.Expr.Operator
import FilterQuery.Json
import FilterQuery.Json.Decimal
import FilterQuery.Json.Equal
import FilterQuery.Json.Number
import FilterQuery.Json.Read
import FilterQuery.Json.Write
import FilterQuery.Lexer
import FilterQuery.Lexer.Dialect
import FilterQuery.Lexer.Error
import FilterQuery.Lexer.Rule
import FilterQuery.Main
import FilterQuery.Number.Binary64
import FilterQuery.Parser
import FilterQuery.Parser.Cursor
import FilterQuery.Parser.Descent
import FilterQuery.Parser.Error
import FilterQuery.Parser.Machine
import FilterQuery.Query.Filter
import FilterQuery.Query.Generate
import FilterQuery.Query.Malformed
import FilterQuery.Query.Schema
import FilterQuery.Settings
import FilterQuery.Settings.File
import FilterQuery.Settings.Flags
import FilterQuery.Settings.Key
import FilterQuery.Settings.Path
import FilterQuery.Settings.Plain
import FilterQuery.Settings.Scalar
import FilterQuery.Settings.Timestamp
import FilterQuery.Settings.Word
import FilterQuery.Settings.Yaml
import FilterQuery.Settings.Yaml.Error
import FilterQuery.Settings.Yaml.Text
import FilterQuery.Suite
import FilterQuery.Suite.Standard
import FilterQuery.Text.Blank
import FilterQuery.Text.Bytes
import FilterQuery.Text.Printable
import FilterQuery.Text.Quoted
import FilterQuery.Text.Utf8
import FilterQuery.Token
import FilterQuery.Token.Kind
import FilterQuery.Token.Position
import FilterQuery.Proofs.Lexing
import FilterQuery.Proofs.Grammar
import FilterQuery.Proofs.MachineGrammar
import FilterQuery.Proofs.Parsing
import FilterQuery.Proofs.Printing
import FilterQuery.Proofs.Meaning
import FilterQuery.Proofs.JsonReading
import FilterQuery.Proofs.Schemas
import FilterQuery.Proofs.Outcome
import FilterQuery.Proofs.Chunks
import FilterQuery.Proofs.Layout
import FilterQuery.Proofs.Depth
import FilterQuery.Proofs.Escaping
import FilterQuery.Proofs.Document
import FilterQuery.Proofs.Runs
import FilterQuery.Proofs.Stopping
import FilterQuery.Proofs.Cursors
import FilterQuery.Proofs.Descent
import FilterQuery.Proofs.Sessions
import FilterQuery.Proofs.InputLines
import FilterQuery.Proofs.CommandRuns
import FilterQuery.Proofs.Shapes
import FilterQuery.Proofs.Grouping
import FilterQuery.Proofs.Spacing
import FilterQuery.Proofs.LongestMatch
import FilterQuery.Proofs.JsonGrammar
import FilterQuery.Proofs.Envelope
import FilterQuery.Proofs.ParsedTrees
import FilterQuery.Proofs.CharacterClasses
import FilterQuery.Proofs.OffsetLexer
import FilterQuery.Proofs.OffsetRuns
import FilterQuery.Proofs.OffsetSessions
import FilterQuery.Proofs.Identities
import FilterQuery.Proofs.Paging
import FilterQuery.Proofs.Addresses
