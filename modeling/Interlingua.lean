import Interlingua.Dialect.Applicative
import Interlingua.Dialect.Basic
import Interlingua.Dialect.Braces
import Interlingua.Dialect.Indented
import Interlingua.Dict
import Interlingua.Json.Basic
import Interlingua.Json.Parser
import Interlingua.Json.Printer
import Interlingua.Language
import Interlingua.Layout
import Interlingua.Main
import Interlingua.Number.Binary64
import Interlingua.Number.Decimal
import Interlingua.Number.Radix
import Interlingua.Number.Scaled
import Interlingua.Number.Shortest
import Interlingua.Program.Agreement
import Interlingua.Program.Basic
import Interlingua.Program.Json
import Interlingua.Program.Literal
import Interlingua.Program.Mentions
import Interlingua.Proofs.Dict
import Interlingua.Proofs.Program.Everywhere
import Interlingua.Proofs.Reading.Origins
import Interlingua.Proofs.Reading.Tracing
import Interlingua.Proofs.Record.Restoring
import Interlingua.Reading.Basic
import Interlingua.Reading.Java
import Interlingua.Reading.Python
import Interlingua.Reading.Script
import Interlingua.Reading.Source
import Interlingua.Reading.Walk
import Interlingua.Record.Basic
import Interlingua.Record.Comment
import Interlingua.Record.Json
import Interlingua.Record.Queue
import Interlingua.Session.Arguments
import Interlingua.Session.Files
import Interlingua.Session.Path
import Interlingua.Session.Run
import Interlingua.Session.Settings
import Interlingua.Session.Transpile
import Interlingua.Text.Blank
import Interlingua.Text.Find
import Interlingua.Text.Lines
import Interlingua.Text.Quoted
import Interlingua.Toml.Basic
import Interlingua.Toml.Parser
import Interlingua.Toml.Scalar
import Interlingua.Toml.Table
import Interlingua.Toml.Text
import Interlingua.Tree
import Interlingua.Tree.Json
import Interlingua.Types
import Interlingua.Writing.Expression
import Interlingua.Writing.Piece
import Interlingua.Writing.Sheet
import Interlingua.Writing.Statement
import Interlingua.Proofs.Reading.ConsumerRows
import Interlingua.Proofs.Syntax.Clause
import Interlingua.Proofs.Writing.Lines
import Interlingua.Proofs.Json.Compact
import Interlingua.Proofs.Record.Text
import Interlingua.Proofs.Number.Numerals
import Interlingua.Proofs.Text.Quoting
import Interlingua.Proofs.Syntax.Tidy
import Interlingua.Proofs.Record.Comment
import Interlingua.Proofs.Record.Scanning
import Interlingua.Proofs.Number.Reread
import Interlingua.Proofs.Syntax.Core
import Interlingua.Proofs.Program.Agreement
import Interlingua.Proofs.Syntax.Meaning
import Interlingua.Proofs.Reading.Phrases
import Interlingua.Proofs.Syntax.Valid
import Interlingua.Proofs.Reading.Yields
import Interlingua.Proofs.Reading.Clauses
import Interlingua.Proofs.Record.Aligning
import Interlingua.Proofs.Layout
import Interlingua.Proofs.RoundTrip
import Interlingua.Proofs.Syntax.Precedence
import Interlingua.Proofs.Writing.Parentheses
import Interlingua.Proofs.Record.Attaching
import Interlingua.Proofs.Reading.Modes
import Interlingua.Proofs.Program.Blocks
import Interlingua.Proofs.Writing.Outline
import Interlingua.Proofs.Writing.Scoping
import Interlingua.Proofs.Types
import Interlingua.Proofs.Record.Declaring
import Interlingua.Proofs.Program.Normal
import Interlingua.Proofs.Reading.Ensuring
import Interlingua.Proofs.Reading.Normal
import Interlingua.Proofs.Program.Loose
import Interlingua.Proofs.Reading.Forward
import Interlingua.Proofs.Reading.Scopes
import Interlingua.Proofs.Layout.Nested
import Interlingua.Proofs.Writing.Nesting
import Interlingua.Proofs.Writing.Indentation
import Interlingua.Proofs.Layout.Literals
import Interlingua.Proofs.Session.Files
import Interlingua.Proofs.Session.Transpile
import Interlingua.Proofs.Json.Pretty
import Interlingua.Proofs.Reading.Signatures
import Interlingua.Proofs.Record.Listing
import Interlingua.Proofs.Session.Supply
import Interlingua.Proofs.Number.Value
import Interlingua.Proofs.Program.Literals
import Interlingua.Proofs.Program.Likeness
import Interlingua.Proofs.Record.Transit
import Interlingua.Proofs.Layout.Balance
import Interlingua.Proofs.Layout.Reindent
import Interlingua.Proofs.Reading.Rows
import Interlingua.Proofs.Reading.Expressions
import Interlingua.Proofs.Number.Positional
import Interlingua.Proofs.Text.Escapes
import Interlingua.Proofs.Number.Signs
import Interlingua.Proofs.Reading.Numbers
import Interlingua.Proofs.Types.Spelling
import Interlingua.Proofs.Dict.Lookup
import Interlingua.Proofs.Json.Keyed
import Interlingua.Proofs.Record.Salvage
import Interlingua.Proofs.Reading.ParamTypes
import Interlingua.Proofs.Program.Places
import Interlingua.Proofs.Writing.Appending
import Interlingua.Proofs.Writing.Unknowns
import Interlingua.Proofs.Writing.Comments
import Interlingua.Proofs.Writing.Juxtaposition
import Interlingua.Proofs.Syntax.Munch
import Interlingua.Proofs.Writing.Tokens
import Interlingua.Proofs.Session.Siblings
import Interlingua.Proofs.Session.Inputs
import Interlingua.Proofs.Writing.Descriptions
import Interlingua.Proofs.Writing.Settling
