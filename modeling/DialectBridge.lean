import DialectBridge.CommandLine.Arguments
import DialectBridge.CommandLine.Command
import DialectBridge.CommandLine.Report
import DialectBridge.CommandLine.Switch
import DialectBridge.Config
import DialectBridge.Conversion
import DialectBridge.Dialect
import DialectBridge.Dialect.Lookup
import DialectBridge.Error
import DialectBridge.Idiom.Audit
import DialectBridge.Idiom.Clause
import DialectBridge.Idiom.Oracle
import DialectBridge.Json.Basic
import DialectBridge.Json.Decoder
import DialectBridge.Json.Printer
import DialectBridge.Json.Reader
import DialectBridge.Layout
import DialectBridge.Lexical.Describe
import DialectBridge.Lexical.Keyword
import DialectBridge.Lexical.Scan
import DialectBridge.Lexical.Segment
import DialectBridge.Lexical.Span
import DialectBridge.Lexical.Token
import DialectBridge.Log
import DialectBridge.Main
import DialectBridge.Migration
import DialectBridge.Pattern.Basic
import DialectBridge.Pattern.Search
import DialectBridge.Procedure.Document
import DialectBridge.Procedure.Naming
import DialectBridge.Procedure.Python
import DialectBridge.Procedure.PythonType
import DialectBridge.Procedure.Signature
import DialectBridge.Procedure.Stub
import DialectBridge.Proofs.Conversion.ColumnTypes
import DialectBridge.Proofs.Conversion.Definition
import DialectBridge.Proofs.Conversion.Items
import DialectBridge.Proofs.Conversion.SerialColumns
import DialectBridge.Proofs.Conversion.Strictness
import DialectBridge.Proofs.Conversion.TypeAudit
import DialectBridge.Proofs.Conversion.Untyped
import DialectBridge.Proofs.Idiom.Absence
import DialectBridge.Proofs.Idiom.Again
import DialectBridge.Proofs.Idiom.Outside
import DialectBridge.Proofs.Idiom.Protection
import DialectBridge.Proofs.Idiom.Renewed
import DialectBridge.Proofs.Idiom.WholeWords
import DialectBridge.Proofs.Json.RoundTrip
import DialectBridge.Proofs.Layout.Again
import DialectBridge.Proofs.Layout.Code
import DialectBridge.Proofs.Layout.Scan
import DialectBridge.Proofs.Layout.Tables
import DialectBridge.Proofs.Layout.Tokens
import DialectBridge.Proofs.Lexical.Break
import DialectBridge.Proofs.Lexical.Chain
import DialectBridge.Proofs.Lexical.Gaps
import DialectBridge.Proofs.Lexical.Insertion
import DialectBridge.Proofs.Lexical.Lexeme
import DialectBridge.Proofs.Lexical.Line
import DialectBridge.Proofs.Lexical.Locality
import DialectBridge.Proofs.Lexical.Partition
import DialectBridge.Proofs.Lexical.Plain
import DialectBridge.Proofs.Lexical.Respaced
import DialectBridge.Proofs.Lexical.Shielded
import DialectBridge.Proofs.Lexical.Spans
import DialectBridge.Proofs.Lexical.Tiling
import DialectBridge.Proofs.Migration.Definitions
import DialectBridge.Proofs.Migration.Dropped
import DialectBridge.Proofs.Migration.Rebuilt
import DialectBridge.Proofs.Migration.Rendered
import DialectBridge.Proofs.Migration.Replay
import DialectBridge.Proofs.Pattern.Alternatives
import DialectBridge.Proofs.Pattern.Cutting
import DialectBridge.Proofs.Pattern.InStep
import DialectBridge.Proofs.Pattern.Reach
import DialectBridge.Proofs.Pattern.Replaced
import DialectBridge.Proofs.Pattern.Run
import DialectBridge.Proofs.Pattern.Word
import DialectBridge.Proofs.Procedure.FirstHeader
import DialectBridge.Proofs.Procedure.Headers
import DialectBridge.Proofs.Procedure.Parameters
import DialectBridge.Proofs.Procedure.SnakeCase
import DialectBridge.Proofs.Procedure.StubNames
import DialectBridge.Proofs.Reading.Ahead
import DialectBridge.Proofs.Reading.Flat
import DialectBridge.Proofs.Reading.Group
import DialectBridge.Proofs.Reading.GroupParts
import DialectBridge.Proofs.Reading.InStep
import DialectBridge.Proofs.Reading.Lists
import DialectBridge.Proofs.Reading.Names
import DialectBridge.Proofs.Reading.Nesting
import DialectBridge.Proofs.Reading.Stop
import DialectBridge.Proofs.Rename.Columns
import DialectBridge.Proofs.Rename.Conflicts
import DialectBridge.Proofs.Rename.Declarations
import DialectBridge.Proofs.Rename.Lookup
import DialectBridge.Proofs.Rename.Names
import DialectBridge.Proofs.Rename.Reading
import DialectBridge.Proofs.Rename.Record
import DialectBridge.Proofs.Rename.Renamed
import DialectBridge.Proofs.Rename.RenamedTables
import DialectBridge.Proofs.Rename.Scripts
import DialectBridge.Proofs.Rename.Segments
import DialectBridge.Proofs.Rename.Shapes
import DialectBridge.Proofs.Rename.Statements
import DialectBridge.Proofs.Rename.Tokens
import DialectBridge.Proofs.Rename.WordByWord
import DialectBridge.Proofs.Rename.Words
import DialectBridge.Proofs.Schema.Alone
import DialectBridge.Proofs.Schema.Attributes
import DialectBridge.Proofs.Schema.Bodies
import DialectBridge.Proofs.Schema.BodyTexts
import DialectBridge.Proofs.Schema.DeclaredTypes
import DialectBridge.Proofs.Schema.DefaultWords
import DialectBridge.Proofs.Schema.IndexFragments
import DialectBridge.Proofs.Schema.Interleaved
import DialectBridge.Proofs.Schema.MeantTables
import DialectBridge.Proofs.Schema.Order
import DialectBridge.Proofs.Schema.Parts
import DialectBridge.Proofs.Schema.PlainTable
import DialectBridge.Proofs.Schema.Statements
import DialectBridge.Proofs.Schema.Stored
import DialectBridge.Proofs.Schema.Verbatim
import DialectBridge.Proofs.Schema.Written
import DialectBridge.Proofs.Serial.Columns
import DialectBridge.Proofs.Serial.Matching
import DialectBridge.Proofs.Serial.Types
import DialectBridge.Proofs.Spacing.Columns
import DialectBridge.Proofs.Spacing.Filler
import DialectBridge.Proofs.Spacing.Readers
import DialectBridge.Proofs.Spacing.Statements
import DialectBridge.Proofs.Spacing.Trim
import DialectBridge.Proofs.Spacing.Trimmed
import DialectBridge.Proofs.Text.Bare
import DialectBridge.Proofs.Text.Case
import DialectBridge.Proofs.Text.Characters
import DialectBridge.Proofs.Text.Lowercase
import DialectBridge.Proofs.Text.Run
import DialectBridge.Proofs.Text.Split
import DialectBridge.Proofs.Text.Trim
import DialectBridge.Proofs.Types.Alternation
import DialectBridge.Proofs.Types.Arguments
import DialectBridge.Proofs.Types.CarriedSizes
import DialectBridge.Proofs.Types.Columns
import DialectBridge.Proofs.Types.CommentInserted
import DialectBridge.Proofs.Types.CutMask
import DialectBridge.Proofs.Types.Declared
import DialectBridge.Proofs.Types.FilledChanges
import DialectBridge.Proofs.Types.FilledTypes
import DialectBridge.Proofs.Types.Filling
import DialectBridge.Proofs.Types.Holes
import DialectBridge.Proofs.Types.LaterChanges
import DialectBridge.Proofs.Types.LaterTypes
import DialectBridge.Proofs.Types.NamePlaces
import DialectBridge.Proofs.Types.Precisions
import DialectBridge.Proofs.Types.Protection
import DialectBridge.Proofs.Types.Recorded
import DialectBridge.Proofs.Types.Renumbering
import DialectBridge.Proofs.Types.Replacing
import DialectBridge.Proofs.Types.RuleMatch
import DialectBridge.Proofs.Types.RuleOrder
import DialectBridge.Proofs.Types.RuleRun
import DialectBridge.Proofs.Types.SameCode
import DialectBridge.Proofs.Types.Shape
import DialectBridge.Proofs.Types.SpacedSizes
import DialectBridge.Proofs.Types.SpacedTypes
import DialectBridge.Proofs.Types.Spelling
import DialectBridge.Proofs.Types.Template
import DialectBridge.Proofs.Types.TypesAhead
import DialectBridge.Proofs.Types.Unmasked
import DialectBridge.Proofs.Types.UnmaskedChanges
import DialectBridge.Reading.Cursor
import DialectBridge.Reading.Reader
import DialectBridge.Rename.Glossary
import DialectBridge.Rename.Renaming
import DialectBridge.Schema.ColumnDefinition
import DialectBridge.Schema.Constraint
import DialectBridge.Schema.Document
import DialectBridge.Schema.Script
import DialectBridge.Schema.Statement
import DialectBridge.Schema.Table
import DialectBridge.SerialColumn
import DialectBridge.Text.Alphabetic
import DialectBridge.Text.Basic
import DialectBridge.Text.Blank
import DialectBridge.Text.CodePoint
import DialectBridge.Text.LetterCase
import DialectBridge.Text.Numeric
import DialectBridge.Text.Printable
import DialectBridge.Text.Quoted
import DialectBridge.Text.SortedMap
import DialectBridge.Text.WordCharacter
import DialectBridge.Types.Mask
import DialectBridge.Types.MySql
import DialectBridge.Types.NamePlace
import DialectBridge.Types.Oracle
import DialectBridge.Types.Route
import DialectBridge.Types.Rule
import DialectBridge.Types.Table
