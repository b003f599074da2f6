import DialectBridge.Lexical.Segment
import DialectBridge.Log
import DialectBridge.Pattern.Search

/-!
# Columns fed by sequences

Oracle writes an identity column as `id NUMBER DEFAULT orders_seq.NEXTVAL`; PostgreSQL writes it as
`id SERIAL`. Nothing is asked of the sequence, and its own statement stays.
-/

namespace DialectBridge

/-- A column that became serial, and the sequence that fed it. -/
structure SerialColumn where
  column : Text
  sequence : Text
  deriving DecidableEq, Repr

namespace SerialColumn

open Pattern

/-- A bare name, as patterns see it. -/
def name : Pattern :=
  some fun c => isWordCharacter c || c == '$' || c == '#'

/-- The numeric types that a sequence can feed. -/
def numericType : Pattern :=
  choice [text "NUMBER", text "NUMERIC", text "INTEGER", text "INT", text "BIGINT", text "DECIMAL"]

/-- A precision in parentheses, with or without a scale. -/
def precision : Pattern :=
  Pattern.sequence [gap, letter '(', gap, digits, gap,
    optional (Pattern.sequence [letter ',', gap, digits, gap]), letter ')']

/-- The name of a sequence, with or without a schema. -/
def sequenceName : Pattern :=
  seq (optional (seq name (letter '.'))) name

/-- A column definition up to the sequence that feeds it. The column is captured under the number 1,
the sequence under the number 2. -/
def pattern : Pattern :=
  Pattern.sequence [edge, capture 1 name, space, numericType, optional precision, space, text "DEFAULT",
    space, capture 2 sequenceName, letter '.', text "NEXTVAL", edge]

/-- The column of a match. -/
def ofMatch (m : Match (List (Nat × Text))) : SerialColumn :=
  ⟨(captured 1 m.value).getD [], (captured 2 m.value).getD []⟩

/-- The definition of a serial column. -/
def definition (c : SerialColumn) : Text :=
  c.column ++ " SERIAL"

/-- What is reported about a column. -/
def logLine (c : SerialColumn) : Log.Line :=
  Log.debug "sequence column to SERIAL" [("column", c.column), ("sequence", c.sequence)]

end SerialColumn

/-- The columns of a script that sequences feed. -/
def serialColumns (script : Text) : List SerialColumn :=
  ((segments script).filter fun s => s.kind == .code).flatMap fun s =>
    (allMatches SerialColumn.pattern.matcher s.text).map SerialColumn.ofMatch

/-- The script with serial columns in the place of those that sequences feed. -/
def makeSerial (script : Text) : Text :=
  changeCode (replaceMatches SerialColumn.pattern.matcher fun m =>
    (SerialColumn.ofMatch m).definition) script

end DialectBridge
