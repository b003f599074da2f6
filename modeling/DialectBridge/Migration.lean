import DialectBridge.Json.Basic
import DialectBridge.Schema.Table

/-!
# Migrations

A migration leads from one set of tables to another. Tables are compared by name alone, without regard
to letter case; a table in both sets is left as it is, whatever its columns.
-/

namespace DialectBridge

/-- A statement of a migration. -/
inductive Migration.Step where
  | create (name statement : Text)
  | drop (name : Text)
  deriving DecidableEq, Repr

/-- The way from one set of tables to another. -/
structure Migration where
  /-- First the tables to create, in the order of the new set, then the tables to drop, in the order
  of the old one. -/
  steps : List Migration.Step
  /-- The tables in both sets, in the order of the new one. -/
  unchanged : List Text
  deriving DecidableEq, Repr

namespace Migration

/-! ## Statements -/

/-- The definition of a column in a statement that is built anew. -/
def columnDefinition (c : Column) : Text :=
  let default : Text := match c.default with
    | some value => " DEFAULT " ++ value
    | none => []
  let notNull : Text := if c.nullable then [] else " NOT NULL"
  let unique : Text := if c.isUnique then " UNIQUE" else []
  "    " ++ c.name ++ " " ++ c.dataType ++ default ++ notNull ++ unique

/-- The definition of a primary key. -/
def primaryKeyDefinition (column : Text) : Text :=
  "    PRIMARY KEY (" ++ column ++ ")"

/-- The definition of a reference. -/
def foreignKeyDefinition (k : ForeignKey) : Text :=
  let target : Text :=
    if k.referencedColumn.isEmpty then k.table else k.table ++ " (" ++ k.referencedColumn ++ ")"
  "    FOREIGN KEY (" ++ k.column ++ ") REFERENCES " ++ target

/-- The statement that declares a table with these columns and keys. -/
def builtStatement (t : Table) : Text :=
  let definitions := t.columns.map columnDefinition ++ t.primaryKey.toList.map primaryKeyDefinition ++
    t.foreignKeys.map foreignKeyDefinition
  "CREATE TABLE " ++ t.name ++ " (\n" ++ Text.joinWith ",\n" definitions ++ "\n);"

/-- A statement with a semicolon at its end. -/
def terminated (statement : Text) : Text :=
  if statement.getLast? = some ';' then statement else statement ++ ";"

/-- The statement that creates a table: the one that declared it, or one that is built anew. -/
def creatingStatement (t : Table) : Text :=
  let statement := t.statement.trim
  if statement.isEmpty then builtStatement t else terminated statement

/-! ## Comparing tables -/

/-- The name by which a table is compared. -/
def key (t : Table) : Text :=
  t.name.lowercase

/-- The tables without those whose name an earlier one has; the names `seen` are taken already. -/
def distinctFrom (seen : List Text) : List Table → List Table
  | [] => []
  | t :: ts =>
    if seen.contains (key t) then distinctFrom seen ts else t :: distinctFrom (key t :: seen) ts

/-- The tables without those whose name an earlier one has. -/
def distinct (ts : List Table) : List Table :=
  distinctFrom [] ts

/-- Some of the tables has the name of this one. -/
def isAmong (ts : List Table) (t : Table) : Bool :=
  ts.any fun u => key u == key t

end Migration

namespace Migration.Step

/-- The table of a step. -/
def table : Migration.Step → Text
  | create name _ => name
  | drop name => name

/-- The text of a step: a comment and a statement. -/
def render : Migration.Step → Text
  | create name statement => "-- Create new table: " ++ name ++ "\n" ++ statement
  | drop name => "-- Drop table: " ++ name ++ "\nDROP TABLE IF EXISTS " ++ name ++ " CASCADE;"

/-- The step that creates a table. -/
def ofNew (t : Table) : Migration.Step :=
  create t.name (Migration.creatingStatement t)

/-- The step that drops a table. -/
def ofOld (t : Table) : Migration.Step :=
  drop t.name

/-- The stored form of a step. -/
def toJson : Migration.Step → Json
  | create name statement =>
    .object [("kind", .string "create_table"), ("name", .string name), ("sql", .string statement)]
  | drop name => .object [("kind", .string "drop_table"), ("name", .string name)]

end Migration.Step

namespace Migration

/-- The way from the tables `old` to the tables `new`. -/
def between (old new : List Table) : Migration :=
  let old := distinct old
  let new := distinct new
  { steps := (new.filter fun t => !isAmong old t).map Step.ofNew ++
      (old.filter fun t => !isAmong new t).map Step.ofOld
    unchanged := (new.filter (isAmong old)).map Table.name }

/-- Nothing has to be done. -/
def isEmpty (m : Migration) : Bool :=
  m.steps.isEmpty

/-- The version in the head of a migration. -/
def version : Text := "0.1.0"

/-- The lines of a migration; an empty line follows each step. -/
def lines (m : Migration) : List Text :=
  let head : List Text := ["-- Migration Script", "-- Generated by sqlport " ++ version, []]
  head ++ m.steps.flatMap fun step => [step.render, []]

/-- The text of a migration. -/
def render (m : Migration) : Text :=
  Text.joinWith "\n" m.lines

/-- The stored form of a migration. -/
def toJson (m : Migration) : Json :=
  .object
    [("steps", .array (m.steps.map Step.toJson)), ("unchanged", .ofTexts m.unchanged)]

end Migration

end DialectBridge
