import DialectBridge.Dialect

/-!
# Tables

What the library keeps of a table definition: its columns, its keys, the names of its indexes, and
the statement that declared it.
-/

namespace DialectBridge

/-- A column of a table. -/
structure Column where
  /-- The name without quotes. -/
  name : Text
  /-- The type as declared, such as `NUMBER(10,2)`. -/
  dataType : Text
  /-- False only for a column that is declared `NOT NULL`. -/
  nullable : Bool
  /-- The column itself is declared `PRIMARY KEY`. -/
  isPrimaryKey : Bool
  isUnique : Bool
  /-- The default value as written. -/
  default : Option Text
  deriving DecidableEq, Repr

/-- A reference from a column to a column of another table. -/
structure ForeignKey where
  column : Text
  table : Text
  /-- Empty where the clause names no column. -/
  referencedColumn : Text
  deriving DecidableEq, Repr

/-- A table, from one `CREATE TABLE` statement or from a stored document. -/
structure Table where
  /-- The name, with its schema if one is given. -/
  name : Text
  columns : List Column
  primaryKey : Option Text
  foreignKeys : List ForeignKey
  /-- The names of the indexes on the table. -/
  indexes : List Text
  /-- The statement as written; empty for a table from a stored document. -/
  statement : Text
  dialect : Dialect
  deriving DecidableEq, Repr

namespace Column

/-- A column without any constraint. -/
def plain (name dataType : Text) : Column :=
  ⟨name, dataType, true, false, false, none⟩

/-- The upper-case name of the declared type, without its arguments. -/
def typeName (c : Column) : Text :=
  (Text.joinWith " " (Text.words (c.dataType.takeWhile (· != '(')))).upper

end Column

namespace Table

/-- A table with this name and nothing in it. -/
def empty (name : Text) (dialect : Dialect) : Table :=
  ⟨name, [], none, [], [], [], dialect⟩

/-- The column with this name, up to ASCII case. -/
def column? (t : Table) (name : Text) : Option Column :=
  t.columns.find? fun c => c.name.same name

/-- The table has this name, up to ASCII case. -/
def hasName (t : Table) (name : Text) : Bool :=
  t.name.same name

end Table

end DialectBridge
