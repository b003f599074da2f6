import DialectBridge.Json.Decoder
import DialectBridge.Schema.Table

/-!
# Tables in documents

Tables are stored as JSON. The statement of a table is not stored; a document that holds one all the
same keeps it.
-/

namespace DialectBridge

/-- The name of a dialect in a document. -/
def Dialect.toJson (d : Dialect) : Json :=
  .string d.name

/-- The dialect that a document names. -/
def Dialect.decoder : Decoder Dialect :=
  .choice ofStoredName?

namespace Column

/-- The stored form of a column. -/
def toJson (c : Column) : Json :=
  .object
    [("name", .string c.name), ("data_type", .string c.dataType), ("nullable", .bool c.nullable),
      ("is_primary_key", .bool c.isPrimaryKey), ("is_unique", .bool c.isUnique),
      ("default", .ofOptional c.default)]

/-- Takes a column out of a document. -/
def decoder : Decoder Column := fun v => do
  let f ← Decoder.fields ["name", "data_type", "nullable", "is_primary_key", "is_unique", "default"] v
  return {
    name := ← f.required "name" 0 .text
    dataType := ← f.required "data_type" 1 .text
    nullable := ← f.required "nullable" 2 .bool
    isPrimaryKey := ← f.required "is_primary_key" 3 .bool
    isUnique := ← f.required "is_unique" 4 .bool
    default := ← f.optional "default" 5 .text }

end Column

namespace ForeignKey

/-- The stored form of a reference. -/
def toJson (k : ForeignKey) : Json :=
  .object
    [("column", .string k.column), ("references_table", .string k.table),
      ("references_column", .string k.referencedColumn)]

/-- Takes a reference out of a document. -/
def decoder : Decoder ForeignKey := fun v => do
  let f ← Decoder.fields ["column", "references_table", "references_column"] v
  return {
    column := ← f.required "column" 0 .text
    table := ← f.required "references_table" 1 .text
    referencedColumn := ← f.required "references_column" 2 .text }

end ForeignKey

namespace Table

/-- The stored form of a table, without its statement. -/
def toJson (t : Table) : Json :=
  .object
    [("name", .string t.name), ("columns", .array (t.columns.map Column.toJson)),
      ("primary_key", .ofOptional t.primaryKey),
      ("foreign_keys", .array (t.foreignKeys.map ForeignKey.toJson)),
      ("indexes", .ofTexts t.indexes), ("dialect", t.dialect.toJson)]

/-- Takes a table out of a document. -/
def decoder : Decoder Table := fun v => do
  let f ← Decoder.fields
    ["name", "columns", "primary_key", "foreign_keys", "indexes", "original_sql", "dialect"] v
  return {
    name := ← f.required "name" 0 .text
    columns := ← f.required "columns" 1 (.list Column.decoder)
    primaryKey := ← f.optional "primary_key" 2 .text
    foreignKeys := ← f.required "foreign_keys" 3 (.list ForeignKey.decoder)
    indexes := ← f.required "indexes" 4 (.list .text)
    statement := ← f.defaulted "original_sql" 5 .text []
    dialect := ← f.required "dialect" 6 Dialect.decoder }

/-- The stored form of a list of tables. -/
def listToJson (ts : List Table) : Json :=
  .array (ts.map toJson)

end Table

end DialectBridge
