import DialectBridge.Types.Table

/-!
# MySQL types

The types of MySQL in PostgreSQL. The display width of an integer means nothing and is dropped, but
`TINYINT(1)` is how MySQL writes a truth value.
-/

namespace DialectBridge

/-- The rules for the types of MySQL in PostgreSQL. -/
def mysqlTypeRules : List TypeRule :=
  [
    -- Numeric
    ⟨"TINYINT(1)", "BOOLEAN", .fixed⟩,
    ⟨"TINYINT", "SMALLINT", .fixed⟩,
    ⟨"SMALLINT", "SMALLINT", .fixed⟩,
    ⟨"MEDIUMINT", "INTEGER", .fixed⟩,
    ⟨"INT", "INTEGER", .fixed⟩,
    ⟨"INTEGER", "INTEGER", .fixed⟩,
    ⟨"BIGINT", "BIGINT", .fixed⟩,
    ⟨"DECIMAL", "DECIMAL", .sized⟩,
    ⟨"NUMERIC", "NUMERIC", .sized⟩,
    ⟨"FLOAT", "REAL", .fixed⟩,
    ⟨"DOUBLE", "DOUBLE PRECISION", .fixed⟩,
    ⟨"DOUBLE PRECISION", "DOUBLE PRECISION", .fixed⟩,
    -- String
    ⟨"VARCHAR", "VARCHAR", .sized⟩,
    ⟨"CHAR", "CHAR", .sized⟩,
    ⟨"TINYTEXT", "TEXT", .fixed⟩,
    ⟨"TEXT", "TEXT", .fixed⟩,
    ⟨"MEDIUMTEXT", "TEXT", .fixed⟩,
    ⟨"LONGTEXT", "TEXT", .fixed⟩,
    ⟨"ENUM", "VARCHAR(255)", .withArguments⟩,
    ⟨"SET", "VARCHAR(255)", .withArguments⟩,
    -- Date / time
    ⟨"DATE", "DATE", .fixed⟩,
    ⟨"DATETIME", "TIMESTAMP", .sized⟩,
    ⟨"TIMESTAMP", "TIMESTAMP", .sized⟩,
    ⟨"TIME", "TIME", .sized⟩,
    ⟨"YEAR", "SMALLINT", .fixed⟩,
    -- Binary
    ⟨"TINYBLOB", "BYTEA", .fixed⟩,
    ⟨"BLOB", "BYTEA", .fixed⟩,
    ⟨"MEDIUMBLOB", "BYTEA", .fixed⟩,
    ⟨"LONGBLOB", "BYTEA", .fixed⟩,
    ⟨"BINARY", "BYTEA", .fixed⟩,
    ⟨"VARBINARY", "BYTEA", .fixed⟩,
    -- Boolean
    ⟨"BOOL", "BOOLEAN", .fixed⟩,
    ⟨"BOOLEAN", "BOOLEAN", .fixed⟩,
    -- JSON
    ⟨"JSON", "JSONB", .fixed⟩]

/-- The types of MySQL in PostgreSQL. -/
def mysqlTypes : TypeTable :=
  .ofRules mysqlTypeRules

end DialectBridge
