import DialectBridge.Types.Table

/-!
# Oracle types

The types of Oracle in PostgreSQL. `NUMBER` maps by its precision: some precisions have types of their
own, a precision and a scale make a decimal, and any other size is kept.
-/

namespace DialectBridge

/-- The rules for the types of Oracle in PostgreSQL. -/
def oracleTypeRules : List TypeRule :=
  [
    -- Numeric
    ⟨"NUMBER", "NUMERIC", .sized⟩,
    ⟨"NUMBER", "DECIMAL", .scaled⟩,
    ⟨"NUMBER(10)", "INTEGER", .fixed⟩,
    ⟨"NUMBER(19)", "BIGINT", .fixed⟩,
    ⟨"NUMBER(10,2)", "DECIMAL(10,2)", .fixed⟩,
    ⟨"NUMBER(19,2)", "DECIMAL(19,2)", .fixed⟩,
    ⟨"NUMBER(38)", "NUMERIC", .fixed⟩,
    ⟨"NUMBER(1)", "BOOLEAN", .fixed⟩,
    ⟨"BINARY_FLOAT", "REAL", .fixed⟩,
    ⟨"BINARY_DOUBLE", "DOUBLE PRECISION", .fixed⟩,
    -- String
    ⟨"VARCHAR2", "VARCHAR", .sized⟩,
    ⟨"NVARCHAR2", "VARCHAR", .sized⟩,
    ⟨"CHAR", "CHAR", .sized⟩,
    ⟨"NCHAR", "CHAR", .sized⟩,
    ⟨"CLOB", "TEXT", .fixed⟩,
    ⟨"NCLOB", "TEXT", .fixed⟩,
    ⟨"LONG", "TEXT", .fixed⟩,
    -- Date / time
    ⟨"DATE", "TIMESTAMP", .fixed⟩,
    ⟨"TIMESTAMP", "TIMESTAMP", .sized⟩,
    ⟨"TIMESTAMP WITH TIME ZONE", "TIMESTAMPTZ", .sized⟩,
    ⟨"TIMESTAMP WITH LOCAL TIME ZONE", "TIMESTAMPTZ", .sized⟩,
    ⟨"INTERVAL YEAR TO MONTH", "INTERVAL", .fixed⟩,
    ⟨"INTERVAL DAY TO SECOND", "INTERVAL", .fixed⟩,
    -- Binary
    ⟨"BLOB", "BYTEA", .fixed⟩,
    ⟨"RAW", "BYTEA", .fixed⟩,
    ⟨"LONG RAW", "BYTEA", .fixed⟩,
    -- Special
    ⟨"ROWID", "TEXT", .fixed⟩,
    ⟨"UROWID", "TEXT", .fixed⟩,
    ⟨"XMLTYPE", "XML", .fixed⟩]

/-- The types of Oracle in PostgreSQL. -/
def oracleTypes : TypeTable :=
  .ofRules oracleTypeRules

end DialectBridge
