import DialectBridge.Text.Basic

/-!
# Dialects

The variants of SQL that the library knows, their names, and their own type vocabularies. A conversion
takes a route from one dialect to another; everything that depends on both dialects depends on the route.
-/

namespace DialectBridge

/-- A variant of SQL. -/
inductive Dialect where
  | oracle
  | mysql
  | postgresql
  deriving DecidableEq, Repr

namespace Dialect

/-- Every dialect. -/
def all : List Dialect :=
  [.oracle, .mysql, .postgresql]

/-- The name of a dialect. -/
def name : Dialect → Text
  | oracle => "oracle"
  | mysql => "mysql"
  | postgresql => "postgresql"

/-- The names that a user may give a dialect. -/
def spellings : Dialect → List Text
  | oracle => ["oracle"]
  | mysql => ["mysql", "mariadb"]
  | postgresql => ["postgresql", "postgres", "pg"]

/-- The names that a dialect has in stored documents. -/
def storedNames : Dialect → List Text
  | postgresql => ["postgresql", "postgres"]
  | d => [d.name]

/-- The dialect of a stored document. -/
def ofStoredName? (stored : Text) : Option Dialect :=
  all.find? fun d => d.storedNames.contains stored

/-- The types of a dialect's own vocabulary, in upper case and without arguments. -/
def vocabulary : Dialect → List Text
  | postgresql =>
    ["SMALLINT", "INTEGER", "INT", "BIGINT", "SERIAL", "BIGSERIAL", "SMALLSERIAL", "NUMERIC",
      "DECIMAL", "REAL", "FLOAT", "DOUBLE PRECISION", "MONEY", "TEXT", "VARCHAR",
      "CHARACTER VARYING", "CHAR", "CHARACTER", "BOOLEAN", "BOOL", "DATE", "TIME", "TIMESTAMP",
      "TIMESTAMPTZ", "INTERVAL", "BYTEA", "JSON", "JSONB", "UUID", "XML", "INET", "CIDR"]
  | oracle =>
    ["NUMBER", "INTEGER", "FLOAT", "BINARY_FLOAT", "BINARY_DOUBLE", "VARCHAR2", "NVARCHAR2", "CHAR",
      "NCHAR", "CLOB", "NCLOB", "BLOB", "RAW", "LONG", "DATE", "TIMESTAMP", "ROWID", "XMLTYPE"]
  | mysql =>
    ["TINYINT", "SMALLINT", "MEDIUMINT", "INT", "INTEGER", "BIGINT", "DECIMAL", "FLOAT", "DOUBLE",
      "VARCHAR", "CHAR", "TEXT", "BLOB", "DATE", "DATETIME", "TIMESTAMP", "JSON"]

/-- The type name belongs to the dialect's own vocabulary. -/
def knowsType (d : Dialect) (base : Text) : Bool :=
  d.vocabulary.contains base

end Dialect

/-- A route of conversion, from one dialect to another. -/
structure Route where
  source : Dialect
  target : Dialect
  deriving DecidableEq, Repr

namespace Route

/-- The name of a route, such as `oracle_to_postgresql`. -/
def name (p : Route) : Text :=
  p.source.name ++ "_to_" ++ p.target.name

/-- The idioms of Oracle are replaced when the source is Oracle. -/
def replacesIdioms (p : Route) : Bool :=
  p.source == .oracle

/-- Columns fed by a sequence become serial columns on the way from Oracle to PostgreSQL. -/
def makesSerial (p : Route) : Bool :=
  p == ⟨.oracle, .postgresql⟩

end Route

end DialectBridge
