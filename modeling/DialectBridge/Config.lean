import DialectBridge.Conversion
import DialectBridge.Json.Reader
import DialectBridge.Schema.Document

/-!
# Configurations

The settings of a conversion, stored as a JSON document. Every setting may be missing.
-/

namespace DialectBridge

/-- The settings of a conversion. -/
structure Config where
  source : Dialect
  target : Dialect
  names : Renaming
  /-- What stands in the place of a word in the names of procedures and parameters. -/
  entities : TextMap Text
  /-- A type without a mapping is an error. -/
  strict : Bool
  deriving DecidableEq, Repr

namespace Config

/-- The settings where nothing is said: from Oracle to PostgreSQL, without renames. -/
def standard : Config :=
  ⟨.oracle, .postgresql, .none, [], false⟩

/-- The route of the conversion. -/
def route (c : Config) : Route :=
  ⟨c.source, c.target⟩

/-! ## Documents -/

/-- A map of texts. -/
def textMap : Decoder (TextMap Text) := fun v =>
  TextMap.ofList <$> Decoder.members .text v

/-- A map of maps of texts. -/
def nestedMap : Decoder (TextMap (TextMap Text)) := fun v =>
  TextMap.ofList <$> Decoder.members textMap v

/-- Takes settings out of a document. -/
def decoder : Decoder Config := fun v => do
  let f ← Decoder.fields ["source", "target", "tables", "columns", "entities", "strict"] v
  return {
    source := ← f.defaulted "source" 0 Dialect.decoder .oracle
    target := ← f.defaulted "target" 1 Dialect.decoder .postgresql
    names := {
      tables := ← f.defaulted "tables" 2 textMap []
      columns := ← f.defaulted "columns" 3 nestedMap [] }
    entities := ← f.defaulted "entities" 4 textMap []
    strict := ← f.defaulted "strict" 5 .bool false }

/-- The settings that a document holds. -/
def parse (document : Text) : Except ConversionError Config :=
  match (Json.parse document).bind decoder with
  | some c => .ok c
  | none => .error .invalidConfig

/-- The stored form of settings. -/
def toJson (c : Config) : Json :=
  .object
    [("source", c.source.toJson), ("target", c.target.toJson), ("tables", .ofTextMap c.names.tables),
      ("columns", .object (c.names.columns.map fun (table, m) => (table, .ofTextMap m))),
      ("entities", .ofTextMap c.entities), ("strict", .bool c.strict)]

end Config

/-! ## Results -/

/-- The stored form of a route. -/
def Route.toJson (p : Route) : Json :=
  .object [("source", p.source.toJson), ("target", p.target.toJson)]

/-- The stored form of a transformation. -/
def Transformation.toJson (t : Transformation) : Json :=
  .object
    [("original_table", .string t.oldTable), ("new_table", .string t.newTable),
      ("column_mappings", .ofTextMap t.columns),
      ("type_conversions", .ofTextMap t.types),
      ("dialect_conversion", .string t.route.name)]

/-- The stored form of the outcome of a conversion. -/
def ConversionOutcome.toJson (r : ConversionOutcome) : Json :=
  .object
    [("success", .bool r.success), ("converted_sql", .string r.text),
      ("transformations", .array (r.transformations.map Transformation.toJson)),
      ("tables_converted", .ofTexts r.labels),
      ("warnings", .ofTexts (r.warnings.map Issue.message)),
      ("errors", .ofTexts (r.errors.map Issue.errorMessage))]

end DialectBridge
