import DialectBridge.Dialect

/-!
# Errors

The causes for which a conversion or one of its inputs is refused, and their wordings.
-/

namespace DialectBridge

/-- Why something cannot be converted. -/
inductive ConversionError where
  /-- The text, of which this is the beginning, declares no procedure. -/
  | noProcedure (excerpt : Text)
  | unknownDialect (name : Text)
  | unsupportedRoute (route : Route)
  /-- A column has a type that the target dialect does not know. -/
  | unmappedType (table column type : Text)
  /-- A configuration that cannot be read. -/
  | invalidConfig
  /-- The errors of a conversion that did not succeed. -/
  | failed (errors : List Text)
  deriving DecidableEq, Repr

namespace ConversionError

/-- An error in a list of errors. -/
def listItem (error : Text) : Text :=
  "  - " ++ error

/-- The wording of an error. -/
def message : ConversionError → Text
  | noProcedure excerpt => "No procedure signature found in: " ++ excerpt
  | unknownDialect name => "Unknown dialect: " ++ name
  | unsupportedRoute route =>
    "Unsupported conversion: " ++ route.source.name ++ " to " ++ route.target.name
  | unmappedType table column type =>
    "Unmapped type '" ++ type ++ "' for column " ++ table ++ "." ++ column
  | invalidConfig => "Invalid configuration"
  | failed errors => "Conversion failed:\n" ++ Text.joinWith "\n" (errors.map listItem)

end ConversionError

end DialectBridge
