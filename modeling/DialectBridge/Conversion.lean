import DialectBridge.Error
import DialectBridge.Idiom.Audit
import DialectBridge.Idiom.Oracle
import DialectBridge.Layout
import DialectBridge.Rename.Renaming
import DialectBridge.Schema.Script
import DialectBridge.SerialColumn
import DialectBridge.Text.Quoted
import DialectBridge.Types.Route

/-!
# Conversion

A script is converted in steps: types, idioms of Oracle, names, columns fed by sequences, layout.
Conversion never fails outright. What it finds on the way becomes a warning, and in strict mode a type
without a mapping becomes an error; the converted text is kept in any case.
-/

namespace DialectBridge

/-- What a conversion finds. -/
inductive Issue where
  /-- A column has a type that neither the rules nor the target dialect know. -/
  | unmappedType (table column type : Text)
  /-- No rules exist for this route. -/
  | unsupportedRoute (route : Route)
  /-- A construct has to be changed by hand. -/
  | construct (c : OracleConstruct)
  /-- A column rename cannot take effect. -/
  | conflict (c : RenameConflict)
  deriving DecidableEq, Repr

namespace Issue

/-- The wording of an issue. -/
def message : Issue → Text
  | unmappedType table column type => (ConversionError.unmappedType table column type).message
  | unsupportedRoute route => (ConversionError.unsupportedRoute route).message ++ "; types left unchanged"
  | construct c => c.message
  | conflict c => c.message

/-- The wording of an issue that makes a conversion fail. -/
def errorMessage (i : Issue) : Text :=
  "Conversion failed: " ++ i.message

end Issue

/-- The outcome of a conversion. -/
structure ConversionOutcome where
  text : Text
  transformations : List Transformation
  /-- Every table rename, as `old -> new`. -/
  labels : List Text
  warnings : List Issue
  errors : List Issue
  deriving DecidableEq, Repr

namespace ConversionOutcome

/-- The conversion found no error. -/
def success (r : ConversionOutcome) : Bool :=
  r.errors.isEmpty

/-- The transformation of the table with this old or new name. -/
def transformation? (r : ConversionOutcome) (table : Text) : Option Transformation :=
  r.transformations.find? fun t => t.oldTable.same table || t.newTable.same table

end ConversionOutcome

namespace Conversion

/-! ## Types -/

/-- The issue of a column whose type nobody knows. -/
def unmappedType? (types : TypeTable) (target : Dialect) (table : Text) (c : Column) :
    Option Issue :=
  if (types.convertType? c.dataType).isSome || target.knowsType c.typeName then none
  else some (.unmappedType table c.name c.dataType)

/-- The columns of some tables whose types nobody knows. -/
def unmappedTypes (types : TypeTable) (target : Dialect) (tables : List Table) : List Issue :=
  tables.flatMap fun t => t.columns.filterMap (unmappedType? types target t.name)

/-- The issues with the types of a script. -/
def typeIssues (route : Route) (tables : List Table) : List Issue :=
  match route.typeTable? with
  | some types => unmappedTypes types route.target tables
  | none => if route.source = route.target then [] else [.unsupportedRoute route]

/-- The script with the types of the target dialect. -/
def convertTypes (route : Route) (script : Text) : ConvertedText :=
  match route.typeTable? with
  | some types => types.convertScript script
  | none => ⟨script, []⟩

/-- Records the converted type of a column. -/
def recordType (types : TypeTable) (m : TextMap Text) (c : Column) : TextMap Text :=
  match types.convertType? c.dataType with
  | some type => m.insert c.name (c.dataType ++ " -> " ++ type)
  | none => m

/-- Records the converted types of the table that a transformation renames. -/
def recordTypes (types : TypeTable) (tables : List Table) (t : Transformation) : Transformation :=
  match tables.find? fun table => table.hasName t.oldTable with
  | some table => { t with types := table.columns.foldl (recordType types) t.types }
  | none => t

/-- The transformations with the converted types of their tables. -/
def withTypes (route : Route) (tables : List Table) (ts : List Transformation) :
    List Transformation :=
  match route.typeTable? with
  | some types => ts.map (recordTypes types tables)
  | none => ts

/-! ## The steps -/

/-- The script after each step of a conversion. -/
structure Steps where
  typed : ConvertedText
  idiomatic : Replaced
  constructs : List OracleConstruct
  renamed : RenamedScript
  /-- The columns that became serial. -/
  serial : List SerialColumn
  sequenced : Text
  deriving Repr

/-- Takes a script through the steps. -/
def steps (script : Text) (names : Renaming) (route : Route) : Steps :=
  let typed := convertTypes route script
  let idiomatic := if route.replacesIdioms then replaceOracleIdioms typed.text else ⟨typed.text, []⟩
  let renamed := names.apply idiomatic.text route
  { typed, idiomatic, renamed
    constructs := if route.replacesIdioms then oracleConstructs idiomatic.text else []
    serial := if route.makesSerial then serialColumns renamed.text else []
    sequenced := if route.makesSerial then makeSerial renamed.text else renamed.text }

/-- The issues of a conversion in the order in which they are found, those with types apart. -/
def Steps.issues (s : Steps) : List Issue :=
  s.constructs.map .construct ++ s.renamed.conflicts.map .conflict

/-- An issue that strict mode refuses. -/
def isRefused (strict : Bool) : Issue → Bool
  | .unmappedType .. => strict
  | _ => false

end Conversion

open Conversion in
/-- Converts a script. In strict mode a type without a mapping is an error. -/
def convert (script : Text) (names : Renaming) (route : Route) (strict : Bool) :
    ConversionOutcome :=
  let tables := Script.tables route.source script
  let s := steps script names route
  let issues := typeIssues route tables ++ s.issues
  { text := Layout.tidy s.sequenced
    transformations := withTypes route tables s.renamed.transformations
    labels := s.renamed.labels
    warnings := issues.filter fun i => !isRefused strict i
    errors := issues.filter (isRefused strict) }

/-- Converts a script from Oracle to PostgreSQL, with every issue a warning. -/
def convertOracle (script : Text) (names : Renaming) :
    Except ConversionError (Text × List Transformation) :=
  let r := convert script names ⟨.oracle, .postgresql⟩ false
  if r.success then .ok (r.text, r.transformations)
  else .error (.failed (r.errors.map Issue.errorMessage))

namespace Conversion

/-! ## What is reported -/

/-- The log line of an issue. -/
def issueLine (strict : Bool) (i : Issue) : Log.Line :=
  Log.warn (if isRefused strict i then i.errorMessage else i.message)

/-- The name of a step in the log. -/
def stage (name : Text) : Text × Text :=
  ("stage", Text.quoted name)

/-- The log of the type step. -/
def typeLog (route : Route) (strict : Bool) (tables : List Table) (typed : ConvertedText) :
    List Log.Line :=
  (typeIssues route tables).map (issueLine strict) ++
    if route.typeTable?.isSome then
      [Log.debug "mapped types" [stage "types", ("pair", route.name),
        ("conversions", Text.ofNat typed.changes.length)]]
    else []

/-- The log of the idiom step. -/
def idiomLog (route : Route) (s : Steps) : List Log.Line :=
  if route.replacesIdioms then
    Log.debug "rewrote Oracle syntax" [stage "syntax", ("rules", Text.quotedList s.idiomatic.applied)] ::
      s.constructs.map fun c => Log.warn c.message
  else []

/-- The log of the sequence step. -/
def sequenceLog (route : Route) (s : Steps) : List Log.Line :=
  if route.makesSerial then
    s.serial.map SerialColumn.logLine ++
      [Log.debug "converted sequences" [stage "sequences", ("columns", Text.ofNat s.serial.length)]]
  else []

/-- The word for a truth value. -/
def truth (b : Bool) : Text :=
  if b then "true" else "false"

/-- What a conversion reports. -/
def log (script : Text) (names : Renaming) (route : Route) (strict : Bool) : List Log.Line :=
  let tables := Script.tables route.source script
  let s := steps script names route
  let r := convert script names route strict
  Script.log route.source script ++ typeLog route strict tables s.typed ++ idiomLog route s ++
    names.log s.idiomatic.text ++ sequenceLog route s ++
    [Log.debug "conversion finished" [("success", truth r.success),
      ("tables", Text.ofNat tables.length), ("warnings", Text.ofNat r.warnings.length),
      ("errors", Text.ofNat r.errors.length)]]

end Conversion

end DialectBridge
