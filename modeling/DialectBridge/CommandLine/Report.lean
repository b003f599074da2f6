import DialectBridge.CommandLine.Command
import DialectBridge.Config
import DialectBridge.Json.Printer
import DialectBridge.Migration
import DialectBridge.Procedure.Python

/-!
# Reports

What a command answers. The files are given as a function from paths to texts, so a report is a value
that depends on nothing else; a file that cannot be read has no text.
-/

namespace DialectBridge.CommandLine

/-- The files that can be read. -/
abbrev Files := Text → Option Text

/-- Why a command fails. -/
inductive Failure where
  | unreadable (path : Text)
  | invalidConfig (path : Text)
  | conversion (cause : ConversionError)
  deriving DecidableEq, Repr

/-- The wording of a failure. -/
def Failure.message : Failure → Text
  | unreadable path => "Failed to read " ++ path
  | invalidConfig path => "Invalid config " ++ path
  | conversion cause => cause.message

/-- A failure on the error stream. -/
def Failure.render (f : Failure) : Text :=
  "Error: " ++ f.message

/-- What a command answers: its output, what it reports while it works, and why it fails. -/
structure Report where
  log : List Log.Line
  output : Text
  failure : Option Failure
  deriving DecidableEq, Repr

namespace Report

/-- A report that only fails. -/
def failed (f : Failure) : Report :=
  ⟨[], [], some f⟩

/-- The report with lines in front of its log. -/
def after (lines : List Log.Line) (r : Report) : Report :=
  { r with log := lines ++ r.log }

/-- The exit code. -/
def code (r : Report) : Nat :=
  if r.failure.isSome then 1 else 0

/-- A log line that a user sees: those on the inner workings only on demand. -/
def isShown (verbose : Bool) (l : Log.Line) : Bool :=
  verbose || l.level != .debug

/-- What stands on the error stream, line by line: the log, and at its end why the command fails. -/
def diagnostics (verbose : Bool) (r : Report) : List Text :=
  (r.log.filter (isShown verbose)).map Log.Line.render ++ r.failure.toList.map Failure.render

end Report

/-! ## Reading -/

/-- The answer that depends on the text of a file. -/
def withFile (files : Files) (path : Text) (answer : Text → Report) : Report :=
  match files path with
  | some text => answer text
  | none => .failed (.unreadable path)

/-- The configuration that a path names; without a path it is the standard one. -/
def loadConfig (files : Files) : Option Text → Except Failure Config
  | none => .ok .standard
  | some path =>
    match files path with
    | none => .error (.unreadable path)
    | some text => (Config.parse text).mapError fun _ => .invalidConfig path

/-- The log line on a configuration that was read. -/
def configLine (c : Config) : Log.Line :=
  Log.debug "loaded config" [("source", c.source.name), ("target", c.target.name)]

/-! ## The commands -/

/-- A text that ends its line. -/
def line (t : Text) : Text :=
  t ++ ['\n']

/-- The log line on a conversion that succeeded. -/
def convertedLine (file : Text) (route : Route) (r : ConversionOutcome) : Log.Line :=
  Log.info ("Converted " ++ file ++ " (" ++ route.name ++ ", " ++ Text.ofNat r.warnings.length ++
    " warnings)")

/-- The converted script, or the whole outcome as JSON. A conversion that does not succeed prints what
it has and fails. -/
def convertReport (file : Text) (c : Config) (json : Bool) (script : Text) : Report :=
  let r := convert script c.names c.route c.strict
  let renamed := r.labels.map fun label => Log.info ("Renamed " ++ label)
  { log := Conversion.log script c.names c.route c.strict ++ renamed ++
      if r.success then [convertedLine file c.route r] else []
    output := line (if json then r.toJson.print else r.text)
    failure :=
      if r.success then none else some (.conversion (.failed (r.errors.map Issue.errorMessage))) }

/-- The tables of a script as JSON. -/
def parseReport (file : Text) (dialect : Dialect) (script : Text) : Report :=
  let tables := Script.tables dialect script
  let missing :=
    if tables.isEmpty then [Log.warn ("No CREATE TABLE statement found in " ++ file)] else []
  ⟨Script.log dialect script ++ missing, line (Table.listToJson tables).print, none⟩

/-- The method for the first procedure of a script. -/
def procedureReport (c : Config) (script : Text) : Report :=
  let entities := Naming.entitiesOf c.entities
  let log := MethodStub.log entities script
  match MethodStub.ofScript entities script with
  | .ok stub => ⟨log, line stub.python, none⟩
  | .error e => ⟨log, [], some (.conversion e)⟩

/-- The log line on the two sets of tables of a migration. -/
def comparisonLine (old new : List Table) : Log.Line :=
  Log.info ("Comparing " ++ Text.ofNat old.length ++ " tables with " ++ Text.ofNat new.length ++
    " tables")

/-- The migration from one script to another. -/
def diffReport (dialect : Dialect) (old new : Text) : Report :=
  let oldTables := Script.tables dialect old
  let newTables := Script.tables dialect new
  ⟨Script.log dialect new ++ [comparisonLine oldTables newTables],
    (Migration.between oldTables newTables).render, none⟩

namespace Command

/-- The settings of a conversion: what the command says goes before the configuration. -/
def settings (source target : Option Dialect) (strict : Bool) (c : Config) : Config :=
  { c with
    source := source.getD c.source
    target := target.getD c.target
    strict := c.strict || strict }

/-- What a command answers under a configuration. -/
def report (files : Files) (c : Config) : Command → Report
  | convert file source target strict json =>
    withFile files file (convertReport file (settings source target strict c) json)
  | parse file dialect => withFile files file (parseReport file (dialect.getD c.source))
  | procedure file => withFile files file (procedureReport c)
  | diff old new dialect =>
    let dialect := dialect.getD c.source
    withFile files old fun oldScript =>
      (withFile files new (diffReport dialect oldScript)).after (Script.log dialect oldScript)

/-- The files that a command reads. -/
def paths : Command → List Text
  | convert file .. => [file]
  | parse file _ => [file]
  | procedure file => [file]
  | diff old new _ => [old, new]

end Command

/-- What a command answers with the configuration at a path. -/
def report (files : Files) (config : Option Text) (command : Command) : Report :=
  match loadConfig files config with
  | .ok c => (command.report files c).after [configLine c]
  | .error f => .failed f

/-! ## Answers on the program itself -/

/-- The version of the program. -/
def versionText : Text :=
  line ("sqlport " ++ Migration.version)

/-- How the program is called. -/
def helpText : Text :=
  line (Text.joinWith "\n"
    ["SQL dialect transpiler.", [],
      "Usage: sqlport [-c FILE] [-v] COMMAND", [],
      "Commands:",
      "  convert FILE [--from DIALECT] [--to DIALECT] [--strict] [--json]",
      "  parse FILE [--dialect DIALECT]",
      "  procedure FILE",
      "  diff FROM TO [--dialect DIALECT]",
      "  help [COMMAND]", [],
      "Options:",
      "  -c, --config FILE  JSON conversion config (dialects, renames, strict mode)",
      "  -v, --verbose      Enable verbose output",
      "  -h, --help         Print help",
      "  -V, --version      Print version"])

end DialectBridge.CommandLine
