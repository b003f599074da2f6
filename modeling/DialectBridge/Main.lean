import DialectBridge.CommandLine.Report

/-!
# The program

Reads the files that a command names, prints its report and exits with its code. Arguments that ask for
nothing print how the program is called and exit with code 2.
-/

open DialectBridge DialectBridge.CommandLine

/-- The text of a file, if it can be read. -/
def readText (path : Text) : IO (Option Text) := do
  try
    let content ← IO.FS.readFile (String.ofList path)
    return some content.toList
  catch _ => return none

/-- The paths with their texts. -/
def readAll (paths : List Text) : IO (List (Text × Text)) :=
  paths.filterMapM fun path => do
    return (← readText path).map fun text => (path, text)

/-- Prints a text on the standard output. -/
def printText (t : Text) : IO Unit :=
  IO.print (String.ofList t)

/-- Answers a command line. -/
def main (args : List String) : IO UInt32 := do
  let environment ← IO.getEnv "SQLPORT_CONFIG"
  match request (environment.map String.toList) (args.map String.toList) with
  | none =>
    IO.eprint (String.ofList helpText)
    return 2
  | some .help =>
    printText helpText
    return 0
  | some .version =>
    printText versionText
    return 0
  | some (.run config verbose command) =>
    let contents ← readAll (config.toList ++ command.paths)
    let r := report (fun path => contents.lookup path) config command
    printText r.output
    for l in r.diagnostics verbose do
      IO.eprintln (String.ofList l)
    return UInt32.ofNat r.code
