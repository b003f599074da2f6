import DialectBridge.CommandLine.Arguments
import DialectBridge.Dialect.Lookup

/-!
# Commands

What a user asks for: a command with its files and settings, or an answer on the program itself.
Arguments that do not fit together ask for nothing.
-/

namespace DialectBridge.CommandLine

/-- A command with the files that it reads. -/
inductive Command where
  /-- Converts a script; a dialect that is not given comes from the configuration. -/
  | convert (file : Text) (source target : Option Dialect) (strict json : Bool)
  /-- Prints the tables of a script. -/
  | parse (file : Text) (dialect : Option Dialect)
  /-- Prints the method for a procedure. -/
  | procedure (file : Text)
  /-- Prints the migration from one script to another. -/
  | diff (old new : Text) (dialect : Option Dialect)
  deriving DecidableEq, Repr

/-- What a user asks for. -/
inductive Request where
  | help
  | version
  | run (config : Option Text) (verbose : Bool) (command : Command)
  deriving DecidableEq, Repr

/-! ## Values -/

/-- The dialect that a switch names, if the switch is given. Nothing when the name is unknown. -/
def dialectOf (gs : List Given) (s : Switch) : Option (Option Dialect) :=
  match Given.value? gs s with
  | none => some none
  | some name => (Dialect.ofText name).toOption.map some

/-- A value that its switch accepts: a path has a character at least, a dialect is a known one. -/
def Given.isAcceptable (g : Given) : Bool :=
  match g.switch with
  | .config => !g.value.isEmpty
  | .source | .target | .dialect => (Dialect.ofText g.value).toOption.isSome
  | _ => true

/-- Switches that can stand together. -/
def areAcceptable (gs : List Given) : Bool :=
  Given.areDistinct gs && gs.all Given.isAcceptable

/-! ## The commands by name -/

/-- How a command is called: its name, its own switches and the number of its files. -/
structure CommandForm where
  name : Text
  switches : List Switch
  files : Nat
  /-- The command with these switches and files. -/
  build : List Given → List Text → Option Command

namespace CommandForm

/-- Every command. -/
def all : List CommandForm :=
  [⟨"convert", [.source, .target, .strict, .json], 1, fun gs files =>
      match files, dialectOf gs .source, dialectOf gs .target with
      | [file], some source, some target =>
        some (.convert file source target (Given.has gs .strict) (Given.has gs .json))
      | _, _, _ => none⟩,
    ⟨"parse", [.dialect], 1, fun gs files =>
      match files, dialectOf gs .dialect with
      | [file], some dialect => some (.parse file dialect)
      | _, _ => none⟩,
    ⟨"procedure", [], 1, fun _ files =>
      match files with
      | [file] => some (.procedure file)
      | _ => none⟩,
    ⟨"diff", [.dialect], 2, fun gs files =>
      match files, dialectOf gs .dialect with
      | [old, new], some dialect => some (.diff old new dialect)
      | _, _ => none⟩]

/-- The command with this name. -/
def ofName? (name : Text) : Option CommandForm :=
  all.find? fun c => c.name == name

/-- What the words after the name of a command ask for. -/
def request (c : CommandForm) (config : Option Text) (verbose : Bool) (ws : List Text) :
    Option Request :=
  match readArguments (.help :: c.switches) ws with
  | none => none
  | some ⟨gs, files⟩ =>
    if !areAcceptable gs || files.length > c.files || files.any List.isEmpty then none
    else if Given.endsIn gs then some .help
    else (c.build gs files).map (.run config verbose)

end CommandForm

/-! ## The whole command line -/

/-- The word that asks for help, on the program or on one command. -/
def helpWord : Text := "help"

/-- What the words after `help` ask for. -/
def helpRequest : List Text → Option Request
  | [] => some .help
  | [name] =>
    if name = helpWord || (CommandForm.ofName? name).isSome then some .help else none
  | _ => none

/-- What the words from the name of a command on ask for. -/
def commandRequest (config : Option Text) (verbose : Bool) : List Text → Option Request
  | [] => none
  | name :: ws =>
    if name = helpWord then helpRequest ws
    else (CommandForm.ofName? name).bind fun c => c.request config verbose ws

/-- What a command line asks for. The path of the configuration is looked up in the environment when no
switch gives it. -/
def request (environment : Option Text) (ws : List Text) : Option Request :=
  match readSwitches [.config, .verbose, .version, .help] ws with
  | none => none
  | some ⟨gs, rest⟩ =>
    if !areAcceptable gs then none
    else if Given.endsIn gs then
      some (if Given.has gs .version then .version else .help)
    else
      let config := (Given.value? gs .config).or environment
      match commandRequest config (Given.has gs .verbose) rest with
      | some (.run path verbose command) =>
        if path.any List.isEmpty then none else some (.run path verbose command)
      | r => r

end DialectBridge.CommandLine
