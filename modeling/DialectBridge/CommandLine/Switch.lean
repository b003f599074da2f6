import DialectBridge.Text.Basic

/-!
# Switches

The options that the command line knows: how each is spelled and whether a value belongs to it.
-/

namespace DialectBridge.CommandLine

/-- An option of the command line. -/
inductive Switch where
  | config
  | verbose
  | version
  | help
  | source
  | target
  | strict
  | json
  | dialect
  deriving DecidableEq, Repr

namespace Switch

/-- What a switch does to the words after it. -/
inductive Kind where
  /-- Stands alone. -/
  | flag
  /-- Takes a value. -/
  | setting
  /-- Asks for an answer of its own, so that the words after it are not looked at. -/
  | question
  deriving DecidableEq, Repr

/-- The name of a switch after two dashes. -/
def long : Switch → Text
  | config => "config"
  | verbose => "verbose"
  | version => "version"
  | help => "help"
  | source => "from"
  | target => "to"
  | strict => "strict"
  | json => "json"
  | dialect => "dialect"

/-- The letter of a switch after one dash. -/
def short? : Switch → Option Char
  | config => some 'c'
  | verbose => some 'v'
  | version => some 'V'
  | help => some 'h'
  | _ => none

/-- What a switch does to the words after it. -/
def kind : Switch → Kind
  | config | source | target | dialect => .setting
  | version | help => .question
  | verbose | strict | json => .flag

/-- The switch with this name among some. -/
def ofLong? (known : List Switch) (name : Text) : Option Switch :=
  known.find? fun s => s.long == name

/-- The switch with this letter among some. -/
def ofShort? (known : List Switch) (letter : Char) : Option Switch :=
  known.find? fun s => s.short? == some letter

end Switch

end DialectBridge.CommandLine
