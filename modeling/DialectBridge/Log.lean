import DialectBridge.Text.Basic

/-!
# Log lines

What the stages report while they work, as data. Only the command line writes them out.
-/

namespace DialectBridge.Log

/-- How important a log line is. -/
inductive Level where
  | debug
  | info
  | warn
  deriving DecidableEq, Repr

/-- The level as it stands at the start of a line, five characters wide. -/
def Level.label : Level → Text
  | debug => "DEBUG"
  | info => " INFO"
  | warn => " WARN"

/-- A line of the log: a message with named values after it. -/
structure Line where
  level : Level
  message : Text
  fields : List (Text × Text)
  deriving DecidableEq, Repr

/-- A line for readers who want to know what happens inside. -/
def debug (message : Text) (fields : List (Text × Text)) : Line :=
  ⟨.debug, message, fields⟩

/-- A line without further values that every reader should see. -/
def warn (message : Text) : Line :=
  ⟨.warn, message, []⟩

/-- A line without further values on the progress of the work. -/
def info (message : Text) : Line :=
  ⟨.info, message, []⟩

/-- A named value behind a message. -/
def renderField (field : Text × Text) : Text :=
  " " ++ field.1 ++ "=" ++ field.2

/-- A character of a message. A control character that a terminal would obey is spelled out; line
breaks and tabs are kept. -/
def showCharacter (c : Char) : Text :=
  if c = '\x07' then "\\x07"
  else if c = '\x08' then "\\x08"
  else if c = '\x0c' then "\\x0c"
  else if c = '\x1b' then "\\x1b"
  else if c = '\x7f' then "\\x7f"
  else if 0x80 ≤ c.toNat && c.toNat ≤ 0x9F then
    "\\u\x7b" ++ Nat.toDigits 16 c.toNat ++ "\x7d"
  else [c]

/-- The text of a log line. -/
def Line.render (l : Line) : Text :=
  l.level.label ++ " " ++ l.message.flatMap showCharacter ++ l.fields.flatMap renderField

end DialectBridge.Log
