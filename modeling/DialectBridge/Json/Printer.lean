import DialectBridge.Json.Basic

/-!
# Printing JSON

Each item and each member stands on a line of its own, indented by two blanks for every level. Empty
arrays and objects stay on one line. In strings only quotes, backslashes and control characters are
escaped.
-/

namespace DialectBridge.Json

/-- A character of a string as it is printed. -/
def escapeCharacter (c : Char) : Text :=
  if c = '\x22' then "\\\""
  else if c = '\\' then "\\\\"
  else if c = '\x08' then "\\b"
  else if c = '\t' then "\\t"
  else if c = '\n' then "\\n"
  else if c = '\x0c' then "\\f"
  else if c = '\r' then "\\r"
  else if c.toNat < 16 then "\\u000" ++ Nat.toDigits 16 c.toNat
  else if c.toNat < 32 then "\\u00" ++ Nat.toDigits 16 c.toNat
  else [c]

/-- A string with its quotes. -/
def printString (t : Text) : Text :=
  '\x22' :: t.flatMap escapeCharacter ++ ['\x22']

/-- A new line with the indentation of a level. -/
def newLine (level : Nat) : Text :=
  '\n' :: List.replicate (2 * level) ' '

mutual

/-- The text of a value whose line is indented by `level`. -/
def printAt (level : Nat) : Json → Text
  | .null => "null"
  | .bool true => "true"
  | .bool false => "false"
  | .number digits => digits
  | .string t => printString t
  | .broken => "null"
  | .array [] => "[]"
  | .array (item :: items) =>
    "[" ++ newLine (level + 1) ++ printAt (level + 1) item ++ printItems (level + 1) items ++
      newLine level ++ "]"
  | .object [] => "\x7b\x7d"
  | .object ((key, value) :: members) =>
    "\x7b" ++ newLine (level + 1) ++ printString key ++ ": " ++ printAt (level + 1) value ++
      printMembers (level + 1) members ++ newLine level ++ "\x7d"

/-- The items of an array after the first one. -/
def printItems (level : Nat) : List Json → Text
  | [] => []
  | item :: items => "," ++ newLine level ++ printAt level item ++ printItems level items

/-- The members of an object after the first one. -/
def printMembers (level : Nat) : List (Text × Json) → Text
  | [] => []
  | (key, value) :: members =>
    "," ++ newLine level ++ printString key ++ ": " ++ printAt level value ++
      printMembers level members

end

/-- The text of a value. -/
def print (v : Json) : Text :=
  printAt 0 v

end DialectBridge.Json
