import DialectBridge.Text.Basic
import DialectBridge.Text.Printable

/-!
# Quoted text in diagnostics

Diagnostics show text between quotes, with every character visible: the usual escapes for control
characters, the code point in hexadecimal for other characters that cannot be printed, and a
backslash in front of a backslash and of the quote itself.
-/

namespace DialectBridge.Text

/-- A character as it appears between two `quote` signs. -/
def escaped (quote c : Char) : Text :=
  if c = '\x00' then "\\0"
  else if c = '\t' then "\\t"
  else if c = '\n' then "\\n"
  else if c = '\r' then "\\r"
  else if c = '\\' then "\\\\"
  else if c = quote then ['\\', quote]
  else if isPrintable c then [c]
  else "\\u\x7b" ++ Nat.toDigits 16 c.toNat ++ "\x7d"

/-- A text in double quotes. -/
def quoted (t : Text) : Text :=
  '\x22' :: t.flatMap (escaped '\x22') ++ ['\x22']

/-- A character in single quotes. -/
def quotedChar (c : Char) : Text :=
  '\x27' :: escaped '\x27' c ++ ['\x27']

/-- A list of texts, each in double quotes. -/
def quotedList (ts : List Text) : Text :=
  "[" ++ joinWith ", " (ts.map quoted) ++ "]"

end DialectBridge.Text
