import DialectBridge.Lexical.Segment
import DialectBridge.Pattern.Search

/-!
# Layout

The last step of a conversion tidies the layout of the code: one blank line at most, nothing behind a
semicolon at the end of a line, and no whitespace around the script.
-/

namespace DialectBridge.Layout

open Pattern

/-- A blank or a tab. -/
def isSpace (c : Char) : Bool :=
  c == ' ' || c == '\t'

/-- More than one blank line. -/
def blankLines : Pattern :=
  sequence [letter '\n', many isSpace, letter '\n', gap, letter '\n']

/-- A semicolon with blanks behind it at the end of a line. -/
def trailingSpace : Pattern :=
  sequence [letter ';', some isSpace, lineEnd]

/-- Tidies a piece of code. -/
def tidyCode (code : Text) : Text :=
  replaceMatches trailingSpace.matcher (fun _ => ";")
    (replaceMatches blankLines.matcher (fun _ => "\n\n") code)

/-- Tidies a script. Literals, quoted names and comments are copied. -/
def tidy (script : Text) : Text :=
  Text.trim (changeCode tidyCode script)

end DialectBridge.Layout
