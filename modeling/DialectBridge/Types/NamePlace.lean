import DialectBridge.Text.Basic
import DialectBridge.Text.WordCharacter

/-!
# Words in the place of names

A word such as `date` may name a type, a column or a table. Where it stands tells which: a qualified
word, a word behind an opening parenthesis or a comma, and a word behind a keyword that a name follows
are no types. At the start of a text a word is a name when another word or a list separator follows.
-/

namespace DialectBridge

/-- The keywords that a name follows. -/
def nameIntroducers : List Text :=
  ["TABLE", "FROM", "JOIN", "INTO", "UPDATE", "REFERENCES", "INDEX", "ON", "SELECT", "WHERE", "AND",
    "OR", "BY", "SET"]

/-- The word that ends a text, whose nearest character comes first. -/
def wordBefore (before : Text) : Text :=
  (before.takeWhile fun c => isAlphanumeric c || c == '_').reverse

/-- A character that shows that the word at the start of a text is a name. -/
def followsName (c : Char) : Bool :=
  isAlphabetic c || c == '_' || c == '\x22' || c == ',' || c == ')'

/-- The word between `before`, whose nearest character comes first, and `after` stands in the place of
a name. -/
def isNamePlace (before after : Text) : Bool :=
  let before := Text.trimStart before
  let after := Text.trimStart after
  if before.head? = some '.' ∨ after.head? = some '.' then true
  else if before.head? = some '(' ∨ before.head? = some ',' then true
  else
    let word := wordBefore before
    if word.isEmpty then before.isEmpty && after.head?.any followsName
    else nameIntroducers.any fun keyword => keyword.same word

end DialectBridge
