import DialectBridge.Lexical.Segment
import DialectBridge.Pattern.Search

/-!
# Glossaries

A glossary lists words with what stands in their place. At every place of a text the longest listed
word is looked for first, up to case, and it is replaced where it is a whole word; what was written is
not searched again.
-/

namespace DialectBridge

/-- Words in lower case with what stands in their place, in the order in which they are looked for. -/
structure Glossary where
  targets : List (Text × Text)
  deriving DecidableEq, Repr

namespace Glossary

/-- A word is looked for before another one if it is longer, and of two equally long ones the smaller
one first. -/
def wordBefore (v w : Text) : Bool :=
  if v.utf8Size ≠ w.utf8Size then w.utf8Size < v.utf8Size else Text.before v w

/-- Adds a word. A word that is listed already keeps its target. -/
def insert (word target : Text) : List (Text × Text) → List (Text × Text)
  | [] => [(word, target)]
  | (w, t) :: entries =>
    if w = word then (w, t) :: entries
    else if wordBefore word w then (word, target) :: (w, t) :: entries
    else (w, t) :: insert word target entries

/-- The glossary of some pairs of an old and a new word. An empty word is ignored, and of two pairs
for one word, up to case, the first one counts. -/
def ofPairs (pairs : List (Text × Text)) : Glossary :=
  ⟨(pairs.filter fun p => !p.1.isEmpty).foldl (fun entries p => insert p.1.lowercase p.2 entries) []⟩

/-- The glossary lists no word. -/
def isEmpty (g : Glossary) : Bool :=
  g.targets.isEmpty

/-- The target of a word. -/
def target? (g : Glossary) (word : Text) : Option Text :=
  (g.targets.find? fun entry => entry.1 == word).map Prod.snd

/-- The beginning of a text that equals a word up to case. -/
def takeLike? : Text → Text → Option Text
  | [], _ => some []
  | _ :: _, [] => none
  | c :: word, d :: t => if sameLetter c d then (d :: ·) <$> takeLike? word t else none

/-- The first listed word at a place. -/
def matcher (g : Glossary) : Matcher Unit := fun _ after =>
  g.targets.findSome? fun entry => (takeLike? entry.1 after).map fun taken => (taken, ())

/-- No identifier goes on before or after a match. -/
def standsAlone {α : Type} (m : Match α) : Bool :=
  !m.before.head?.any isIdentifierCharacter && !m.after.head?.any isIdentifierCharacter

/-- What stands in the place of a match, if it is a listed word. -/
def replacement? (g : Glossary) (m : Match Unit) : Option Text :=
  if standsAlone m then g.target? m.text.lowercase else none

/-- Replaces the listed words in a text. -/
def replace (g : Glossary) (t : Text) : Text :=
  replaceMatches g.matcher (fun m => (g.replacement? m).getD m.text) t

/-- The number of words that are replaced in a text. -/
def count (g : Glossary) (t : Text) : Nat :=
  ((allMatches g.matcher t).filter fun m => (g.replacement? m).isSome).length

/-! ## Scripts -/

/-- Names stand in code and in quotes. -/
def holdsNames (kind : SegmentKind) : Bool :=
  kind == .code || kind == .quoted

/-- Replaces the listed words among the names of a script. -/
def replaceNames (g : Glossary) (script : Text) : Text :=
  changeSegments holdsNames g.replace script

/-- The number of words that are replaced among the names of a script. -/
def countNames (g : Glossary) (script : Text) : Nat :=
  ((segments script).filter fun s => holdsNames s.kind).foldl (fun n s => n + g.count s.text) 0

end Glossary

end DialectBridge
