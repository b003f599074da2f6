import DialectBridge.Text.SortedMap

/-!
# Names in Python

How the names of procedures and parameters become names of methods and arguments.
-/

namespace DialectBridge.Naming

/-! ## Snake case -/

/-- A new word starts at the upper-case letter after `previous`: after a lower-case letter or a digit,
and at the last letter of an acronym that a lower-case letter follows. -/
def startsWord (previous : Char) (next : Option Char) : Bool :=
  isLowercase previous || previous.isDigit || (isUppercase previous && next.any isLowercase)

/-- What a character adds to a name: a character of its own or a lower-case form, with an underscore
in front where a word starts. -/
def piece (previous : Option Char) (c : Char) (next : Option Char) : Text :=
  if isUppercase c && previous.any (startsWord · next) then '_' :: lowercaseOf c else lowercaseOf c

/-- The pieces of a name. The last character written is `last`; two underscores never meet. -/
def snakePieces (last previous : Option Char) : Text → Text
  | [] => []
  | c :: t =>
    if c == '_' && last == some '_' then snakePieces last (some c) t
    else
      let written := piece previous c t.head?
      written ++ snakePieces written.getLast? (some c) t

/-- The snake case of a name: `getHTTPResponse` becomes `get_http_response`. -/
def snakeCase (name : Text) : Text :=
  Text.dropEndWhile (· == '_') ((snakePieces none none name).dropWhile (· == '_'))

/-! ## Entities -/

/-- Replaces every occurrence of `old`, from left to right. `skip` characters belong to an occurrence
that was replaced already. -/
def replaceFrom (old new : Text) : Nat → Text → Text
  | _, [] => []
  | skip + 1, _ :: t => replaceFrom old new skip t
  | 0, c :: t =>
    if old.isPrefixOf (c :: t) then new ++ replaceFrom old new (old.length - 1) t
    else c :: replaceFrom old new 0 t

/-- Replaces every occurrence of `old`. The empty text occurs around every character. -/
def replaceAll (old new t : Text) : Text :=
  if old.isEmpty then new ++ t.flatMap fun c => c :: new else replaceFrom old new 0 t

/-- What stands in the place of parts of names; the pairs apply in order. -/
abbrev Entities := List (Text × Text)

/-- Applies the pairs in lower case. -/
def applyEntities (entities : Entities) (name : Text) : Text :=
  entities.foldl (fun t pair => replaceAll pair.1.lowercase pair.2.lowercase t) name

/-- Puts a pair before the first one with a shorter old text. -/
def insertEntity (pair : Text × Text) : Entities → Entities
  | [] => [pair]
  | other :: entities =>
    if pair.1.utf8Size > other.1.utf8Size then pair :: other :: entities
    else other :: insertEntity pair entities

/-- The pairs of a map, longest old text first. An empty text is left out. -/
def entitiesOf (m : TextMap Text) : Entities :=
  (m.filter fun pair => !pair.1.isEmpty).foldl (fun entities pair => insertEntity pair entities) []

/-! ## Methods and parameters -/

/-- The name after a start that letters of either case may write. A name that is only the start keeps
it. -/
def withoutStart (start name : Text) : Text :=
  if Text.same (name.take start.length) start && start.length < name.length then name.drop start.length
  else name

/-- The name of the method for a procedure: without its schema and the start `SP_`. -/
def methodName (entities : Entities) (procedure : Text) : Text :=
  let bare := (Text.splitOn '.' procedure).getLastD []
  applyEntities entities (snakeCase (withoutStart "SP_" bare))

/-- The name of the argument for a parameter: in lower case and without the start `p_`. -/
def parameterName (entities : Entities) (declared : Text) : Text :=
  applyEntities entities (withoutStart "p_" declared.lowercase)

end DialectBridge.Naming
