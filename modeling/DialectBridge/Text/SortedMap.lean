import DialectBridge.Text.Basic

/-!
# Maps with text keys

A map is a list of entries in the order of their keys. Every key occurs once; a later entry for a key
replaces an earlier one.
-/

namespace DialectBridge

/-- Entries in the order of their keys. -/
abbrev TextMap (α : Type) := List (Text × α)

namespace TextMap

variable {α : Type}

/-- Adds an entry, or replaces the entry of its key. -/
def insert (key : Text) (value : α) : TextMap α → TextMap α
  | [] => [(key, value)]
  | (k, v) :: entries =>
    if k = key then (key, value) :: entries
    else if Text.before key k then (key, value) :: (k, v) :: entries
    else (k, v) :: insert key value entries

/-- The map of some entries; of two entries with one key the last one stays. -/
def ofList (entries : List (Text × α)) : TextMap α :=
  entries.foldl (fun m entry => insert entry.1 entry.2 m) []

/-- The value of a key. -/
def get? (m : TextMap α) (key : Text) : Option α :=
  (m.find? fun entry => entry.1 == key).map Prod.snd

end TextMap

end DialectBridge
