import DialectBridge.Json.Basic

/-!
# Decoding JSON

How domain values are taken out of documents. A record is an object, whose unknown members are
ignored and whose known members occur once, or an array with the fields in order.
-/

namespace DialectBridge

/-- A function that takes a value out of a JSON value. -/
abbrev Decoder (α : Type) := Json → Option α

namespace Decoder

/-- A string. -/
def text : Decoder Text
  | .string t => some t
  | _ => none

/-- A truth value. -/
def bool : Decoder Bool
  | .bool b => some b
  | _ => none

/-- A list. -/
def list {α : Type} (item : Decoder α) : Decoder (List α)
  | .array items => items.mapM item
  | _ => none

/-- A string or null. -/
def nullable {α : Type} (value : Decoder α) : Decoder (Option α)
  | .null => some none
  | v => some <$> value v

/-- One of a set of names, as a string or as the only key of an object with the value null. -/
def choice {α : Type} (ofName? : Text → Option α) : Decoder α
  | .string name => ofName? name
  | .object [(name, .null)] => ofName? name
  | _ => none

/-- The members of an object. -/
def members {α : Type} (value : Decoder α) : Decoder (List (Text × α))
  | .object entries => entries.mapM fun (key, v) => (key, ·) <$> value v
  | _ => none

/-! ## Records -/

/-- What a document says about the fields of a record. -/
inductive Fields where
  | byName (members : List (Text × Json))
  | byPosition (items : List Json)

/-- The fields of a record with these names. -/
def fields (names : List Text) : Decoder Fields
  | .object entries =>
    let known := (entries.map Prod.fst).filter names.contains
    if known.Nodup then some (.byName entries) else none
  | .array items => if items.length ≤ names.length then some (.byPosition items) else none
  | _ => none

namespace Fields

/-- What the document says about the field with this name and position. -/
def find? (f : Fields) (name : Text) (position : Nat) : Option Json :=
  match f with
  | byName entries => (entries.find? fun entry => entry.1 == name).map Prod.snd
  | byPosition items => items[position]?

/-- A field that has to be there. -/
def required {α : Type} (f : Fields) (name : Text) (position : Nat) (value : Decoder α) : Option α :=
  (f.find? name position).bind value

/-- A field with a value for documents that lack it. -/
def defaulted {α : Type} (f : Fields) (name : Text) (position : Nat) (value : Decoder α)
    (default : α) : Option α :=
  match f.find? name position with
  | some v => value v
  | none => some default

/-- A field that may be null. Where fields have names it may be missing too. -/
def optional {α : Type} (f : Fields) (name : Text) (position : Nat) (value : Decoder α) :
    Option (Option α) :=
  match f.find? name position, f with
  | some v, _ => nullable value v
  | none, byName _ => some none
  | none, byPosition _ => none

end Fields

end Decoder

end DialectBridge
