import DialectBridge.Text.Basic

/-!
# JSON values

The members of an object keep their order, and a key may occur twice. A number is kept as written,
since no document of this library holds one.
-/

namespace DialectBridge

/-- A JSON value. -/
inductive Json where
  | null
  | bool (value : Bool)
  | number (digits : Text)
  | string (value : Text)
  /-- A string with an unpaired surrogate escape, which stands for no text, or an object with such a
  key. -/
  | broken
  | array (items : List Json)
  | object (members : List (Text × Json))
  deriving Repr, Inhabited

namespace Json

/-- A string, or null where there is none. -/
def ofOptional : Option Text → Json
  | some t => .string t
  | none => .null

/-- A list of strings. -/
def ofTexts (ts : List Text) : Json :=
  .array (ts.map .string)

/-- An object whose members are strings. -/
def ofTextMap (entries : List (Text × Text)) : Json :=
  .object (entries.map fun (key, value) => (key, .string value))

end Json

end DialectBridge
