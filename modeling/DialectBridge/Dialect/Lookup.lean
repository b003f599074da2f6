import DialectBridge.Error

/-!
# Looking up dialects

The dialects and routes that users name.
-/

namespace DialectBridge

/-- The form in which a dialect name is looked up: no whitespace around it, ASCII lower case. -/
def Dialect.normalName (given : Text) : Text :=
  given.trim.lower

/-- The dialect that a user names. -/
def Dialect.ofText (given : Text) : Except ConversionError Dialect :=
  match all.find? fun d => d.spellings.contains (normalName given) with
  | some d => .ok d
  | none => .error (.unknownDialect (normalName given))

/-- The route that a name such as `oracle_to_postgresql` names. -/
def Route.ofText (given : Text) : Except ConversionError Route :=
  match Text.cutAt? "_to_" (Dialect.normalName given) with
  | none => .error (.unknownDialect given)
  | some (source, target) => do
    return ⟨← Dialect.ofText source, ← Dialect.ofText target⟩

end DialectBridge
