import DialectBridge.Types.Mask
import DialectBridge.Types.NamePlace
import DialectBridge.Types.Rule

/-!
# Type tables

A type table holds the rules for the types of a dialect. They are tried at every place of a text,
longest source first, in a single pass. So `NUMBER(10)` wins over `NUMBER`, and what was written is
never searched again.
-/

namespace DialectBridge

/-- A type that was replaced. -/
structure TypeChange where
  /-- The text that matched. -/
  found : Text
  /-- The text in its place. -/
  written : Text
  deriving DecidableEq, Repr

/-- A text after its types were replaced, with the replacements from left to right. -/
structure ConvertedText where
  text : Text
  changes : List TypeChange
  deriving DecidableEq, Repr

/-- A set of type rules in the order in which they are tried. -/
structure TypeTable where
  rules : List TypeRule
  deriving DecidableEq, Repr

namespace TypeTable

/-- The table of some rules, whatever their order. -/
def ofRules (rules : List TypeRule) : TypeTable :=
  ⟨TypeRule.sort rules⟩

/-! ## Sizes -/

/-- The unit of a length, with the parenthesis behind it. -/
def lengthUnit : Pattern :=
  .sequence [.space, .either (.text "CHAR") (.text "BYTE"), .gap, .letter ')']

/-- The size that a target takes over: without whitespace and without the unit of a length. -/
def carriedSize (arguments : Text) : Text :=
  (replaceFirst lengthUnit.matcher [')'] arguments).filter fun c => !isBlank c

/-! ## Matching -/

/-- The rule that matched, with the arguments of the type if it has any. -/
structure RuleMatch where
  rule : TypeRule
  arguments : Option Text

/-- The first rule that matches at a place. -/
def matcher (types : TypeTable) : Matcher RuleMatch := fun before after =>
  types.rules.findSome? fun r =>
    (r.pattern.matcher before after).map fun (taken, captures) =>
      (taken, ⟨r, (captured 1 captures).filter fun t => !t.isEmpty⟩)

/-- The text that a rule writes for a match. -/
def RuleMatch.written (r : RuleMatch) : Text :=
  match r.arguments with
  | some arguments =>
    if r.rule.keepsSize then r.rule.target ++ carriedSize arguments else r.rule.target
  | none => r.rule.target

/-- The change that a match makes. A bare word in the place of a name is no type. -/
def change? (m : Match RuleMatch) : Option TypeChange :=
  if m.value.arguments.isNone && !m.value.rule.sourceHasArguments &&
      isNamePlace m.before m.after then none
  else some ⟨m.text, m.value.written⟩

/-- Replaces every type in a text. -/
def convertText (types : TypeTable) (t : Text) : ConvertedText :=
  let write (found : Match RuleMatch) : Text :=
    ((change? found).map TypeChange.written).getD found.text
  ⟨replaceMatches types.matcher write t, (allMatches types.matcher t).filterMap change?⟩

/-- Replaces every type in the code of a script. Literals in the arguments of a type still belong to
its arguments. -/
def convertScript (types : TypeTable) (script : Text) : ConvertedText :=
  let masked := Masked.ofScript script
  let converted := types.convertText masked.text
  ⟨Masked.restore masked.held converted.text,
    converted.changes.map fun c => { c with found := Masked.restore masked.held c.found }⟩

/-- The text of a declared type in the target dialect, if a rule matches. -/
def convertType? (types : TypeTable) (declared : Text) : Option Text :=
  let converted := types.convertText declared.trim
  if converted.changes.isEmpty then none else some converted.text

end TypeTable

end DialectBridge
