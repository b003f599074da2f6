import DialectBridge.Idiom.Clause
import DialectBridge.Lexical.Segment
import DialectBridge.Pattern.Search

/-!
# Oracle idioms

Functions, storage clauses and types that Oracle writes in its own way, and how PostgreSQL writes
them. The rules are applied in their order, each to the code of the whole script; a rule for one
precision of `NUMBER` stands before the rule for `NUMBER` itself.
-/

namespace DialectBridge

/-- A part of a replacement: a text, or what the pattern captured under a number. -/
inductive TemplatePart where
  | text (t : Text)
  | captured (n : Nat)
  deriving DecidableEq, Repr

/-- A part of a replacement with its captured text filled in. -/
def TemplatePart.fill (captures : List (Nat × Text)) : TemplatePart → Text
  | text t => t
  | captured n => (DialectBridge.captured n captures).getD []

/-- The notation of a part of a replacement. -/
def TemplatePart.describe : TemplatePart → Text
  | text t => t
  | captured n => '$' :: Text.ofNat n

/-- A rule for one idiom. -/
structure IdiomRule where
  name : Text
  pattern : Pattern
  replacement : List TemplatePart

namespace IdiomRule

/-- The notation of the replacement of a rule. -/
def replacementText (r : IdiomRule) : Text :=
  r.replacement.flatMap TemplatePart.describe

/-- Replaces the idiom in a piece of code. -/
def replace (r : IdiomRule) (code : Text) : Text :=
  replaceMatches r.pattern.matcher (fun m => r.replacement.flatMap (TemplatePart.fill m.value)) code

open Pattern

/-- A character of a bare name, as patterns see it. -/
def isNameCharacter (c : Char) : Bool :=
  isWordCharacter c || c == '$' || c == '#'

/-- A rule for a single word. -/
def word (name source target : Text) : IdiomRule :=
  ⟨name, sequence [edge, Pattern.text source, edge], [.text target]⟩

/-- A rule for the name of a function before its arguments. -/
def function (name source target : Text) : IdiomRule :=
  ⟨name, sequence [edge, Pattern.text source, gap, letter '('], [.text (target ++ "(")]⟩

/-- A rule that drops a word with an operand, and the whitespace before it. -/
def option (name source : Text) (operand : Char → Bool) : IdiomRule :=
  ⟨name, sequence [space, Pattern.text source, space, Pattern.some operand], [.text []]⟩

/-- A rule for `NUMBER` with this precision. -/
def numberOf (name precision target : Text) : IdiomRule :=
  ⟨name, sequence [edge, Pattern.text "NUMBER", gap, letter '(', gap, Pattern.text precision, gap,
    letter ')'], [.text target]⟩

/-- The rule for `NUMBER` with a precision and a scale. -/
def numberDecimal : IdiomRule :=
  ⟨"number_decimal",
    sequence [edge, Pattern.text "NUMBER", gap, letter '(', gap, capture 1 digits, gap, letter ',', gap,
      capture 2 digits, gap, letter ')'],
    [.text "DECIMAL(", .captured 1, .text ",", .captured 2, .text ")"]⟩

end IdiomRule

/-- The rules for Oracle in the order in which they are applied. -/
def oracleIdioms : List IdiomRule :=
  [ -- Functions
    .word "sysdate" "SYSDATE" "CURRENT_DATE",
    .word "systimestamp" "SYSTIMESTAMP" "CURRENT_TIMESTAMP",
    .function "nvl" "NVL" "COALESCE",
    -- Storage
    .option "tablespace" "TABLESPACE" IdiomRule.isNameCharacter,
    .option "pctfree" "PCTFREE" isWordDigit,
    .option "pctused" "PCTUSED" isWordDigit,
    .option "initrans" "INITRANS" isWordDigit,
    .option "maxtrans" "MAXTRANS" isWordDigit,
    -- Types
    .word "varchar2" "VARCHAR2" "VARCHAR",
    .numberOf "number_10" "10" "INTEGER",
    .numberOf "number_19" "19" "BIGINT",
    .numberOf "number_1" "1" "BOOLEAN",
    .numberDecimal,
    .word "number" "NUMBER" "NUMERIC"]

/-- A script after idioms were replaced, with the names of the rules that changed it. -/
structure Replaced where
  text : Text
  applied : List Text
  deriving DecidableEq, Repr

namespace Replaced

/-- Applies one change; its name counts if it changes anything. -/
def step (r : Replaced) (name : Text) (change : Text → Text) : Replaced :=
  let next := change r.text
  if next = r.text then r else ⟨next, r.applied ++ [name]⟩

end Replaced

/-- Replaces the idioms of Oracle: `STORAGE` clauses go first, then every rule is applied. -/
def replaceOracleIdioms (script : Text) : Replaced :=
  oracleIdioms.foldl (fun r rule => r.step rule.name (changeCode rule.replace))
    (Replaced.step ⟨script, []⟩ "storage" (removeClause "STORAGE"))

end DialectBridge
