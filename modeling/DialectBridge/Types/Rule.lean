import DialectBridge.Pattern.Basic

/-!
# Type rules

A type rule says how a type of one dialect is written in another one. The source of a rule is matched
up to case and spacing. A source of several words takes its arguments after the first one, the way
`TIMESTAMP(6) WITH TIME ZONE` is written.
-/

namespace DialectBridge

/-- What a rule does with the arguments of a type. -/
structure RuleForm where
  /-- The rule matches only a type with arguments. -/
  requiresArguments : Bool
  /-- The target takes the size of the source. -/
  carriesSize : Bool
  /-- The arguments can only be a precision and a scale. -/
  needsScale : Bool
  deriving DecidableEq, Repr

namespace RuleForm

/-- The target takes the size of the source: `VARCHAR2(100)` becomes `VARCHAR(100)`. -/
def sized : RuleForm :=
  ⟨false, true, false⟩

/-- The target takes no size, and the size of the source is dropped. -/
def fixed : RuleForm :=
  ⟨false, false, false⟩

/-- The rule needs arguments and drops them, as for `ENUM('a','b')`. -/
def withArguments : RuleForm :=
  ⟨true, false, false⟩

/-- The rule needs a precision and a scale and keeps them. -/
def scaled : RuleForm :=
  ⟨true, true, true⟩

end RuleForm

/-- A rule for one type. -/
structure TypeRule where
  source : Text
  target : Text
  form : RuleForm
  deriving DecidableEq, Repr

namespace TypeRule

/-! ## Properties of rules -/

/-- The rule matches only a type with arguments. -/
def requiresArguments (r : TypeRule) : Bool :=
  r.form.requiresArguments

/-- The arguments of the source go to the target. -/
def carriesSize (r : TypeRule) : Bool :=
  r.form.carriesSize

/-- The source holds its arguments already, as `NUMBER(10)` does. -/
def sourceHasArguments (r : TypeRule) : Bool :=
  r.source.contains '('

/-- The size of a matched type survives. A target that holds its own size takes no other. -/
def keepsSize (r : TypeRule) : Bool :=
  r.carriesSize && !r.target.contains '('

/-- The source has several words. -/
def isMultiWord (r : TypeRule) : Bool :=
  r.source.any isBlank

/-! ## The order of rules -/

/-- A rule is tried before another one if its source is longer. Of two equally long sources the
smaller one comes first, and of two rules with one source the one that requires arguments. -/
def before (r s : TypeRule) : Bool :=
  if r.source.utf8Size ≠ s.source.utf8Size then s.source.utf8Size < r.source.utf8Size
  else if r.source ≠ s.source then Text.before r.source s.source
  else r.requiresArguments && !s.requiresArguments

/-- Puts a rule in front of the first one that is not tried before it. -/
def insert (r : TypeRule) : List TypeRule → List TypeRule
  | [] => [r]
  | s :: rules => if s.before r then s :: insert r rules else r :: s :: rules

/-- The rules in the order in which they are tried. -/
def sort (rules : List TypeRule) : List TypeRule :=
  rules.foldr insert []

/-! ## Patterns of rules -/

open Pattern

/-- A character that stands for itself, with any spacing around it. -/
def spaced (c : Char) : Pattern :=
  sequence [gap, letter c, gap]

/-- The pattern of a source from here on. A run of whitespace matches any other; `inSpace` says that
its first character was treated. -/
def sourceParts (inSpace : Bool) : Text → List Pattern
  | [] => []
  | c :: t =>
    if isBlank c then
      if inSpace then sourceParts true t else space :: sourceParts true t
    else
      let part :=
        if c = '(' ∨ c = ',' then spaced c
        else if c = ')' then seq gap (letter c)
        else letter c
      part :: sourceParts false t

/-- The pattern of a source. A source that ends in a word matches only where a word ends. -/
def sourcePattern (source : Text) : Pattern :=
  let endsInWord := source.getLast?.any fun c => isAlphanumeric c || c == '_'
  sequence (sourceParts false source ++ if endsInWord then [edge] else [])

/-- Arguments in parentheses without parentheses in them. -/
def anyArguments : Pattern :=
  sequence [gap, letter '(', many fun c => c != '(' && c != ')', letter ')']

/-- A precision and a scale in parentheses. -/
def scaleArguments : Pattern :=
  sequence [gap, letter '(', gap, digits, gap, letter ',', gap, digits, gap, letter ')']

/-- The pattern of the arguments of a rule, which it captures under the number 1. -/
def argumentsPattern (r : TypeRule) : Pattern :=
  if r.sourceHasArguments then empty
  else if r.form.needsScale then capture 1 scaleArguments
  else if r.requiresArguments then capture 1 anyArguments
  else optional (capture 1 anyArguments)

/-- The pattern of a rule. -/
def pattern (r : TypeRule) : Pattern :=
  if r.isMultiWord && !r.sourceHasArguments then
    let first := r.source.takeWhile fun c => !isBlank c
    let rest := Text.trimStart (r.source.dropWhile fun c => !isBlank c)
    sequence [edge, text first, edge, r.argumentsPattern, space, sourcePattern rest]
  else sequence [edge, sourcePattern r.source, r.argumentsPattern]

end TypeRule

end DialectBridge
