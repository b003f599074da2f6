import DialectBridge.Lexical.Segment
import DialectBridge.Pattern.Search

/-!
# Constructs without a counterpart

Oracle constructs that no rule can replace. An audit reports each of them once, in a fixed order.
-/

namespace DialectBridge

/-- A construct that has to be changed by hand. -/
inductive OracleConstruct where
  | decode | nvl2 | rownum | dual | toNumber | instr | connectBy | outerJoin
  deriving DecidableEq, Repr

namespace OracleConstruct

open Pattern

/-- Every construct, in the order of an audit. -/
def all : List OracleConstruct :=
  [.decode, .nvl2, .rownum, .dual, .toNumber, .instr, .connectBy, .outerJoin]

/-- The pattern of a function call. -/
def call (name : Text) : Pattern :=
  sequence [edge, text name, gap, letter '(']

/-- The pattern of a word. -/
def word (name : Text) : Pattern :=
  sequence [edge, text name, edge]

/-- The pattern of a construct. -/
def pattern : OracleConstruct → Pattern
  | decode => call "DECODE"
  | nvl2 => call "NVL2"
  | rownum => word "ROWNUM"
  | dual => word "DUAL"
  | toNumber => call "TO_NUMBER"
  | instr => call "INSTR"
  | connectBy => sequence [edge, text "CONNECT", space, text "BY", edge]
  | outerJoin => sequence [letter '(', gap, letter '+', gap, letter ')']

/-- What an audit says about a construct. -/
def message : OracleConstruct → Text
  | decode => "DECODE() has no PostgreSQL equivalent; rewrite as CASE"
  | nvl2 => "NVL2() has no PostgreSQL equivalent; rewrite as CASE"
  | rownum => "ROWNUM is not supported; use LIMIT or ROW_NUMBER()"
  | dual => "DUAL table reference; PostgreSQL SELECT needs no FROM"
  | toNumber => "TO_NUMBER() needs a format-aware cast"
  | instr => "INSTR() should become STRPOS() or POSITION()"
  | connectBy => "CONNECT BY hierarchy; rewrite as WITH RECURSIVE"
  | outerJoin => "(+) outer join marker; rewrite as explicit JOIN"

end OracleConstruct

/-- The code of a script, with a line break in the place of everything else. -/
def codeOf (script : Text) : Text :=
  Text.joinWith "\n" (((segments script).filter fun s => s.kind == .code).map Segment.text)

/-- The constructs in the code of a script that have to be changed by hand. -/
def oracleConstructs (script : Text) : List OracleConstruct :=
  let code := codeOf script
  OracleConstruct.all.filter fun c => hasMatch c.pattern.matcher code

end DialectBridge
