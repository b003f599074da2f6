import DialectBridge.Text.Basic

/-!
# Keywords

The words that the grammars of table definitions and procedure headers turn on. All other words,
names of types among them, are plain identifiers, so that no vocabulary of a dialect is listed here.
-/

namespace DialectBridge

/-- A word with a grammatical role. -/
inductive Keyword where
  | create | or | replace | drop | table | index | procedure | global | temporary
  | if | not | exists
  | null | primary | key | foreign | references | unique | check | constraint | default | cascade
  | on
  | in | out | nocopy | is | as
  deriving DecidableEq, Repr

namespace Keyword

/-- Every keyword. -/
def all : List Keyword :=
  [.create, .or, .replace, .drop, .table, .index, .procedure, .global, .temporary, .if, .not,
    .exists, .null, .primary, .key, .foreign, .references, .unique, .check, .constraint, .default,
    .cascade, .on, .in, .out, .nocopy, .is, .as]

/-- The keyword in capitals. -/
def text : Keyword → Text
  | create => "CREATE" | or => "OR" | replace => "REPLACE" | drop => "DROP" | table => "TABLE"
  | index => "INDEX" | procedure => "PROCEDURE" | global => "GLOBAL" | temporary => "TEMPORARY"
  | .if => "IF" | not => "NOT" | .exists => "EXISTS" | null => "NULL" | primary => "PRIMARY"
  | key => "KEY" | foreign => "FOREIGN" | references => "REFERENCES" | unique => "UNIQUE"
  | check => "CHECK" | constraint => "CONSTRAINT" | default => "DEFAULT" | cascade => "CASCADE"
  | on => "ON" | .in => "IN" | out => "OUT" | nocopy => "NOCOPY" | is => "IS" | as => "AS"

/-- The keyword that a word spells, in any ASCII case. -/
def ofWord? (word : Text) : Option Keyword :=
  all.find? fun keyword => keyword.text == word.upper

/-- The keyword with its first letter alone in upper case, as diagnostics name it. -/
def title (keyword : Keyword) : Text :=
  keyword.text.take 1 ++ (keyword.text.drop 1).map Char.toLower

/-- A fragment of a column list that starts with this keyword is a constraint of the table and no
column. -/
def startsConstraint : Keyword → Bool
  | primary | foreign | unique | check | constraint => true
  | _ => false

theorem mem_all (keyword : Keyword) : keyword ∈ all := by
  cases keyword <;> decide

/-- Every keyword is read back from its own text. -/
theorem ofWord?_text (keyword : Keyword) : ofWord? keyword.text = some keyword := by
  cases keyword <;> decide

end Keyword

end DialectBridge
