import DialectBridge.Reading.Reader
import DialectBridge.Schema.Table

/-!
# Table constraints

The constraints that stand beside the columns in a table definition.
-/

namespace DialectBridge

/-- A constraint of a table. -/
inductive Constraint where
  | primaryKey (columns : List Text)
  /-- The columns, the table they refer to, and the columns named there, if any are. -/
  | foreignKey (columns : List Text) (table : Text) (referenced : List Text)
  | unique (columns : List Text)
  | check
  deriving DecidableEq, Repr

namespace Constraint

open Reader

/-- Reads the name in front of a constraint, if it has one. -/
def readName : Reader Unit := do
  if ← eatKeyword .constraint then
    let _ ← word "constraint name"

/-- Reads a table-level constraint. -/
def read : Reader Constraint := do
  readName
  match ← look Token.headKeyword? with
  | some .primary =>
    skip
    expectKeyword .key
    return .primaryKey (← nameList)
  | some .foreign =>
    skip
    expectKeyword .key
    let columns ← nameList
    expectKeyword .references
    let table ← name "referenced table"
    if ← look (Token.atKind .leftParen) then
      return .foreignKey columns table (← nameList)
    else
      return .foreignKey columns table []
  | some .unique =>
    skip
    unless ← eatKeyword .key do
      let _ ← eatKeyword .index
    unless ← look (Token.atKind .leftParen) do
      let _ ← word "constraint name"
    return .unique (← nameList)
  | some .check => return .check
  | _ => fail "PRIMARY KEY, FOREIGN KEY, UNIQUE or CHECK"

/-- The references that a constraint makes, column by column. A column that has no counterpart in
the list of referenced columns leaves it open. -/
def foreignKeys : Constraint → List ForeignKey
  | foreignKey columns table referenced => pair table columns referenced
  | _ => []
where
  pair (table : Text) : List Text → List Text → List ForeignKey
    | [], _ => []
    | column :: columns, [] => ⟨column, table, []⟩ :: pair table columns []
    | column :: columns, target :: targets => ⟨column, table, target⟩ :: pair table columns targets

end Constraint

end DialectBridge
