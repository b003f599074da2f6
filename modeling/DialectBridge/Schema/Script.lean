import DialectBridge.Lexical.Scan
import DialectBridge.Log
import DialectBridge.Reading.Cursor
import DialectBridge.Schema.Statement

/-!
# Scripts

The tables that a script declares, in order. Reading never fails: a statement that cannot be read is
passed over, and reading goes on after its `CREATE`. At the end the indexes are given to their tables,
and references that name no column get one.
-/

namespace DialectBridge.Script

/-- What the `CREATE`s among the tokens turn out to be. After a statement that could be read the next
one is searched behind it, otherwise right after its `CREATE`. -/
def findings (dialect : Dialect) (ts : List Token) : List Finding :=
  match ts with
  | [] => []
  | t :: rest =>
    if t.isEof then []
    else if t.isKeyword .create then
      match _h : Finding.afterCreate dialect t rest rest with
      | .ok (finding, next) => finding :: findings dialect next
      | .error e => .unreadable e :: findings dialect rest
    else findings dialect rest
termination_by ts.length
decreasing_by
  · exact Nat.lt_succ_of_le (Finding.leavesSuffix_afterCreate dialect t rest _h).length_le
  · simp
  · simp

/-- The table of a finding. -/
def table? : Finding → Option Table
  | .table t _ => some t
  | _ => none

/-- The name of an index and of its table. -/
def index? : Finding → Option (Text × Text)
  | .index name table => some (name, table)
  | _ => none

/-! ## Names across statements -/

/-- A name without its schema. -/
def localName (name : Text) : Text :=
  (Text.splitOn '.' name).getLastD []

/-- Two names mean one table: they agree up to ASCII case, at least in the part after the last dot. -/
def meansSameTable (a b : Text) : Bool :=
  a.same b || (localName a).same (localName b)

/-- Gives an index to the first table that it can mean. -/
def giveIndex (tables : List Table) (index : Text × Text) : List Table :=
  Table.modifyFirst (fun t => meansSameTable t.name index.2)
    (fun t => { t with indexes := t.indexes ++ [index.1] }) tables

/-- The column that a reference means when its table is not declared in the script or has no primary
key. -/
def assumedColumn : Text := "id"

/-- Completes a reference that names no column. -/
def completeKey (tables : List Table) (key : ForeignKey) : ForeignKey :=
  if key.referencedColumn.isEmpty then
    let target := tables.find? fun t => meansSameTable t.name key.table
    { key with referencedColumn := (target.bind Table.primaryKey).getD assumedColumn }
  else key

/-- Completes all references. -/
def completeReferences (tables : List Table) : List Table :=
  tables.map fun t => { t with foreignKeys := t.foreignKeys.map (completeKey tables) }

/-- The tables that the findings declare, with their indexes and complete references. -/
def tablesOf (fs : List Finding) : List Table :=
  completeReferences ((fs.filterMap index?).foldl giveIndex (fs.filterMap table?))

/-- The tables that a script declares. -/
def tables (dialect : Dialect) (script : Text) : List Table :=
  tablesOf (findings dialect (scan script))

/-! ## What is reported -/

/-- The log line of a fragment that was left out. -/
def fragmentLine (whole : Window) (table : Text) (f : Fragment) : List Log.Line :=
  match f.outcome with
  | .ok _ => []
  | .error e =>
    let first := whole.position f.part.place
    let window := whole.narrow first (first + f.part.tokens.length)
    let message : Text :=
      if Fragment.isConstraint f.part.tokens then "skipping constraint"
      else "skipping column fragment"
    [Log.debug message [("table", table), ("error", window.describe e)]]

/-- The log lines of a finding. -/
def findingLines (whole : Window) : Finding → List Log.Line
  | .table t fragments => fragments.flatMap (fragmentLine whole t.name)
  | .unreadable e =>
    [Log.debug "skipping unparseable CREATE statement" [("error", whole.describe e)]]
  | _ => []

/-- The log line of an index whose table the script does not declare. -/
def indexLine (tables : List Table) (index : Text × Text) : List Log.Line :=
  if tables.any fun t => meansSameTable t.name index.2 then []
  else [Log.debug "index on a table not in this script"
    [("index", index.1), ("table", index.2)]]

/-- What the reading of a script reports. -/
def log (dialect : Dialect) (script : Text) : List Log.Line :=
  let whole := Window.ofScript script
  let fs := findings dialect whole.tokens
  let declared := fs.filterMap table?
  fs.flatMap (findingLines whole) ++ (fs.filterMap index?).flatMap (indexLine declared) ++
    [Log.debug "parsed DDL" [("tables", Text.ofNat declared.length)]]

end DialectBridge.Script
