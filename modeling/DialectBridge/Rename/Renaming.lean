import DialectBridge.Dialect
import DialectBridge.Log
import DialectBridge.Rename.Glossary
import DialectBridge.Text.Quoted
import DialectBridge.Text.SortedMap

/-!
# Renaming tables and columns

Tables are renamed first, then columns, each in a single pass, so that no name is renamed twice in a
pass. A column name is replaced everywhere, whatever its table; so the first table that renames it
decides, and a table that wants another name for it is in conflict.
-/

namespace DialectBridge

/-- The new names of tables, and of the columns of each table by its old name. -/
structure Renaming where
  tables : TextMap Text
  columns : TextMap (TextMap Text)
  deriving DecidableEq, Repr

/-- A column of a table that gets a new name. -/
structure ColumnRename where
  table : Text
  old : Text
  new : Text
  deriving DecidableEq, Repr

/-- A column rename that cannot take effect, since an earlier one decides. -/
structure RenameConflict where
  rename : ColumnRename
  earlier : ColumnRename
  deriving DecidableEq, Repr

/-- What happens to a table: its new name, its renamed columns and its converted types. -/
structure Transformation where
  oldTable : Text
  newTable : Text
  columns : TextMap Text
  /-- For each column, the declared type and the converted one. -/
  types : TextMap Text
  route : Route
  deriving DecidableEq, Repr

/-- A script after renaming, with the record of it. -/
structure RenamedScript where
  text : Text
  transformations : List Transformation
  /-- Every table rename, as `old -> new`. -/
  labels : List Text
  conflicts : List RenameConflict
  deriving DecidableEq, Repr

/-- The wording of a conflict. -/
def RenameConflict.message (c : RenameConflict) : Text :=
  "Column '" ++ c.rename.old ++ "' of table '" ++ c.rename.table ++ "' maps to '" ++ c.rename.new ++
    "', but '" ++ c.earlier.new ++ "' from table '" ++ c.earlier.table ++ "' already applies"

namespace Renaming

/-- Names stay as they are. -/
def none : Renaming :=
  ⟨[], []⟩

/-- The table renames; an empty name renames nothing. -/
def tableRenames (r : Renaming) : TextMap Text :=
  r.tables.filter fun entry => !entry.1.isEmpty

/-- The column renames in the order of the tables and of the columns in them. -/
def columnRenames (r : Renaming) : List ColumnRename :=
  r.columns.flatMap fun (table, columns) =>
    (columns.filter fun entry => !entry.1.isEmpty).map fun (old, new) => ⟨table, old, new⟩

/-- The renames that decide about their column name: those before which no other one has it. -/
def decisive : List ColumnRename → List ColumnRename → List ColumnRename
  | _, [] => []
  | earlier, c :: cs =>
    if earlier.any fun e => e.old.lowercase == c.old.lowercase then decisive earlier cs
    else c :: decisive (earlier ++ [c]) cs

/-- The column renames that take effect. -/
def acceptedColumns (r : Renaming) : List ColumnRename :=
  decisive [] r.columnRenames

/-- The conflict of a rename with the one that decides about its column name. -/
def conflict? (accepted : List ColumnRename) (c : ColumnRename) : Option RenameConflict :=
  match accepted.find? fun e => e.old.lowercase == c.old.lowercase with
  | some earlier => if earlier.new = c.new then .none else some ⟨c, earlier⟩
  | .none => .none

/-- The column renames that cannot take effect. -/
def conflicts (r : Renaming) : List RenameConflict :=
  r.columnRenames.filterMap (conflict? r.acceptedColumns)

/-- Applies `change` to the first transformation of a table. -/
def atTable (table : Text) (change : Transformation → Transformation) :
    List Transformation → List Transformation
  | [] => []
  | t :: ts => if t.oldTable.same table then change t :: ts else t :: atTable table change ts

/-- Records a column rename with its table. -/
def record (ts : List Transformation) (c : ColumnRename) : List Transformation :=
  atTable c.table (fun t => { t with columns := t.columns.insert c.old c.new }) ts

/-- The record of the renaming: one entry for each renamed table. -/
def transformations (r : Renaming) (route : Route) : List Transformation :=
  r.acceptedColumns.foldl record
    (r.tableRenames.map fun (old, new) => ⟨old, new, [], [], route⟩)

/-- The label of a table rename. -/
def label (entry : Text × Text) : Text :=
  entry.1 ++ " -> " ++ entry.2

/-- The new names of tables by the old ones. -/
def tableGlossary (r : Renaming) : Glossary :=
  .ofPairs r.tables

/-- The new names of columns by the old ones, wherever they take effect. -/
def columnGlossary (r : Renaming) : Glossary :=
  .ofPairs (r.acceptedColumns.map fun c => (c.old, c.new))

/-- Renames the tables and columns of a script. -/
def apply (r : Renaming) (script : Text) (route : Route) : RenamedScript :=
  ⟨r.columnGlossary.replaceNames (r.tableGlossary.replaceNames script), r.transformations route,
    r.tableRenames.map label, r.conflicts⟩

/-- What the renaming of a script reports. -/
def log (r : Renaming) (script : Text) : List Log.Line :=
  let tableHits := r.tableGlossary.countNames script
  let columnHits := r.columnGlossary.countNames (r.tableGlossary.replaceNames script)
  [Log.debug "renamed tables" [("stage", Text.quoted "tables"),
    ("renames", Text.ofNat r.tableRenames.length), ("replaced", Text.ofNat tableHits)]] ++
    (r.conflicts.map fun c => Log.warn c.message) ++
    [Log.debug "renamed columns" [("stage", Text.quoted "columns"), ("replaced", Text.ofNat columnHits)]]

end Renaming

end DialectBridge
