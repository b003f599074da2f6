import DialectBridge.Schema.ColumnDefinition
import DialectBridge.Schema.Constraint

/-!
# CREATE statements

The statements that declare a table or an index. The body of a table is a list of fragments, each a
column or a constraint; a fragment that cannot be read is left out and the others stay.
-/

namespace DialectBridge

/-- What a fragment of a table body declares. -/
inductive Declaration where
  | column (draft : ColumnDefinition.Draft)
  | constraint (constraint : Constraint)
  deriving DecidableEq, Repr

/-- A fragment of a table body with the outcome of reading it. -/
structure Fragment where
  part : Reader.Part
  outcome : Except ReadError Declaration

/-- What a `CREATE` turns out to be. -/
inductive Finding where
  | table (table : Table) (fragments : List Fragment)
  | index (name table : Text)
  /-- A statement of another kind. -/
  | other
  | unreadable (error : ReadError)

namespace Fragment

/-- A fragment that starts with these tokens is a constraint and no column. -/
def isConstraint (ts : List Token) : Bool :=
  (Token.headKeyword? ts).any Keyword.startsConstraint

/-- Reads a fragment. -/
def read (part : Reader.Part) : Fragment :=
  ⟨part,
    if isConstraint part.tokens then do
      let (constraint, _) ← Constraint.read part.tokens
      return .constraint constraint
    else do
      return .column (← ColumnDefinition.read part.tokens)⟩

/-- What the fragment declares, if it could be read. -/
def declaration? (f : Fragment) : Option Declaration :=
  f.outcome.toOption

end Fragment

namespace Declaration

/-- The column that is declared. -/
def column? : Declaration → Option Column
  | column draft => some draft.column
  | constraint _ => none

/-- The references that are declared. -/
def foreignKeys : Declaration → List ForeignKey
  | column draft => draft.reference.toList
  | constraint c => c.foreignKeys

/-- The first column of a primary key constraint. -/
def primaryKey? : Declaration → Option Text
  | constraint (.primaryKey columns) => columns.head?
  | _ => none

/-- The column that a constraint makes unique by itself. -/
def uniqueColumn? : Declaration → Option Text
  | constraint (.unique [name]) => some name
  | _ => none

end Declaration

namespace Table

/-- Applies `change` to the first member that satisfies `p`. -/
def modifyFirst {α : Type} (p : α → Bool) (change : α → α) : List α → List α
  | [] => []
  | a :: as => if p a then change a :: as else a :: modifyFirst p change as

/-- Makes the column of this name unique. -/
def markUnique (columns : List Column) (name : Text) : List Column :=
  modifyFirst (fun c => c.name.same name) (fun c => { c with isUnique := true }) columns

/-- The table of a list of declarations. A primary key constraint wins over a key declared in a
column. -/
def ofDeclarations (name statement : Text) (dialect : Dialect) (ds : List Declaration) : Table :=
  let columns := (ds.filterMap Declaration.uniqueColumn?).foldl markUnique
    (ds.filterMap Declaration.column?)
  { name, columns
    primaryKey := ds.findSome? Declaration.primaryKey? <|>
      (columns.find? Column.isPrimaryKey).map Column.name
    foreignKeys := ds.flatMap Declaration.foreignKeys
    indexes := []
    statement, dialect }

end Table

namespace Finding

open Reader

/-- Passes `IF NOT EXISTS`. -/
def existenceGuard : Reader Unit := do
  if ← eatKeyword .if then
    expectKeyword .not
    expectKeyword .exists

/-- Reads the rest of a table definition after its `TABLE`. The statement reaches from the token
`create`, which the tokens `whole` follow, to the parenthesis that closes the body. -/
def readTable (dialect : Dialect) (create : Token) (whole : List Token) : Reader Finding := do
  existenceGuard
  let name ← name "table name"
  let parts ← splitGroup
  let fragments := parts.map Fragment.read
  let statement ← look fun rest => Token.verbatim (create :: Token.taken whole rest)
  return .table (.ofDeclarations name statement dialect (fragments.filterMap Fragment.declaration?))
    fragments

/-- Reads the rest of an index definition after its `INDEX`. -/
def readIndex : Reader Finding := do
  existenceGuard
  let name ← name "index name"
  expectKeyword .on
  let table ← Reader.name "table name"
  let _ ← skipGroup
  return .index name table

/-- Passes the word `BITMAP`. -/
def bitmap : Reader Unit := do
  if ← look (Token.atWord "BITMAP") then skip

/-- Passes `OR REPLACE`. -/
def orReplace : Reader Unit := do
  if ← eatKeyword .or then expectKeyword .replace

/-- Reads a statement after the token `create`, which the tokens `whole` follow. -/
def afterCreate (dialect : Dialect) (create : Token) (whole : List Token) : Reader Finding := do
  orReplace
  let _ ← eatKeyword .global
  let _ ← eatKeyword .temporary
  if ← eatKeyword .table then readTable dialect create whole
  else do
    let _ ← eatKeyword .unique
    bitmap
    if ← eatKeyword .index then readIndex else return .other

/-! ## Reading a statement leaves an end of the script -/

theorem leavesSuffix_existenceGuard : LeavesSuffix existenceGuard :=
  (leavesSuffix_eatKeyword _).bind fun b => by
    cases b
    · exact .pure _
    · exact (leavesSuffix_expectKeyword _).bind fun _ => leavesSuffix_expectKeyword _

theorem leavesSuffix_orReplace : LeavesSuffix orReplace :=
  (leavesSuffix_eatKeyword _).bind fun b => by
    cases b
    · exact .pure _
    · exact leavesSuffix_expectKeyword _

theorem leavesSuffix_bitmap : LeavesSuffix bitmap :=
  (leavesSuffix_look _).bind fun b => by
    cases b
    · exact .pure _
    · exact leavesSuffix_skip

theorem leavesSuffix_readTable (dialect : Dialect) (create : Token) (whole : List Token) :
    LeavesSuffix (readTable dialect create whole) :=
  leavesSuffix_existenceGuard.bind fun _ => (leavesSuffix_name _).bind fun _ =>
    leavesSuffix_splitGroup.bind fun _ => (leavesSuffix_look _).bind fun _ => .pure _

theorem leavesSuffix_readIndex : LeavesSuffix readIndex :=
  leavesSuffix_existenceGuard.bind fun _ => (leavesSuffix_name _).bind fun _ =>
    (leavesSuffix_expectKeyword _).bind fun _ => (leavesSuffix_name _).bind fun _ =>
      leavesSuffix_skipGroup.bind fun _ => .pure _

theorem leavesSuffix_afterCreate (dialect : Dialect) (create : Token) (whole : List Token) :
    LeavesSuffix (afterCreate dialect create whole) :=
  leavesSuffix_orReplace.bind fun _ => (leavesSuffix_eatKeyword _).bind fun _ =>
    (leavesSuffix_eatKeyword _).bind fun _ => (leavesSuffix_eatKeyword _).bind fun b => by
      cases b
      · exact (leavesSuffix_eatKeyword _).bind fun _ => leavesSuffix_bitmap.bind fun _ =>
          (leavesSuffix_eatKeyword _).bind fun b => by
            cases b
            · exact .pure _
            · exact leavesSuffix_readIndex
      · exact leavesSuffix_readTable dialect create whole

end Finding

end DialectBridge
