import DialectBridge.Conversion
import DialectBridge.Proofs.Schema.DeclaredTypes

/-!
# The types of columns and their conversion

The type of a column is mapped on its own to find the columns whose types nobody knows and to record what the
others become, while the script is converted behind a mask. Both agree on every column of a script, if what stands in
quotes and comments in its type shows nothing of a type (`convertType?_iff`).
-/

namespace DialectBridge

open Masked Segment

/-- The type of a column is mapped exactly if converting it makes a change, and to the text that it is converted to.
So a column is known or recorded exactly if its type is converted. -/
theorem Script.convertType?_iff {route : Route} {types : TypeTable} (hroute : route.typeTable? = some types)
    {dialect : Dialect} {script : Text} {t : Table} (ht : t ∈ tables dialect script) {c : Column} (hc : c ∈ t.columns)
    (hshows : types.ShowsNoType c.dataType) (u : Text) :
    types.convertType? c.dataType = some u ↔
      (types.convertScript c.dataType).changes ≠ [] ∧ (types.convertScript c.dataType).text = u := by
  have htable : types = oracleTypes ∨ types = mysqlTypes := by
    unfold Route.typeTable? at hroute
    split at hroute
    · exact .inl (Option.some.inj hroute).symm
    · exact .inr (Option.some.inj hroute).symm
    · cases hroute
  have hdeclared := isDeclaredType_of_mem ht hc
  obtain ⟨htext, hlength⟩ := TypeTable.convertText_unmasked htable hshows hdeclared.quotesFirst
  have hchanges : (types.convertText c.dataType).changes ≠ [] ↔ (types.convertScript c.dataType).changes ≠ [] := by
    rw [← List.length_pos_iff, hlength, List.length_pos_iff]
  rw [TypeTable.convertType?, hdeclared.trim_eq, ← hchanges, ← htext]
  cases hempty : (types.convertText c.dataType).changes with
  | nil => simp
  | cons change changes => simp

/-- A column whose type lists literals. -/
def stateColumn : Column :=
  .plain "state" "ENUM('in progress','date')"

def stateTable : Table :=
  { Table.empty "t" .mysql with
    columns := [stateColumn], statement := "CREATE TABLE t (state ENUM('in progress','date'))" }

theorem Script.convertType?_iff_state :
    stateTable ∈ tables .mysql "CREATE TABLE t (state ENUM('in progress','date'))" ∧ stateColumn ∈ stateTable.columns ∧
      mysqlTypes.ShowsNoType stateColumn.dataType ∧
      (mysqlTypes.convertType? stateColumn.dataType = some "VARCHAR(255)" ↔
        (mysqlTypes.convertScript stateColumn.dataType).changes ≠ [] ∧
          (mysqlTypes.convertScript stateColumn.dataType).text = "VARCHAR(255)") := by
  have ht : stateTable ∈ tables .mysql "CREATE TABLE t (state ENUM('in progress','date'))" := by decide +kernel
  have hshows : mysqlTypes.ShowsNoType stateColumn.dataType :=
    ⟨by decide +kernel, by decide +kernel, by decide +kernel, by decide +kernel⟩
  have hroute : Route.typeTable? ⟨.mysql, .postgresql⟩ = some mysqlTypes := rfl
  have hc : stateColumn ∈ stateTable.columns := List.mem_singleton_self _
  exact ⟨ht, hc, hshows, convertType?_iff hroute ht hc hshows _⟩

/-- Without a mask, a parenthesis in a literal hides the arguments of a type, and a quoted name is taken for a type.
With one, code that looks like a placeholder gives way to what that holds. -/
theorem Script.convertType?_quoted :
    (((tables .mysql "CREATE TABLE t (x ENUM('a(b','c'))").flatMap Table.columns).map Column.dataType =
        ["ENUM('a(b','c')"] ∧
      mysqlTypes.convertType? "ENUM('a(b','c')" = none ∧
      mysqlTypes.convertScript "ENUM('a(b','c')" = ⟨"VARCHAR(255)", [⟨"ENUM('a(b','c')", "VARCHAR(255)"⟩]⟩) ∧
    (((tables .oracle "CREATE TABLE t (x \x22date\x22)").flatMap Table.columns).map Column.dataType =
        ["\x22date\x22"] ∧
      oracleTypes.convertType? "\x22date\x22" = some "\x22TIMESTAMP\x22" ∧
      oracleTypes.convertScript "\x22date\x22" = ⟨"\x22date\x22", []⟩) ∧
    (((tables .oracle "CREATE TABLE t (x CHAR(/*c*/\x010\x01))").flatMap Table.columns).map Column.dataType =
        ["CHAR(/*c*/\x010\x01)"] ∧
      oracleTypes.convertType? "CHAR(/*c*/\x010\x01)" = some "CHAR(/*c*/\x010\x01)" ∧
      (oracleTypes.convertScript "CHAR(/*c*/\x010\x01)").text = "CHAR(/*c*//*c*/)") := by
  decide +kernel

end DialectBridge
