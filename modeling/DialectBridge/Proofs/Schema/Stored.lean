import DialectBridge.CommandLine.Report
import DialectBridge.Proofs.Json.RoundTrip

/-!
# Stored tables are read back

Every value that is stored is decoded as what was stored, record by record. So a table that is stored
and read back has lost its statement and nothing else (`Table.decoder_toJson`). No stored table holds a
number, so the same is true of the printed document of any list of tables.
-/

namespace DialectBridge

open Decoder

/-! ## Decoding what is stored -/

theorem Decoder.nullable_ofOptional (t : Option Text) : nullable text (.ofOptional t) = some t := by
  cases t <;> rfl

/-- A list is decoded item by item. -/
theorem Decoder.list_array_map {α β : Type} {item : Decoder β} {store : α → Json} {read : α → β}
    (h : ∀ a, item (store a) = some (read a)) (as : List α) :
    list item (.array (as.map store)) = some (as.map read) := by
  induction as with
  | nil => rfl
  | cons a as ih =>
    have ih : (as.map store).mapM item = some (as.map read) := ih
    simp [list, h, ih]

theorem Decoder.list_ofTexts (ts : List Text) : list text (.ofTexts ts) = some ts := by
  have hitem : ∀ t : Text, text (.string t) = some (id t) := fun _ => rfl
  have hread := list_array_map hitem ts
  rwa [List.map_id] at hread

theorem Dialect.decoder_toJson (d : Dialect) : decoder d.toJson = some d := by
  cases d <;> rfl

theorem Column.decoder_toJson (c : Column) : decoder c.toJson = some c := by
  have hfields : decoder c.toJson = (do
      let default ← Decoder.nullable text (.ofOptional c.default)
      return ⟨c.name, c.dataType, c.nullable, c.isPrimaryKey, c.isUnique, default⟩) := rfl
  rw [hfields, nullable_ofOptional]
  rfl

theorem ForeignKey.decoder_toJson (k : ForeignKey) : decoder k.toJson = some k := rfl

/-- A stored table has lost its statement and nothing else. -/
theorem Table.decoder_toJson (t : Table) : decoder t.toJson = some { t with statement := [] } := by
  have hfields : decoder t.toJson = (do
      let columns ← list Column.decoder (.array (t.columns.map Column.toJson))
      let primaryKey ← nullable text (.ofOptional t.primaryKey)
      let foreignKeys ← list ForeignKey.decoder (.array (t.foreignKeys.map ForeignKey.toJson))
      let indexes ← list text (.ofTexts t.indexes)
      let dialect ← Dialect.decoder t.dialect.toJson
      return ⟨t.name, columns, primaryKey, foreignKeys, indexes, [], dialect⟩) := rfl
  rw [hfields, list_array_map Column.decoder_toJson, list_array_map ForeignKey.decoder_toJson,
    nullable_ofOptional, list_ofTexts, Dialect.decoder_toJson, List.map_id', List.map_id']
  rfl

theorem Table.decoder_listToJson (ts : List Table) :
    list decoder (listToJson ts) = some (ts.map fun t => { t with statement := [] }) :=
  list_array_map decoder_toJson ts

/-! ## Printing what is stored -/

namespace Json.IsTextual

theorem ofOptional (t : Option Text) : IsTextual (.ofOptional t) := by
  cases t with
  | none => exact .null
  | some t => exact .string t

/-- An array of stored values holds no number if none of them does. -/
theorem array_map {α : Type} {store : α → Json} (h : ∀ a, IsTextual (store a)) (as : List α) :
    IsTextual (.array (as.map store)) :=
  .array (List.forall_mem_map.2 fun a _ => h a)

end Json.IsTextual

open Json (IsTextual)

theorem Column.isTextual_toJson (c : Column) : IsTextual c.toJson := by
  refine .object fun m hm => ?_
  simp only [List.mem_cons, List.not_mem_nil, or_false] at hm
  rcases hm with rfl | rfl | rfl | rfl | rfl | rfl
  · exact .string _
  · exact .string _
  · exact .bool _
  · exact .bool _
  · exact .bool _
  · exact .ofOptional _

theorem ForeignKey.isTextual_toJson (k : ForeignKey) : IsTextual k.toJson := by
  refine .object fun m hm => ?_
  simp only [List.mem_cons, List.not_mem_nil, or_false] at hm
  rcases hm with rfl | rfl | rfl <;> exact .string _

theorem Table.isTextual_toJson (t : Table) : IsTextual t.toJson := by
  refine .object fun m hm => ?_
  simp only [List.mem_cons, List.not_mem_nil, or_false] at hm
  rcases hm with rfl | rfl | rfl | rfl | rfl | rfl
  · exact .string _
  · exact .array_map Column.isTextual_toJson _
  · exact .ofOptional _
  · exact .array_map ForeignKey.isTextual_toJson _
  · exact .array_map .string _
  · exact .string _

theorem Table.isTextual_listToJson (ts : List Table) : IsTextual (listToJson ts) :=
  .array_map isTextual_toJson ts

/-! ## Documents -/

/-- The printed document of a list of tables holds the stored form of the list. -/
theorem Table.parse_line_print (ts : List Table) :
    Json.parse (CommandLine.line (listToJson ts).print) = some (listToJson ts) :=
  (isTextual_listToJson ts).parse_print_append (by simp [Json.isSpace])

/-- The document that is printed for a list of tables holds the same tables without their statements,
whatever their texts contain; and so does the document that is printed for the tables of a script. -/
theorem Table.tables_of_printed_document (ts : List Table) :
    (Json.parse (CommandLine.line (listToJson ts).print)).bind (list decoder) =
        some (ts.map fun t => { t with statement := [] }) ∧
      ∀ file dialect script,
        (Json.parse (CommandLine.parseReport file dialect script).output).bind (list decoder) =
          some ((Script.tables dialect script).map fun t => { t with statement := [] }) := by
  have hread : ∀ us : List Table, (Json.parse (CommandLine.line (listToJson us).print)).bind (list decoder) =
      some (us.map fun t => { t with statement := [] }) := by
    intro us
    rw [parse_line_print, Option.bind_some, decoder_listToJson]
  exact ⟨hread ts, fun file dialect script => hread (Script.tables dialect script)⟩

end DialectBridge
