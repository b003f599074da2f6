import DialectBridge.Proofs.Idiom.Absence
import DialectBridge.Proofs.Types.Declared

/-!
# Table definitions

A table definition with plain columns: free names and declared types. A name is free if no stage of a
conversion looks for it: it is no word of a type, of an idiom or construct of Oracle, no keyword, and no
word that a name follows.
-/

namespace DialectBridge

/-- The words that are no free names. -/
def TypeTable.reservedWords (types : TypeTable) : List Text :=
  types.rules.flatMap (fun r => Text.runs isBare r.source) ++ oracleWords ++ nameIntroducers ++
    Keyword.all.map Keyword.text

/-- The name is a bare identifier and no reserved word, up to case. -/
structure TypeTable.IsFreeName (types : TypeTable) (name : Text) : Prop extends IsBareWord name where
  free : ∀ word ∈ types.reservedWords, name.same word = false

/-- The definition of a column: its name and its type. -/
def columnText (c : Text × Text) : Text :=
  c.1 ++ ' ' :: c.2

/-- The definition of a table with these columns. -/
def createTable (table : Text) (columns : List (Text × Text)) : Text :=
  "CREATE TABLE " ++ table ++ " (" ++ Text.joinWith ", " (columns.map columnText) ++ ")"

/-- The columns of a definition up to its end. -/
def columnsText (columns : List (Text × Text)) : Text :=
  Text.joinWith ", " (columns.map columnText) ++ [')']

@[simp] theorem columnsText_singleton (c : Text × Text) : columnsText [c] = columnText c ++ [')'] := by
  simp [columnsText, Text.joinWith]

@[simp] theorem columnsText_cons_cons (c d : Text × Text) (columns : List (Text × Text)) :
    columnsText (c :: d :: columns) = columnText c ++ ',' :: ' ' :: columnsText (d :: columns) := by
  simp [columnsText, Text.joinWith, List.intercalate_cons_cons]

theorem createTable_eq (table : Text) (columns : List (Text × Text)) :
    createTable table columns = Keyword.create.text ++ ' ' :: (Keyword.table.text ++ ' ' ::
      (table ++ ' ' :: '(' :: columnsText columns)) := by
  have hfront : ("CREATE TABLE " : Text) = Keyword.create.text ++ ' ' :: (Keyword.table.text ++ [' ']) := by
    decide +kernel
  have hparen : (" (" : Text) = [' ', '('] := by decide +kernel
  have hclose : (")" : Text) = [')'] := by decide +kernel
  unfold createTable columnsText
  simp only [hfront, hparen, hclose, List.append_assoc, List.cons_append, List.nil_append]

namespace TypeTable

variable {types : TypeTable} {name : Text}

/-- A free name does not start a type. -/
theorem IsFreeName.fold_ne (h : types.IsFreeName name) {r : TypeRule} (hr : r ∈ types.rules)
    (hne : r.word ≠ []) : Text.fold name ≠ Text.fold r.word := by
  intro hfold
  have hmem : r.word ∈ Text.runs isBare r.source := by
    have hstop := Text.head?_any_dropWhile isBare r.source
    rw [r.source_eq, Text.runs_run hne r.bare_word hstop]
    exact List.mem_cons_self
  have hreserved : r.word ∈ types.reservedWords := by
    simp only [reservedWords, List.mem_append, List.mem_flatMap]
    exact .inl (.inl (.inl ⟨r, hr, hmem⟩))
  have hsame := (Text.fold_eq_iff h.ascii
    fun c hc => toNat_lt_of_bare (r.bare_word c hc)).1 hfold
  rw [h.free _ hreserved] at hsame
  cases hsame

end TypeTable

end DialectBridge
