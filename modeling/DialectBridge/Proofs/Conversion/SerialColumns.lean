import DialectBridge.Proofs.Conversion.ColumnTypes
import DialectBridge.Proofs.Serial.Columns

/-!
# Converting definitions with serial columns

A table definition of Oracle has plain columns and columns that sequences feed. On the way to PostgreSQL the types of
all columns are converted first. A column that a sequence feeds keeps its default value in that step, and so it can
still be told from the others, whatever numeric type it has then. In the end these columns are serial, the others
have their converted types, and nothing else has changed (`convert_entries`).
-/

namespace DialectBridge

namespace SerialColumn

open TypeTable Definition Item

/-! ## Columns of a definition -/

/-- A column of a definition. -/
inductive Entry where
  | plain (name type : Text)
  /-- A column with the next value of a sequence as its default value. -/
  | fed (name type sequence : Text)
  deriving DecidableEq, Repr

namespace Entry

/-- The name of the column with what is written behind it. -/
def declared : Entry → Text × Text
  | plain name type => (name, type)
  | fed name type sequence => (name, type ++ feed sequence)

/-- The column in PostgreSQL, where `mapped` gives the types of plain columns. -/
def converted (mapped : Text → Text) : Entry → Text × Text
  | plain name type => (name, mapped type)
  | fed name _ _ => (name, "SERIAL")

/-- The names are free, a plain column has a declared type, and a fed one has a type that a sequence can feed. -/
def IsSound : Entry → Prop
  | plain name type => oracleTypes.IsFreeName name ∧ oracleTypes.Declares type
  | fed name type sequence => oracleTypes.IsFreeName name ∧ IsFedType type ∧ IsSequenceName sequence

end Entry

/-! ## Columns as plain texts -/

/-- No word of the items is one of an idiom of Oracle. -/
def IsQuiet (is : List Item) : Prop :=
  ∀ w, word w ∈ is → ∀ o ∈ oracleWords, w.same o = false

theorem isQuiet_of_free {name : Text} (h : oracleTypes.IsFreeName name) : ∀ o ∈ oracleWords, name.same o = false :=
  fun o ho => h.not_same o (List.mem_cons_of_mem _ ho)

theorem exists_items_sequence {sequence : Text} (h : IsSequenceName sequence) :
    ∃ is, render is = sequence ∧ Plain is ∧ is.head? ≠ some blank ∧ (∃ w, is.getLast? = some (word w)) ∧
      IsQuiet is := by
  cases h with
  | bare hw =>
    refine ⟨[word sequence], by simp [Item.text], ⟨List.forall_mem_singleton.2 hw.toIsBareWord, .singleton _⟩,
      by simp, ⟨sequence, rfl⟩, ?_⟩
    simpa [IsQuiet] using isQuiet_of_free hw
  | @qualified q w hq hw =>
    have hlast : Plain [word w] := ⟨List.forall_mem_singleton.2 hw.toIsBareWord, .singleton _⟩
    refine ⟨[word q, sign '.', word w], by simp [Item.text], ?_, by simp, ⟨w, rfl⟩, ?_⟩
    · exact (hlast.sign_cons (by simp [Item.IsSound])).cons hq.toIsBareWord (by simp [Meets, isRun, isNumber])
    · intro v hv
      obtain rfl | rfl : v = q ∨ v = w := by simpa using hv
      · exact isQuiet_of_free hq
      · exact isQuiet_of_free hw

/-- A column that a sequence feeds is plain text, and only its type can be a word of an idiom. -/
theorem exists_items_fed {name w size sequence : Text} (hname : oracleTypes.IsFreeName name) (hw : IsBareWord w)
    (hsize : IsPrecision size) (hsequence : IsSequenceName sequence) :
    ∃ is, IsColumn is (name, w ++ size ++ feed sequence) ∧ ((∀ o ∈ oracleWords, w.same o = false) → IsQuiet is) := by
  obtain ⟨js, hrender, hplain, hhead, ⟨v, hlast⟩, hquiet⟩ := exists_items_sequence hsequence
  have hsound : (Spelling.mk w [] size).IsSound := ⟨by simpa [Spelling.words] using hw, hsize.isSize⟩
  have hnextval : Plain [sign '.', word "NEXTVAL"] := by
    refine ⟨?_, by decide⟩
    simp only [List.forall_mem_cons]
    exact ⟨by simp [Item.IsSound], (by decide : IsBareWord "NEXTVAL"), by simp⟩
  have hvalue : Plain (js ++ [sign '.', word "NEXTVAL"]) := hplain.append hnextval fun i hi j hj => by
    obtain rfl : word v = i := Option.some.inj (hlast.symm.trans hi)
    obtain rfl : sign '.' = j := Option.some.inj hj
    simp [Meets, isRun, isNumber]
  have hvalueHead : (js ++ [sign '.', word "NEXTVAL"]).head? ≠ some blank := by
    cases js with
    | nil => cases hlast
    | cons j js => exact hhead
  have hfeed := (hvalue.word_cons Keyword.default.isBareWord_text hvalueHead).blank_cons (by simp)
  have htype := (Spelling.plain_items hsound).append hfeed fun i hi j hj => by
    obtain rfl : blank = j := Option.some.inj hj
    have hi : i ≠ blank := fun hblank => Spelling.getLast?_items _ (hblank ▸ hi)
    simp [Meets, isRun, hi]
  refine ⟨_, ⟨htype.word_cons hname.toIsBareWord (by simp [Spelling.items]), ?_, by simp⟩, fun hnot u hu => ?_⟩
  · simp [Spelling.render_items, hrender, Item.text, columnText, feed, Spelling.text]
  · simp only [List.mem_cons, List.mem_append, List.not_mem_nil, or_false, word.injEq, reduceCtorEq, false_or] at hu
    rcases hu with rfl | hu | rfl | hu | rfl
    · exact isQuiet_of_free hname
    · obtain h | ⟨ds, h⟩ := run_of_spelling hu rfl
      · obtain rfl : u = w := List.mem_singleton.1 h
        exact hnot
      · cases h
    · decide
    · exact hquiet u hu
    · decide

/-- A column with a spelled type is plain text. -/
theorem isQuiet_columnItems {name : Text} {s : Spelling} (hname : oracleTypes.IsFreeName name)
    (hwords : ∀ w ∈ s.words, ∀ o ∈ oracleWords, w.same o = false) : IsQuiet (columnItems (name, s)) := by
  intro w hw
  rcases run_of_column hw rfl with rfl | hmem | ⟨ds, h⟩
  · exact isQuiet_of_free hname
  · exact hwords w hmem
  · cases h

/-- A quiet definition holds no word of an idiom. -/
theorem not_holdsWord_of_quiet {table : Text} {body : List (List Item)} (htable : oracleTypes.IsFreeName table)
    (hplain : Plain (tableItems table body)) (hquiet : ∀ is ∈ body, IsQuiet is) :
    ∀ o ∈ oracleWords, ¬ (render (tableItems table body)).HoldsWord o := by
  intro o ho hholds
  have hbare := oracleWords_bare o ho
  obtain ⟨i, hi, hrun, hfold⟩ := exists_run_of_holdsWord hplain hholds
  have hsound := hplain.sound i hi
  cases i with
  | sign _ | blank => cases hrun
  | number ds => exact fold_number_ne hsound.1 hsound.2 hbare hfold
  | word w =>
    have hkeywords : ∀ o ∈ oracleWords, Keyword.create.text.same o = false ∧ Keyword.table.text.same o = false := by
      decide
    have hnot : w.same o = false := by
      rcases run_of_tableItems hi hrun with h | h | h | ⟨is, his, hw⟩
      · exact word.inj h ▸ (hkeywords o ho).1
      · exact word.inj h ▸ (hkeywords o ho).2
      · exact word.inj h ▸ isQuiet_of_free htable o ho
      · exact hquiet is his w hw o ho
    have hsame : w.same o = true := (Text.fold_eq_iff (IsBareWord.ascii hsound) hbare.ascii).1 hfold
    rw [hnot] at hsame
    cases hsame

/-! ## A column on its way -/

section

variable {mapped : Text → Text}

/-- The targets of the rules are plain types. -/
theorem isPlainType_of_target {s : Spelling} (hsound : s.IsSound) {r : TypeRule} (hr : r ∈ oracleTypes.rules)
    (hwords : s.words = (Spelling.ofText r.target).words) : IsPlainType s := by
  have htargets : ∀ r ∈ oracleTypes.rules, (∀ w ∈ (Spelling.ofText r.target).others, IsNotNumeric w) ∧
      ((Spelling.ofText r.target).others = [] ∨ IsNotNumeric (Spelling.ofText r.target).first) :=
    forall_mem_ofRules (by decide +kernel)
  obtain ⟨hfirst, hothers⟩ := List.cons.inj hwords
  refine ⟨hsound, ?_, ?_⟩
  · rw [hothers]
    exact (htargets r hr).1
  · rw [hothers, hfirst]
    exact (htargets r hr).2

/-- The definition of a column is plain text. -/
theorem exists_items_declared {c : Entry} (h : c.IsSound) : ∃ is, IsColumn is c.declared := by
  cases c with
  | plain name type =>
    obtain ⟨hname, htype⟩ := h
    obtain ⟨s, hsound, rfl, -⟩ := htype.exists_spelling oracle_orderly oracle_spelled
    exact ⟨_, isColumn_columnItems (c := (name, s)) hname.toIsBareWord hsound⟩
  | fed name type sequence =>
    obtain ⟨hname, ⟨size, hsize, -, rfl⟩, hsequence⟩ := h
    obtain ⟨is, his, -⟩ := exists_items_fed (w := "NUMBER") hname (by decide) hsize hsequence
    exact ⟨is, his⟩

/-- Behind the step for types a column is quiet, and the step for serial columns makes of it what it becomes. -/
theorem exists_typed (hmapped : ∀ t, oracleTypes.Declares t → oracleTypes.Becomes t (mapped t)) {c : Entry}
    (h : c.IsSound) : ∃ typed, oracleTypes.ConvertsColumn c.declared typed ∧ Replaces typed (c.converted mapped) ∧
      ∃ is, IsColumn is typed ∧ IsQuiet is := by
  cases c with
  | plain name type =>
    obtain ⟨hname, htype⟩ := h
    have hbecomes := hmapped type htype
    obtain ⟨s, hsound, htext, r, hr, hwords⟩ := hbecomes.spelled
    refine ⟨(name, mapped type), hbecomes.convertsColumn hname, ?_, columnItems (name, s), ?_, ?_⟩
    · rw [Entry.converted, ← htext]
      exact replaces_plain hname.toIsBareWord (isPlainType_of_target hsound hr hwords)
    · exact htext ▸ isColumn_columnItems (c := (name, s)) hname.toIsBareWord hsound
    · refine isQuiet_columnItems hname fun w hw o ho => ?_
      exact oracle_settled.quiet r hr w (hwords ▸ hw) o (List.mem_cons_of_mem _ ho)
  | fed name type sequence =>
    obtain ⟨hname, htype, hsequence⟩ := h
    obtain ⟨type', hwritten, hconverts⟩ := convertsColumn_fed hname htype hsequence
    refine ⟨_, hconverts, replaces_fed hname.toIsBareWord hwritten hsequence, ?_⟩
    obtain ⟨w, hw, size, hsize, rfl⟩ := hwritten
    have hwords : ∀ w ∈ writtenWords, IsBareWord w ∧ ∀ o ∈ oracleWords, w.same o = false := by decide
    obtain ⟨is, his, hquiet⟩ := exists_items_fed hname (hwords w hw).1 hsize hsequence
    exact ⟨is, his, hquiet (hwords w hw).2⟩

/-- What a column becomes is plain text. -/
theorem exists_items_converted (hmapped : ∀ t, oracleTypes.Declares t → oracleTypes.Becomes t (mapped t)) {c : Entry}
    (h : c.IsSound) : ∃ is, IsColumn is (c.converted mapped) := by
  cases c with
  | plain name type =>
    obtain ⟨s, hsound, htext, -⟩ := (hmapped type h.2).spelled
    exact ⟨_, htext ▸ isColumn_columnItems (c := (name, s)) h.1.toIsBareWord hsound⟩
  | fed name type sequence =>
    have hserial : (Spelling.mk "SERIAL" [] []).IsSound := by decide
    exact ⟨_, isColumn_columnItems (c := (name, ⟨"SERIAL", [], []⟩)) h.1.toIsBareWord hserial⟩

end

/-! ## The steps on a definition -/

section

variable {table : Text} {body : List (List Item)} {columns others : List (Text × Text)}

theorem typed_createTable (htable : oracleTypes.IsFreeName table) (hbody : List.Forall₂ IsColumn body columns)
    (h : List.Forall₂ oracleTypes.ConvertsColumn columns others) :
    (oracleTypes.convertScript (createTable table columns)).text = createTable table others := by
  rw [oracleTypes.convertScript_of_code (segments_tableItems htable.toIsBareWord hbody),
    convertText_definition oracle_orderly oracle_spelled htable h]

theorem idiomatic_createTable (htable : oracleTypes.IsFreeName table) (hbody : List.Forall₂ IsColumn body columns)
    (hquiet : ∀ is ∈ body, IsQuiet is) :
    replaceOracleIdioms (createTable table columns) = ⟨createTable table columns, []⟩ := by
  have hplain := plain_tableItems htable.toIsBareWord hbody
  rw [← render_tableItems table (hbody.imp fun _ _ h => h.render)]
  exact replaceOracleIdioms_render hplain (by simp [tableItems]) (getLast?_tableItems table body)
    (not_holdsWord_of_quiet htable hplain hquiet)

theorem makeSerial_createTable (htable : IsBareWord table) (hbody : List.Forall₂ IsColumn body columns)
    (h : List.Forall₂ Replaces columns others) (hnames : ∀ c ∈ columns, IsBareWord c.1) :
    makeSerial (createTable table columns) = createTable table others := by
  rw [makeSerial, changeCode_of_code (segments_tableItems htable hbody), replaceMatches_eq,
    sequenced_createTable htable h hnames]

theorem tidy_createTable (htable : IsBareWord table) (hbody : List.Forall₂ IsColumn body columns) :
    Layout.tidy (createTable table columns) = createTable table columns := by
  rw [← render_tableItems table (hbody.imp fun _ _ h => h.render)]
  exact tidy_render (plain_tableItems htable hbody) (by simp [tableItems]) (by simp [tableItems])
    (getLast?_tableItems table body)

/-- Without names to replace, the step for serial columns works on the script with its types and idioms replaced. -/
theorem sequenced_script (script : Text) : (Conversion.steps script .none ⟨.oracle, .postgresql⟩).sequenced =
    makeSerial (replaceOracleIdioms (oracleTypes.convertScript script).text).text := by
  show makeSerial (Glossary.replaceNames ⟨[]⟩ (Glossary.replaceNames ⟨[]⟩
    (replaceOracleIdioms (oracleTypes.convertScript script).text).text)) = _
  rw [Glossary.replaceNames_of_empty, Glossary.replaceNames_of_empty]

end

end SerialColumn

open TypeTable SerialColumn Definition in
/-- In a table definition of Oracle with plain columns and columns that sequences feed, the columns that sequences
feed become serial, each of the other types is replaced by what it becomes by itself, and nothing else changes. -/
theorem convert_entries {table : Text} (htable : oracleTypes.IsFreeName table) {columns : List Entry}
    (hcolumns : ∀ c ∈ columns, c.IsSound) (strict : Bool) :
    ∃ mapped : Text → Text,
      (∀ name type, .plain name type ∈ columns → oracleTypes.convertType? type = some (mapped type)) ∧
      (convert (createTable table (columns.map Entry.declared)) .none ⟨.oracle, .postgresql⟩ strict).text =
        createTable table (columns.map (Entry.converted mapped)) := by
  choose! mapped hmapped using fun t (h : oracleTypes.Declares t) => h.exists_becomes oracle_orderly oracle_spelled
  refine ⟨mapped, fun name type hmem => (hmapped type (hcolumns _ hmem).2).alone, ?_⟩
  choose! typed hconverts hreplaces hquiet using fun c (h : Entry.IsSound c) => exists_typed hmapped h
  obtain ⟨source, hsource, -⟩ := exists_body Entry.declared (fun _ => True) fun c hc =>
    (exists_items_declared (hcolumns c hc)).imp fun _ h => ⟨h, trivial⟩
  obtain ⟨body, hbody, hall⟩ := exists_body typed IsQuiet fun c hc => hquiet c (hcolumns c hc)
  obtain ⟨target, htarget, -⟩ := exists_body (Entry.converted mapped) (fun _ => True) fun c hc =>
    (exists_items_converted hmapped (hcolumns c hc)).imp fun _ h => ⟨h, trivial⟩
  have hnames : ∀ d ∈ columns.map typed, IsBareWord d.1 := List.forall_mem_map.2 fun c hc => by
    obtain ⟨hfree, hname, -⟩ := hconverts c (hcolumns c hc)
    exact hname ▸ hfree.toIsBareWord
  have htyped := typed_createTable htable hsource (forall₂_map_map fun c hc => hconverts c (hcolumns c hc))
  have hidiomatic := idiomatic_createTable htable hbody hall
  have hserial := makeSerial_createTable htable.toIsBareWord hbody
    (forall₂_map_map fun c hc => hreplaces c (hcolumns c hc)) hnames
  have htidy := tidy_createTable htable.toIsBareWord htarget
  rw [convert]
  simp only [sequenced_script, htyped, hidiomatic, hserial, htidy]

open SerialColumn in
theorem convert_entries_orders :
    (convert "CREATE TABLE orders (id NUMBER(10) DEFAULT app.orders_seq.NEXTVAL, placed DATE)" .none
      ⟨.oracle, .postgresql⟩ true).text = "CREATE TABLE orders (id SERIAL, placed TIMESTAMP)".toList := by
  have hfree : ∀ name ∈ (["orders", "id", "app", "orders_seq", "placed"] : List Text), IsBareWord name ∧
      ∀ word ∈ oracleTypes.reservedWords, name.same word = false := by decide +kernel
  have hname {name : Text} (h : name ∈ (["orders", "id", "app", "orders_seq", "placed"] : List Text)) :
      oracleTypes.IsFreeName name :=
    ⟨(hfree name h).1, (hfree name h).2⟩
  have hnumber : IsFedType "NUMBER(10)" :=
    ⟨"(10)", @IsPrecision.length "10" (by decide) (List.all_eq_true.1 (by decide)), by decide, rfl⟩
  have hsequence : IsSequenceName "app.orders_seq" :=
    @IsSequenceName.qualified "app" "orders_seq" (hname (by simp)) (hname (by simp))
  have hdate : oracleTypes.Declares "DATE" :=
    .source (r := ⟨"DATE", "TIMESTAMP", .fixed⟩) (by decide +kernel) rfl
  have hcolumns : ∀ c ∈ [Entry.fed "id" "NUMBER(10)" "app.orders_seq", .plain "placed" "DATE"], c.IsSound := by
    simp only [List.forall_mem_cons]
    exact ⟨⟨hname (by simp), hnumber, hsequence⟩, ⟨hname (by simp), hdate⟩, by simp⟩
  obtain ⟨mapped, halone, htext⟩ := @convert_entries "orders" (hname (by simp)) _ hcolumns true
  have hdate' : some (mapped "DATE") = some "TIMESTAMP".toList :=
    (halone "placed" "DATE" (by simp)).symm.trans (by decide +kernel)
  have hsource : createTable "orders" ([Entry.fed "id" "NUMBER(10)" "app.orders_seq", .plain "placed" "DATE"].map
      Entry.declared) = "CREATE TABLE orders (id NUMBER(10) DEFAULT app.orders_seq.NEXTVAL, placed DATE)".toList := by
    decide +kernel
  have htarget : createTable "orders" [("id", "SERIAL"), ("placed", "TIMESTAMP")] =
      "CREATE TABLE orders (id SERIAL, placed TIMESTAMP)".toList := by decide +kernel
  rw [hsource, List.map_cons, List.map_cons, List.map_nil, Entry.converted, Entry.converted,
    Option.some.inj hdate', htarget] at htext
  exact htext

end DialectBridge
