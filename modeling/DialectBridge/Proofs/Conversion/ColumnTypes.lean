import DialectBridge.Conversion
import DialectBridge.Proofs.Rename.Segments
import DialectBridge.Proofs.Schema.PlainTable
import DialectBridge.Proofs.Types.Columns
import DialectBridge.Proofs.Types.RuleMatch

/-!
# Converting a table definition

A table definition with free names and declared types keeps everything but its types: each type is
replaced once, in its own place, by what it becomes by itself (`convert_createTable`).
-/

namespace DialectBridge

/-! ## Steps without work -/

/-- A script that is code as a whole needs no mask. -/
theorem TypeTable.convertScript_of_code (types : TypeTable) {t : Text} (h : segments t = [⟨.code, t⟩]) :
    (types.convertScript t).text = (types.convertText t).text :=
  congrArg ConvertedText.text (types.convertScript_of_unmasked (by rw [h]; rfl))

/-! ## The tables of a route -/

namespace TypeTable

open Spelling

/-- A conversion with the table leaves converted types alone: types are read as types, and no target
holds a word that another step looks for. -/
structure IsSettled (types : TypeTable) : Prop where
  orderly : types.IsOrderly
  spelled : types.IsSpelled
  continues : ∀ r ∈ types.rules, ∀ w ∈ (ofText r.source).others,
    (ColumnDefinition.typeContinuations (ofText r.source).first.upper).any w.same = true
  quiet : ∀ r ∈ types.rules, ∀ w ∈ (ofText r.target).words, ∀ word ∈ "DEFAULT".toList :: oracleWords,
    w.same word = false

theorem oracle_settled : oracleTypes.IsSettled where
  orderly := oracle_orderly
  spelled := oracle_spelled
  continues := forall_mem_ofRules (by decide +kernel)
  quiet := forall_mem_ofRules (by decide +kernel)

theorem mysql_settled : mysqlTypes.IsSettled where
  orderly := mysql_orderly
  spelled := mysql_spelled
  continues := forall_mem_ofRules (by decide +kernel)
  quiet := forall_mem_ofRules (by decide +kernel)

/-- The tables of both routes are settled. -/
theorem settled_of_route {route : Route} {types : TypeTable} (h : route.typeTable? = some types) :
    types.IsSettled := by
  unfold Route.typeTable? at h
  split at h
  · exact Option.some.inj h ▸ oracle_settled
  · exact Option.some.inj h ▸ mysql_settled
  · cases h

variable {types : TypeTable}

/-- A free name is read as a name. -/
theorem IsFreeName.wordKind {name : Text} (h : types.IsFreeName name) :
    Scan.wordKind name = .identifier name :=
  Scan.wordKind_of_not_same fun keyword hmem => h.free _ <| by
    simp only [reservedWords, List.mem_append]
    exact .inr (List.mem_map.2 ⟨keyword, hmem, rfl⟩)

/-- A declared type is spelled as types are read. -/
theorem Declares.exists_readable (ht : types.IsSettled) {t : Text} (h : types.Declares t) :
    ∃ s : Spelling, s.IsSound ∧ s.IsReadable ∧ s.text = t := by
  obtain ⟨s, hsound, htext, r, hr, hfirst, hothers⟩ := h.exists_spelling ht.orderly ht.spelled
  have hkind {w : Text} (hw : w ∈ (ofText r.source).words) : Scan.wordKind w = .identifier w :=
    Scan.wordKind_of_not_same (ht.spelled.keywords r hr w hw)
  refine ⟨s, hsound, ⟨hfirst ▸ hkind List.mem_cons_self, fun w hw => ⟨?_, ?_⟩⟩, htext⟩
  · exact hkind (List.mem_cons_of_mem _ (hothers hw))
  · rw [hfirst]
    exact ht.continues r hr w (hothers hw)

/-- No free name is a word that another step looks for. -/
theorem IsFreeName.not_same {name : Text} (h : types.IsFreeName name) :
    ∀ word ∈ "DEFAULT".toList :: oracleWords, name.same word = false := by
  intro word hword
  refine h.free word ?_
  simp only [reservedWords, List.mem_append]
  rcases List.mem_cons.1 hword with rfl | hword
  · exact .inr (List.mem_map.2 ⟨.default, Keyword.default.mem_all, rfl⟩)
  · exact .inl (.inl (.inr hword))

end TypeTable

/-! ## The converted definition -/

namespace Definition

open Item

/-- The columns of a definition with their types spelled. -/
theorem exists_written (columns : List (Text × Text)) {p : Text × Spelling → Prop}
    (h : ∀ c ∈ columns, ∃ s : Spelling, s.text = c.2 ∧ p (c.1, s)) :
    ∃ spelled : List (Text × Spelling), written spelled = columns ∧ ∀ c ∈ spelled, p c := by
  induction columns with
  | nil => exact ⟨[], rfl, by simp⟩
  | cons c columns ih =>
    obtain ⟨s, hs, hp⟩ := h c List.mem_cons_self
    obtain ⟨spelled, hspelled, hall⟩ := ih fun d hd => h d (List.mem_cons_of_mem _ hd)
    refine ⟨(c.1, s) :: spelled, ?_, List.forall_mem_cons.2 ⟨hp, hall⟩⟩
    rw [written, List.map_cons, ← written, hspelled, hs]

/-- A number is no word. -/
theorem fold_number_ne {ds word : Text} (hne : ds ≠ []) (hds : ∀ d ∈ ds, d.isDigit = true)
    (hword : IsBareWord word) : Text.fold ds ≠ Text.fold word := by
  intro hfold
  have hsame := (Text.fold_eq_iff (fun d hd => toNat_lt_of_digit (hds d hd))
    hword.ascii).1 hfold
  rw [Text.same_iff] at hsame
  cases word with
  | nil => exact absurd rfl hword.ne_nil
  | cons c word =>
    cases ds with
    | nil => exact hne rfl
    | cons d ds =>
      have hlower : d.toLower = c.toLower := (List.cons.inj hsame).1
      have hdigit : d.toLower.isDigit = true :=
        forall_ascii (P := fun d => d.isDigit = true → d.toLower.isDigit = true) (by decide)
          (toNat_lt_of_digit (hds d List.mem_cons_self)) (hds d List.mem_cons_self)
      have hletter : c.toLower.isDigit = false :=
        forall_ascii (P := fun c => isBareStart c = true → c.toLower.isDigit = false) (by decide)
          (hword.ascii c List.mem_cons_self) hword.start
      rw [hlower, hletter] at hdigit
      cases hdigit

/-- A definition does not hold a word that is none of its names and none of the words of its types. -/
theorem not_holdsWord {table : Text} {columns : List (Text × Spelling)} (h : IsWellFormed table columns)
    {word : Text} (hword : IsBareWord word) (hcreate : Keyword.create.text.same word = false) (hkeyword : Keyword.table.text.same word = false)
    (htable : table.same word = false)
    (hcolumns : ∀ c ∈ columns, c.1.same word = false ∧ ∀ w ∈ c.2.words, w.same word = false) :
    ¬ (createTable table (written columns)).HoldsWord word := by
  intro hholds
  obtain ⟨w, hfold, hw⟩ := exists_of_holdsWord h hholds
  have hsame {w : Text} (hbare : IsBareWord w) (hnot : w.same word = false)
      (hfold : Text.fold w = Text.fold word) : False := by
    rw [Text.fold_eq_iff hbare.ascii hword.ascii, hnot] at hfold
    cases hfold
  rcases hw with rfl | rfl | rfl | ⟨c, hc, rfl | hw⟩ | ⟨hne, hds⟩
  · exact hsame Keyword.create.isBareWord_text hcreate hfold
  · exact hsame Keyword.table.isBareWord_text hkeyword hfold
  · exact hsame h.table htable hfold
  · exact hsame (h.columns c hc).1 (hcolumns c hc).1 hfold
  · exact hsame ((h.columns c hc).2.words _ hw) ((hcolumns c hc).2 _ hw) hfold
  · exact fold_number_ne hne hds hword hfold

end Definition

/-! ## The whole conversion -/

namespace Conversion

variable {route : Route} {types : TypeTable} {script : Text}

/-- Columns whose types are converted raise no issue. -/
theorem typeIssues_eq_nil (hroute : route.typeTable? = some types)
    (h : ∀ t ∈ Script.tables route.source script, ∀ c ∈ t.columns, (types.convertType? c.dataType).isSome = true) :
    typeIssues route (Script.tables route.source script) = [] := by
  rw [typeIssues, hroute]
  refine List.flatMap_eq_nil_iff.2 fun t ht => List.filterMap_eq_nil_iff.2 fun c hc => ?_
  rw [unmappedType?, h t ht c hc]
  rfl

/-- The steps behind the types leave a plain script without idioms as it is, and find nothing in it. -/
theorem steps_of_plain (hroute : route.typeTable? = some types) {is : List Item}
    (htyped : (types.convertScript script).text = Item.render is) (hplain : Item.Plain is) (hne : is ≠ [])
    (hlast : is.getLast? ≠ some .blank)
    (hwords : ∀ w ∈ "DEFAULT".toList :: oracleWords, ¬ (Item.render is).HoldsWord w) :
    (steps script .none route).sequenced = Item.render is ∧ (steps script .none route).issues = [] := by
  have hidioms := replaceOracleIdioms_render hplain hne hlast fun w hw => hwords w (List.mem_cons_of_mem _ hw)
  have hconstructs := oracleConstructs_render hplain hne hlast fun w hw => hwords w (List.mem_cons_of_mem _ hw)
  have hserial := makeSerial_render hplain hne hlast (hwords _ List.mem_cons_self)
  have htypes : (convertTypes route script).text = Item.render is := by
    rw [convertTypes, hroute]
    exact htyped
  have hidiomatic : (steps script .none route).idiomatic.text = Item.render is := by
    show (if route.replacesIdioms then _ else _ : Replaced).text = _
    split
    · rw [htypes, hidioms]
    · exact htypes
  have hrenamed : (steps script .none route).renamed.text = Item.render is := by
    show Glossary.replaceNames ⟨[]⟩ (Glossary.replaceNames ⟨[]⟩ (steps script .none route).idiomatic.text) = _
    rw [Glossary.replaceNames_of_empty, Glossary.replaceNames_of_empty, hidiomatic]
  constructor
  · show (if route.makesSerial then makeSerial (steps script .none route).renamed.text
      else (steps script .none route).renamed.text) = _
    rw [hrenamed, hserial, ite_self]
  · have hnone : (steps script .none route).constructs = [] := by
      show (if route.replacesIdioms then oracleConstructs (steps script .none route).idiomatic.text else []) = _
      rw [hidiomatic, hconstructs, ite_self]
    rw [Steps.issues, hnone]
    rfl

end Conversion

namespace Definition

variable {types : TypeTable} {table : Text} {columns : List (Text × Text)} {mapped : Text → Text}

/-- A definition with free names and declared types is well-formed and can be read. -/
theorem exists_source (ht : types.IsSettled) (htable : types.IsFreeName table) (hne : columns ≠ [])
    (hcolumns : ∀ c ∈ columns, types.IsFreeName c.1 ∧ types.Declares c.2) :
    ∃ source, written source = columns ∧ IsWellFormed table source ∧ IsReadable source := by
  obtain ⟨source, hsource, hread⟩ := exists_written columns
    (p := fun c => types.IsFreeName c.1 ∧ c.2.IsSound ∧ c.2.IsReadable) fun c hc => by
      obtain ⟨hname, htype⟩ := hcolumns c hc
      obtain ⟨s, hsound, hreadable, htext⟩ := htype.exists_readable ht
      exact ⟨s, htext, hname, hsound, hreadable⟩
  refine ⟨source, hsource, ⟨?_, htable.toIsBareWord, fun c hc => ⟨(hread c hc).1.toIsBareWord, (hread c hc).2.1⟩⟩,
    ⟨fun c hc => (hread c hc).1.wordKind, fun c hc => (hread c hc).2.1, fun c hc => (hread c hc).2.2⟩⟩
  rintro rfl
  exact hne hsource.symm

/-- With its types replaced, a definition is well-formed and holds no word of an idiom. -/
theorem exists_target (ht : types.IsSettled) (htable : types.IsFreeName table) (hne : columns ≠ [])
    (hcolumns : ∀ c ∈ columns, types.IsFreeName c.1 ∧ types.Becomes c.2 (mapped c.2)) :
    ∃ target, written target = columns.map (fun c => (c.1, mapped c.2)) ∧ IsWellFormed table target ∧
      ∀ word ∈ "DEFAULT".toList :: oracleWords, ¬ (createTable table (written target)).HoldsWord word := by
  obtain ⟨target, htarget, hquiet⟩ := exists_written (columns.map fun c => (c.1, mapped c.2))
    (p := fun c => types.IsFreeName c.1 ∧ c.2.IsSound ∧
      ∃ r ∈ types.rules, c.2.words = (Spelling.ofText r.target).words) fun d hd => by
      obtain ⟨c, hc, rfl⟩ := List.mem_map.1 hd
      obtain ⟨hname, htype⟩ := hcolumns c hc
      obtain ⟨s, hsound, htext, hwords⟩ := htype.spelled
      exact ⟨s, htext, hname, hsound, hwords⟩
  have hformed : IsWellFormed table target :=
    ⟨by rintro rfl; exact hne (List.map_eq_nil_iff.1 htarget.symm), htable.toIsBareWord,
      fun c hc => ⟨(hquiet c hc).1.toIsBareWord, (hquiet c hc).2.1⟩⟩
  refine ⟨target, htarget, hformed, fun word hword => ?_⟩
  have hwords : ∀ word ∈ "DEFAULT".toList :: oracleWords, IsBareWord word ∧
      Keyword.create.text.same word = false ∧ Keyword.table.text.same word = false := by decide +kernel
  obtain ⟨hbare, hcreate, hkeyword⟩ := hwords word hword
  refine not_holdsWord hformed hbare hcreate hkeyword (htable.not_same word hword) fun c hc => ?_
  obtain ⟨hname, -, r, hr, hsame⟩ := hquiet c hc
  exact ⟨hname.not_same word hword, fun w hw => ht.quiet r hr w (hsame ▸ hw) word hword⟩

end Definition

open Conversion Definition in
/-- A table definition with free names and declared types is converted without an issue: every type is
replaced by what it becomes by itself, and nothing else changes. -/
theorem convert_createTable {route : Route} {types : TypeTable} (hroute : route.typeTable? = some types)
    {table : Text} (htable : types.IsFreeName table) {columns : List (Text × Text)} (hne : columns ≠ [])
    (hcolumns : ∀ c ∈ columns, types.IsFreeName c.1 ∧ types.Declares c.2) (strict : Bool) :
    ∃ mapped : Text → Text, (∀ c ∈ columns, types.convertType? c.2 = some (mapped c.2)) ∧
      (convert (createTable table columns) .none route strict).success = true ∧
      (convert (createTable table columns) .none route strict).warnings = [] ∧
      (convert (createTable table columns) .none route strict).errors = [] ∧
      (convert (createTable table columns) .none route strict).text =
        createTable table (columns.map fun c => (c.1, mapped c.2)) := by
  have ht := TypeTable.settled_of_route hroute
  obtain ⟨mapped, hmapped⟩ : ∃ mapped : Text → Text, ∀ t, types.Declares t → types.Becomes t (mapped t) := by
    refine ⟨fun t => (types.convertType? t).getD t, fun t h => ?_⟩
    obtain ⟨u, hu⟩ := h.exists_becomes ht.orderly ht.spelled
    show types.Becomes t ((types.convertType? t).getD t)
    rw [hu.alone]
    exact hu
  have hbecomes : ∀ c ∈ columns, types.IsFreeName c.1 ∧ types.Becomes c.2 (mapped c.2) :=
    fun c hc => ⟨(hcolumns c hc).1, hmapped c.2 (hcolumns c hc).2⟩
  obtain ⟨source, hsource, hformed, hreadable⟩ := exists_source ht htable hne hcolumns
  obtain ⟨target, htarget, hformed', hwords⟩ := exists_target ht htable hne hbecomes
  have htext := render_items table hformed'.nonempty
  have htyped : (types.convertScript (createTable table columns)).text = Item.render (items table target) := by
    rw [htext, htarget, ← TypeTable.convertText_createTable ht.orderly ht.spelled htable hne hbecomes, ← hsource]
    exact types.convertScript_of_code (segments_createTable hformed)
  have hplain := plain_items hformed'
  have hlast := getLast?_items table target
  obtain ⟨hsequenced, hissues⟩ := steps_of_plain hroute htyped hplain (by simp [items]) hlast (htext ▸ hwords)
  have htypes : typeIssues route (Script.tables route.source (createTable table columns)) = [] := by
    refine typeIssues_eq_nil hroute fun t htable' c hc => ?_
    rw [← hsource, tables_createTable hformed htable.wordKind hreadable] at htable'
    obtain rfl := List.mem_singleton.1 htable'
    obtain ⟨d, hd, rfl⟩ := List.mem_map.1 hc
    have hmem : (d.1, d.2.text) ∈ columns := hsource ▸ List.mem_map.2 ⟨d, hd, rfl⟩
    show (types.convertType? d.2.text).isSome = true
    rw [(hbecomes _ hmem).2.alone]
    rfl
  have hwarnings : (convert (createTable table columns) .none route strict).warnings = [] := by
    rw [convert]
    simp only [htypes, hissues]
    rfl
  have herrors : (convert (createTable table columns) .none route strict).errors = [] := by
    rw [convert]
    simp only [htypes, hissues]
    rfl
  refine ⟨mapped, fun c hc => (hbecomes c hc).2.alone, ?_, hwarnings, herrors, ?_⟩
  · rw [ConversionOutcome.success, herrors]
    rfl
  · rw [← htarget, ← htext, ← tidy_render hplain (by simp [items]) (by simp [items]) hlast, ← hsequenced]
    rfl

theorem convert_orders :
    (convert (createTable "orders" [("placed", "DATE"), ("label", "VARCHAR2(100)")]) .none
      ⟨.oracle, .postgresql⟩ true).text =
        createTable "orders" [("placed", "TIMESTAMP"), ("label", "VARCHAR(100)")] := by
  have hfree : ∀ name ∈ (["orders", "placed", "label"] : List Text), IsBareWord name ∧
      ∀ word ∈ oracleTypes.reservedWords, name.same word = false := by decide +kernel
  have hname {name : Text} (h : name ∈ (["orders", "placed", "label"] : List Text)) :
      oracleTypes.IsFreeName name :=
    ⟨(hfree name h).1, (hfree name h).2⟩
  have hdate : oracleTypes.Declares "DATE" :=
    .source (r := ⟨"DATE", "TIMESTAMP", .fixed⟩) (by decide +kernel) rfl
  have hlabel : oracleTypes.Declares ("VARCHAR2".toList ++ "(".toList ++ "100".toList ++ ")".toList) :=
    .length (r := ⟨"VARCHAR2", "VARCHAR", .sized⟩) (by decide +kernel) rfl (by decide +kernel)
      (by decide +kernel) (List.all_eq_true.1 (by decide))
  have hcolumns : ∀ c ∈ ([("placed", "DATE"), ("label", "VARCHAR2(100)")] : List (Text × Text)),
      oracleTypes.IsFreeName c.1 ∧ oracleTypes.Declares c.2 := by
    simp only [List.forall_mem_cons]
    exact ⟨⟨hname (by simp), hdate⟩, ⟨hname (by simp), hlabel⟩, by simp⟩
  have horders : oracleTypes.IsFreeName "orders" := hname (by simp)
  have hroute : Route.typeTable? ⟨.oracle, .postgresql⟩ = some oracleTypes := rfl
  obtain ⟨mapped, halone, -, -, -, htext⟩ := convert_createTable hroute
    horders (List.cons_ne_nil _ _) hcolumns true
  have hdate' : some (mapped "DATE") = some "TIMESTAMP".toList :=
    (halone ("placed", "DATE") (by simp)).symm.trans (by decide +kernel)
  have hlabel' : some (mapped "VARCHAR2(100)") = some "VARCHAR(100)".toList :=
    (halone ("label", "VARCHAR2(100)") (by simp)).symm.trans (by decide +kernel)
  rw [htext, List.map_cons, List.map_cons, List.map_nil, Option.some.inj hdate', Option.some.inj hlabel']

end DialectBridge
