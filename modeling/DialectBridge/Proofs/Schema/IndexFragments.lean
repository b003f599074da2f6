import DialectBridge.Proofs.Conversion.Strictness
import DialectBridge.Proofs.Reading.Lists
import DialectBridge.Proofs.Schema.BodyTexts

/-!
# Indexes among columns

In MySQL a table definition may list indexes among its columns: `KEY` or `INDEX`, the name of the index and the columns
in parentheses. These words start no constraint, and they may name columns. So an index is read as a column that has
this word for its name and the rest for its type (`declarationOf?_index`), unless the name of the index is a keyword,
which is no type. Such a column stands in the table in the place of the index, and conversion reports its type if
nobody knows it (`Script.tables_indexes`).
-/

namespace DialectBridge

open Token Reader

/-! ## Index definitions -/

theorem Reader.SpellsWords.plain_or_comma {ws : List Text} {us : List Token} (h : SpellsWords .comma ws us) :
    ∀ u ∈ us, IsPlain u ∨ u.kind = .comma := by
  induction h with
  | last hw => simpa using .inl (isPlain_of_name? hw)
  | cons hw hcomma _ ih =>
    exact List.forall_mem_cons.2 ⟨.inl (isPlain_of_name? hw), List.forall_mem_cons.2 ⟨.inr hcomma, ih⟩⟩

/-- A fragment of a body: a column with what its definition says, or an index, given by its word, its name and its list
of columns. -/
inductive BodyItem where
  | column (draft : ColumnDefinition.Draft)
  | index (word name : Token) (list : List Token)

namespace BodyItem

/-- The tokens of a column definition, or those of an index on some columns. -/
inductive Spells : BodyItem → List Token → Prop where
  | column {d : ColumnDefinition.Draft} {us : List Token} (declares : Fragment.declarationOf? us = some (.column d)) :
      Spells (.column d) us
  | index {t u o c : Token} {w : Text} {columns : List Text} {us : List Token}
      (isIndex : t.kind = .keyword .key ∨ t.kind = .keyword .index) (word : u.name? = some w)
      (opens : o.kind = .leftParen) (names : SpellsWords .comma columns us) (closes : c.kind = .rightParen) :
      Spells (.index t u (o :: (us ++ [c]))) (t :: u :: o :: (us ++ [c]))

/-- The column that is declared. -/
def declared? : BodyItem → Option Column
  | column d => some d.column
  | index .. => none

/-- The column that an index is taken for. -/
def mistaken? : BodyItem → Option Column
  | column _ => none
  | index word name list =>
    if name.keyword?.isSome then none else some (.plain word.lexeme (verbatim (name :: list)))

end BodyItem

namespace ColumnDefinition

open Migration (attributes_nil)

/-- Of all words only keywords start no type. -/
theorem startsType_word {t : Token} {w : Text} (h : t.name? = some w) (ts : List Token) :
    startsType (t :: ts) = !t.keyword?.isSome := by
  unfold name? at h
  split at h
  · next hkind =>
    rw [startsType, atKind, atKind, headKind, keyword?, hkind]
    rfl
  · next hkind =>
    rw [startsType, atKind, atKind, headKind, keyword?, hkind]
    rfl
  · next hkind =>
    rw [startsType, atKind, atKind, headKind, keyword?, hkind]
    rfl
  · cases h

/-- A word with a group behind it is a type, unless it is a keyword. -/
theorem dataType_group {t o : Token} {w : Text} {us : List Token} (hw : t.name? = some w) (ho : o.kind = .leftParen)
    (hus : afterGroup? 0 us = some []) : (dataType (t :: o :: us)).toOption =
      if t.keyword?.isSome then none else some (verbatim (t :: o :: us), []) := by
  have hword : word "data type" (t :: o :: us) = .ok (w, o :: us) := by simp [word, hw]
  have hafter : afterType (typeContinuations w.upper) (o :: us) = .ok [] := by rw [afterType_group ho hus, afterType]
  rw [dataType, startsType_word hw, hword]
  cases t.keyword?.isSome with
  | true => rfl
  | false =>
    have htaken : taken (t :: o :: us) [] = t :: o :: us := by simpa using taken_append (t :: o :: us) []
    simp only [hafter]
    change some (verbatim (taken (t :: o :: us) []), []) = _
    rw [htaken]
    rfl

/-- An index is read as a column, unless its name is a keyword. -/
theorem declarationOf?_index {t u o c : Token} {w : Text} {columns : List Text} {us : List Token}
    (ht : t.kind = .keyword .key ∨ t.kind = .keyword .index) (hu : u.name? = some w) (ho : o.kind = .leftParen)
    (hus : SpellsWords .comma columns us) (hc : c.kind = .rightParen) :
    Fragment.declarationOf? (t :: u :: o :: (us ++ [c])) =
      ((BodyItem.index t u (o :: (us ++ [c]))).mistaken?).map fun c => .column ⟨c, none⟩ := by
  have hgroup : afterGroup? 0 (us ++ [c]) = some [] := by
    rw [afterGroup?_names hus.plain_or_comma, afterGroup?_last hc]
  have hconstraint : Fragment.isConstraint (t :: u :: o :: (us ++ [c])) = false := by
    rcases ht with ht | ht <;> simp [Fragment.isConstraint, headKeyword?, keyword?, ht, Keyword.startsConstraint]
  have hname : word "column name" (t :: u :: o :: (us ++ [c])) = .ok (t.lexeme, u :: o :: (us ++ [c])) := by
    rcases ht with ht | ht <;> simp [word, name?, ht]
  have htype := dataType_group hu ho hgroup
  -- the type goes up to the end of the fragment, so no attributes are left
  rw [Fragment.declarationOf?_of_column hconstraint, read_eq, hname, BodyItem.mistaken?]
  change ((dataType (u :: o :: (us ++ [c])) >>= fun q => attributes ⟨.plain t.lexeme q.1, none⟩ q.2 :
    Except ReadError Draft).toOption).map _ = _
  cases hread : dataType (u :: o :: (us ++ [c])) with
  | error e =>
    rw [hread] at htype
    cases hkeyword : u.keyword?.isSome with
    | true => rfl
    | false => rw [hkeyword] at htype; cases htype
  | ok q =>
    rw [hread] at htype
    cases hkeyword : u.keyword?.isSome with
    | true => rw [hkeyword] at htype; cases htype
    | false =>
      rw [hkeyword] at htype
      obtain rfl := Option.some.inj htype
      change ((attributes _ []).toOption).map _ = _
      rw [attributes_nil]
      rfl

end ColumnDefinition

namespace BodyItem

/-- The column that is read from the fragment. -/
def column? (i : BodyItem) : Option Column :=
  i.declared?.or i.mistaken?

theorem Spells.column? {i : BodyItem} {us : List Token} (h : i.Spells us) :
    (Fragment.declarationOf? us).bind Declaration.column? = i.column? := by
  cases h with
  | column hd => rw [hd]; rfl
  | index ht hu ho hus hc =>
    rw [ColumnDefinition.declarationOf?_index ht hu ho hus hc, Option.bind_map]
    exact (Option.bind_fun_some _).trans Option.none_or.symm

theorem Spells.uniqueColumn? {i : BodyItem} {us : List Token} (h : i.Spells us) :
    (Fragment.declarationOf? us).bind Declaration.uniqueColumn? = none := by
  cases h with
  | column hd => rw [hd]; rfl
  | index ht hu ho hus hc =>
    rw [ColumnDefinition.declarationOf?_index ht hu ho hus hc, Option.bind_map]
    exact Option.bind_eq_none_iff.2 fun _ _ => rfl

theorem filterMap_column? {items : List BodyItem} {pieces : List Piece}
    (h : List.Forall₂ Spells items (pieces.map Piece.tokens)) :
    (declarationsOf pieces).filterMap Declaration.column? = items.filterMap column? := by
  rw [List.forall₂_map_right_iff] at h
  rw [declarationsOf, List.filterMap_filterMap]
  induction h with
  | nil => rfl
  | cons hi _ ih => rw [List.filterMap_cons, List.filterMap_cons, hi.column?, ih]

theorem filterMap_uniqueColumn? {items : List BodyItem} {pieces : List Piece}
    (h : List.Forall₂ Spells items (pieces.map Piece.tokens)) :
    (declarationsOf pieces).filterMap Declaration.uniqueColumn? = [] := by
  rw [List.forall₂_map_right_iff] at h
  rw [declarationsOf, List.filterMap_filterMap]
  induction h with
  | nil => rfl
  | cons hi _ ih => rw [List.filterMap_cons, hi.uniqueColumn?, ih]

theorem length_filterMap_column? (items : List BodyItem) : (items.filterMap column?).length =
    (items.filterMap declared?).length + (items.filterMap mistaken?).length := by
  induction items with
  | nil => rfl
  | cons i items ih =>
    cases i with
    | column d =>
      simp only [List.filterMap_cons, column?, declared?, mistaken?, Option.some_or, List.length_cons, ih]
      omega
    | index word name list =>
      cases hname : name.keyword?.isSome <;>
        simp only [List.filterMap_cons, column?, declared?, mistaken?, hname, Option.none_or, if_true,
          Bool.false_eq_true, if_false, List.length_cons, ih]
      omega

/-- The columns that are read are the declared ones exactly if no index is taken for a column. -/
theorem filterMap_column?_eq_iff (items : List BodyItem) :
    items.filterMap column? = items.filterMap declared? ↔ ∀ i ∈ items, i.mistaken? = none := by
  constructor
  · intro h
    have hlength := length_filterMap_column? items
    rw [h] at hlength
    exact List.filterMap_eq_nil_iff.1 (List.length_eq_zero_iff.1 (by omega))
  · intro h
    refine List.filterMap_congr fun i hi => ?_
    rw [column?, h i hi, Option.or_none]

end BodyItem

/-! ## Tables -/

namespace Script

open BodyItem Conversion

/-- An index among the columns is no column only if its name is a keyword. Any other one is taken for a column: it
stands among the columns in its place, and a conversion warns of it, or fails in strict mode, exactly if nobody knows
its type. -/
theorem tables_indexes (dialect : Dialect) {script : Text} {front run back : List Token}
    (hscript : scan script = front ++ (run ++ back)) (hfront : IsStatementStart front) {name : Text}
    {pieces : List Piece} (hrun : SpellsTable name pieces run) {items : List BodyItem}
    (hitems : List.Forall₂ Spells items (pieces.map Piece.tokens)) :
    ∃ t ∈ tables dialect script, t.name = name ∧ t.columns = items.filterMap column? ∧
      (t.columns = items.filterMap declared? ↔ ∀ i ∈ items, i.mistaken? = none) ∧
      ∀ target types names, Route.typeTable? ⟨dialect, target⟩ = some types → ∀ i ∈ items, ∀ c ∈ i.mistaken?,
        (.unmappedType name c.name c.dataType ∈ (convert script names ⟨dialect, target⟩ false).warnings ↔
          IsUnmapped types target c) ∧
        (.unmappedType name c.name c.dataType ∈ (convert script names ⟨dialect, target⟩ true).errors ↔
          IsUnmapped types target c) := by
  obtain ⟨t, ht, rfl, hcolumns, -⟩ := exists_table dialect hscript hfront hrun
  rw [filterMap_uniqueColumn? hitems, filterMap_column? hitems, List.foldl_nil] at hcolumns
  refine ⟨t, ht, rfl, hcolumns, ?_, fun target types names hroute i hi c hc => ?_⟩
  · rw [hcolumns]
    exact filterMap_column?_eq_iff items
  · have hmem : c ∈ t.columns := by
      rw [hcolumns]
      refine List.mem_filterMap.2 ⟨i, hi, ?_⟩
      cases i with
      | column d => cases hc
      | index word name list => exact hc
    exact ⟨mem_warnings_iff_isUnmapped hroute ht hmem, mem_errors_iff_isUnmapped hroute ht hmem⟩

open Migration in
/-- `ON` is a keyword and no type, so the first index is no column, but the second one is. -/
theorem tables_indexes_named_on :
    let script : Text := "CREATE TABLE t (a INT, INDEX ON (a), KEY k (`a`))"
    ∃ t ∈ tables .mysql script, t.name = "t".toList ∧ t.columns = [.plain "a" "INT", .plain "KEY" "k (`a`)"] ∧
      .unmappedType "t" "KEY" "k (`a`)" ∈ (convert script .none ⟨.mysql, .postgresql⟩ true).errors := by
  intro script
  let list : List Token := [ofSign blankGap '(', ofWord [] "a", ofSign [] ')']
  let quoted : List Token := [ofSign blankGap '(', ⟨[], .quoted "a", "`a`"⟩, ofSign [] ')']
  let pieces : List Piece := [⟨[ofWord [] "a", ofWord blankGap "INT"], ofSign [] ','⟩,
    ⟨ofKeyword blankGap .index :: ofKeyword blankGap .on :: list, ofSign [] ','⟩,
    ⟨ofKeyword blankGap .key :: ofWord blankGap "k" :: quoted, ofSign [] ')'⟩]
  let items : List BodyItem := [.column ⟨.plain "a" "INT", none⟩,
    .index (ofKeyword blankGap .index) (ofKeyword blankGap .on) list,
    .index (ofKeyword blankGap .key) (ofWord blankGap "k") quoted]
  let head : List Token := [ofKeyword blankGap .table, ofWord blankGap "t"]
  have hhead : Finding.SpellsHead ["t"] head := Finding.spellsHead_word rfl rfl (by decide)
  have hbody : IsBody pieces := .cons (level_of_isFlat (by decide +kernel) (by decide +kernel)) rfl
    (.cons (level_of_isFlat (by decide +kernel) (by decide +kernel)) rfl
      (.last (level_of_isFlat (by decide +kernel) (by decide +kernel)) rfl))
  have hrun : SpellsTable "t" pieces
      (ofKeyword [] .create :: (head ++ ofSign blankGap '(' :: pieces.flatMap Piece.all)) :=
    .mk rfl hhead rfl rfl hbody
  have hscan : scan script =
      [] ++ ((ofKeyword [] .create :: (head ++ ofSign blankGap '(' :: pieces.flatMap Piece.all)) ++
        [⟨[], .eof, []⟩]) := by
    decide +kernel
  have hlist {t u a : Token} {w v : Text} (ht : t.kind = .keyword .key ∨ t.kind = .keyword .index)
      (hu : u.name? = some w) (ha : a.name? = some v) : Spells (.index t u [ofSign blankGap '(', a, ofSign [] ')'])
        (t :: u :: [ofSign blankGap '(', a, ofSign [] ')']) :=
    .index ht hu rfl (.last ha) rfl
  have hitems : List.Forall₂ Spells items (pieces.map Piece.tokens) :=
    .cons (.column (by decide +kernel)) (.cons (hlist (.inr rfl) rfl rfl) (.cons (hlist (.inl rfl) rfl rfl) .nil))
  obtain ⟨t, ht, hname, hcolumns, -, hissues⟩ := tables_indexes .mysql hscan (.inl rfl) hrun hitems
  have hissue := hissues .postgresql mysqlTypes .none rfl _ (List.mem_of_getElem? (i := 2) rfl) _ rfl
  exact ⟨t, ht, hname, hcolumns.trans (by decide +kernel), hissue.2.2 (by decide +kernel)⟩

/-- The table has one column, and the other one is the index. -/
theorem tables_indexes_key :
    let script : Text := "CREATE TABLE t (a INT, KEY k (a))"
    ((tables .mysql script).map Table.columns = [[.plain "a" "INT", .plain "KEY" "k (a)"]]) ∧
      (convert script .none ⟨.mysql, .postgresql⟩ false).warnings = [.unmappedType "t" "KEY" "k (a)"] ∧
      (convert script .none ⟨.mysql, .postgresql⟩ true).success = false := by
  decide +kernel

end Script

end DialectBridge
