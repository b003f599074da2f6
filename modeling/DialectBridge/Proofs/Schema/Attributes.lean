import DialectBridge.Proofs.Migration.Definitions
import DialectBridge.Proofs.Reading.Lists
import DialectBridge.Proofs.Schema.Parts
import Mathlib.Data.List.Induction

/-!
# Columns and their attributes

A column definition as it is spelled: a name, a type, and attributes with gaps between them, each with its
own tokens (`Attribute.Spells`). An attribute is read as a whole wherever it stands among the others
(`attributes_spelled`), so what is read of a definition does not depend on their order
(`attributes_of_separated`). Groups are passed without a look at what is in them.
-/

namespace DialectBridge.ColumnDefinition

open Token Reader

/-! ## Spelling -/

/-- The tokens are the words of a qualified name with dots between them. -/
inductive SpellsName : List Text → List Token → Prop where
  | last {t : Token} {w : Text} (word : t.name? = some w) : SpellsName [w] [t]
  | cons {t dot : Token} {w : Text} {ws : List Text} {us : List Token} (word : t.name? = some w)
      (isDot : dot.kind = .dot) (rest : SpellsName ws us) : SpellsName (w :: ws) (t :: dot :: us)

theorem SpellsName.ne_nil {ws : List Text} {us : List Token} (h : SpellsName ws us) : ws ≠ [] := by
  cases h <;> exact List.cons_ne_nil _ _

theorem SpellsName.kind_ne_eof {ws : List Text} {us : List Token} (h : SpellsName ws us) : ∀ u ∈ us, u.kind ≠ .eof := by
  induction h with
  | last hw => simpa using (isPlain_of_name? hw).2.2.2
  | cons hw hdot _ ih =>
    exact List.forall_mem_cons.2 ⟨(isPlain_of_name? hw).2.2.2, List.forall_mem_cons.2 ⟨by simp [hdot], ih⟩⟩

/-- Single tokens and whole groups, with no gap between them or in front of them. -/
inductive Adjoins : List Token → Prop where
  | nil : Adjoins []
  | token {t : Token} {ts : List Token} (gap : t.gap = []) (plain : IsPlain t) (rest : Adjoins ts) : Adjoins (t :: ts)
  | group {o : Token} {us ts : List Token} (gap : o.gap = []) (opens : o.kind = .leftParen) (closes : Closes 0 us)
      (rest : Adjoins ts) : Adjoins (o :: (us ++ ts))

/-- The tokens are a default value: one token or group with what adjoins it. -/
inductive SpellsValue : List Token → Prop where
  | token {t : Token} {ts : List Token} (plain : IsPlain t) (rest : Adjoins ts) : SpellsValue (t :: ts)
  | group {o : Token} {us ts : List Token} (opens : o.kind = .leftParen) (closes : Closes 0 us) (rest : Adjoins ts) :
      SpellsValue (o :: (us ++ ts))

/-- What may follow the first word of a type: groups and the words that continue it. -/
inductive ContinuesType (base : Text) : List Token → Prop where
  | nil : ContinuesType base []
  | word {t : Token} {ts : List Token} (continues : (typeContinuations base.upper).any t.isWord = true)
      (rest : ContinuesType base ts) : ContinuesType base (t :: ts)
  | group {o : Token} {us ts : List Token} (opens : o.kind = .leftParen) (closes : Closes 0 us)
      (rest : ContinuesType base ts) : ContinuesType base (o :: (us ++ ts))

/-- The tokens are a type: a bare word with all that continues it. -/
def SpellsType (us : List Token) : Prop :=
  ∃ t base ts, us = t :: ts ∧ t.kind = .identifier base ∧ ContinuesType base ts

/-- An attribute of a column definition. -/
inductive Attribute where
  | notNull
  | null
  | primaryKey
  | unique
  | check
  | constraint (name : Text)
  | default (value : Text)
  /-- The reference names a table, and may name a column of it. -/
  | references (table : Text) (column : Option Text)
  deriving DecidableEq, Repr

/-- The tokens of an attribute. What is in the group of a `CHECK` is left open. -/
inductive Attribute.Spells : Attribute → List Token → Prop where
  | notNull {t u : Token} (isNot : t.kind = .keyword .not) (isNull : u.kind = .keyword .null) : Spells .notNull [t, u]
  | null {t : Token} (isNull : t.kind = .keyword .null) : Spells .null [t]
  | primaryKey {t u : Token} (isPrimary : t.kind = .keyword .primary) (isKey : u.kind = .keyword .key) :
      Spells .primaryKey [t, u]
  | unique {t : Token} (isUnique : t.kind = .keyword .unique) : Spells .unique [t]
  | check {t o : Token} {us : List Token} (isCheck : t.kind = .keyword .check) (opens : o.kind = .leftParen)
      (closes : Closes 0 us) : Spells .check (t :: o :: us)
  | constraint {t u : Token} {w : Text} (isConstraint : t.kind = .keyword .constraint) (word : u.name? = some w) :
      Spells (.constraint w) [t, u]
  | default {t : Token} {us : List Token} (isDefault : t.kind = .keyword .default) (value : SpellsValue us) :
      Spells (.default (verbatim us)) (t :: us)
  | table {t : Token} {ws : List Text} {us : List Token} (isReferences : t.kind = .keyword .references)
      (name : SpellsName ws us) : Spells (.references (Text.joinWith "." ws) none) (t :: us)
  | column {t o u c : Token} {ws : List Text} {us : List Token} {w : Text}
      (isReferences : t.kind = .keyword .references) (name : SpellsName ws us) (opens : o.kind = .leftParen)
      (word : u.name? = some w) (closes : c.kind = .rightParen) :
      Spells (.references (Text.joinWith "." ws) (some w)) (t :: (us ++ [o, u, c]))

/-- The tokens spell the members of a list one behind the other, each with a gap in front of it. -/
inductive Separated {α : Type} (spells : α → List Token → Prop) : List α → List Token → Prop where
  | nil : Separated spells [] []
  | cons {a : α} {as : List α} {t : Token} {us ts : List Token} (first : spells a (t :: us)) (gap : t.gap ≠ [])
      (rest : Separated spells as ts) : Separated spells (a :: as) (t :: (us ++ ts))

/-- The tokens are a column definition: a name that starts no constraint, a type, and what follows. -/
inductive SpellsColumn {α : Type} (spells : α → List Token → Prop) (name : Text) :
    Text → List α → List Token → Prop where
  | mk {t : Token} {types us : List Token} {as : List α} (word : t.name? = some name)
      (isColumn : t.keyword?.any Keyword.startsConstraint = false) (type : SpellsType types)
      (rest : Separated spells as us) : SpellsColumn spells name (verbatim types) as (t :: (types ++ us))

/-! ## Meaning -/

/-- What an attribute adds to a column. -/
def Attribute.apply (d : Draft) : Attribute → Draft
  | notNull => d.setNotNull
  | primaryKey => d.setPrimaryKey
  | unique => d.setUnique
  | default value => d.setDefault value
  | references table column => d.setReference ⟨d.column.name, table, column.getD []⟩
  | null | check | constraint _ => d

/-- The default value that an attribute gives. -/
def Attribute.default? : Attribute → Option Text
  | default value => some value
  | _ => none

/-- The table and the column that an attribute refers to. -/
def Attribute.reference? : Attribute → Option (Text × Option Text)
  | references table column => some (table, column)
  | _ => none

/-- The column with these attributes. Of several default values the last one counts. -/
def declaredColumn (name type : Text) (as : List Attribute) : Column :=
  ⟨name, type, decide (.notNull ∉ as), decide (.primaryKey ∈ as), decide (.unique ∈ as),
    (as.filterMap Attribute.default?).getLast?⟩

/-- The reference of a column with these attributes. Of several references the last one counts. -/
def declaredReference (name : Text) (as : List Attribute) : Option ForeignKey :=
  (as.filterMap Attribute.reference?).getLast?.map fun (table, column) => ⟨name, table, column.getD []⟩

/-- What attributes add does not depend on their order, default values and references apart. -/
theorem foldl_apply (name type : Text) (as : List Attribute) :
    as.foldl Attribute.apply ⟨.plain name type, none⟩ = ⟨declaredColumn name type as, declaredReference name as⟩ := by
  induction as using List.reverseRecOn with
  | nil => rfl
  | append_singleton as a ih =>
    rw [List.foldl_append, ih]
    cases a <;> simp [Attribute.apply, declaredColumn, declaredReference, Draft.setNotNull, Draft.setPrimaryKey,
      Draft.setUnique, Draft.setDefault, Draft.setReference, Attribute.default?, Attribute.reference?]

/-! ## Reading -/

/-- The definition ends here, or it goes on behind a gap with a word that continues neither a name nor a type. -/
def StartsClause (rest : List Token) : Prop :=
  ∀ t ∈ rest.head?, t.gap ≠ [] ∧ t.kind ≠ .dot ∧ t.kind ≠ .leftParen ∧
    ∀ base, (typeContinuations base).any t.isWord = false

theorem startsClause_nil : StartsClause [] := by
  intro t ht
  cases ht

theorem startsClause_of_keyword {t : Token} {keyword : Keyword} (ht : t.kind = .keyword keyword) (hgap : t.gap ≠ [])
    (ts : List Token) : StartsClause (t :: ts) := by
  intro u hu
  obtain rfl := Option.some.inj hu
  refine ⟨hgap, by simp [ht], by simp [ht], fun base => ?_⟩
  simp [isWord, ht]

theorem StartsClause.not_dot {rest : List Token} (h : StartsClause rest) : ∀ t ∈ rest.head?, t.kind ≠ .dot :=
  fun t ht => (h t ht).2.1

/-! ### Names and groups -/

theorem spellsName_iff {ws : List Text} {us : List Token} : SpellsName ws us ↔ SpellsWords .dot ws us := by
  constructor
  · intro h
    induction h with
    | last hw => exact .last hw
    | cons hw hdot _ ih => exact .cons hw hdot ih
  · intro h
    induction h with
    | last hw => exact .last hw
    | cons hw hdot _ ih => exact .cons hw hdot ih

/-- A qualified name is read where no dot follows it. -/
theorem name_spelled (expected : Text) {ws : List Text} {us rest : List Token} (h : SpellsName ws us)
    (hrest : ∀ t ∈ rest.head?, t.kind ≠ .dot) : name expected (us ++ rest) = .ok (Text.joinWith "." ws, rest) := by
  obtain ⟨first, more, mid, rfl, hfirst, hmore⟩ := word_wordsAfter_spells expected (spellsName_iff.1 h) hrest
  have hparts : nameParts expected (us ++ rest) = .ok (first :: more, rest) := by
    rw [nameParts, bind_ok hfirst, bind_ok hmore]
    rfl
  rw [name, bind_ok hparts]
  rfl

/-- What is read as a qualified name spells it. -/
theorem exists_spellsName {expected n : Text} {ts rest : List Token} (h : name expected ts = .ok (n, rest)) :
    ∃ ws us, ts = us ++ rest ∧ SpellsName ws us ∧ n = Text.joinWith "." ws := by
  obtain ⟨parts, _, hparts, h⟩ := bind_eq_ok h
  cases h
  obtain ⟨w, _, hfirst, hparts⟩ := bind_eq_ok hparts
  obtain ⟨more, _, hmore, hparts⟩ := bind_eq_ok hparts
  cases hparts
  obtain ⟨us, rfl, hus⟩ := exists_spellsWords hfirst hmore
  exact ⟨w :: more, us, rfl, spellsName_iff.2 hus, rfl⟩

/-- A group of one name is read as the list of this name. -/
theorem nameList_spelled {o u c : Token} {w : Text} (ho : o.kind = .leftParen) (hu : u.name? = some w)
    (hc : c.kind = .rightParen) (rest : List Token) : nameList (o :: u :: c :: rest) = .ok ([w], rest) :=
  nameList_spells (.last hu) ho hc rest

/-! ### Types and default values -/

theorem afterType_spelled {base : Text} {us rest : List Token} (h : ContinuesType base us) (hrest : StartsClause rest) :
    afterType (typeContinuations base.upper) (us ++ rest) = .ok rest := by
  induction h with
  | nil =>
    cases rest with
    | nil => simp [afterType]
    | cons t rest =>
      obtain ⟨-, -, hparen, hword⟩ := hrest t rfl
      exact afterType_stop hparen (hword _)
  | @word t ts hword _ ih =>
    have hparen : t.kind ≠ .leftParen := by
      intro hkind
      simp [isWord, hkind] at hword
    rw [List.cons_append, afterType_word hparen hword, ih]
  | group ho hus _ ih => rw [List.cons_append, List.append_assoc, afterType_group ho (hus _).1, ih]

theorem dataType_spelled {us rest : List Token} (h : SpellsType us) (hrest : StartsClause rest) :
    dataType (us ++ rest) = .ok (verbatim us, rest) := by
  obtain ⟨t, base, ts, rfl, ht, hts⟩ := h
  rw [List.cons_append, dataType_cons ht, afterType_spelled hts hrest]
  show Except.ok (verbatim (taken (t :: ts ++ rest) rest), rest) = _
  rw [taken_append]

theorem afterAdjacent_spelled {us rest : List Token} (h : Adjoins us) (hrest : StartsClause rest) :
    afterAdjacent (us ++ rest) = .ok rest := by
  induction h with
  | nil =>
    cases rest with
    | nil => simp [afterAdjacent]
    | cons t rest => exact afterAdjacent_stop (by simp [(hrest t rfl).1])
  | token hgap hplain _ ih => rw [List.cons_append, afterAdjacent_cons hgap hplain.2.2.2 hplain.1, ih]
  | group hgap ho hus _ ih => rw [List.cons_append, List.append_assoc, afterAdjacent_group hgap ho (hus _).1, ih]

theorem afterItem_plain {t : Token} (ht : t.kind ≠ .leftParen) (ts : List Token) : afterItem (t :: ts) = .ok ts := by
  rw [afterItem, if_neg (mt atLeftParen_cons.1 ht)]
  rfl

theorem defaultValue_spelled {us rest : List Token} (h : SpellsValue us) (hrest : StartsClause rest) :
    defaultValue (us ++ rest) = .ok (verbatim us, rest) := by
  have hread : atEnd (us ++ rest) = false ∧
      ∃ item, afterItem (us ++ rest) = .ok item ∧ afterAdjacent item = .ok rest := by
    cases h with
    | @token t ts hplain hts =>
      exact ⟨by simpa [atEnd, headKind] using hplain.2.2.2, ts ++ rest, afterItem_plain hplain.1 _,
        afterAdjacent_spelled hts hrest⟩
    | @group o us ts ho hus hts =>
      refine ⟨by simp [atEnd, headKind, ho], ts ++ rest, ?_, afterAdjacent_spelled hts hrest⟩
      rw [List.cons_append, List.append_assoc, afterItem, if_pos (atLeftParen_cons.2 ho), skipGroup_cons ho (hus _).1]
      rfl
  obtain ⟨hend, item, hitem, hadjacent⟩ := hread
  rw [defaultValue_eq hend hitem hadjacent, taken_append]

/-! ### Attributes -/

open Migration (attributes_nil attributes_step)

theorem reference_table (column : Text) {ws : List Text} {us rest : List Token} (h : SpellsName ws us)
    (hrest : StartsClause rest) : reference column (us ++ rest) = .ok (⟨column, Text.joinWith "." ws, []⟩, rest) := by
  have hlook : look (atKind .leftParen) rest = .ok (false, rest) := by
    cases rest with
    | nil => rfl
    | cons t rest =>
      have hparen : atKind .leftParen (t :: rest) = false :=
        Bool.eq_false_iff.2 (mt atLeftParen_cons.1 (hrest t rfl).2.2.1)
      rw [look, hparen]
  rw [reference, bind_ok (name_spelled _ h hrest.not_dot), bind_ok hlook]
  rfl

theorem reference_column (column : Text) {ws : List Text} {us : List Token} (h : SpellsName ws us) {o u c : Token}
    {w : Text} (ho : o.kind = .leftParen) (hu : u.name? = some w) (hc : c.kind = .rightParen) (rest : List Token) :
    reference column (us ++ o :: u :: c :: rest) = .ok (⟨column, Text.joinWith "." ws, w⟩, rest) := by
  have hname : name "referenced table" (us ++ o :: u :: c :: rest) = .ok (Text.joinWith "." ws, o :: u :: c :: rest) :=
    name_spelled _ h (by simp [ho])
  have hlook : look (atKind .leftParen) (o :: u :: c :: rest) = .ok (true, o :: u :: c :: rest) := by
    rw [look, atLeftParen_cons.2 ho]
  rw [reference, bind_ok hname, bind_ok hlook, if_pos rfl, bind_ok (nameList_spelled ho hu hc rest)]
  rfl

/-- The tokens start with a token other than the end of the text. -/
theorem atEnd_of_kind {t : Token} (h : t.kind ≠ .eof) (ts : List Token) : atEnd (t :: ts) = false := by
  simpa [atEnd, headKind] using h

/-- A group is passed, whatever it holds. -/
theorem attributes_group {o : Token} {us : List Token} (ho : o.kind = .leftParen) (hus : Closes 0 us) (d : Draft)
    (rest : List Token) : attributes d (o :: (us ++ rest)) = attributes d rest := by
  have hgroup : ((fun _ => d) <$> skipGroup) (o :: (us ++ rest)) = .ok (d, rest) := by
    change (skipGroup _ >>= fun p => Except.ok (d, p.2)) = _
    rw [skipGroup_cons ho (hus rest).1]
    rfl
  refine attributes_step (atEnd_of_kind (by simp [ho]) _) ?_
  simpa [attributeStep, keyword?, ho] using hgroup

theorem map_reader {α β : Type} {r : Reader α} {ts rest : List Token} {a : α} (h : r ts = .ok (a, rest)) (f : α → β) :
    (f <$> r) ts = .ok (f a, rest) := by
  change (r ts >>= fun p => Except.ok (f p.1, p.2)) = _
  rw [h]
  rfl

/-- An attribute is read wherever it stands, up to the next clause. -/
theorem attributes_spelled {a : Attribute} {us rest : List Token} (h : a.Spells us) (hrest : StartsClause rest)
    (d : Draft) : attributes d (us ++ rest) = attributes (a.apply d) rest := by
  cases h with
  | notNull ht hu =>
    refine attributes_step (atEnd_of_kind (by simp [ht]) _) ?_
    simp [attributeStep, keyword?, ht, atKeyword, headKind, hu, Attribute.apply]
  | null ht =>
    refine attributes_step (atEnd_of_kind (by simp [ht]) _) ?_
    simp [attributeStep, keyword?, ht, Attribute.apply]
  | primaryKey ht hu =>
    refine attributes_step (atEnd_of_kind (by simp [ht]) _) ?_
    simp [attributeStep, keyword?, ht, atKeyword, headKind, hu, Attribute.apply]
  | unique ht =>
    refine attributes_step (atEnd_of_kind (by simp [ht]) _) ?_
    simp [attributeStep, keyword?, ht, Attribute.apply]
  | @check t o us ht ho hus =>
    have hfirst : attributeStep d (t :: o :: (us ++ rest)) = .ok (d, o :: (us ++ rest)) := by
      simp [attributeStep, keyword?, ht]
    exact (attributes_step (atEnd_of_kind (by simp [ht]) _) hfirst).trans (attributes_group ho hus d rest)
  | @constraint t u w ht hw =>
    have hname : word "constraint name" (u :: rest) = .ok (w, rest) := by simp [word, hw]
    refine attributes_step (atEnd_of_kind (by simp [ht]) _) ?_
    simpa [attributeStep, keyword?, ht, Attribute.apply] using map_reader hname fun _ => d
  | @default t us ht hus =>
    refine attributes_step (atEnd_of_kind (by simp [ht]) _) ?_
    simpa [attributeStep, keyword?, ht, Attribute.apply] using map_reader (defaultValue_spelled hus hrest) d.setDefault
  | @table t ws us ht hname =>
    refine attributes_step (atEnd_of_kind (by simp [ht]) _) ?_
    simpa [attributeStep, keyword?, ht, Attribute.apply] using
      map_reader (reference_table d.column.name hname hrest) d.setReference
  | @column t o u c ws us w ht hname ho hw hc =>
    refine attributes_step (atEnd_of_kind (by simp [ht]) _) ?_
    simpa [attributeStep, keyword?, ht, Attribute.apply] using
      map_reader (reference_column d.column.name hname ho hw hc rest) d.setReference

theorem Attribute.Spells.exists_keyword {a : Attribute} {t : Token} {us : List Token} (h : a.Spells (t :: us)) :
    ∃ keyword, t.kind = .keyword keyword := by
  cases h <;> exact ⟨_, ‹_›⟩

theorem Separated.startsClause {as : List Attribute} {us : List Token} (h : Separated Attribute.Spells as us) :
    StartsClause us := by
  cases h with
  | nil => exact startsClause_nil
  | cons first gap _ =>
    obtain ⟨keyword, hkind⟩ := first.exists_keyword
    exact startsClause_of_keyword hkind gap _

/-- Attributes one behind the other are read one after the other. -/
theorem attributes_of_separated {as : List Attribute} {us : List Token} (h : Separated Attribute.Spells as us)
    (d : Draft) : attributes d us = .ok (as.foldl Attribute.apply d) := by
  induction h generalizing d with
  | nil => exact attributes_nil d
  | cons first _ rest ih => 
    rw [← List.cons_append, attributes_spelled first rest.startsClause, ih, List.foldl_cons]

/-! ### Definitions -/

/-- The name and the type are read first, then what follows them. -/
theorem read_spelled {α : Type} {spells : α → List Token → Prop} {name type : Text} {as : List α} {us : List Token}
    (h : SpellsColumn spells name type as us)
    (hstarts : ∀ ts, Separated spells as ts → StartsClause ts) :
    ∃ ts, Separated spells as ts ∧ read us = attributes ⟨.plain name type, none⟩ ts := by
  obtain @⟨t, types, ts, _, hword, -, htype, hrest⟩ := h
  have hname : word "column name" (t :: (types ++ ts)) = .ok (name, types ++ ts) := by simp [word, hword]
  refine ⟨ts, hrest, ?_⟩
  rw [read_eq, hname]
  change (dataType (types ++ ts) >>= fun q => attributes ⟨.plain name q.1, none⟩ q.2) = _
  rw [dataType_spelled htype (hstarts ts hrest)]
  rfl

theorem isConstraint_spelled {α : Type} {spells : α → List Token → Prop} {name type : Text} {as : List α}
    {us : List Token} (h : SpellsColumn spells name type as us) : Fragment.isConstraint us = false := by
  obtain @⟨t, types, ts, _, -, hcolumn, -, -⟩ := h
  exact hcolumn

/-- A definition declares one column, whatever the order of its attributes. -/
theorem declarationOf?_spelled {name type : Text} {as : List Attribute} {us : List Token}
    (h : SpellsColumn Attribute.Spells name type as us) :
    Fragment.declarationOf? us = some (.column ⟨declaredColumn name type as, declaredReference name as⟩) := by
  obtain ⟨ts, hts, hread⟩ := read_spelled h fun _ => Separated.startsClause
  refine Migration.declarationOf?_column (isConstraint_spelled h) ?_
  rw [hread, attributes_of_separated hts, foldl_apply]

end DialectBridge.ColumnDefinition
