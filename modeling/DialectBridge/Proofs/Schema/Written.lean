import DialectBridge.Proofs.Schema.Statements
import DialectBridge.Proofs.Schema.Verbatim

/-!
# Tables that can be written down

What reading keeps of a table without quoted names can be written down again: names are bare words,
and types and default values are read as they stand. This is kept by every step of reading a column
(`attributeStep_written`), holds of every declaration (`declaration_written`) and so of every table of
a script (`isWritten_of_mem_tables`).
-/

namespace DialectBridge

open Token Reader

/-- The text is read as a type. -/
def IsTypeText (s : Text) : Prop :=
  ∃ us, Recites ColumnDefinition.dataType s us

/-- The text is read as a default value. -/
def IsValueText (s : Text) : Prop :=
  ∃ us, Recites ColumnDefinition.defaultValue s us

/-- The column can be written down. -/
structure Column.IsWritten (c : Column) : Prop where
  name : IsWord c.name
  /-- The definition of the column does not look like a constraint. -/
  notConstraint : Fragment.isConstraint [ofWord [] c.name] = false
  type : IsTypeText c.dataType
  default : ∀ value ∈ c.default, IsValueText value

/-- The reference can be written down, except for the column that it leaves open. -/
structure ForeignKey.IsWritten (k : ForeignKey) : Prop where
  column : IsWord k.column
  table : IsQualifiedName k.table
  referenced : k.referencedColumn = [] ∨ IsWord k.referencedColumn

/-- The table can be written down, except for the columns that references leave open. -/
structure Table.IsWritten (t : Table) : Prop where
  name : IsQualifiedName t.name
  columns : ∀ c ∈ t.columns, c.IsWritten
  primaryKey : ∀ w ∈ t.primaryKey, IsWord w
  foreignKeys : ∀ k ∈ t.foreignKeys, k.IsWritten

/-! ## Constraints -/

/-- The names in the constraint are words. -/
def Constraint.IsWritten : Constraint → Prop
  | primaryKey columns => ∀ w ∈ columns, IsWord w
  | foreignKey columns table referenced =>
    (∀ w ∈ columns, IsWord w) ∧ IsQualifiedName table ∧ ∀ w ∈ referenced, IsWord w
  | unique _ | check => True

theorem Constraint.yields_read {whole : List Token} (hnamed : Named whole) :
    Yields whole Constraint.read Constraint.IsWritten := by
  have hname : LeavesSuffix readName :=
    (leavesSuffix_eatKeyword _).bind fun named => by
      cases named with
      | false => exact .pure ()
      | true => exact (leavesSuffix_word _).bind fun _ => .pure ()
  refine .after hname fun _ => .after (leavesSuffix_look _) fun keyword => ?_
  split
  · exact .after leavesSuffix_skip fun _ => .after (leavesSuffix_expectKeyword _) fun _ =>
      (yields_nameList hnamed).bind leavesSuffix_nameList fun columns hcolumns => .pure hcolumns.2
  · refine .after leavesSuffix_skip fun _ => .after (leavesSuffix_expectKeyword _) fun _ =>
      (yields_nameList hnamed).bind leavesSuffix_nameList fun columns hcolumns =>
        .after (leavesSuffix_expectKeyword _) fun _ =>
          (yields_name hnamed _).bind (leavesSuffix_name _) fun table htable =>
            .after (leavesSuffix_look _) fun named => ?_
    cases named with
    | false => exact .pure ⟨hcolumns.2, htable, by simp⟩
    | true =>
      exact (yields_nameList hnamed).bind leavesSuffix_nameList fun referenced hreferenced =>
        .pure ⟨hcolumns.2, htable, hreferenced.2⟩
  · have hcolumns : Yields whole (nameList >>= fun columns => pure (unique columns)) IsWritten :=
      .after leavesSuffix_nameList fun _ => .pure trivial
    have hlist : Yields whole (look (atKind .leftParen) >>= fun bare =>
        if bare then nameList >>= fun columns => pure (unique columns)
        else word "constraint name" >>= fun _ => nameList >>= fun columns => pure (unique columns))
        IsWritten :=
      .after (leavesSuffix_look _) fun bare => by
        cases bare with
        | true => exact hcolumns
        | false => exact .after (leavesSuffix_word _) fun _ => hcolumns
    refine .after leavesSuffix_skip fun _ => .after (leavesSuffix_eatKeyword _) fun key => ?_
    cases key with
    | true => exact hlist
    | false => exact .after (leavesSuffix_eatKeyword _) fun _ => hlist
  · exact .pure trivial
  · exact .fail

theorem Constraint.isWritten_pair {table : Text} (htable : IsQualifiedName table) {columns targets : List Text}
    (hcolumns : ∀ w ∈ columns, IsWord w) (htargets : ∀ w ∈ targets, IsWord w) :
    ∀ k ∈ foreignKeys.pair table columns targets, k.IsWritten := by
  fun_induction foreignKeys.pair table columns targets with
  | case1 => simp
  | case2 column columns ih =>
    obtain ⟨hcolumn, hcolumns⟩ := List.forall_mem_cons.1 hcolumns
    exact List.forall_mem_cons.2 ⟨⟨hcolumn, htable, .inl rfl⟩, ih hcolumns htargets⟩
  | case3 column columns target targets ih =>
    obtain ⟨hcolumn, hcolumns⟩ := List.forall_mem_cons.1 hcolumns
    obtain ⟨htarget, htargets⟩ := List.forall_mem_cons.1 htargets
    exact List.forall_mem_cons.2 ⟨⟨hcolumn, htable, .inr htarget⟩, ih hcolumns htargets⟩

/-! ## Columns -/

namespace ColumnDefinition

/-- What has been read of a column can be written down. -/
structure Draft.IsWritten (d : Draft) : Prop where
  column : d.column.IsWritten
  reference : ∀ k ∈ d.reference, k.IsWritten

/-- The tokens of a part of a definition without quoted names. -/
structure IsPart (ts : List Token) : Prop where
  chain : Chain ts
  named : Named ts
  unquoted : Unquoted ts
  level : Level ts

theorem IsPart.rest {ts rest : List Token} (h : IsPart ts) (hsuffix : rest <:+ ts) (hlevel : Level rest) :
    IsPart rest :=
  ⟨h.chain.suffix hsuffix, h.named.suffix hsuffix, fun t ht => h.unquoted t (hsuffix.subset ht), hlevel⟩

theorem yields_reference {whole : List Token} (hnamed : Named whole) {column : Text} (hcolumn : IsWord column) :
    Yields whole (reference column) ForeignKey.IsWritten := by
  refine (yields_name hnamed _).bind (leavesSuffix_name _) fun table htable =>
    .after (leavesSuffix_look _) fun named => ?_
  cases named with
  | false => exact .pure ⟨hcolumn, htable, .inl rfl⟩
  | true =>
    refine (yields_nameList hnamed).bind leavesSuffix_nameList fun columns hcolumns => .pure ⟨hcolumn, htable, ?_⟩
    cases columns with
    | nil => exact .inl rfl
    | cons w ws => exact .inr (hcolumns.2 w List.mem_cons_self)

theorem keepsLevel_reference (column : Text) : KeepsLevel (reference column) := by
  refine (keepsLevel_name _).bind fun table => KeepsLevel.bind ?_ fun named => ?_
  · intro ts a rest hts h
    cases h
    exact hts
  · cases named with
    | false => exact .pure _
    | true => exact keepsLevel_nameList.bind fun _ => .pure _

theorem level_drop_keyword {ts : List Token} {keyword : Keyword} (hts : Level ts)
    (h : atKeyword keyword ts = true) : Level (ts.drop 1) := by
  cases ts with
  | nil => exact .nil
  | cons t ts =>
    refine (hts.of_plain ?_).2
    have hkind : t.kind = .keyword keyword := by simpa [atKeyword, headKind] using h
    simp [hkind]

theorem IsPart.drop_keyword {ts : List Token} {keyword : Keyword} (hts : IsPart ts)
    (h : atKeyword keyword ts = true) : IsPart (ts.drop 1) :=
  hts.rest (List.drop_suffix 1 ts) (level_drop_keyword hts.level h)

theorem Draft.IsWritten.setDefault {d : Draft} (hd : d.IsWritten) {value : Text} (hvalue : IsValueText value) :
    (d.setDefault value).IsWritten := by
  refine ⟨⟨hd.column.name, hd.column.notConstraint, hd.column.type, fun v hv => ?_⟩, hd.reference⟩
  obtain rfl : value = v := Option.some.inj hv
  exact hvalue

/-- Reading on keeps what has been read. -/
theorem attributeStep_written {d e : Draft} {ts rest : List Token} (hd : d.IsWritten) (hts : IsPart ts)
    (h : attributeStep d ts = .ok (e, rest)) : e.IsWritten ∧ IsPart rest := by
  cases ts with
  | nil =>
    cases h
    exact ⟨hd, hts⟩
  | cons t ts =>
    have htail (ht : t.kind ≠ .leftParen) : IsPart ts :=
      hts.rest (List.suffix_cons t ts) (hts.level.of_plain ht).2
    have hkeyword {keyword : Keyword} (ht : t.keyword? = some keyword) : IsPart ts := by
      refine htail fun hkind => ?_
      rw [keyword?, hkind] at ht
      cases ht
    rw [attributeStep] at h
    split at h
    · next ht =>
      split at h
      · next hnull =>
        cases h
        exact ⟨⟨⟨hd.column.name, hd.column.notConstraint, hd.column.type, hd.column.default⟩, hd.reference⟩,
          (hkeyword ht).drop_keyword hnull⟩
      · cases h
        exact ⟨hd, hkeyword ht⟩
    · next ht =>
      split at h
      · next hkey =>
        cases h
        exact ⟨⟨⟨hd.column.name, hd.column.notConstraint, hd.column.type, hd.column.default⟩, hd.reference⟩,
          (hkeyword ht).drop_keyword hkey⟩
      · cases h
        exact ⟨hd, hkeyword ht⟩
    · next ht =>
      cases h
      exact ⟨⟨⟨hd.column.name, hd.column.notConstraint, hd.column.type, hd.column.default⟩, hd.reference⟩,
        hkeyword ht⟩
    · next ht =>
      obtain ⟨value, hvalue, rfl⟩ := map_eq_ok h
      have hpart := hkeyword ht
      obtain ⟨us, -, hrest, hrecites⟩ := recites_defaultValue hvalue hpart.chain hpart.level
      exact ⟨hd.setDefault ⟨us, hrecites⟩, hpart.rest (leavesSuffix_defaultValue hvalue) hrest⟩
    · next ht =>
      obtain ⟨key, hkey, rfl⟩ := map_eq_ok h
      have hpart := hkeyword ht
      have hwritten := yields_reference hpart.named hd.column.name (List.suffix_refl ts) hkey
      refine ⟨⟨hd.column, fun k hk => ?_⟩, hpart.rest (leavesSuffix_reference _ hkey)
        (keepsLevel_reference _ hpart.level hkey)⟩
      obtain rfl : key = k := Option.some.inj hk
      exact hwritten
    · next ht =>
      obtain ⟨name, hname, rfl⟩ := map_eq_ok h
      have hpart := hkeyword ht
      exact ⟨hd, hpart.rest (leavesSuffix_word _ hname) (keepsLevel_word _ hpart.level hname)⟩
    · split at h
      · obtain ⟨group, hgroup, rfl⟩ := map_eq_ok h
        exact ⟨hd, hts.rest (leavesSuffix_skipGroup hgroup) (keepsLevel_skipGroup hts.level hgroup)⟩
      · next ht =>
        cases h
        exact ⟨hd, htail (by simpa using ht)⟩

theorem attributes_written {d e : Draft} {ts : List Token} (hd : d.IsWritten) (hts : IsPart ts)
    (h : attributes d ts = .ok e) : e.IsWritten := by
  fun_induction attributes d ts with
  | case1 => cases h; exact hd
  | case2 => cases h
  | case3 d ts _ next rest hstep ih =>
    obtain ⟨hnext, hrest⟩ := attributeStep_written hd hts hstep
    exact ih hnext hrest h

theorem read_inv {ts : List Token} {d : Draft} (h : read ts = .ok d) :
    ∃ name rest type after, word "column name" ts = .ok (name, rest) ∧ dataType rest = .ok (type, after) ∧
      attributes ⟨.plain name type, none⟩ after = .ok d := by
  unfold read at h
  cases hname : word "column name" ts with
  | error e =>
    simp only [hname, Bind.bind, Except.bind] at h
    cases h
  | ok p =>
    obtain ⟨name, rest⟩ := p
    cases htype : dataType rest with
    | error e =>
      simp only [hname, htype, Bind.bind, Except.bind] at h
      cases h
    | ok q =>
      obtain ⟨type, after⟩ := q
      simp only [hname, htype, Bind.bind, Except.bind] at h
      exact ⟨name, rest, type, after, rfl, htype, h⟩

/-- A column that is read can be written down. -/
theorem read_written {ts : List Token} {d : Draft} (hts : IsPart ts)
    (hcolumn : Fragment.isConstraint ts = false) (h : read ts = .ok d) : d.IsWritten := by
  obtain ⟨name, rest, type, after, hname, htype, hattributes⟩ := read_inv h
  cases ts with
  | nil => cases hname
  | cons t ts =>
    obtain ⟨hfirst, rfl⟩ : t.name? = some name ∧ ts = rest := by
      cases hn : t.name? with
      | none => simp [word, hn] at hname
      | some n => simpa [word, hn] using hname
    obtain ⟨hword, hkind⟩ := hts.named t List.mem_cons_self name hfirst
    have hrest : IsPart ts := hts.rest (List.suffix_cons t ts) (hts.level.of_plain (isPlain_of_name? hfirst).1).2
    obtain ⟨us, rfl, hafter, hrecites⟩ := recites_dataType htype hrest.chain hrest.level hrest.unquoted
    refine attributes_written ⟨⟨hword, ?_, ⟨us, hrecites⟩, by simp [Column.plain]⟩, by simp⟩
      (hrest.rest (List.suffix_append us after) hafter) hattributes
    -- the first token tells columns from constraints
    have hsame : Fragment.isConstraint [ofWord [] name] = Fragment.isConstraint (t :: (us ++ after)) := by
      simp only [Fragment.isConstraint, headKeyword?, keyword?, ofWord, hkind]
    exact hsame.trans hcolumn

end ColumnDefinition

/-! ## Tables -/

/-- What a declaration holds can be written down. -/
def Declaration.IsWritten : Declaration → Prop
  | column draft => draft.IsWritten
  | constraint c => c.IsWritten

/-- A declaration that is read can be written down. -/
theorem declaration_written {ts : List Token} {d : Declaration} (hts : ColumnDefinition.IsPart ts)
    (h : Fragment.declarationOf? ts = some d) : d.IsWritten := by
  rw [Fragment.declarationOf?, Fragment.declaration?, Fragment.read] at h
  cases hconstraint : Fragment.isConstraint ts with
  | true =>
    simp only [hconstraint, if_true] at h
    cases hread : Constraint.read ts with
    | error e => simp [hread, Bind.bind, Except.bind, Except.toOption] at h
    | ok p =>
      simp only [hread, Bind.bind, Except.bind, Pure.pure, Except.pure, Except.toOption, Option.some.injEq] at h
      subst h
      exact Constraint.yields_read hts.named (List.suffix_refl ts) hread
  | false =>
    simp only [hconstraint, Bool.false_eq_true, if_false] at h
    cases hread : ColumnDefinition.read ts with
    | error e => simp [hread, Bind.bind, Except.bind, Except.toOption] at h
    | ok draft =>
      simp only [hread, Bind.bind, Except.bind, Pure.pure, Except.pure, Except.toOption, Option.some.injEq] at h
      subst h
      exact ColumnDefinition.read_written hts hconstraint hread

theorem Declaration.IsWritten.foreignKeys {d : Declaration} (h : d.IsWritten) :
    ∀ k ∈ d.foreignKeys, k.IsWritten := by
  cases d with
  | column draft =>
    intro k hk
    exact h.reference k (by simpa [Declaration.foreignKeys] using hk)
  | constraint c =>
    cases c with
    | foreignKey columns table referenced => exact Constraint.isWritten_pair h.2.1 h.1 h.2.2
    | primaryKey _ | unique _ | check => intro k hk; cases hk

theorem isWritten_markUnique {columns : List Column} (h : ∀ c ∈ columns, c.IsWritten) (name : Text) :
    ∀ c ∈ Table.markUnique columns name, c.IsWritten := by
  unfold Table.markUnique
  induction columns with
  | nil => exact h
  | cons c columns ih =>
    obtain ⟨hc, hcolumns⟩ := List.forall_mem_cons.1 h
    rw [Table.modifyFirst]
    split
    · exact List.forall_mem_cons.2 ⟨⟨hc.name, hc.notConstraint, hc.type, hc.default⟩, hcolumns⟩
    · exact List.forall_mem_cons.2 ⟨hc, ih hcolumns⟩

theorem isWritten_foldl_markUnique {columns : List Column} (h : ∀ c ∈ columns, c.IsWritten) (names : List Text) :
    ∀ c ∈ names.foldl Table.markUnique columns, c.IsWritten := by
  induction names generalizing columns with
  | nil => exact h
  | cons name names ih => exact ih (isWritten_markUnique h name)

theorem Declaration.IsWritten.primaryKey {d : Declaration} (h : d.IsWritten) :
    ∀ w ∈ d.primaryKey?, IsWord w := by
  intro w hw
  cases d with
  | column draft => cases hw
  | constraint c =>
    cases c with
    | primaryKey columns => exact h w (List.mem_of_head? hw)
    | foreignKey _ _ _ | unique _ | check => cases hw

theorem Declaration.IsWritten.column {d : Declaration} (h : d.IsWritten) : ∀ c ∈ d.column?, c.IsWritten := by
  intro c hc
  cases d with
  | column draft =>
    obtain rfl : draft.column = c := Option.some.inj hc
    exact ColumnDefinition.Draft.IsWritten.column h
  | constraint c => cases hc

/-- The table of declarations that can be written down can be written down. -/
theorem isWritten_ofDeclarations {name : Text} (hname : IsQualifiedName name) (statement : Text)
    (dialect : Dialect) {ds : List Declaration} (hds : ∀ d ∈ ds, d.IsWritten) :
    (Table.ofDeclarations name statement dialect ds).IsWritten := by
  have hcolumns : ∀ c ∈ (ds.filterMap Declaration.uniqueColumn?).foldl Table.markUnique
      (ds.filterMap Declaration.column?), c.IsWritten := by
    refine isWritten_foldl_markUnique (fun c hc => ?_) _
    obtain ⟨d, hd, hcolumn⟩ := List.mem_filterMap.1 hc
    exact (hds d hd).column c hcolumn
  refine ⟨hname, hcolumns, fun w hw => ?_, fun k hk => ?_⟩
  · rw [Option.mem_def, Table.ofDeclarations] at hw
    cases hfirst : ds.findSome? Declaration.primaryKey? with
    | some v =>
      obtain rfl : v = w := by simpa [hfirst] using hw
      obtain ⟨d, hd, hkey⟩ := List.exists_of_findSome?_eq_some hfirst
      exact (hds d hd).primaryKey v hkey
    | none =>
      obtain ⟨c, hc, rfl⟩ : ∃ c, ((ds.filterMap Declaration.uniqueColumn?).foldl Table.markUnique
          (ds.filterMap Declaration.column?)).find? Column.isPrimaryKey = some c ∧ c.name = w := by
        simpa [hfirst] using hw
      exact (hcolumns c (List.mem_of_find?_eq_some hc)).name
  · obtain ⟨d, hd, hk⟩ := List.mem_flatMap.1 hk
    exact (hds d hd).foreignKeys k hk

/-! ## Statements -/

/-- The table of the finding, if it is one, can be written down. -/
def Finding.IsWritten (f : Finding) : Prop :=
  ∀ t ∈ Script.table? f, t.IsWritten

/-- The parts of a group are parts of a script. -/
theorem isPart_of_splitGroup {script : Text} (hunquoted : Unquoted (scan script)) {ts rest : List Token}
    {parts : List Part} (hts : ts <:+ scan script) (h : splitGroup ts = .ok (parts, rest)) :
    ∀ part ∈ parts, ColumnDefinition.IsPart part.tokens := by
  intro part hpart
  obtain ⟨hchain, hlevel, hmem⟩ := part_of_splitGroup hts h hpart
  exact ⟨hchain, fun t ht => named_scan hunquoted t (hmem ht), fun t ht => hunquoted t (hmem ht), hlevel⟩

namespace Finding

variable {script : Text}

theorem yields_readTable (hunquoted : Unquoted (scan script)) (dialect : Dialect) (create : Token)
    (whole : List Token) : Yields (scan script) (readTable dialect create whole) IsWritten := by
  have hparts : Yields (scan script) splitGroup fun parts =>
      ∀ part ∈ parts, ColumnDefinition.IsPart part.tokens :=
    fun _ _ _ hts h => isPart_of_splitGroup hunquoted hts h
  refine .after leavesSuffix_existenceGuard fun _ =>
    (yields_name (named_scan hunquoted) _).bind (leavesSuffix_name _) fun name hname =>
      hparts.bind leavesSuffix_splitGroup fun parts hparts => .after (leavesSuffix_look _) fun statement =>
        .pure ?_
  intro t ht
  obtain rfl := Option.some.inj ht
  refine isWritten_ofDeclarations hname _ _ fun d hd => ?_
  rw [Fragment.declarations_map_read] at hd
  obtain ⟨ts, hts, hd⟩ := List.mem_filterMap.1 hd
  obtain ⟨part, hpart, rfl⟩ := List.mem_map.1 hts
  exact declaration_written (hparts part hpart) hd

theorem yields_afterCreate (hunquoted : Unquoted (scan script)) (dialect : Dialect) (create : Token)
    (whole : List Token) : Yields (scan script) (afterCreate dialect create whole) IsWritten := by
  have hother (f : Finding) (hf : Script.table? f = none) : f.IsWritten := by
    intro t ht
    rw [hf] at ht
    cases ht
  refine .after leavesSuffix_orReplace fun _ => .after (leavesSuffix_eatKeyword _) fun _ =>
    .after (leavesSuffix_eatKeyword _) fun _ => .after (leavesSuffix_eatKeyword _) fun table => ?_
  cases table with
  | true => exact yields_readTable hunquoted dialect create whole
  | false =>
    refine .after (leavesSuffix_eatKeyword _) fun _ => .after leavesSuffix_bitmap fun _ =>
      .after (leavesSuffix_eatKeyword _) fun index => ?_
    cases index with
    | true =>
      exact .after leavesSuffix_existenceGuard fun _ => .after (leavesSuffix_name _) fun _ =>
        .after (leavesSuffix_expectKeyword _) fun _ => .after (leavesSuffix_name _) fun _ =>
          .after leavesSuffix_skipGroup fun _ => .pure (hother _ rfl)
    | false => exact .pure (hother _ rfl)

end Finding

namespace Script

theorem findings_written {script : Text} (hunquoted : Unquoted (scan script)) (dialect : Dialect)
    {ts : List Token} (hts : ts <:+ scan script) : ∀ f ∈ findings dialect ts, f.IsWritten := by
  fun_induction findings dialect ts with
  | case1 => simp
  | case2 => simp
  | case3 t rest _ _ f next hstep ih =>
    have hrest : rest <:+ scan script := (List.suffix_cons t rest).trans hts
    have hnext : next <:+ scan script := (Finding.leavesSuffix_afterCreate dialect t rest hstep).trans hrest
    exact List.forall_mem_cons.2
      ⟨Finding.yields_afterCreate hunquoted dialect t rest hrest hstep, ih hnext⟩
  | case4 t rest _ _ e hstep ih =>
    refine List.forall_mem_cons.2 ⟨?_, ih ((List.suffix_cons t rest).trans hts)⟩
    intro u hu
    cases hu
  | case5 t rest _ _ ih => exact ih ((List.suffix_cons t rest).trans hts)

theorem declared_written {script : Text} (hunquoted : Unquoted (scan script)) (dialect : Dialect) :
    ∀ t ∈ declared dialect script, t.IsWritten := by
  intro t ht
  obtain ⟨f, hf, htable⟩ := List.mem_filterMap.1 ht
  exact findings_written hunquoted dialect (List.suffix_refl _) f hf t htable

theorem indexed_written {script : Text} (hunquoted : Unquoted (scan script)) (dialect : Dialect) :
    ∀ t ∈ indexed dialect script, t.IsWritten := by
  intro t ht
  have hmem : withoutIndexes t ∈ (indexed dialect script).map withoutIndexes := List.mem_map_of_mem ht
  rw [map_indexed] at hmem
  obtain ⟨d, hd, heq⟩ := List.mem_map.1 hmem
  have hwritten := declared_written hunquoted dialect d hd
  exact ⟨congrArg Table.name heq ▸ hwritten.name, congrArg Table.columns heq ▸ hwritten.columns,
    congrArg Table.primaryKey heq ▸ hwritten.primaryKey, congrArg Table.foreignKeys heq ▸ hwritten.foreignKeys⟩

/-- A completed reference names a column. -/
theorem isWord_completeKey {ts : List Table} (hts : ∀ t ∈ ts, t.IsWritten) {k : ForeignKey}
    (hk : k.IsWritten) : IsWord (completeKey ts k).referencedColumn := by
  have hassumed : IsWord assumedColumn := ⟨⟨'i', rfl, by decide, by decide +kernel⟩,
    List.all_eq_true.1 (by decide +kernel)⟩
  rw [completeKey]
  split
  · show IsWord (((ts.find? fun t => meansSameTable t.name k.table).bind Table.primaryKey).getD assumedColumn)
    cases hfind : (ts.find? fun t => meansSameTable t.name k.table).bind Table.primaryKey with
    | none => exact hassumed
    | some w =>
      obtain ⟨t, ht, hkey⟩ := Option.bind_eq_some_iff.1 hfind
      exact (hts t (List.mem_of_find?_eq_some ht)).primaryKey w hkey
  · next hnamed => exact hk.referenced.resolve_left (by simpa using hnamed)

theorem completeKey_column (ts : List Table) (k : ForeignKey) : (completeKey ts k).column = k.column := by
  rw [completeKey]
  split <;> rfl

theorem completeKey_table (ts : List Table) (k : ForeignKey) : (completeKey ts k).table = k.table := by
  rw [completeKey]
  split <;> rfl

/-- The tables of a script without quoted names can be written down, and their references name
columns. -/
theorem isWritten_of_mem_tables {script : Text} (hunquoted : Unquoted (scan script)) {dialect : Dialect}
    {t : Table} (ht : t ∈ tables dialect script) :
    t.IsWritten ∧ ∀ k ∈ t.foreignKeys, IsWord k.referencedColumn := by
  have hindexed := indexed_written hunquoted dialect
  rw [tables_eq] at ht
  obtain ⟨u, hu, rfl⟩ := List.mem_map.1 ht
  have hwritten := hindexed u hu
  refine ⟨⟨hwritten.name, hwritten.columns, hwritten.primaryKey, fun k hk => ?_⟩, fun k hk => ?_⟩
  · obtain ⟨l, hl, rfl⟩ := List.mem_map.1 hk
    have hkey := hwritten.foreignKeys l hl
    exact ⟨completeKey_column _ l ▸ hkey.column, completeKey_table _ l ▸ hkey.table,
      .inr (isWord_completeKey hindexed hkey)⟩
  · obtain ⟨l, hl, rfl⟩ := List.mem_map.1 hk
    exact isWord_completeKey hindexed (hwritten.foreignKeys l hl)

end Script

end DialectBridge
