import DialectBridge.Proofs.Reading.Flat
import DialectBridge.Proofs.Schema.Alone
import DialectBridge.Proofs.Schema.Attributes

/-!
# Table definitions

A table definition as it is spelled: `CREATE`, the head with the name of the table, and the body in
parentheses, whose pieces commas separate (`SpellsTable`). At the start of a script or behind a semicolon such a
statement is found and declares its table, with the columns and references of its pieces
(`Script.exists_table`). So a column stands in the table with its attributes, in whatever order they are written
(`Script.tables_attributes`).
-/

namespace DialectBridge

open Token Reader

/-! ## Bodies -/

/-- The tokens of a piece with its delimiter. -/
def Reader.Piece.all (p : Piece) : List Token :=
  p.tokens ++ [p.delimiter]

/-- The pieces of a body: they are level, and commas stand between them. -/
inductive Reader.IsBody : List Piece → Prop where
  | last {us : List Token} {c : Token} (level : Level us) (closes : c.kind = .rightParen) : IsBody [⟨us, c⟩]
  | cons {us : List Token} {c : Token} {ps : List Piece} (level : Level us) (comma : c.kind = .comma)
      (rest : IsBody ps) : IsBody (⟨us, c⟩ :: ps)

/-- A body is cut into its pieces. -/
theorem Reader.IsBody.pieces?_all {ps : List Piece} (h : IsBody ps) (rest : List Token) :
    pieces? 0 (ps.flatMap Piece.all ++ rest) = some (ps, rest) := by
  induction h with
  | @last us c level closes =>
    have hlast : pieces? 0 (us ++ c :: rest) = some ([⟨us, c⟩], rest) := by
      rw [level.passes, pieces?_last closes]
      show some (us.foldr Piece.push [⟨[], c⟩], rest) = _
      rw [foldr_push, List.append_nil]
    simpa [Piece.all] using hlast
  | @cons us c ps level comma _ ih =>
    have hcons : pieces? 0 (us ++ c :: (ps.flatMap Piece.all ++ rest)) = some (⟨us, c⟩ :: ps, rest) := by
      rw [level.passes, pieces?_comma comma, ih]
      show some (us.foldr Piece.push (⟨[], c⟩ :: ps), rest) = _
      rw [foldr_push, List.append_nil]
    simpa [Piece.all] using hcons

/-! ## Heads -/

namespace Finding

/-- The tokens are these keywords, or there are none. -/
def IsOptional (keywords : List Keyword) (ts : List Token) : Prop :=
  ts = [] ∨ ts.map Token.kind = keywords.map .keyword

/-- The tokens between `CREATE` and the body of a table. -/
inductive SpellsHead : List Text → List Token → Prop where
  | mk {replace global temporary guard us : List Token} {t : Token} {ws : List Text}
      (isReplace : IsOptional [.or, .replace] replace) (isGlobal : IsOptional [.global] global)
      (isTemporary : IsOptional [.temporary] temporary) (isTable : t.kind = .keyword .table)
      (isGuard : IsOptional [.if, .not, .exists] guard) (name : ColumnDefinition.SpellsName ws us)
      (noGuard : ∀ u ∈ us.head?, u.kind ≠ .keyword .if) :
      SpellsHead ws (replace ++ (global ++ (temporary ++ t :: (guard ++ us))))

/-- A head with one word for a name and nothing else. -/
theorem spellsHead_word {t u : Token} {w : Text} (ht : t.kind = .keyword .table) (hu : u.name? = some w)
    (hnoGuard : u.kind ≠ .keyword .if) : SpellsHead [w] [t, u] :=
  @SpellsHead.mk [] [] [] [] [u] t _ (.inl rfl) (.inl rfl) (.inl rfl) ht (.inl rfl) (.last hu) (by simpa using hnoGuard)

theorem eatKeyword_of_kind {keyword : Keyword} {t : Token} (h : t.kind = .keyword keyword) (ts : List Token) :
    eatKeyword keyword (t :: ts) = .ok (true, ts) := by
  simp [eatKeyword, atKeyword, headKind, h]

theorem eatKeyword_of_ne {keyword : Keyword} {ts : List Token} (h : ∀ t ∈ ts.head?, t.kind ≠ .keyword keyword) :
    eatKeyword keyword ts = .ok (false, ts) := by
  cases ts with
  | nil => rfl
  | cons t ts => simp [eatKeyword, atKeyword, headKind, h t rfl]

/-- The tokens start with one of these keywords. -/
def StartsWith (keywords : List Keyword) (ts : List Token) : Prop :=
  ∃ t us, ts = t :: us ∧ ∃ keyword ∈ keywords, t.kind = .keyword keyword

theorem StartsWith.not_keyword {keywords : List Keyword} {ts : List Token} (h : StartsWith keywords ts)
    {keyword : Keyword} (hnot : keyword ∉ keywords) : ∀ t ∈ ts.head?, t.kind ≠ .keyword keyword := by
  obtain ⟨t, us, rfl, k, hk, hkind⟩ := h
  rintro u hu heq
  obtain rfl := Option.some.inj hu
  rw [hkind] at heq
  exact hnot (TokenKind.keyword.inj heq ▸ hk)

theorem IsOptional.startsWith {first : Keyword} {keywords others : List Keyword} {ts rest : List Token}
    (h : IsOptional (first :: keywords) ts) (hrest : StartsWith others rest) :
    StartsWith (first :: others) (ts ++ rest) := by
  rcases h with rfl | hkinds
  · obtain ⟨t, us, rfl, k, hk, hkind⟩ := hrest
    exact ⟨t, us, rfl, k, List.mem_cons_of_mem _ hk, hkind⟩
  · obtain ⟨t, us, rfl, ht, -⟩ := List.map_eq_cons_iff.1 hkinds
    exact ⟨t, us ++ rest, rfl, first, List.mem_cons_self, ht⟩

/-- An optional keyword is passed if it is there. -/
theorem exists_eatKeyword {keyword : Keyword} {ts rest : List Token} (h : IsOptional [keyword] ts)
    (hrest : ∀ t ∈ rest.head?, t.kind ≠ .keyword keyword) : ∃ b, eatKeyword keyword (ts ++ rest) = .ok (b, rest) := by
  rcases h with rfl | hkinds
  · exact ⟨false, eatKeyword_of_ne hrest⟩
  · obtain ⟨t, ts, rfl, ht, hts⟩ := List.map_eq_cons_iff.1 hkinds
    obtain rfl := List.map_eq_nil_iff.1 hts
    exact ⟨true, eatKeyword_of_kind ht rest⟩

theorem orReplace_spelled {ts rest : List Token} (h : IsOptional [.or, .replace] ts)
    (hrest : ∀ t ∈ rest.head?, t.kind ≠ .keyword .or) : orReplace (ts ++ rest) = .ok ((), rest) := by
  rcases h with rfl | hkinds
  · exact (bind_ok (eatKeyword_of_ne hrest)).trans rfl
  · obtain ⟨t, ts, rfl, ht, hts⟩ := List.map_eq_cons_iff.1 hkinds
    obtain ⟨u, ts, rfl, hu, hnil⟩ := List.map_eq_cons_iff.1 hts
    obtain rfl := List.map_eq_nil_iff.1 hnil
    exact (bind_ok (eatKeyword_of_kind ht _)).trans (expectKeyword_eq_ok_iff.2 (eatKeyword_of_kind hu rest))

theorem existenceGuard_spelled {ts rest : List Token} (h : IsOptional [.if, .not, .exists] ts)
    (hrest : ∀ t ∈ rest.head?, t.kind ≠ .keyword .if) : existenceGuard (ts ++ rest) = .ok ((), rest) := by
  rcases h with rfl | hkinds
  · exact (bind_ok (eatKeyword_of_ne hrest)).trans rfl
  · obtain ⟨t, ts, rfl, ht, hts⟩ := List.map_eq_cons_iff.1 hkinds
    obtain ⟨u, ts, rfl, hu, hts⟩ := List.map_eq_cons_iff.1 hts
    obtain ⟨v, ts, rfl, hv, hnil⟩ := List.map_eq_cons_iff.1 hts
    obtain rfl := List.map_eq_nil_iff.1 hnil
    refine (bind_ok (eatKeyword_of_kind ht _)).trans ?_
    exact (bind_ok (expectKeyword_eq_ok_iff.2 (eatKeyword_of_kind hu _))).trans
      (expectKeyword_eq_ok_iff.2 (eatKeyword_of_kind hv rest))

/-- The head of a table definition is read up to the parenthesis that opens the body. -/
theorem tableHead_spelled {ws : List Text} {head : List Token} (h : SpellsHead ws head) {o : Token}
    (ho : o.kind = .leftParen) (rest : List Token) :
    tableHead (head ++ o :: rest) = .ok (Text.joinWith "." ws, o :: rest) := by
  obtain @⟨replace, global, temporary, guard, us, t, _, hreplace, hglobal, htemporary, ht, hguard, hname, hnoGuard⟩ := h
  have hfromTable : StartsWith [.table] (t :: (guard ++ (us ++ o :: rest))) :=
    ⟨t, _, rfl, .table, List.mem_cons_self, ht⟩
  have hfromTemporary := htemporary.startsWith hfromTable
  have hfromGlobal := hglobal.startsWith hfromTemporary
  obtain ⟨isGlobal, hreadGlobal⟩ := exists_eatKeyword hglobal (hfromTemporary.not_keyword (by decide))
  obtain ⟨isTemporary, hreadTemporary⟩ := exists_eatKeyword htemporary (hfromTable.not_keyword (by decide))
  have hreadName : name "table name" (us ++ o :: rest) = .ok (Text.joinWith "." ws, o :: rest) :=
    ColumnDefinition.name_spelled _ hname (by simp [ho])
  have hnoIf : ∀ u ∈ (us ++ o :: rest).head?, u.kind ≠ .keyword .if := by
    cases us with
    | nil => simp [ho]
    | cons u us => simpa using hnoGuard u rfl
  have hshape : replace ++ (global ++ (temporary ++ t :: (guard ++ us))) ++ o :: rest =
      replace ++ (global ++ (temporary ++ t :: (guard ++ (us ++ o :: rest)))) := by simp
  rw [hshape]
  refine (bind_ok (orReplace_spelled hreplace (hfromGlobal.not_keyword (by decide)))).trans ?_
  refine (bind_ok hreadGlobal).trans ((bind_ok hreadTemporary).trans ?_)
  refine (bind_ok (expectKeyword_eq_ok_iff.2 (eatKeyword_of_kind ht _))).trans ?_
  exact (bind_ok (existenceGuard_spelled hguard hnoIf)).trans hreadName

end Finding

/-! ## Statements -/

/-- The tokens of a table definition with the pieces of its body. -/
inductive SpellsTable (name : Text) : List Piece → List Token → Prop where
  | mk {create o : Token} {ws : List Text} {head : List Token} {ps : List Piece}
      (isCreate : create.kind = .keyword .create) (isHead : Finding.SpellsHead ws head)
      (isName : Text.joinWith "." ws = name) (opens : o.kind = .leftParen) (body : IsBody ps) :
      SpellsTable name ps (create :: (head ++ o :: ps.flatMap Piece.all))

/-- What the pieces declare. -/
def declarationsOf (ps : List Piece) : List Declaration :=
  ps.filterMap fun p => Fragment.declarationOf? p.tokens

theorem Fragment.declarationOf?_nil : declarationOf? [] = none := rfl

/-- An empty piece declares nothing. -/
theorem filterMap_declarationOf?_partsFrom (place : List Token) (ps : List Piece) :
    ((partsFrom place ps).map Part.tokens).filterMap Fragment.declarationOf? = declarationsOf ps := by
  rw [tokens_partsFrom, List.filterMap_filter, List.filterMap_map]
  refine List.filterMap_congr fun p _ => ?_
  cases htokens : p.tokens with
  | nil => simp [htokens, Fragment.declarationOf?_nil]
  | cons t ts => simp [htokens]

/-- A table definition is found, and it declares the table of its pieces. -/
theorem SpellsTable.findings_append {name : Text} {ps : List Piece} {run : List Token} (h : SpellsTable name ps run)
    (dialect : Dialect) (back : List Token) : ∃ statement fragments,
      Script.findings dialect (run ++ back) =
        .table (.ofDeclarations name statement dialect (declarationsOf ps)) fragments ::
          Script.findings dialect back := by
  obtain @⟨create, o, ws, head, _, hcreate, hhead, rfl, ho, hbody⟩ := h
  have hsplit : splitGroup (o :: (ps.flatMap Piece.all ++ back)) = .ok (partsFrom _ ps, back) :=
    splitGroup_cons ho (hbody.pieces?_all back)
  have hread := Finding.afterCreate_of_tableHead dialect create (head ++ o :: (ps.flatMap Piece.all ++ back))
    (Finding.tableHead_spelled hhead ho _) hsplit
  rw [Finding.declaredTable, filterMap_declarationOf?_partsFrom] at hread
  have hshape : create :: (head ++ o :: ps.flatMap Piece.all) ++ back =
      create :: (head ++ o :: (ps.flatMap Piece.all ++ back)) := by simp
  rw [hshape]
  exact ⟨_, _, Script.findings_ok hcreate hread⟩

/-- The place behind the tokens is the start of a statement: nothing stands in front of it, or a semicolon behind
tokens whose groups are closed. -/
def IsStatementStart (front : List Token) : Prop :=
  front = [] ∨ ∃ ts t, front = ts ++ [t] ∧ t.kind = .semicolon ∧ GroupsClose ts ∧ ∀ u ∈ ts, u.kind ≠ .eof

namespace Script

/-- What stands in front of a statement declares the same tables and indexes, whatever follows. -/
theorem exists_declarations_front {front : List Token} (h : IsStatementStart front) (dialect : Dialect) :
    ∃ ds is, ∀ ts,
      (findings dialect (front ++ ts)).filterMap table? = ds ++ (findings dialect ts).filterMap table? ∧
      (findings dialect (front ++ ts)).filterMap index? = is ++ (findings dialect ts).filterMap index? := by
  rcases h with rfl | ⟨us, t, rfl, ht, hclose, heof⟩
  · exact ⟨[], [], fun ts => ⟨rfl, rfl⟩⟩
  · obtain ⟨ds, hds⟩ := exists_map_declares_findings dialect hclose heof
    refine ⟨ds.filterMap Prod.fst, ds.filterMap Prod.snd, fun ts => ?_⟩
    have hboth := hds (t :: ts) ⟨t, ts, rfl, .inr ht⟩
    have htables := congrArg (List.filterMap Prod.fst) hboth
    have hindexes := congrArg (List.filterMap Prod.snd) hboth
    simp only [List.filterMap_append, List.filterMap_map] at htables hindexes
    have hother : findings dialect (t :: ts) = findings dialect ts := findings_other (by simp [ht]) (by simp [ht])
    rw [hother] at htables hindexes
    rw [List.append_assoc]
    exact ⟨htables, hindexes⟩

/-- A table definition of a script declares its table. The columns are those of the pieces, but for the
constraints that make one of them unique, and of the references only those are changed that name no column. -/
theorem exists_table (dialect : Dialect) {script : Text} {front run back : List Token}
    (hscript : scan script = front ++ (run ++ back)) (hfront : IsStatementStart front) {name : Text} {ps : List Piece}
    (hrun : SpellsTable name ps run) :
    ∃ t ∈ tables dialect script, t.name = name ∧
      t.columns = ((declarationsOf ps).filterMap Declaration.uniqueColumn?).foldl Table.markUnique
        ((declarationsOf ps).filterMap Declaration.column?) ∧
      t.foreignKeys = ((declarationsOf ps).flatMap Declaration.foreignKeys).map
        (completeKey (indexed dialect script)) := by
  obtain ⟨ds, _, hds⟩ := exists_declarations_front hfront dialect
  obtain ⟨statement, fragments, hfindings⟩ := hrun.findings_append dialect back
  have hdeclared : Table.ofDeclarations name statement dialect (declarationsOf ps) ∈ declared dialect script := by
    rw [declared, hscript, (hds _).1, hfindings]
    simp [table?]
  obtain ⟨i, hi, hat⟩ := List.getElem_of_mem hdeclared
  have hboth := List.forall₂_iff_get.1 (completes_tables dialect script)
  have hi' : i < (tables dialect script).length := hboth.1 ▸ hi
  obtain ⟨hcompletes, hkeys⟩ := hboth.2 i hi hi'
  rw [show (declared dialect script).get ⟨i, hi⟩ = _ from hat] at hcompletes hkeys
  exact ⟨_, List.getElem_mem hi', hcompletes.name, hcompletes.columns, hkeys⟩

/-! ## Columns -/

/-- The columns that the pieces declare. -/
def columnsOf (ps : List Piece) : List Column :=
  (declarationsOf ps).filterMap Declaration.column?

/-- The columns that constraints among the pieces make unique. -/
def uniqueNamesOf (ps : List Piece) : List Text :=
  (declarationsOf ps).filterMap Declaration.uniqueColumn?

/-- The references that the pieces declare. -/
def foreignKeysOf (ps : List Piece) : List ForeignKey :=
  (declarationsOf ps).flatMap Declaration.foreignKeys

theorem declarationsOf_append (ps qs : List Piece) :
    declarationsOf (ps ++ qs) = declarationsOf ps ++ declarationsOf qs :=
  List.filterMap_append

/-- A piece that declares a column adds the column and its reference, and nothing to the constraints. -/
theorem exists_table_of_column (dialect : Dialect) {script : Text} {front run back : List Token}
    (hscript : scan script = front ++ (run ++ back)) (hfront : IsStatementStart front) {name : Text}
    {before after : List Piece} {us : List Token} {delimiter : Token}
    (hrun : SpellsTable name (before ++ ⟨us, delimiter⟩ :: after) run) {d : ColumnDefinition.Draft}
    (hd : Fragment.declarationOf? us = some (.column d)) :
    ∃ t ∈ tables dialect script, t.name = name ∧
      t.columns = (uniqueNamesOf before ++ uniqueNamesOf after).foldl Table.markUnique
        (columnsOf before ++ d.column :: columnsOf after) ∧
      t.foreignKeys = (foreignKeysOf before ++ d.reference.toList ++ foreignKeysOf after).map
        (completeKey (indexed dialect script)) := by
  obtain ⟨t, ht, hname, hcolumns, hkeys⟩ := exists_table dialect hscript hfront hrun
  have hpiece : declarationsOf (⟨us, delimiter⟩ :: after) = .column d :: declarationsOf after := by
    simp [declarationsOf, hd]
  have hunique : (Declaration.column d).uniqueColumn? = none := rfl
  rw [declarationsOf_append, hpiece] at hcolumns hkeys
  refine ⟨t, ht, hname, ?_, ?_⟩
  · simpa [columnsOf, uniqueNamesOf, Declaration.column?, hunique] using hcolumns
  · simpa [foreignKeysOf, Declaration.foreignKeys] using hkeys

/-- Attributes are read in any order: a column definition declares exactly one column, with its name, its type as
written and what its attributes say, and a reference if one of them refers to a table. Constraints elsewhere in the
body can make the column unique too, and a reference that names no column is completed. -/
theorem tables_attributes (dialect : Dialect) {script : Text} {front run back : List Token}
    (hscript : scan script = front ++ (run ++ back)) (hfront : IsStatementStart front) {table : Text}
    {before after : List Piece} {us : List Token} {delimiter : Token}
    (hrun : SpellsTable table (before ++ ⟨us, delimiter⟩ :: after) run) {name type : Text}
    {as : List ColumnDefinition.Attribute}
    (hcolumn : ColumnDefinition.SpellsColumn ColumnDefinition.Attribute.Spells name type as us) :
    ∃ t ∈ tables dialect script, t.name = table ∧
      t.columns = (uniqueNamesOf before ++ uniqueNamesOf after).foldl Table.markUnique
        (columnsOf before ++ ColumnDefinition.declaredColumn name type as :: columnsOf after) ∧
      ∃ complete : ForeignKey → ForeignKey,
        (∀ k, (complete k).column = k.column ∧ (complete k).table = k.table ∧
          (k.referencedColumn ≠ [] → complete k = k)) ∧
        t.foreignKeys = (foreignKeysOf before ++ (ColumnDefinition.declaredReference name as).toList ++
          foreignKeysOf after).map complete := by
  obtain ⟨t, ht, hname, hcolumns, hkeys⟩ := exists_table_of_column dialect hscript hfront hrun
    (ColumnDefinition.declarationOf?_spelled hcolumn)
  refine ⟨t, ht, hname, hcolumns, completeKey (indexed dialect script), fun k => ?_, hkeys⟩
  exact ⟨completeKey_column _ k, completeKey_table _ k, fun hnamed => completeKey_of_named hnamed _⟩

open ColumnDefinition Migration in
/-- Words in groups are no attributes, and the default value may stand anywhere among the attributes. -/
theorem tables_attributes_groups :
    ∃ t ∈ tables .oracle "CREATE TABLE t (a INT, c NUMBER(9) CHECK (UNIQUE) NOT NULL DEFAULT (NULL) REFERENCES u (k))",
      t.name = "t".toList ∧ t.columns = [.plain "a" "INT", ⟨"c", "NUMBER(9)", false, false, false, some "(NULL)"⟩] ∧
        t.foreignKeys = [⟨"c", "u", "k"⟩] := by
  let name : List Token := [ofWord blankGap "u"]
  let type : List Token := [ofWord blankGap "NUMBER", ofSign [] '(', ⟨[], .number "9", "9"⟩, ofSign [] ')']
  let check : List Token := [ofKeyword blankGap .check, ofSign blankGap '(', ofKeyword [] .unique, ofSign [] ')']
  let notNull : List Token := [ofKeyword blankGap .not, ofKeyword blankGap .null]
  let value : List Token := [ofSign blankGap '(', ofKeyword [] .null, ofSign [] ')']
  let references : List Token :=
    ofKeyword blankGap .references :: (name ++ [ofSign blankGap '(', ofWord [] "k", ofSign [] ')'])
  let clauses : List Token := check ++ (notNull ++ (ofKeyword blankGap .default :: value ++ (references ++ [])))
  let attributes : List Attribute := [.check, .notNull, .default (verbatim value), .references "u" (some "k")]
  let before : List Piece := [⟨[ofWord [] "a", ofWord blankGap "INT"], ofSign [] ','⟩]
  let column : Piece := ⟨ofWord blankGap "c" :: (type ++ clauses), ofSign [] ')'⟩
  let pieces : List Piece := before ++ column :: []
  let head : List Token := [] ++ ([] ++ ([] ++ ofKeyword blankGap .table :: ([] ++ [ofWord blankGap "t"])))
  have hgroup (u : Token) (hu : IsPlain u) : Closes 0 ([u, ofSign [] ')']) :=
    closes_of_afterGroup? (by rw [afterGroup?_cons_other hu.1 hu.2.1 hu.2.2.2]; rfl)
  have hunique := hgroup _ (isPlain_ofKeyword [] .unique)
  have hnull := hgroup _ (isPlain_ofKeyword [] .null)
  have hnumber := hgroup ⟨[], .number "9", "9"⟩ (by simp [IsPlain])
  have hvalue : SpellsValue value := @SpellsValue.group _ _ [] rfl hnull .nil
  have hclauses : Separated Attribute.Spells attributes clauses := by
    refine .cons (.check rfl rfl hunique) (by decide) (.cons (.notNull rfl rfl) (by decide) ?_)
    refine .cons (.default rfl hvalue) (by decide) (.cons ?_ (by decide) .nil)
    exact @Attribute.Spells.column _ _ _ _ ["u"] name "k" rfl (.last rfl) rfl rfl rfl
  have hcolumn : SpellsColumn Attribute.Spells "c" (verbatim type) attributes column.tokens :=
    .mk rfl rfl ⟨_, _, _, rfl, rfl, .group rfl hnumber .nil⟩ hclauses
  have hlevel {us : List Token} (heof : ∀ t ∈ us, t.kind ≠ .eof) (hflat : isFlat isComma 0 us = true) : Level us :=
    (flat_of_isFlat heof hflat).level fun _ h => h
  have hbody : IsBody pieces := .cons (hlevel (by decide +kernel) (by decide +kernel)) rfl
    (.last (hlevel (by decide +kernel) (by decide +kernel)) rfl)
  have hrun : SpellsTable "t" pieces
      (ofKeyword [] .create :: (head ++ ofSign blankGap '(' :: pieces.flatMap Piece.all)) :=
    .mk rfl (.mk (.inl rfl) (.inl rfl) (.inl rfl) rfl (.inl rfl) (.last rfl) (by decide)) rfl rfl hbody
  have hscan : scan "CREATE TABLE t (a INT, c NUMBER(9) CHECK (UNIQUE) NOT NULL DEFAULT (NULL) REFERENCES u (k))" =
    [] ++ ((ofKeyword [] .create :: (head ++ ofSign blankGap '(' :: pieces.flatMap Piece.all)) ++
      [⟨[], .eof, []⟩]) := by
    decide +kernel
  obtain ⟨t, ht, hname, hcolumns, complete, hcomplete, hkeys⟩ := tables_attributes .oracle hscan (.inl rfl) hrun hcolumn
  have hkey := (hcomplete ⟨"c", "u", "k"⟩).2.2 (by decide)
  have hdeclared : foreignKeysOf before ++ (declaredReference "c" attributes).toList ++ foreignKeysOf [] =
    [⟨"c", "u", "k"⟩] := by decide +kernel
  rw [hdeclared, List.map_singleton, hkey] at hkeys
  exact ⟨t, ht, hname, hcolumns.trans (by decide +kernel), hkeys⟩

end Script

end DialectBridge
