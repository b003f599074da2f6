import DialectBridge.Proofs.Migration.Definitions

/-!
# Statements that are built anew

A table without its statement gets one that is built from what was kept of it. Reading this statement
gives the table back, except that a key is no longer marked at its column (`tables_rebuilt`).
-/

namespace DialectBridge.Migration

open Token Reader Scan

/-! ## The body -/

/-- What the pieces of a group declare. -/
def declarations (ps : List Piece) : List Declaration :=
  ((ps.map Piece.tokens).filter fun us => !us.isEmpty).filterMap Fragment.declarationOf?

/-- A definition in front of a delimiter is a piece, and it declares what it says. -/
theorem Defines.pieces {text : Text} {d : Declaration} {us ts rest : List Token} {delimiter : Token}
    {ps : List Piece} (h : Defines text d us) (hts : pieces? 0 ts = some (⟨[], delimiter⟩ :: ps, rest)) :
    pieces? 0 (us ++ ts) = some (⟨us, delimiter⟩ :: ps, rest) ∧
      declarations (⟨us, delimiter⟩ :: ps) = d :: declarations ps := by
  have hkeep : us.isEmpty = false := by simpa using h.nonempty
  constructor
  · rw [h.level.passes, hts, Option.map_some]
    simp only [foldr_push, List.append_nil]
  · simp [declarations, hkeep, h.declares]

/-- The tokens are the rest of a statement behind its opening parenthesis: the definitions, each with
what it declares, and the end. -/
structure IsBody (ls : List (Text × Declaration)) (ts : List Token) : Prop where
  chain : Chain ts
  text : textOf ts = '\n' :: (Text.joinWith [',', '\n'] (ls.map Prod.fst) ++ ['\n', ')', ';'])
  pieces : ∃ ps, pieces? 0 ts = some (ps, [ofSign [] ';']) ∧ declarations ps = ls.map Prod.snd

theorem IsBody.startsWithBreak {ls : List (Text × Declaration)} {ts : List Token} (h : IsBody ls ts) :
    StartsWithBreak (textOf ts) := by
  rw [h.text]
  exact .cons (by decide) _

/-- The end of a statement, with a blank `b` in front of it. -/
def closing (b : Text) : List Token :=
  [ofSign [.blank b] ')', ofSign [] ';']

theorem chain_closing {b : Text} (hb : IsSpace [.blank b]) : Chain (closing b) :=
  .sign hb (by decide) (.sign .none (by decide) .nil)

theorem isBody_nil : IsBody [] (closing "\n\n") := by
  have hspace : IsSpace [.blank "\n\n"] := .some (by decide) (List.all_eq_true.1 (by decide))
  exact ⟨chain_closing hspace, by decide, [⟨[], ofSign [.blank "\n\n"] ')'⟩], rfl, rfl⟩

/-- A definition goes in front of the others. -/
theorem IsBody.cons {ls : List (Text × Declaration)} {ts us : List Token} {text : Text} {d : Declaration}
    (h : IsBody ls ts) (hls : ls ≠ []) (hus : Defines text d us) :
    IsBody ((text, d) :: ls) (us ++ ofSign [] ',' :: ts) := by
  obtain ⟨ps, hps, hread⟩ := h.pieces
  have hcomma : Chain (ofSign [] ',' :: ts) := .sign .none (by decide) h.chain
  have hcut : pieces? 0 (ofSign [] ',' :: ts) = some (⟨[], ofSign [] ','⟩ :: ps, [ofSign [] ';']) := by
    rw [pieces?_comma rfl, hps]
    rfl
  obtain ⟨hpieces, hdeclared⟩ := hus.pieces hcut
  refine ⟨hus.chain.append hcomma (startsWithBreak_sign (by decide) ts), ?_, _, hpieces, ?_⟩
  · obtain ⟨l, ls, rfl⟩ := List.exists_cons_of_ne_nil hls
    simp [h.text, hus.text, Text.joinWith, List.intercalate_cons_cons]
  · rw [hdeclared, hread, List.map_cons]

/-- The last definition stands in front of the end. -/
theorem isBody_singleton {us : List Token} {text : Text} {d : Declaration} (hus : Defines text d us) :
    IsBody [(text, d)] (us ++ closing "\n") := by
  have hcut : pieces? 0 (closing "\n") = some ([⟨[], ofSign [.blank "\n"] ')'⟩], [ofSign [] ';']) := rfl
  have hend : textOf (closing "\n") = ['\n', ')', ';'] := by decide
  have hspace : IsSpace [.blank "\n"] := .some (by decide) (List.all_eq_true.1 (by decide))
  obtain ⟨hpieces, hdeclared⟩ := hus.pieces hcut
  refine ⟨hus.chain.append (chain_closing hspace) (.cons (by decide) _), ?_, _, hpieces, hdeclared⟩
  rw [textOf_append, hus.text, hend, List.map_cons, List.map_nil, Text.joinWith, List.intercalate_singleton]
  rfl

theorem exists_isBody {ls : List (Text × Declaration)} (h : ∀ l ∈ ls, ∃ us, Defines l.1 l.2 us) :
    ∃ ts, IsBody ls ts := by
  induction ls with
  | nil => exact ⟨_, isBody_nil⟩
  | cons l ls ih =>
    obtain ⟨⟨us, hus⟩, hls⟩ := List.forall_mem_cons.1 h
    by_cases hne : ls = []
    · subst hne
      exact ⟨_, isBody_singleton hus⟩
    · obtain ⟨ts, hts⟩ := ih hls
      exact ⟨_, hts.cons hne hus⟩

/-! ## The definitions of a table -/

/-- The definitions of a table and what they declare. -/
def definitions (t : Table) : List (Text × Declaration) :=
  t.columns.map (fun c => (columnDefinition c, .column ⟨{ c with isPrimaryKey := false }, none⟩)) ++
    t.primaryKey.toList.map (fun w => (primaryKeyDefinition w, .constraint (.primaryKey [w]))) ++
    t.foreignKeys.map fun k =>
      (foreignKeyDefinition k, .constraint (.foreignKey [k.column] k.table [k.referencedColumn]))

theorem exists_defines {t : Table} (h : t.IsWritten) (hreferenced : ∀ k ∈ t.foreignKeys, IsWord k.referencedColumn) :
    ∀ l ∈ definitions t, ∃ us, Defines l.1 l.2 us := by
  intro l hl
  simp only [definitions, List.mem_append, List.mem_map, Option.mem_toList] at hl
  rcases hl with (⟨c, hc, rfl⟩ | ⟨w, hw, rfl⟩) | ⟨k, hk, rfl⟩
  · exact exists_definesColumn (h.columns c hc)
  · exact ⟨_, definesPrimaryKey (h.primaryKey w hw)⟩
  · have hkey := h.foreignKeys k hk
    obtain ⟨w, ws, hwords, htable⟩ := hkey.table
    exact ⟨_, definesForeignKey hkey.column hwords htable (hreferenced k hk)⟩

/-- The definitions of a table declare what was kept of it. -/
theorem ofDeclarations_definitions (t : Table) (statement : Text) (dialect : Dialect) :
    Table.ofDeclarations t.name statement dialect ((definitions t).map Prod.snd) =
      ⟨t.name, t.columns.map fun c => { c with isPrimaryKey := false }, t.primaryKey, t.foreignKeys, [],
        statement, dialect⟩ := by
  have hcolumns : ((definitions t).map Prod.snd).filterMap Declaration.column? =
      t.columns.map fun c => { c with isPrimaryKey := false } := by
    simp [definitions, List.filterMap_append, List.filterMap_map, Declaration.column?, Function.comp_def]
  have hunique : ((definitions t).map Prod.snd).filterMap Declaration.uniqueColumn? = [] := by
    simp [definitions, List.filterMap_append, List.filterMap_map, Declaration.uniqueColumn?, Function.comp_def]
  have hkey : ((definitions t).map Prod.snd).findSome? Declaration.primaryKey? = t.primaryKey := by
    have hnone (cs : List Column) : cs.findSome? (fun _ => (none : Option Text)) = none := by simp
    cases hkey : t.primaryKey <;>
      simp [definitions, hkey, List.findSome?_append, List.findSome?_map, List.findSome?_cons, hnone,
        Declaration.primaryKey?, Function.comp_def]
  have hunmarked : (t.columns.map fun c => { c with isPrimaryKey := false }).find? Column.isPrimaryKey = none := by
    simp
  have hforeign : ((definitions t).map Prod.snd).flatMap Declaration.foreignKeys = t.foreignKeys := by
    have hnil {α : Type} (as : List α) : as.flatMap (fun _ => ([] : List ForeignKey)) = [] := by
      simp [List.flatMap_eq_nil_iff]
    simp [definitions, List.flatMap_append, List.flatMap_map, hnil, Declaration.foreignKeys,
      Constraint.foreignKeys, Constraint.foreignKeys.pair]
  simp only [Table.ofDeclarations, hcolumns, hunique, hkey, hforeign, List.foldl_nil, hunmarked]
  cases t.primaryKey <;> rfl

/-! ## The statement -/

/-- The tokens of a statement between its `CREATE` and the rest `ts` behind the opening parenthesis. -/
def headTokens (w : Text) (ws : List Text) (ts : List Token) : List Token :=
  ofKeyword blankGap .table :: (qualifiedTokens blankGap w ws ++ ofSign blankGap '(' :: ts)

theorem textOf_headTokens (w : Text) (ws : List Text) (ts : List Token) :
    textOf (ofKeyword [] .create :: headTokens w ws ts) =
      "CREATE TABLE ".toList ++ Text.joinWith "." (w :: ws) ++ " (".toList ++ textOf ts := by
  have hstart : Keyword.create.text ++ (Trivia.textOf blankGap ++ (Keyword.table.text ++ Trivia.textOf blankGap)) =
      "CREATE TABLE ".toList := by decide +kernel
  have hopen : Trivia.textOf blankGap ++ ['('] = " (".toList := by decide
  calc textOf (ofKeyword [] .create :: headTokens w ws ts)
    _ = Keyword.create.text ++ (Trivia.textOf blankGap ++ (Keyword.table.text ++ Trivia.textOf blankGap)) ++
          Text.joinWith "." (w :: ws) ++ (Trivia.textOf blankGap ++ ['(']) ++ textOf ts := by
      simp [headTokens, textOf_qualifiedTokens, Trivia.textOf]
    _ = "CREATE TABLE ".toList ++ Text.joinWith "." (w :: ws) ++ " (".toList ++ textOf ts := by
      rw [hstart, hopen]

theorem chain_headTokens {w : Text} {ws : List Text} (hwords : ∀ v ∈ w :: ws, IsWord v) {ts : List Token}
    (hts : Chain ts) : Chain (ofKeyword [] .create :: headTokens w ws ts) := by
  have hopen : Chain (ofSign blankGap '(' :: ts) := .sign isSpace_blankGap (by decide) hts
  have hname : Chain (qualifiedTokens blankGap w ws ++ ofSign blankGap '(' :: ts) :=
    chain_qualifiedTokens isSpace_blankGap hwords hopen (startsWithBreak_blankGap rfl ts)
  exact chain_ofKeyword .none .create
    (chain_ofKeyword isSpace_blankGap .table hname (startsWithBreak_blankGap rfl _))
    (startsWithBreak_blankGap rfl _)

/-- A built statement is the text of its tokens. -/
theorem builtStatement_eq {t : Table} {w : Text} {ws : List Text} (hname : t.name = Text.joinWith "." (w :: ws))
    {ts : List Token} (hts : IsBody (definitions t) ts) :
    builtStatement t = textOf (ofKeyword [] .create :: headTokens w ws ts) := by
  have htexts : (definitions t).map Prod.fst = t.columns.map columnDefinition ++
      t.primaryKey.toList.map primaryKeyDefinition ++ t.foreignKeys.map foreignKeyDefinition := by
    simp [definitions, Function.comp_def]
  have hseparator : ",\n".toList = [',', '\n'] := by decide
  have hopen : " (\n".toList = " (".toList ++ ['\n'] := by decide
  have hend : "\n);".toList = ['\n', ')', ';'] := by decide
  calc builtStatement t
    _ = "CREATE TABLE ".toList ++ t.name ++ " (\n".toList ++
          Text.joinWith ",\n".toList ((definitions t).map Prod.fst) ++ "\n);".toList := by rw [htexts]; rfl
    _ = "CREATE TABLE ".toList ++ Text.joinWith "." (w :: ws) ++ " (".toList ++ textOf ts := by
      rw [hts.text, hname]
      simp only [hseparator, hopen, hend, List.append_assoc, List.cons_append, List.nil_append]
    _ = textOf (ofKeyword [] .create :: headTokens w ws ts) := (textOf_headTokens w ws ts).symm

/-- A name that is not the guard's word is not taken for the guard. -/
theorem existenceGuard_headTokens {w : Text} (hguard : w.same Keyword.if.text = false) (g : List Trivia)
    (ws : List Text) (ts : List Token) : Finding.existenceGuard (qualifiedTokens g w ws ++ ts) =
      .ok ((), qualifiedTokens g w ws ++ ts) := by
  have hkind : wordKind w ≠ .keyword .if := fun hkeyword => by
    rw [same_of_wordKind hkeyword] at hguard
    cases hguard
  have heat : eatKeyword .if (qualifiedTokens g w ws ++ ts) = .ok (false, qualifiedTokens g w ws ++ ts) :=
    if_neg (by simpa [qualifiedTokens, atKeyword, headKind, ofWord] using hkind)
  rw [Finding.existenceGuard, bind_ok heat]
  rfl

/-- A built statement is read as a table. -/
theorem exists_afterCreate {w : Text} (ws : List Text) (hguard : w.same Keyword.if.text = false) (dialect : Dialect)
    (create : Token) (whole : List Token) {ls : List (Text × Declaration)} {ts : List Token} (hts : IsBody ls ts)
    (tail : List Token) :
    ∃ statement fragments, Finding.afterCreate dialect create whole (headTokens w ws (ts ++ tail)) =
      .ok (.table (.ofDeclarations (Text.joinWith "." (w :: ws)) statement dialect (ls.map Prod.snd)) fragments,
        ofSign [] ';' :: tail) := by
  obtain ⟨ps, hps, hdeclared⟩ := hts.pieces
  generalize hbody : ofSign blankGap '(' :: (ts ++ tail) = body
  have hname : name "table name" (qualifiedTokens blankGap w ws ++ body) =
      .ok (Text.joinWith "." (w :: ws), body) := by
    rw [← hbody]
    exact name_qualifiedTokens "table name" blankGap w ws (by simp [ofSign, token]) _
  have hsplit : splitGroup body = .ok (partsFrom (ts ++ tail) ps, ofSign [] ';' :: tail) := by
    have hopen : expect .leftParen "'('" body = .ok ((), ts ++ tail) := by
      rw [← hbody]
      rfl
    unfold splitGroup
    rw [hopen]
    simp only [pieces?_append hps tail, List.cons_append, List.nil_append]
  have hread : ((partsFrom (ts ++ tail) ps).map Fragment.read).filterMap Fragment.declaration? = ls.map Prod.snd := by
    rw [Fragment.declarations_map_read, tokens_partsFrom]
    exact hdeclared
  have htable : Finding.readTable dialect create whole (qualifiedTokens blankGap w ws ++ body) =
      .ok (.table (.ofDeclarations (Text.joinWith "." (w :: ws))
        (verbatim (create :: taken whole (ofSign [] ';' :: tail))) dialect (ls.map Prod.snd))
          ((partsFrom (ts ++ tail) ps).map Fragment.read), ofSign [] ';' :: tail) := by
    rw [Finding.readTable, bind_ok (existenceGuard_headTokens hguard blankGap ws body), bind_ok hname,
      bind_ok hsplit, ← hread]
    rfl
  refine ⟨_, _, Eq.trans ?_ htable⟩
  rw [headTokens, hbody]
  have hreplace (us : List Token) : Finding.orReplace (ofKeyword blankGap .table :: us) =
    .ok ((), ofKeyword blankGap .table :: us) := rfl
  have hglobal (us : List Token) : eatKeyword .global (ofKeyword blankGap .table :: us) =
    .ok (false, ofKeyword blankGap .table :: us) := rfl
  have htemporary (us : List Token) : eatKeyword .temporary (ofKeyword blankGap .table :: us) =
    .ok (false, ofKeyword blankGap .table :: us) := rfl
  have htable (us : List Token) : eatKeyword .table (ofKeyword blankGap .table :: us) = .ok (true, us) := rfl
  rw [Finding.afterCreate, bind_ok (hreplace _), bind_ok (hglobal _), bind_ok (htemporary _), bind_ok (htable _),
    if_pos rfl]

/-- The word that a name begins with. -/
def firstWord (name : Text) : Text :=
  name.takeWhile isIdentifierCharacter

theorem firstWord_joinWith {w : Text} (hw : IsWord w) (ws : List Text) : firstWord (Text.joinWith "." (w :: ws)) = w := by
  have hdot : ".".toList = ['.'] := by decide
  have hword : ∀ c ∈ w, isIdentifierCharacter c = true := by
    obtain ⟨c, l, rfl, -, hletter, hl⟩ := hw.cases
    refine List.forall_mem_cons.2 ⟨?_, hl⟩
    rw [Bool.or_eq_true] at hletter
    rcases hletter with h | h <;> simp [isIdentifierCharacter, isAlphanumeric, h]
  cases ws with
  | nil => simpa [firstWord, Text.joinWith] using Text.takeWhile_all hword
  | cons v ws =>
    rw [firstWord, Text.joinWith, List.intercalate_cons_cons, hdot, List.append_assoc]
    exact Text.takeWhile_run hword (show isIdentifierCharacter '.' = false by decide +kernel)

/-- A built statement declares the table that it was built from. -/
theorem exists_tables_builtStatement {t : Table} (h : t.IsWritten)
    (hreferenced : ∀ k ∈ t.foreignKeys, IsWord k.referencedColumn) (hguard : (firstWord t.name).same "IF" = false)
    (dialect : Dialect) :
    ∃ statement, Script.tables dialect (builtStatement t) =
      [⟨t.name, t.columns.map fun c => { c with isPrimaryKey := false }, t.primaryKey, t.foreignKeys, [],
        statement, dialect⟩] := by
  obtain ⟨w, ws, hwords, hname⟩ := h.name
  obtain ⟨ts, hts⟩ := exists_isBody (exists_defines h hreferenced)
  rw [hname, firstWord_joinWith (hwords w List.mem_cons_self)] at hguard
  obtain ⟨statement, fragments, hread⟩ := exists_afterCreate ws hguard dialect (ofKeyword [] .create)
    (headTokens w ws (ts ++ [⟨[], .eof, []⟩])) hts [⟨[], .eof, []⟩]
  rw [← hname, ofDeclarations_definitions] at hread
  have hscan : scan (builtStatement t) =
      ofKeyword [] .create :: headTokens w ws (ts ++ [⟨[], .eof, []⟩]) := by
    rw [builtStatement_eq hname hts, scan_chain (chain_headTokens hwords hts.chain)]
    simp [headTokens]
  have hend : Script.findings dialect [ofSign [] ';', ⟨[], .eof, []⟩] = [] := by
    rw [Script.findings_other (by simp [ofSign, token]) (by simp [ofSign, token]), Script.findings]
    rfl
  have hcomplete (us : List Table) : t.foreignKeys.map (Script.completeKey us) = t.foreignKeys := by
    refine (List.map_congr_left fun k hk => ?_).trans (List.map_id _)
    obtain ⟨c, l, hcons, -⟩ := (hreferenced k hk).cases
    exact Script.completeKey_of_named (by simp [hcons]) us
  have hsingle (u : Table) : Script.tablesOf [.table u fragments] =
    [{ u with foreignKeys := u.foreignKeys.map (Script.completeKey [u]) }] := rfl
  refine ⟨statement, ?_⟩
  rw [Script.tables, hscan, Script.findings_ok rfl hread, hend, hsingle, hcomplete]

/-! ## Migrations from nothing -/

/-- The migration that creates one table without a statement. -/
theorem between_nil_singleton (t : Table) : between [] [{ t with statement := [] }] =
    ⟨[.create t.name (builtStatement t)], []⟩ := by
  rfl

/-- A statement that is built anew means the same table: for each table of a script without quoted names
that does not take its first word for a guard, the migration from nothing consists of one statement,
and this statement declares one table, with the same name, keys and columns. Only the mark of a key at
its column is lost. -/
theorem tables_rebuilt {dialect : Dialect} {script : Text} (hunquoted : Unquoted (scan script)) {t : Table}
    (ht : t ∈ Script.tables dialect script) (hguard : (firstWord t.name).same "IF" = false) (target : Dialect) :
    ∃ statement, between [] [{ t with statement := [] }] = ⟨[.create t.name statement], []⟩ ∧
      ∃ u, Script.tables target statement = [u] ∧ u.name = t.name ∧ u.primaryKey = t.primaryKey ∧
        u.foreignKeys = t.foreignKeys ∧ u.columns = t.columns.map fun c => { c with isPrimaryKey := false } := by
  obtain ⟨hwritten, hreferenced⟩ := Script.isWritten_of_mem_tables hunquoted ht
  obtain ⟨source, hsource⟩ := exists_tables_builtStatement hwritten hreferenced hguard target
  exact ⟨builtStatement t, between_nil_singleton t, _, hsource, rfl, rfl, rfl, rfl⟩

/-- A reference of a column and a constraint of the table move to the places where they are built. -/
theorem tables_rebuilt_item :
    let script : Text := "CREATE TABLE shop.item (id NUMBER(10) PRIMARY KEY, " ++
      "code VARCHAR2(20) DEFAULT 'x' NOT NULL, owner INT REFERENCES person, UNIQUE (code))"
    let t : Table := ⟨"shop.item", [⟨"id", "NUMBER(10)", true, true, false, none⟩,
      ⟨"code", "VARCHAR2(20)", false, false, true, some "'x'"⟩, ⟨"owner", "INT", true, false, false, none⟩],
      some "id", [⟨"owner", "person", "id"⟩], [], script, .oracle⟩
    Unquoted (scan script) ∧ t ∈ Script.tables .oracle script ∧ (firstWord t.name).same "IF" = false ∧
      ∃ statement, between [] [{ t with statement := [] }] = ⟨[.create t.name statement], []⟩ ∧
        ∃ u, Script.tables .postgresql statement = [u] ∧ u.name = t.name ∧ u.primaryKey = t.primaryKey ∧
          u.foreignKeys = t.foreignKeys ∧ u.columns = t.columns.map fun c => { c with isPrimaryKey := false } := by
  intro script t
  have hunquoted : Unquoted (scan script) := by decide +kernel
  have ht : t ∈ Script.tables .oracle script := by decide +kernel
  have hguard : (firstWord t.name).same "IF" = false := by decide +kernel
  exact ⟨hunquoted, ht, hguard, tables_rebuilt hunquoted ht hguard .postgresql⟩

end DialectBridge.Migration
