import DialectBridge.Proofs.Schema.BodyTexts
import DialectBridge.Proofs.Schema.MeantTables

/-!
# Where constraints stand

The columns and the constraints of a table are collected from the whole body before they are put together. So a
constraint has the same effect in front of the columns that it names as behind them, and a fragment that cannot be
read has none: of two bodies with the same columns in the same order and the same constraints in the same order, each
declares what the other one does (`tables_interleaved`), but for the order of references.
-/

namespace DialectBridge

open Token Reader

/-! ## Declarations -/

/-- Two tables say the same, but for the order of their references and the texts of their statements. -/
structure Table.SayTheSame (t u : Table) : Prop where
  name : t.name = u.name
  columns : t.columns = u.columns
  primaryKey : t.primaryKey = u.primaryKey
  foreignKeys : t.foreignKeys.Perm u.foreignKeys
  indexes : t.indexes = u.indexes

namespace Declaration

/-- The declaration is that of a column. -/
def isColumn : Declaration → Bool
  | column _ => true
  | constraint _ => false

theorem filterMap_isColumn {α : Type} {f : Declaration → Option α} (hf : ∀ c, f (.constraint c) = none)
    (ds : List Declaration) : (ds.filter isColumn).filterMap f = ds.filterMap f := by
  rw [List.filterMap_filter]
  refine List.filterMap_congr fun d _ => ?_
  cases d with
  | column _ => rfl
  | constraint c => exact (hf c).symm

theorem filterMap_not_isColumn {α : Type} {f : Declaration → Option α} (hf : ∀ d, f (.column d) = none)
    (ds : List Declaration) : (ds.filter fun d => !d.isColumn).filterMap f = ds.filterMap f := by
  rw [List.filterMap_filter]
  refine List.filterMap_congr fun d _ => ?_
  cases d with
  | column d => exact (hf d).symm
  | constraint _ => rfl

/-- The same columns and the same constraints make the same table, in whatever way they are put together. -/
theorem sayTheSame_ofDeclarations {ds es : List Declaration} (hcolumns : ds.filter isColumn = es.filter isColumn)
    (hconstraints : (ds.filter fun d => !d.isColumn) = es.filter fun d => !d.isColumn)
    (name statement statement' : Text) (dialect : Dialect) : Table.SayTheSame (.ofDeclarations name statement dialect ds)
      (.ofDeclarations name statement' dialect es) := by
  have hcolumn : ds.filterMap column? = es.filterMap column? := by
    rw [← filterMap_isColumn (fun _ => rfl), hcolumns, filterMap_isColumn fun _ => rfl]
  have hunique : ds.filterMap uniqueColumn? = es.filterMap uniqueColumn? := by
    rw [← filterMap_not_isColumn (fun _ => rfl), hconstraints, filterMap_not_isColumn fun _ => rfl]
  have hkey : ds.findSome? primaryKey? = es.findSome? primaryKey? := by
    rw [← List.head?_filterMap, ← List.head?_filterMap, ← filterMap_not_isColumn (fun _ => rfl), hconstraints,
      filterMap_not_isColumn fun _ => rfl]
  have hboth : (ds.filter isColumn ++ ds.filter fun d => !d.isColumn).Perm
      (es.filter isColumn ++ es.filter fun d => !d.isColumn) := by rw [hcolumns, hconstraints]
  have hperm : ds.Perm es :=
    (List.filter_append_perm isColumn ds).symm.trans (hboth.trans (List.filter_append_perm isColumn es))
  refine ⟨rfl, ?_, ?_, hperm.flatMap_right _, rfl⟩
  · simp only [Table.ofDeclarations, hcolumn, hunique]
  · simp only [Table.ofDeclarations, hcolumn, hunique, hkey]

end Declaration

/-! ## Primary keys -/

namespace Constraint

/-- The tokens are `CONSTRAINT` with a name, or there are none. -/
def SpellsConstraintName (ts : List Token) : Prop :=
  ts = [] ∨ ∃ t u w, ts = [t, u] ∧ t.kind = .keyword .constraint ∧ u.name? = some w

/-- The tokens are a primary key of these columns, with or without a name, whatever stands behind it. -/
inductive SpellsPrimaryKey (columns : List Text) : List Token → Prop where
  | mk {named us rest : List Token} {t u o c : Token} (name : SpellsConstraintName named)
      (isPrimary : t.kind = .keyword .primary) (isKey : u.kind = .keyword .key) (opens : o.kind = .leftParen)
      (names : SpellsWords .comma columns us) (closes : c.kind = .rightParen) :
      SpellsPrimaryKey columns (named ++ t :: u :: o :: (us ++ c :: rest))

theorem readName_spelled {ts rest : List Token} (h : SpellsConstraintName ts)
    (hrest : ∀ t ∈ rest.head?, t.kind ≠ .keyword .constraint) : readName (ts ++ rest) = .ok ((), rest) := by
  rcases h with rfl | ⟨t, u, w, rfl, ht, hw⟩
  · exact (bind_ok (Finding.eatKeyword_of_ne hrest)).trans rfl
  · have hword : word "constraint name" (u :: rest) = .ok (w, rest) := by simp [word, hw]
    refine (bind_ok (Finding.eatKeyword_of_kind ht (u :: rest))).trans ?_
    exact (bind_ok hword).trans rfl

theorem exists_spellsConstraintName {ts rest : List Token} (h : readName ts = .ok ((), rest)) :
    ∃ named, ts = named ++ rest ∧ SpellsConstraintName named := by
  obtain ⟨isNamed, mid, heat, h⟩ := bind_eq_ok h
  unfold eatKeyword at heat
  split at heat
  · next hat =>
    cases heat
    obtain ⟨w, _, hword, h⟩ := bind_eq_ok h
    cases h
    obtain ⟨u, hdrop, hw⟩ := word_eq_ok hword
    cases ts with
    | nil => cases hat
    | cons t ts =>
      obtain rfl : ts = u :: rest := hdrop
      exact ⟨[t, u], rfl, .inr ⟨t, u, w, rfl, by simpa [atKeyword, headKind] using hat, hw⟩⟩
  · cases heat
    cases h
    exact ⟨[], rfl, .inl rfl⟩

theorem exists_of_headKeyword? {keyword : Keyword} {ts : List Token} (h : headKeyword? ts = some keyword) :
    ∃ t us, ts = t :: us ∧ t.kind = .keyword keyword := by
  cases ts with
  | nil => cases h
  | cons t us => exact ⟨t, us, rfl, keyword?_eq_some.1 h⟩

theorem spellsPrimaryKey_of_read {us rest : List Token} {columns : List Text}
    (h : Constraint.read us = .ok (.primaryKey columns, rest)) : SpellsPrimaryKey columns us := by
  obtain ⟨_, mid, hname, hbehind⟩ := bind_eq_ok h
  obtain ⟨named, rfl, hspells⟩ := exists_spellsConstraintName hname
  obtain ⟨k, ts, hlook, hread⟩ := bind_eq_ok hbehind
  obtain ⟨hk, hts⟩ : headKeyword? mid = k ∧ mid = ts := by simpa [look] using hlook
  subst hts
  clear h hbehind hlook hname
  -- behind each other keyword a constraint of another kind is read, or none
  split at hread
  · obtain ⟨_, behind, hskip, hread⟩ := bind_eq_ok hread
    obtain ⟨_, _, hkey, hread⟩ := bind_eq_ok hread
    obtain ⟨names, last, hlist, hread⟩ := bind_eq_ok hread
    have hpure : (Except.ok (primaryKey names, last) : Except ReadError _) = .ok (primaryKey columns, rest) := hread
    obtain ⟨rfl, rfl⟩ : names = columns ∧ last = rest := by simpa using hpure
    obtain ⟨o, ws, c, rfl, ho, hws, hc⟩ := exists_spellsWords_nameList hlist
    obtain ⟨u, rfl, hu⟩ := expectKeyword_eq_ok hkey
    obtain ⟨t, ts, rfl, ht⟩ := exists_of_headKeyword? hk
    obtain rfl : ts = u :: o :: (ws ++ c :: last) := by simpa [skip] using hskip
    exact .mk hspells ht hu ho hws hc
  · refine absurd rfl ((?_ : Yields mid _ fun c => c ≠ primaryKey columns) (List.suffix_refl mid) hread)
    refine .after leavesSuffix_skip fun _ => .after (leavesSuffix_expectKeyword _) fun _ =>
      .after leavesSuffix_nameList fun _ => .after (leavesSuffix_expectKeyword _) fun _ =>
      .after (leavesSuffix_name _) fun _ => .after (leavesSuffix_look _) fun named => ?_
    cases named with
    | true => exact .after leavesSuffix_nameList fun _ => .pure (by simp)
    | false => exact .pure (by simp)
  · have hcolumns : Yields mid (nameList >>= fun names => pure (unique names)) fun c => c ≠ primaryKey columns :=
      .after leavesSuffix_nameList fun _ => .pure (by simp)
    have hlist : Yields mid (look (atKind .leftParen) >>= fun bare =>
        if bare then nameList >>= fun names => pure (unique names)
        else word "constraint name" >>= fun _ => nameList >>= fun names => pure (unique names))
        fun c => c ≠ primaryKey columns :=
      .after (leavesSuffix_look _) fun bare => by
        cases bare with
        | true => exact hcolumns
        | false => exact .after (leavesSuffix_word _) fun _ => hcolumns
    refine absurd rfl ((?_ : Yields mid _ fun c => c ≠ primaryKey columns) (List.suffix_refl mid) hread)
    refine .after leavesSuffix_skip fun _ => .after (leavesSuffix_eatKeyword _) fun isKey => ?_
    cases isKey with
    | true => exact hlist
    | false => exact .after (leavesSuffix_eatKeyword _) fun _ => hlist
  · cases hread
  · cases hread

/-- A primary key is read where one is spelled, and nowhere else. -/
theorem declarationOf?_primaryKey_iff {us : List Token} {columns : List Text} :
    Fragment.declarationOf? us = some (.constraint (.primaryKey columns)) ↔ SpellsPrimaryKey columns us := by
  constructor
  · intro h
    cases hconstraint : Fragment.isConstraint us with
    | false =>
      rw [Fragment.declarationOf?_of_column hconstraint] at h
      obtain ⟨d, -, hd⟩ := Option.map_eq_some_iff.1 h
      cases hd
    | true =>
      rw [Fragment.declarationOf?_of_constraint hconstraint] at h
      obtain ⟨⟨c, rest⟩, hread, hc⟩ := Option.map_eq_some_iff.1 h
      obtain rfl : c = .primaryKey columns := by simpa using hc
      cases hok : Constraint.read us with
      | error e => simp [hok, Except.toOption] at hread
      | ok p =>
        obtain rfl : p = (.primaryKey columns, rest) := by simpa [hok, Except.toOption] using hread
        exact spellsPrimaryKey_of_read hok
  · rintro @⟨named, us, rest, t, u, o, c, hname, ht, hu, ho, hus, hc⟩
    have hconstraint : Fragment.isConstraint (named ++ t :: u :: o :: (us ++ c :: rest)) = true := by
      rcases hname with rfl | ⟨v, w, n, rfl, hv, -⟩
      · simp [Fragment.isConstraint, headKeyword?, keyword?, ht, Keyword.startsConstraint]
      · simp [Fragment.isConstraint, headKeyword?, keyword?, hv, Keyword.startsConstraint]
    have hread : Constraint.read (named ++ t :: u :: o :: (us ++ c :: rest)) = .ok (.primaryKey columns, rest) := by
      refine (bind_ok (readName_spelled hname (by simp [ht]))).trans ?_
      have hlook : look headKeyword? (t :: u :: o :: (us ++ c :: rest)) =
          .ok (some .primary, t :: u :: o :: (us ++ c :: rest)) := by
        simp [look, headKeyword?, keyword?, ht]
      have hskip : skip (t :: u :: o :: (us ++ c :: rest)) = .ok ((), u :: o :: (us ++ c :: rest)) := rfl
      have hkey : expectKeyword .key (u :: o :: (us ++ c :: rest)) = .ok ((), o :: (us ++ c :: rest)) :=
        Finding.expectKeyword_eq_ok_iff.2 (Finding.eatKeyword_of_kind hu _)
      refine (bind_ok hlook).trans ((bind_ok hskip).trans ((bind_ok hkey).trans ?_))
      exact (bind_ok (nameList_spells hus ho hc rest)).trans rfl
    rw [Fragment.declarationOf?_of_constraint hconstraint, hread]
    rfl

end Constraint

/-! ## Fragments -/

theorem isColumn_of_declarationIn {p : Text} {d : Declaration} (h : declarationIn p = some d) :
    d.isColumn = !isConstraintIn p := by
  rw [declarationIn] at h
  cases hconstraint : Fragment.isConstraint (scan p).dropLast with
  | false =>
    rw [Fragment.declarationOf?_of_column hconstraint] at h
    obtain ⟨_, -, rfl⟩ := Option.map_eq_some_iff.1 h
    simp [isConstraintIn, hconstraint, Declaration.isColumn]
  | true =>
    rw [Fragment.declarationOf?_of_constraint hconstraint] at h
    obtain ⟨_, -, rfl⟩ := Option.map_eq_some_iff.1 h
    simp [isConstraintIn, hconstraint, Declaration.isColumn]

/-- What the fragments of one kind declare is of one kind. -/
theorem filter_declarationIn (f : Bool → Bool) (ps : List Text) :
    ((ps.filterMap declarationIn).filter fun d => f d.isColumn) =
      (ps.filter fun p => f (!isConstraintIn p)).filterMap declarationIn := by
  rw [List.filter_filterMap, List.filterMap_filter]
  refine List.filterMap_congr fun p _ => ?_
  cases h : declarationIn p with
  | none => simp
  | some d => simp [Option.filter_some, isColumn_of_declarationIn h]

/-- Whitespace around fragments does not change what they declare. -/
theorem filterMap_declarationIn_congr {ps qs : List Text} (hps : ∀ p ∈ ps, IsFragment p)
    (hqs : ∀ q ∈ qs, IsFragment q) (h : ps.map Text.trim = qs.map Text.trim) :
    ps.filterMap declarationIn = qs.filterMap declarationIn := by
  have htrim {rs : List Text} (hrs : ∀ r ∈ rs, IsFragment r) :
      (rs.map Text.trim).filterMap declarationIn = rs.filterMap declarationIn := by
    rw [List.filterMap_map]
    exact List.filterMap_congr fun r hr => declarationIn_trim (hrs r hr)
  rw [← htrim hps, h, htrim hqs]

/-- The fragment is a primary key of these columns. -/
def IsKeyOf (columns : List Text) (p : Text) : Prop :=
  Constraint.SpellsPrimaryKey columns (scan p).dropLast

theorem IsKeyOf.ne_nil {columns : List Text} {p : Text} (h : IsKeyOf columns p) : columns ≠ [] := by
  unfold IsKeyOf at h
  generalize (scan p).dropLast = us at h
  obtain ⟨-, -, -, -, hnames, -⟩ := h
  exact hnames.ne_nil

theorem declarationIn_primaryKey_iff {p : Text} {columns : List Text} :
    declarationIn p = some (.constraint (.primaryKey columns)) ↔ IsKeyOf columns p :=
  Constraint.declarationOf?_primaryKey_iff

/-- The primary key is the first column of the first fragment that is a key, or else the first column that is declared
as one. -/
structure HasFirstKey (ps : List Text) (t : Table) : Prop where
  ofFragment : ∀ before p after column columns, ps = before ++ p :: after → IsKeyOf (column :: columns) p →
    (∀ q ∈ before, ∀ others, ¬IsKeyOf others q) → t.primaryKey = some column
  ofColumn : (∀ p ∈ ps, ∀ columns, ¬IsKeyOf columns p) →
    t.primaryKey = (t.columns.find? Column.isPrimaryKey).map Column.name

theorem findSome?_primaryKey {ps : List Text} (h : ∀ p ∈ ps, ∀ columns, ¬IsKeyOf columns p) :
    (ps.filterMap declarationIn).findSome? Declaration.primaryKey? = none := by
  refine List.findSome?_eq_none_iff.2 fun d hd => ?_
  obtain ⟨p, hp, hdeclares⟩ := List.mem_filterMap.1 hd
  match d with
  | .column _ => rfl
  | .constraint (.primaryKey columns) => exact absurd (declarationIn_primaryKey_iff.1 hdeclares) (h p hp columns)
  | .constraint (.foreignKey ..) => rfl
  | .constraint (.unique _) => rfl
  | .constraint .check => rfl

theorem hasFirstKey_ofDeclarations (name statement : Text) (dialect : Dialect) (ps : List Text) :
    HasFirstKey ps (.ofDeclarations name statement dialect (ps.filterMap declarationIn)) where
  ofFragment before p after column columns hps hkey hbefore := by
    have hfirst : (ps.filterMap declarationIn).findSome? Declaration.primaryKey? = some column := by
      rw [hps, List.filterMap_append, List.findSome?_append, findSome?_primaryKey hbefore, Option.none_or,
        List.filterMap_cons_some (declarationIn_primaryKey_iff.2 hkey)]
      rfl
    simp only [Table.ofDeclarations, hfirst]
    rfl
  ofColumn hnone := by
    simp only [Table.ofDeclarations, findSome?_primaryKey hnone]
    rfl

theorem HasFirstKey.of_eq {ps : List Text} {t u : Table} (h : HasFirstKey ps t) (hkey : u.primaryKey = t.primaryKey)
    (hcolumns : u.columns = t.columns) : HasFirstKey ps u where
  ofFragment before p after column columns hps hp hbefore :=
    hkey.trans (h.ofFragment before p after column columns hps hp hbefore)
  ofColumn hnone := by rw [hkey, hcolumns, h.ofColumn hnone]

/-! ## Scripts -/

namespace Script

theorem completedAt_congr {ds es : List Table}
    (h : ds.map (fun t => (t.name, t.primaryKey)) = es.map fun t => (t.name, t.primaryKey))
    (indexes : List (Text × Text)) : completedAt ds indexes = completedAt es indexes := by
  have hnames : ds.map Table.name = es.map Table.name := by
    have hfirst := congrArg (List.map Prod.fst) h
    rwa [List.map_map, List.map_map] at hfirst
  funext place d
  rw [completedAt, completedAt, completeKey_congr h, given, given, meant?_congr hnames]

theorem tables_of_declared {dialect : Dialect} {script : Text} {ds es : List Table} {d : Table}
    (h : declared dialect script = ds ++ d :: es) {complete : Nat → Table → Table}
    (hcomplete : completedAt (declared dialect script) (declaredIndexes dialect script) = complete) :
    tables dialect script =
      ds.mapIdx complete ++ complete ds.length d :: es.mapIdx fun place => complete (place + 1 + ds.length) := by
  rw [tables_eq_mapIdx, hcomplete, h, List.mapIdx_append, List.mapIdx_cons, Nat.zero_add]

theorem sayTheSame_completedAt {d e : Table} (h : d.SayTheSame e) (ds : List Table) (indexes : List (Text × Text))
    (place : Nat) : (completedAt ds indexes place d).SayTheSame (completedAt ds indexes place e) where
  name := h.name
  columns := h.columns
  primaryKey := h.primaryKey
  foreignKeys := h.foreignKeys.map _
  indexes := congrArg (· ++ given ds indexes place) h.indexes

/-- Two bodies with the same columns in the same order and the same constraints in the same order say the same, wherever
the constraints stand and whatever whitespace stands around the fragments. -/
theorem tables_interleaved (dialect : Dialect) {name opening : Text} (hopening : OpensTable name opening)
    {ps qs : List Text} (hps : ∀ p ∈ ps, IsFragment p) (hqs : ∀ q ∈ qs, IsFragment q)
    (hcolumns : (ps.filter fun p => !isConstraintIn p).map Text.trim =
      (qs.filter fun q => !isConstraintIn q).map Text.trim)
    (hconstraints : (ps.filter isConstraintIn).map Text.trim = (qs.filter isConstraintIn).map Text.trim) (back : Text) :
    ∃ before t u after, tables dialect (withBody opening ps back) = before ++ t :: after ∧
      tables dialect (withBody opening qs back) = before ++ u :: after ∧
      t.name = name ∧ t.SayTheSame u ∧ HasFirstKey ps t ∧ HasFirstKey qs u := by
  obtain ⟨ds, es, is, hdeclared⟩ := hopening.exists_declared dialect back
  obtain ⟨statement, hfirst, hfirstIndexes⟩ := hdeclared ps hps
  obtain ⟨statement', hsecond, hsecondIndexes⟩ := hdeclared qs hqs
  -- neither kind of declarations is changed
  have hsame (f : Bool → Bool) (hfs : (ps.filter fun p => f (!isConstraintIn p)).map Text.trim =
      (qs.filter fun q => f (!isConstraintIn q)).map Text.trim) :
      ((ps.filterMap declarationIn).filter fun d => f d.isColumn) =
        (qs.filterMap declarationIn).filter fun d => f d.isColumn := by
    rw [filter_declarationIn, filter_declarationIn]
    exact filterMap_declarationIn_congr (fun p hp => hps p (List.mem_of_mem_filter hp))
      (fun q hq => hqs q (List.mem_of_mem_filter hq)) hfs
  have hdeclarations := Declaration.sayTheSame_ofDeclarations (hsame id hcolumns)
    (hsame not (by simpa using hconstraints)) name statement statement' dialect
  have hcomplete : completedAt (declared dialect (withBody opening qs back)) =
      completedAt (declared dialect (withBody opening ps back)) := by
    funext indexes
    refine completedAt_congr ?_ indexes
    simp only [hfirst, hsecond, List.map_append, List.map_cons, hdeclarations.name, hdeclarations.primaryKey]
  refine ⟨_, _, _, _, tables_of_declared hfirst rfl, tables_of_declared hsecond ?_, rfl,
    sayTheSame_completedAt hdeclarations _ _ _, ?_, ?_⟩
  · rw [hcomplete, hfirstIndexes, hsecondIndexes]
  · exact (hasFirstKey_ofDeclarations name statement dialect ps).of_eq rfl rfl
  · exact (hasFirstKey_ofDeclarations name statement' dialect qs).of_eq rfl rfl

open Migration in
/-- The constraints of the second body stand in front of the columns, and fragments that cannot be read have no effect
in either place. -/
theorem tables_interleaved_in_front :
    let ps : List Text := ["a INT", " b INT", " c", " PRIMARY KEY", " UNIQUE (b)", " PRIMARY KEY (b, a)"]
    let qs : List Text := ["PRIMARY KEY", "UNIQUE (b)", "PRIMARY KEY (b, a)\n", "a INT", "b INT", "c"]
    OpensTable "t" "CREATE TABLE t (" ∧ (∀ p ∈ ps, IsFragment p) ∧ (∀ q ∈ qs, IsFragment q) ∧
      (ps.filter fun p => !isConstraintIn p).map Text.trim = (qs.filter fun q => !isConstraintIn q).map Text.trim ∧
      (ps.filter isConstraintIn).map Text.trim = (qs.filter isConstraintIn).map Text.trim ∧
      ∃ before t u after, tables .mysql (withBody "CREATE TABLE t (" ps ";") = before ++ t :: after ∧
        tables .mysql (withBody "CREATE TABLE t (" qs ";") = before ++ u :: after ∧
        t.name = "t".toList ∧ t.SayTheSame u ∧ t.primaryKey = some "b".toList := by
  intro ps qs
  have hhead : Finding.SpellsHead ["t"] [ofKeyword blankGap .table, ofWord blankGap "t"] :=
    Finding.spellsHead_word rfl rfl (by decide)
  have hopening : OpensTable "t" "CREATE TABLE t (" :=
    @OpensTable.mk _ _ [] _ (ofKeyword [] .create) (ofSign blankGap '(') _ (.inl rfl) rfl hhead rfl rfl
      (by decide +kernel)
  have hps : ∀ p ∈ ps, IsFragment p := by decide +kernel
  have hqs : ∀ q ∈ qs, IsFragment q := by decide +kernel
  have hcolumns : (ps.filter fun p => !isConstraintIn p).map Text.trim =
      (qs.filter fun q => !isConstraintIn q).map Text.trim := by decide +kernel
  have hconstraints : (ps.filter isConstraintIn).map Text.trim = (qs.filter isConstraintIn).map Text.trim := by
    decide +kernel
  obtain ⟨before, t, u, after, ht, hu, hname, hsame, hkey, -⟩ :=
    tables_interleaved .mysql hopening hps hqs hcolumns hconstraints ";"
  refine ⟨hopening, hps, hqs, hcolumns, hconstraints, before, t, u, after, ht, hu, hname, hsame, ?_⟩
  refine hkey.ofFragment (ps.take 5) " PRIMARY KEY (b, a)" [] "b" ["a"] rfl
    (declarationIn_primaryKey_iff.1 (by decide +kernel)) fun p hp columns hcolumns => ?_
  have hnone : ∀ p ∈ ps.take 5, (declarationIn p).bind Declaration.primaryKey? = none := by decide +kernel
  have hempty := hnone p hp
  rw [declarationIn_primaryKey_iff.2 hcolumns] at hempty
  exact hcolumns.ne_nil (List.head?_eq_none_iff.1 hempty)

end Script

end DialectBridge
