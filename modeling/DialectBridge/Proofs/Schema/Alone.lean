import DialectBridge.Proofs.Reading.Ahead
import DialectBridge.Proofs.Schema.Written

/-!
# Statements on their own

The statement that a table keeps is a run of tokens of the script, from a `CREATE` to the parenthesis that
closes the body, and these runs stand one behind the other (`exists_statements`). What a run declares depends on
nothing around it (`Declares.findings`). So each statement declares the same table when it is read alone, up to
what is completed from the other tables of the script (`statements_alone`).
-/

namespace DialectBridge

open Token Reader

/-! ## The head of a table definition -/

namespace Finding

/-- Reads a table definition from behind its `CREATE` up to the name of the table. -/
def tableHead : Reader Text := do
  orReplace
  let _ ← eatKeyword .global
  let _ ← eatKeyword .temporary
  expectKeyword .table
  existenceGuard
  name "table name"

theorem takesPlain_existenceGuard : TakesPlain existenceGuard :=
  (takesPlain_eatKeyword .if).bind fun guarded => by
    cases guarded with
    | false => exact .pure ()
    | true => exact (takesPlain_expectKeyword .not).bind fun _ => takesPlain_expectKeyword .exists

theorem takesPlain_orReplace : TakesPlain orReplace :=
  (takesPlain_eatKeyword .or).bind fun replacing => by
    cases replacing with
    | false => exact .pure ()
    | true => exact takesPlain_expectKeyword .replace

theorem takesPlain_tableHead : TakesPlain tableHead :=
  takesPlain_orReplace.bind fun _ => (takesPlain_eatKeyword .global).bind fun _ =>
    (takesPlain_eatKeyword .temporary).bind fun _ => (takesPlain_expectKeyword .table).bind fun _ =>
      takesPlain_existenceGuard.bind fun _ => takesPlain_name "table name"

theorem expectKeyword_eq_ok_iff {keyword : Keyword} {ts rest : List Token} :
    expectKeyword keyword ts = .ok ((), rest) ↔ eatKeyword keyword ts = .ok (true, rest) := by
  unfold expectKeyword eatKeyword
  split <;> simp

theorem table?_readIndex {ts rest : List Token} {f : Finding} (h : readIndex ts = .ok (f, rest)) :
    Script.table? f = none := by
  obtain ⟨_, _, _, h⟩ := bind_eq_ok h
  obtain ⟨_, _, _, h⟩ := bind_eq_ok h
  obtain ⟨_, _, _, h⟩ := bind_eq_ok h
  obtain ⟨_, _, _, h⟩ := bind_eq_ok h
  obtain ⟨_, _, _, h⟩ := bind_eq_ok h
  cases h
  rfl

variable {dialect : Dialect} {create : Token} {whole ts mid rest : List Token} {n : Text} {parts : List Part}

/-- The table of a definition with these parts. -/
def declaredTable (dialect : Dialect) (n statement : Text) (parts : List (List Token)) : Table :=
  .ofDeclarations n statement dialect (parts.filterMap Fragment.declarationOf?)

variable (dialect create whole) in
/-- A statement is a table definition if it has the head and the body of one. -/
theorem afterCreate_of_tableHead (hhead : tableHead ts = .ok (n, mid)) (hbody : splitGroup mid = .ok (parts, rest)) :
    afterCreate dialect create whole ts = .ok (.table (declaredTable dialect n
      (verbatim (create :: taken whole rest)) (parts.map Part.tokens)) (parts.map Fragment.read), rest) := by
  obtain ⟨_, _, horReplace, hhead⟩ := bind_eq_ok hhead
  obtain ⟨_, _, hglobal, hhead⟩ := bind_eq_ok hhead
  obtain ⟨_, _, htemporary, hhead⟩ := bind_eq_ok hhead
  obtain ⟨_, _, htable, hhead⟩ := bind_eq_ok hhead
  obtain ⟨_, _, hguard, hname⟩ := bind_eq_ok hhead
  rw [declaredTable, ← Fragment.declarations_map_read]
  refine (bind_ok horReplace).trans ((bind_ok hglobal).trans ((bind_ok htemporary).trans
    ((bind_ok (expectKeyword_eq_ok_iff.1 htable)).trans ?_)))
  exact (bind_ok hguard).trans ((bind_ok hname).trans (bind_ok hbody))

/-- Only such a statement declares a table. -/
theorem tableHead_of_afterCreate {f : Finding} {t : Table} (h : afterCreate dialect create whole ts = .ok (f, rest))
    (ht : Script.table? f = some t) : ∃ n mid parts, tableHead ts = .ok (n, mid) ∧
      splitGroup mid = .ok (parts, rest) := by
  obtain ⟨_, _, horReplace, h⟩ := bind_eq_ok h
  obtain ⟨_, _, hglobal, h⟩ := bind_eq_ok h
  obtain ⟨_, _, htemporary, h⟩ := bind_eq_ok h
  obtain ⟨isTable, _, htable, h⟩ := bind_eq_ok h
  cases isTable with
  | true =>
    obtain ⟨_, _, hguard, h⟩ := bind_eq_ok h
    obtain ⟨n, mid, hname, h⟩ := bind_eq_ok h
    obtain ⟨parts, after, hbody, h⟩ := bind_eq_ok h
    cases h
    refine ⟨n, mid, parts, ?_, hbody⟩
    exact (bind_ok horReplace).trans ((bind_ok hglobal).trans ((bind_ok htemporary).trans
      ((bind_ok (expectKeyword_eq_ok_iff.2 htable)).trans ((bind_ok hguard).trans hname))))
  | false =>
    obtain ⟨_, _, _, h⟩ := bind_eq_ok h
    obtain ⟨_, _, _, h⟩ := bind_eq_ok h
    obtain ⟨isIndex, _, _, h⟩ := bind_eq_ok h
    cases isIndex with
    | true => rw [table?_readIndex h] at ht; cases ht
    | false => cases h; cases ht

theorem exists_name_of_tableHead (h : tableHead ts = .ok (n, rest)) :
    ∃ us, us <:+ ts ∧ name "table name" us = .ok (n, rest) := by
  obtain ⟨_, _, horReplace, h⟩ := bind_eq_ok h
  obtain ⟨_, _, hglobal, h⟩ := bind_eq_ok h
  obtain ⟨_, _, htemporary, h⟩ := bind_eq_ok h
  obtain ⟨_, _, htable, h⟩ := bind_eq_ok h
  obtain ⟨_, us, hguard, hname⟩ := bind_eq_ok h
  refine ⟨us, ?_, hname⟩
  exact (leavesSuffix_existenceGuard hguard).trans ((leavesSuffix_expectKeyword _ htable).trans
    ((leavesSuffix_eatKeyword _ htemporary).trans ((leavesSuffix_eatKeyword _ hglobal).trans
      (leavesSuffix_orReplace horReplace))))

end Finding

/-! ## Statements that declare a table -/

/-- The tokens of a table definition: they start with `CREATE`, and the last one closes the body, the only group
at the end of plain tokens. -/
def IsTableStatement (run : List Token) : Prop :=
  ∃ create head body, run = create :: (head ++ body) ∧ create.kind = .keyword .create ∧
    (∀ t ∈ head, IsPlain t) ∧ IsGroup body

theorem IsTableStatement.ne_nil {run : List Token} (h : IsTableStatement run) : run ≠ [] := by
  obtain ⟨create, head, body, rfl, -⟩ := h
  exact List.cons_ne_nil _ _

/-- The tokens are a statement that declares the table `d`, whatever stands around them. Of the table only its
dialect depends on the one in which the statement is read. -/
structure Declares (dialect : Dialect) (d : Table) (run : List Token) : Prop where
  shape : IsTableStatement run
  chain : Chain run
  table : ∃ n parts, (∀ us ∈ parts, Chain us) ∧ d = Finding.declaredTable dialect n (verbatim run) parts
  findings : ∀ target g tail, ∃ fragments, Script.findings target (withGap g run ++ tail) =
    .table { d with dialect := target } fragments :: Script.findings target tail

theorem Declares.statement {dialect : Dialect} {d : Table} {run : List Token} (h : Declares dialect d run) :
    d.statement = verbatim run := by
  obtain ⟨n, parts, -, rfl⟩ := h.table
  rfl

theorem Declares.dialect {dialect : Dialect} {d : Table} {run : List Token} (h : Declares dialect d run) :
    d.dialect = dialect := by
  obtain ⟨n, parts, -, rfl⟩ := h.table
  rfl

namespace Script

variable {dialect : Dialect} {script : Text}

theorem findings_eof {t : Token} (ht : t.kind = .eof) (ts : List Token) : findings dialect (t :: ts) = [] := by
  rw [findings, if_pos (by simp [isEof, ht])]

end Script

/-- The text of the statement declares this table and nothing else. -/
theorem Declares.declared {dialect : Dialect} {d : Table} {run : List Token} (h : Declares dialect d run) :
    Script.declared dialect (verbatim run) = [d] := by
  obtain ⟨fragments, hfindings⟩ := h.findings dialect [] [⟨[], .eof, []⟩]
  rw [Script.declared, scan_verbatim h.chain, hfindings, Script.findings_eof rfl, ← h.dialect]
  rfl

namespace Script

variable {dialect : Dialect} {script : Text}

/-- A table that was found is declared by the tokens that were passed. -/
theorem exists_declares {create : Token} {whole rest : List Token} {f : Finding} {d : Table}
    (hscript : create :: whole <:+ scan script) (hcreate : create.kind = .keyword .create)
    (h : Finding.afterCreate dialect create whole whole = .ok (f, rest)) (hd : table? f = some d) :
    ∃ run, whole = run ++ rest ∧ Declares dialect d (create :: run) := by
  obtain ⟨n, mid, parts, hhead, hbody⟩ := Finding.tableHead_of_afterCreate h hd
  rw [Finding.afterCreate_of_tableHead dialect create whole hhead hbody] at h
  cases h
  obtain rfl := Option.some.inj hd
  obtain ⟨vs, c, hclosing, hc⟩ := exists_closing_of_splitGroup hbody
  obtain ⟨body, rfl, hgroup, hparts⟩ := splitGroup_append hbody
  obtain ⟨o, inside, rfl, -, -⟩ := id hgroup
  obtain ⟨head, rfl, hplain, hheads⟩ := Finding.takesPlain_tableHead hhead
  have hchains : ∀ us ∈ parts.map Part.tokens, Chain us := by
    have hmid := (List.suffix_append head _).trans ((List.suffix_cons create _).trans hscript)
    exact List.forall_mem_map.2 fun part hpart => (part_of_splitGroup hmid hbody hpart).1
  have hwhole (tail : List Token) : head ++ o :: (inside ++ tail) = head ++ o :: inside ++ tail := by simp
  have hbehind : BehindGroup (head ++ o :: (inside ++ rest)) rest := by
    refine ⟨head ++ vs, c, ?_, hc⟩
    rw [List.append_assoc, ← hclosing]
    rfl
  have hchain := hbehind.chain hscript
  simp only [List.append_eq, hwhole, taken_append] at hchain ⊢
  refine ⟨head ++ o :: inside, rfl, ⟨create, head, o :: inside, rfl, hcreate, hplain, hgroup⟩, hchain,
    ⟨n, _, hchains, rfl⟩, fun target g tail => ?_⟩
  -- nothing is read behind the group, so any tokens can follow it
  obtain ⟨parts', hbody', htokens⟩ := hparts tail
  refine ⟨parts'.map Fragment.read, findings_ok hcreate ?_⟩
  have hread := Finding.afterCreate_of_tableHead target { create with gap := g } (head ++ o :: inside ++ tail)
    (hheads (inside ++ tail)) hbody'
  rw [taken_append, htokens, hwhole] at hread
  exact hread

/-! ## The statements of a script -/

/-- A statement with the tokens between it and the statement in front of it. -/
structure Placed where
  front : List Token
  run : List Token
  nonempty : run ≠ []

/-- All tokens up to the end of the statement. -/
def Placed.tokens (p : Placed) : List Token :=
  p.front ++ p.run

/-- The text up to the first token of the statement. -/
def Placed.lead (p : Placed) : Text :=
  textOf p.front ++ (p.run.head?.map gapText).getD []

theorem Placed.textOf_tokens (p : Placed) : textOf p.tokens = p.lead ++ verbatim p.run := by
  obtain ⟨t, ts, heq⟩ := List.exists_cons_of_ne_nil p.nonempty
  simp [tokens, lead, heq, verbatim, Token.text]

theorem textOf_flatMap_tokens (ps : List Placed) :
    textOf (ps.flatMap Placed.tokens) = ps.flatMap fun p => p.lead ++ verbatim p.run := by
  induction ps with
  | nil => rfl
  | cons p ps ih => rw [List.flatMap_cons, textOf_append, p.textOf_tokens, ih, List.flatMap_cons]

/-- The tokens hold the statements that declare these tables, one behind the other. -/
def HoldStatements (dialect : Dialect) (ts : List Token) (ds : List Table) : Prop :=
  ∃ (ps : List Placed) (back : List Token), ts = ps.flatMap Placed.tokens ++ back ∧
    List.Forall₂ (fun p d => Declares dialect d p.run) ps ds

theorem holdStatements_nil (ts : List Token) : HoldStatements dialect ts [] :=
  ⟨[], ts, rfl, .nil⟩

/-- Tokens in front belong to no statement. -/
theorem HoldStatements.append {ts : List Token} {ds : List Table} (h : HoldStatements dialect ts ds)
    (us : List Token) : HoldStatements dialect (us ++ ts) ds := by
  obtain ⟨ps, back, rfl, hps⟩ := h
  cases hps with
  | nil => exact holdStatements_nil _
  | @cons p d ps ds hp hps =>
    exact ⟨⟨us ++ p.front, p.run, p.nonempty⟩ :: ps, back, by simp [Placed.tokens], .cons hp hps⟩

theorem HoldStatements.cons {ts run : List Token} {ds : List Table} {d : Table} (hd : Declares dialect d run)
    (h : HoldStatements dialect ts ds) : HoldStatements dialect (run ++ ts) (d :: ds) := by
  obtain ⟨ps, back, rfl, hps⟩ := h
  exact ⟨⟨[], run, hd.shape.ne_nil⟩ :: ps, back, by simp [Placed.tokens], .cons hd hps⟩

theorem HoldStatements.exists_run {ts : List Token} {ds : List Table} (h : HoldStatements dialect ts ds) {d : Table}
    (hd : d ∈ ds) : ∃ run, Declares dialect d run := by
  obtain ⟨ps, back, -, hps⟩ := h
  induction hps with
  | nil => cases hd
  | @cons p e ps ds hp _ ih =>
    rcases List.mem_cons.1 hd with rfl | hd
    · exact ⟨p.run, hp⟩
    · exact ih hd

/-- The statements of the tables stand in the script in the order of the tables. -/
theorem holdStatements_findings (dialect : Dialect) {ts : List Token} (hts : ts <:+ scan script) :
    HoldStatements dialect ts ((findings dialect ts).filterMap table?) := by
  fun_induction findings dialect ts with
  | case1 => exact holdStatements_nil []
  | case2 t rest => exact holdStatements_nil (t :: rest)
  | case3 t rest _ hcreate f next hstep ih =>
    have hcreate : t.kind = .keyword .create := by simpa [isKeyword] using hcreate
    have hleaves := Finding.leavesSuffix_afterCreate dialect t rest hstep
    have hnext := ih (hleaves.trans ((List.suffix_cons t rest).trans hts))
    cases hd : table? f with
    | none =>
      -- the statement is no table, and what follows it holds the statements
      obtain ⟨us, rfl⟩ := hleaves
      rw [List.filterMap_cons_none hd]
      exact hnext.append (t :: us)
    | some d =>
      obtain ⟨run, rfl, hrun⟩ := exists_declares hts hcreate hstep hd
      rw [List.filterMap_cons_some hd]
      exact hnext.cons hrun
  | case4 t rest _ _ e hstep ih => exact (ih ((List.suffix_cons t rest).trans hts)).append [t]
  | case5 t rest _ _ ih => exact (ih ((List.suffix_cons t rest).trans hts)).append [t]

/-! ## Tables that are read alone -/

/-- Each table of a script is declared by tokens of the script. -/
theorem exists_run_of_mem {t : Table} (ht : t ∈ tables dialect script) :
    ∃ d run, Declares dialect d run ∧ Completes d t := by
  obtain ⟨i, hi⟩ := List.getElem?_of_mem ht
  obtain ⟨d, hd, hcompletes⟩ := exists_completes hi
  obtain ⟨run, hrun⟩ := (holdStatements_findings dialect (List.suffix_refl (scan script))).exists_run
    (List.mem_of_getElem? hd)
  exact ⟨d, run, hrun, hcompletes⟩

/-- The name of a declared table is read from its definition. -/
theorem exists_name_of_findings {ts : List Token} {f : Finding} (hf : f ∈ findings dialect ts) {t : Table}
    (ht : table? f = some t) : ∃ us rest, us <:+ ts ∧ name "table name" us = .ok (t.name, rest) := by
  fun_induction findings dialect ts with
  | case1 => cases hf
  | case2 => cases hf
  | case3 u us _ _ found next hstep ih =>
    rcases List.mem_cons.1 hf with rfl | hf
    · obtain ⟨n, mid, parts, hhead, hbody⟩ := Finding.tableHead_of_afterCreate hstep ht
      rw [Finding.afterCreate_of_tableHead dialect u us hhead hbody] at hstep
      cases hstep
      cases ht
      obtain ⟨vs, hvs, hname⟩ := Finding.exists_name_of_tableHead hhead
      exact ⟨vs, mid, hvs.trans (List.suffix_cons u us), hname⟩
    · obtain ⟨vs, rest, hvs, hname⟩ := ih hf
      exact ⟨vs, rest, hvs.trans ((Finding.leavesSuffix_afterCreate dialect u us hstep).trans
        (List.suffix_cons u us)), hname⟩
  | case4 u us _ _ e hstep ih =>
    rcases List.mem_cons.1 hf with rfl | hf
    · cases ht
    · obtain ⟨vs, rest, hvs, hname⟩ := ih hf
      exact ⟨vs, rest, hvs.trans (List.suffix_cons u us), hname⟩
  | case5 u us _ _ ih =>
    obtain ⟨vs, rest, hvs, hname⟩ := ih hf
    exact ⟨vs, rest, hvs.trans (List.suffix_cons u us), hname⟩

theorem exists_name_of_mem {t : Table} (ht : t ∈ tables dialect script) :
    ∃ us rest, us <:+ scan script ∧ name "table name" us = .ok (t.name, rest) := by
  obtain ⟨i, hi⟩ := List.getElem?_of_mem ht
  obtain ⟨d, hd, hcompletes⟩ := exists_completes hi
  obtain ⟨f, hf, htable⟩ := List.mem_filterMap.1 (List.mem_of_getElem? hd)
  rw [hcompletes.name]
  exact exists_name_of_findings hf htable

theorem forall₂_trans {α β γ : Type} {R : α → β → Prop} {S : β → γ → Prop} {T : α → γ → Prop}
    (hT : ∀ a b c, R a b → S b c → T a c) {as : List α} {bs : List β} {cs : List γ} (hab : List.Forall₂ R as bs)
    (hbc : List.Forall₂ S bs cs) : List.Forall₂ T as cs := by
  induction hab generalizing cs with
  | nil =>
    cases hbc
    exact .nil
  | cons h _ ih =>
    cases hbc with
    | cons h' hrest => exact .cons (hT _ _ _ h h') (ih hrest)

theorem map_foreignKeys_tables (dialect : Dialect) (script : Text) :
    (tables dialect script).map Table.foreignKeys = (declared dialect script).map fun d =>
      d.foreignKeys.map (completeKey (indexed dialect script)) := by
  have hkeys := congrArg (List.map fun t => t.foreignKeys.map (completeKey (indexed dialect script)))
    (map_indexed dialect script)
  rw [List.map_map, List.map_map] at hkeys
  rw [tables_eq, completeReferences, List.map_map]
  exact hkeys

/-- Each table of a script comes from a statement, and its references come from the clauses there. -/
theorem completes_tables (dialect : Dialect) (script : Text) : List.Forall₂ (fun d t => Completes d t ∧
    t.foreignKeys = d.foreignKeys.map (completeKey (indexed dialect script)))
    (declared dialect script) (tables dialect script) := by
  refine List.forall₂_iff_get.2 ⟨(length_tables dialect script).symm, fun i hd ht => ?_⟩
  obtain ⟨d, hat, hcompletes⟩ := exists_completes (List.getElem?_eq_getElem ht)
  rw [List.getElem?_eq_getElem hd] at hat
  obtain rfl := Option.some.inj hat
  refine ⟨hcompletes, ?_⟩
  have hkeys := congrArg (fun ks => ks[i]?) (map_foreignKeys_tables dialect script)
  simpa [List.getElem?_map, List.getElem?_eq_getElem ht, List.getElem?_eq_getElem hd] using hkeys

/-- The column and the table of each reference. -/
def ends (t : Table) : List (Text × Text) :=
  t.foreignKeys.map fun k => (k.column, k.table)

theorem ends_of_completed {ts : List Table} {d t : Table} (h : t.foreignKeys = d.foreignKeys.map (completeKey ts)) :
    ends t = ends d := by
  rw [ends, ends, h, List.map_map]
  exact List.map_congr_left fun k _ => Prod.ext (completeKey_column ts k) (completeKey_table ts k)

/-- The statement of a table, read alone, gives this table only, and the two agree but for what is completed from
the other tables: the indexes, and the referenced columns that the clauses, as `d` has them, leave open. -/
def IsAlone (dialect : Dialect) (t : Table) : Prop :=
  ∃ d u, declared dialect t.statement = [d] ∧ tables dialect t.statement = [u] ∧ AgreeOn d t u ∧ ends t = ends u

theorem isAlone_of_declares {d t : Table} {run : List Token} {ts : List Table} (hd : Declares dialect d run)
    (ht : Completes d t) (hkeys : t.foreignKeys = d.foreignKeys.map (completeKey ts)) : IsAlone dialect t := by
  have hdeclared : declared dialect t.statement = [d] := by rw [ht.statement, hd.statement, hd.declared]
  have halone := completes_tables dialect t.statement
  rw [hdeclared] at halone
  cases hu : tables dialect t.statement with
  | nil => rw [hu] at halone; cases halone
  | cons u us =>
    rw [hu] at halone
    obtain ⟨⟨hcompletes, hkeys'⟩, hnone⟩ := List.forall₂_cons.1 halone
    cases hnone
    exact ⟨d, u, hdeclared, hu, ht.agreeOn hcompletes, (ends_of_completed hkeys).trans (ends_of_completed hkeys').symm⟩

/-- The statements that the tables of a script keep are pieces of the script, one behind the other in the order of
the tables. Each one is a table definition from its `CREATE` to the parenthesis that closes its body, and read
alone it gives its table. -/
theorem statements_alone (dialect : Dialect) (script : Text) : ∃ (ps : List Placed) (back : List Token),
    scan script = ps.flatMap Placed.tokens ++ back ∧
      script = (ps.flatMap fun p => p.lead ++ verbatim p.run) ++ textOf back ∧
      List.Forall₂ (fun p t => IsTableStatement p.run ∧ t.statement = verbatim p.run ∧ IsAlone dialect t) ps
        (tables dialect script) := by
  obtain ⟨ps, back, hscan, hps⟩ := holdStatements_findings dialect (List.suffix_refl (scan script))
  refine ⟨ps, back, hscan, ?_, ?_⟩
  · rw [← textOf_flatMap_tokens, ← textOf_append, ← hscan, textOf_scan]
  · refine forall₂_trans (fun p d t hp ht => ?_) hps (completes_tables dialect script)
    exact ⟨hp.shape, ht.1.statement.trans hp.statement, isAlone_of_declares hp ht.1 ht.2⟩

/-- A clause that names the empty column counts as one that names none: in the script the reference gets the
key of the other table, and in its own statement the column that is assumed. -/
theorem statements_alone_empty_name :
    let script : Text := "CREATE TABLE a (x INT REFERENCES b (\x22\x22))\n;\nCREATE TABLE b (k INT PRIMARY KEY)"
    (tables .postgresql script).map Table.foreignKeys = [[⟨"x", "b", "k"⟩], []] ∧
      ((tables .postgresql script).map fun t => (tables .postgresql t.statement).map Table.foreignKeys) =
        [[[⟨"x", "b", "id"⟩]], [[]]] := by
  decide +kernel

end Script

end DialectBridge
