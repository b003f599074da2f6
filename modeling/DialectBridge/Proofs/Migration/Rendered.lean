import DialectBridge.Proofs.Layout.Tokens
import DialectBridge.Proofs.Migration.Definitions
import DialectBridge.Proofs.Migration.Replay
import DialectBridge.Proofs.Schema.Alone
import DialectBridge.Proofs.Spacing.Trim

/-!
# Migration scripts are read back

A migration is written as comment lines, statements of the new tables and `DROP` lines. Read as a script, each
part says what it said before: a comment line is a gap (`declared_line`), a statement declares its table
(`declared_statement`), and a `DROP` line declares nothing, whatever the table is called (`declared_dropping`). So a
migration script declares the tables that it creates (`tables_render`).
-/

namespace DialectBridge.Migration

open Token Reader Scan Script

/-! ## Lines and statements in front of a script -/

theorem gap_line {u : Text} (hu : ∀ c ∈ u, (c != '\n') = true) (s : Text) :
    (gap ('-' :: '-' :: (u ++ '\n' :: s))).2 = (gap s).2 := by
  have hstop : ('\n' :: s).head?.any (· != '\n') = false := rfl
  have htrivia : trivia? ('-' :: '-' :: (u ++ '\n' :: s)) = some (.comment ('-' :: '-' :: u), '\n' :: s) := by
    rw [trivia?.eq_def]
    simp only [Text.takeWhile_run hu hstop, Text.dropWhile_run hu hstop]
  rw [gap_of_trivia htrivia]
  exact gap_blank_append (b := ['\n']) (List.all_eq_true.1 (by decide)) s

/-- What stands behind a gap is declared as without it. -/
theorem declared_of_gap {target : Dialect} {t s : Text} (h : (gap t).2 = (gap s).2) :
    declared target t = declared target s := by
  obtain ⟨g, hscan⟩ := exists_scan_withGap h
  rw [declared, declared, hscan, findings_withGap]

/-- A comment line declares nothing. -/
theorem declared_line {target : Dialect} {u : Text} (hu : ∀ c ∈ u, (c != '\n') = true) (s : Text) :
    declared target ('-' :: '-' :: (u ++ '\n' :: s)) = declared target s :=
  declared_of_gap (gap_line hu s)

theorem declared_newline {target : Dialect} (s : Text) : declared target ('\n' :: s) = declared target s :=
  declared_of_gap (gap_blank_append (b := ['\n']) (List.all_eq_true.1 (by decide)) s)

theorem declared_nil {target : Dialect} : declared target [] = [] := by
  rw [declared, scan_of_gap_nil (gap_of_none rfl), findings_eof rfl]
  rfl

/-- A statement with its semicolon declares its table. -/
theorem declared_statement {dialect target : Dialect} {d : Table} {run : List Token} (h : Declares dialect d run)
    (s : Text) :
    declared target (verbatim run ++ ';' :: s) = { d with dialect := target } :: declared target s := by
  have hscan : scan (verbatim run ++ ';' :: s) = withGap [] run ++ ⟨[], .semicolon, [';']⟩ :: scan s := by
    have htext : verbatim run = textOf (withGap [] run) := by
      rw [textOf_withGap h.shape.ne_nil]
      rfl
    rw [htext, scan_chain_append (h.chain.withGap .none) (.cons (by decide) s)]
    exact congrArg _ (scan_of_gap_cons (gap_of_none rfl))
  obtain ⟨fragments, hfindings⟩ := h.findings target [] (⟨[], .semicolon, [';']⟩ :: scan s)
  rw [declared, hscan, hfindings, findings_other (by simp) (by simp)]
  rfl

/-! ## Dropping a table -/

/-- The tokens of a `DROP` line for the table whose name has these words. -/
def dropTokens (w : Text) (ws : List Text) : List Token :=
  ofKeyword [] .drop :: ofKeyword blankGap .table :: ofKeyword blankGap .if :: ofKeyword blankGap .exists ::
    (qualifiedTokens blankGap w ws ++ [ofKeyword blankGap .cascade])

theorem textOf_dropTokens (w : Text) (ws : List Text) :
    textOf (dropTokens w ws) = "DROP TABLE IF EXISTS ".toList ++ Text.joinWith "." (w :: ws) ++ " CASCADE".toList := by
  have hstart : Keyword.drop.text ++ (Trivia.textOf blankGap ++ (Keyword.table.text ++ (Trivia.textOf blankGap ++
      (Keyword.if.text ++ (Trivia.textOf blankGap ++ (Keyword.exists.text ++ Trivia.textOf blankGap)))))) =
      "DROP TABLE IF EXISTS ".toList := by decide +kernel
  have hend : Trivia.textOf blankGap ++ Keyword.cascade.text = " CASCADE".toList := by decide +kernel
  rw [← hstart, ← hend]
  simp [dropTokens, textOf_qualifiedTokens, Trivia.textOf]

theorem chain_dropTokens {w : Text} {ws : List Text} (hwords : ∀ v ∈ w :: ws, IsWord v) : Chain (dropTokens w ws) := by
  have hend : Chain [ofKeyword blankGap .cascade] := chain_ofKeyword isSpace_blankGap .cascade .nil .nil
  have hname := chain_qualifiedTokens isSpace_blankGap hwords hend (startsWithBreak_blankGap rfl [])
  have hguard := chain_ofKeyword isSpace_blankGap .exists hname (startsWithBreak_blankGap rfl _)
  have hguard := chain_ofKeyword isSpace_blankGap .if hguard (startsWithBreak_blankGap rfl _)
  have htable := chain_ofKeyword isSpace_blankGap .table hguard (startsWithBreak_blankGap rfl _)
  exact chain_ofKeyword .none .drop htable (startsWithBreak_blankGap rfl _)

/-- A token that no statement goes on with. -/
def EndsCreate (t : Token) : Prop :=
  t.kind = .dot ∨ t.kind = .keyword .cascade

/-- A word `CREATE` in a name starts a statement of no kind. -/
theorem afterCreate_of_endsCreate {t : Token} (ht : EndsCreate t) (dialect : Dialect) (create : Token)
    (whole ts : List Token) : Finding.afterCreate dialect create whole (t :: ts) = .ok (.other, t :: ts) := by
  have heat {keyword : Keyword} (hne : keyword ≠ .cascade) :
      eatKeyword keyword (t :: ts) = .ok (false, t :: ts) := by
    refine if_neg ?_
    rcases ht with ht | ht
    · simp [atKeyword, headKind, ht]
    · simpa [atKeyword, headKind, ht] using hne.symm
  have hreplace : Finding.orReplace (t :: ts) = .ok ((), t :: ts) := by
    rw [Finding.orReplace, bind_ok (heat (by decide))]
    rfl
  have hbitmap : Finding.bitmap (t :: ts) = .ok ((), t :: ts) := by
    have hlook : look (atWord "BITMAP") (t :: ts) = .ok (false, t :: ts) := by
      rcases ht with ht | ht <;> simp [look, atWord, isWord, ht]
    rw [Finding.bitmap, bind_ok hlook]
    rfl
  rw [Finding.afterCreate, bind_ok hreplace, bind_ok (heat (by decide)), bind_ok (heat (by decide)),
    bind_ok (heat (by decide)), if_neg (by simp), bind_ok (heat (by decide)), bind_ok hbitmap,
    bind_ok (heat (by decide))]
  rfl

theorem tables_word {target : Dialect} (g : List Trivia) (w : Text) {t : Token} (ht : EndsCreate t)
    (ts : List Token) : (findings target (ofWord g w :: t :: ts)).filterMap table? =
      (findings target (t :: ts)).filterMap table? := by
  by_cases hcreate : (ofWord g w).kind = .keyword .create
  · rw [findings_ok hcreate (afterCreate_of_endsCreate ht ..)]
    rfl
  · rw [findings_other ?_ hcreate]
    exact (isPlain_ofWord g w).2.2.2

theorem tables_qualifiedTokens {target : Dialect} (g : List Trivia) (w : Text) (ws : List Text) {t : Token}
    (ht : EndsCreate t) (ts : List Token) : (findings target (qualifiedTokens g w ws ++ t :: ts)).filterMap table? =
      (findings target (t :: ts)).filterMap table? := by
  induction ws generalizing g w with
  | nil => exact tables_word g w ht ts
  | cons v ws ih =>
    have hdot : (ofSign [] '.').kind = .dot := rfl
    calc (findings target (ofWord g w :: ofSign [] '.' :: (qualifiedTokens [] v ws ++ t :: ts))).filterMap table?
      _ = (findings target (ofSign [] '.' :: (qualifiedTokens [] v ws ++ t :: ts))).filterMap table? :=
        tables_word g w (.inl hdot) _
      _ = (findings target (qualifiedTokens [] v ws ++ t :: ts)).filterMap table? := by
        rw [findings_other (by simp [hdot]) (by simp [hdot])]
      _ = (findings target (t :: ts)).filterMap table? := ih [] v

/-- A `DROP` line declares nothing and hides nothing. -/
theorem declared_dropping {target : Dialect} {w : Text} {ws : List Text} (hwords : ∀ v ∈ w :: ws, IsWord v) (s : Text) :
    declared target ("DROP TABLE IF EXISTS ".toList ++ Text.joinWith "." (w :: ws) ++ " CASCADE".toList ++ ';' :: s) =
      declared target s := by
  have hsemicolon : scan (';' :: s) = ⟨[], .semicolon, [';']⟩ :: scan s := scan_of_gap_cons (gap_of_none rfl)
  rw [← textOf_dropTokens, declared, scan_chain_append (chain_dropTokens hwords) (.cons (by decide) s), hsemicolon]
  generalize hrest : (⟨[], .semicolon, [';']⟩ : Token) :: scan s = rest
  -- only a word of the name can be a `CREATE`, and neither a dot nor `CASCADE` goes on with a statement
  have hkeyword (g : List Trivia) {keyword : Keyword} (hne : keyword ≠ .create) (ts : List Token) :
      findings target (ofKeyword g keyword :: ts) = findings target ts :=
    findings_other (by simp [ofKeyword]) (by simpa [ofKeyword] using hne)
  rw [dropTokens, List.cons_append, hkeyword [] (by decide), List.cons_append, hkeyword _ (by decide),
    List.cons_append, hkeyword _ (by decide), List.cons_append, hkeyword _ (by decide), List.append_assoc,
    List.singleton_append, tables_qualifiedTokens _ _ _ (.inr rfl), hkeyword _ (by decide), ← hrest,
    findings_other (by simp) (by simp)]
  rfl

/-! ## Steps -/

theorem render_create (n statement : Text) :
    (Step.create n statement).render = "-- Create new table: ".toList ++ n ++ "\n".toList ++ statement := rfl

theorem render_drop (n : Text) : (Step.drop n).render =
    "-- Drop table: ".toList ++ n ++ "\nDROP TABLE IF EXISTS ".toList ++ n ++ " CASCADE;".toList := rfl

/-- The lines of a step, with an empty line in front. -/
def Step.block (step : Step) : Text :=
  '\n' :: (step.render ++ ['\n'])

theorem joinWith_steps (steps : List Step) :
    Text.joinWith ['\n'] ([] :: steps.flatMap fun step => [step.render, []]) = steps.flatMap Step.block := by
  induction steps with
  | nil => rfl
  | cons step steps ih =>
    rw [Text.joinWith] at ih ⊢
    rw [List.flatMap_cons, List.flatMap_cons, List.cons_append, List.cons_append, List.nil_append,
      List.intercalate_cons_cons, List.intercalate_cons_cons, ih]
    simp [Step.block]

/-- A migration script is a head of two comment lines and the lines of its steps. -/
theorem render_eq (m : Migration) : m.render =
    "-- Migration Script".toList ++ '\n' :: ("-- Generated by sqlport 0.1.0".toList ++ '\n' ::
      m.steps.flatMap Step.block) := by
  have hversion : ("-- Generated by sqlport " ++ version : Text) = "-- Generated by sqlport 0.1.0".toList := by
    decide +kernel
  rw [render, lines, hversion, show ("\n" : Text) = ['\n'] by decide, List.cons_append, List.cons_append,
    List.singleton_append, Text.joinWith, List.intercalate_cons_cons, List.intercalate_cons_cons, ← Text.joinWith,
    joinWith_steps]
  simp

/-- No line ends in a name. -/
theorem newline_of_qualified {n : Text} (h : IsQualifiedName n) : ∀ c ∈ n, (c != '\n') = true := by
  have hword {w : Text} (hw : IsWord w) : ∀ c ∈ w, (c != '\n') = true := by
    intro c hc
    have hblank := (hw.not_blank_semicolon c hc).1
    rw [bne_iff_ne]
    rintro rfl
    cases hblank
  obtain ⟨w, ws, hwords, rfl⟩ := h
  induction ws generalizing w with
  | nil => simpa [Text.joinWith] using hword (hwords w List.mem_cons_self)
  | cons v ws ih =>
    have hrest := ih v fun u hu => hwords u (List.mem_cons_of_mem _ hu)
    rw [Text.joinWith, List.intercalate_cons_cons, ← Text.joinWith]
    have hfirst := hword (hwords w List.mem_cons_self)
    exact List.forall_mem_append.2 ⟨List.forall_mem_append.2 ⟨hfirst, List.all_eq_true.1 (by decide)⟩, hrest⟩

/-- A statement that was read is written with a semicolon behind it. -/
theorem creatingStatement_of_declares {dialect : Dialect} {d t : Table} {run : List Token}
    (h : Declares dialect d run) (ht : t.statement = verbatim run) : creatingStatement t = verbatim run ++ [';'] := by
  obtain ⟨create, head, body, rfl, -, -, o, inside, rfl, -, hinside⟩ := id h.shape
  obtain ⟨vs, c, rfl, hc⟩ := exists_closing hinside
  have hrun : create :: (head ++ o :: (vs ++ [c])) = (create :: (head ++ o :: vs)) ++ [c] := by simp
  -- the statement ends with the parenthesis, so it is no empty text and has no semicolon
  obtain ⟨r, hfits⟩ := h.chain.exists_fits (t := c) (by simp)
  have htext : verbatim (create :: (head ++ o :: (vs ++ [c]))) =
      (create.lexeme ++ (textOf (head ++ o :: vs) ++ c.gapText)) ++ c.lexeme := by
    simp [verbatim, text]
  have hlast : (verbatim (create :: (head ++ o :: (vs ++ [c])))).getLast? ≠ some ';' := by
    rw [htext, Text.getLast?_append_right _ hfits.lexeme_ne_nil]
    rcases hfits.plain_lexeme (by rw [hc]; rfl) with ⟨hkind, -⟩ | ⟨-, hchars⟩
    · rw [hc] at hkind
      cases hkind
    · exact fun hsome => (hchars ';' (List.mem_of_getLast? hsome)).2 rfl
  have hne : verbatim (create :: (head ++ o :: (vs ++ [c]))) ≠ [] := by
    rw [htext]
    simp [hfits.lexeme_ne_nil]
  rw [creatingStatement, ht, h.chain.trim_verbatim, if_neg (by simpa using hne), terminated, if_neg hlast]
  rfl

variable {target : Dialect}

/-- The lines of a new table declare it. -/
theorem declared_creating {dialect : Dialect} {d t : Table} {run : List Token} (h : Declares dialect d run)
    (ht : t.statement = verbatim run) (hname : IsQualifiedName t.name) (s : Text) :
    declared target ((Step.ofNew t).block ++ s) = { d with dialect := target } :: declared target s := by
  have htext : (Step.ofNew t).block ++ s = '\n' :: '-' :: '-' :: ((" Create new table: ".toList ++ t.name) ++ '\n' ::
      (verbatim run ++ ';' :: '\n' :: s)) := by
    have hstart : "-- Create new table: ".toList = '-' :: '-' :: " Create new table: ".toList := by decide +kernel
    have hbreak : "\n".toList = ['\n'] := by decide
    rw [Step.block, Step.ofNew, render_create, creatingStatement_of_declares h ht, hstart, hbreak]
    simp
  have hline : ∀ c ∈ " Create new table: ".toList ++ t.name, (c != '\n') = true :=
    List.forall_mem_append.2 ⟨List.all_eq_true.1 (by decide +kernel), newline_of_qualified hname⟩
  rw [htext, declared_newline, declared_line hline, declared_statement h, declared_newline]

/-- The lines of an old table declare nothing. -/
theorem declared_removing {t : Table} (hname : IsQualifiedName t.name) (s : Text) :
    declared target ((Step.ofOld t).block ++ s) = declared target s := by
  have htext : (Step.ofOld t).block ++ s = '\n' :: '-' :: '-' :: ((" Drop table: ".toList ++ t.name) ++ '\n' ::
      ("DROP TABLE IF EXISTS ".toList ++ t.name ++ " CASCADE".toList ++ ';' :: '\n' :: s)) := by
    have hstart : "-- Drop table: ".toList = '-' :: '-' :: " Drop table: ".toList := by decide +kernel
    have hdrop : "\nDROP TABLE IF EXISTS ".toList = '\n' :: "DROP TABLE IF EXISTS ".toList := by decide +kernel
    have hend : " CASCADE;".toList = " CASCADE".toList ++ [';'] := by decide +kernel
    rw [Step.block, Step.ofOld, render_drop, hstart, hdrop, hend]
    simp
  have hline : ∀ c ∈ " Drop table: ".toList ++ t.name, (c != '\n') = true :=
    List.forall_mem_append.2 ⟨List.all_eq_true.1 (by decide +kernel), newline_of_qualified hname⟩
  obtain ⟨w, ws, hwords, hjoined⟩ := hname
  rw [htext, declared_newline, declared_line hline, hjoined, declared_dropping hwords, declared_newline]

/-! ## Migration scripts -/

/-- The table `u` has the name, the columns, the primary key and the statement of `t`. -/
structure Recreates (t u : Table) : Prop where
  name : u.name = t.name
  columns : u.columns = t.columns
  primaryKey : u.primaryKey = t.primaryKey
  statement : u.statement = t.statement

/-- The tables that a migration has to create: the first of each name among the new ones, without those whose
name an old one has. -/
def toCreate (old new : List Table) : List Table :=
  (new.eraseDupsBy fun t u => t.name.lowercase == u.name.lowercase).filter fun t =>
    !old.any fun u => u.name.lowercase == t.name.lowercase

theorem distinctFrom_eq (seen : List Text) (ts : List Table) : distinctFrom seen ts =
    (ts.filter fun t => !seen.contains (key t)).eraseDupsBy fun t u => key t == key u := by
  induction ts generalizing seen with
  | nil => rfl
  | cons t ts ih =>
    rw [distinctFrom, List.filter_cons]
    by_cases hseen : seen.contains (key t) = true
    · rw [if_pos hseen, if_neg (by simpa using hseen), ih]
    · rw [if_neg hseen, if_pos (by simpa using hseen), List.eraseDupsBy_cons, List.filter_filter, ih]
      congr 2
      refine List.filter_congr fun u _ => ?_
      by_cases hkey : key u = key t <;> simp [hkey]

theorem missing_eq (old new : List Table) : missing old new = toCreate old new := by
  have hdistinct : distinct new = new.eraseDupsBy fun t u => key t == key u := by
    rw [distinct, distinctFrom_eq, List.filter_eq_self.2 (by simp)]
  rw [missing, hdistinct]
  refine List.filter_congr fun t _ => ?_
  have hold : isAmong (distinct old) t = isAmong old t := by
    rw [Bool.eq_iff_iff, isAmong_iff, isAmong_iff, keys_distinct]
  rw [hold]
  rfl

/-- What is read of a migration is read of its steps. -/
theorem declared_render (m : Migration) : declared target m.render = declared target (m.steps.flatMap Step.block) := by
  have hhead : "-- Migration Script".toList = '-' :: '-' :: " Migration Script".toList := by decide +kernel
  have hversion : "-- Generated by sqlport 0.1.0".toList = '-' :: '-' :: " Generated by sqlport 0.1.0".toList := by
    decide +kernel
  rw [render_eq, hhead, hversion]
  exact (declared_line (List.all_eq_true.1 (by decide +kernel)) _).trans
    (declared_line (List.all_eq_true.1 (by decide +kernel)) _)

variable (target) in
/-- The tables of a script without quoted names, in whatever order they are created, are declared in this order. -/
theorem exists_declared_creating {dialect : Dialect} {script : Text} (hunquoted : Unquoted (scan script))
    {ts : List Table} (hts : ∀ t ∈ ts, t ∈ tables dialect script) (s : Text) :
    ∃ ds, List.Forall₂ Recreates ts ds ∧
      declared target ((ts.map Step.ofNew).flatMap Step.block ++ s) = ds ++ declared target s := by
  induction ts with
  | nil => exact ⟨[], .nil, rfl⟩
  | cons t ts ih =>
    obtain ⟨ht, hts⟩ := List.forall_mem_cons.1 hts
    obtain ⟨ds, hds, hrest⟩ := ih hts
    obtain ⟨d, run, hd, hcompletes⟩ := exists_run_of_mem ht
    have hname := (isWritten_of_mem_tables hunquoted ht).1.name
    refine ⟨{ d with dialect := target } :: ds, .cons ⟨?_, ?_, ?_, ?_⟩ hds, ?_⟩
    · exact hcompletes.name.symm
    · exact hcompletes.columns.symm
    · exact hcompletes.primaryKey.symm
    · exact hcompletes.statement.symm
    · rw [List.map_cons, List.flatMap_cons, List.append_assoc,
        declared_creating hd (hcompletes.statement.trans hd.statement) hname, hrest, List.cons_append]

theorem declared_removing_all {ts : List Table} (hts : ∀ t ∈ ts, IsQualifiedName t.name) :
    declared target ((ts.map Step.ofOld).flatMap Step.block) = [] := by
  induction ts with
  | nil => exact declared_nil
  | cons t ts ih =>
    obtain ⟨ht, hts⟩ := List.forall_mem_cons.1 hts
    rw [List.map_cons, List.flatMap_cons, declared_removing ht, ih hts]

theorem mem_of_mem_missing {old new : List Table} {t : Table} (h : t ∈ missing old new) : t ∈ new :=
  (distinct_sublist new).subset (List.mem_of_mem_filter h)

/-- A migration script declares the tables that it creates, and nothing else. Read in any dialect, the migration
from the tables of one script to those of another gives the tables of the second script, the first of each name,
whose names the first script does not have; neither comment lines nor `DROP` lines add or hide a table. -/
theorem tables_render {first second : Text} (hfirst : Unquoted (scan first)) (hsecond : Unquoted (scan second))
    (dialect dialect' target : Dialect) :
    List.Forall₂ Recreates (toCreate (tables dialect first) (tables dialect' second))
      (tables target (between (tables dialect first) (tables dialect' second)).render) := by
  have hmissing : ∀ t ∈ missing (tables dialect first) (tables dialect' second), t ∈ tables dialect' second :=
    fun t => mem_of_mem_missing
  obtain ⟨ds, hds, hcreating⟩ := exists_declared_creating target hsecond hmissing
    (((missing (tables dialect' second) (tables dialect first)).map Step.ofOld).flatMap Step.block)
  have hremoving : declared target
      (((missing (tables dialect' second) (tables dialect first)).map Step.ofOld).flatMap Step.block) = [] :=
    declared_removing_all fun t ht => (isWritten_of_mem_tables hfirst (mem_of_mem_missing ht)).1.name
  have hdeclared : declared target (between (tables dialect first) (tables dialect' second)).render = ds := by
    rw [declared_render, steps_between, List.flatMap_append, hcreating, hremoving, List.append_nil]
  have hcompletes := completes_tables target (between (tables dialect first) (tables dialect' second)).render
  rw [hdeclared] at hcompletes
  rw [← missing_eq]
  refine forall₂_trans (fun t d u ht hu => ?_) hds hcompletes
  exact ⟨hu.1.name.trans ht.name, hu.1.columns.trans ht.columns, hu.1.primaryKey.trans ht.primaryKey,
    hu.1.statement.trans ht.statement⟩

/-- Tables whose names are words of a statement: one is created from its text with a comment in it, one is kept
under another spelling, and one is dropped. -/
theorem tables_render_create :
    let first : Text := "CREATE TABLE s.create (x INT); CREATE TABLE kept (x INT)"
    let second : Text := "CREATE TABLE KEPT (y INT); CREATE TABLE index (id INT, -- ; CREATE TABLE no (x INT)\n name TEXT)"
    (Unquoted (scan first) ∧ Unquoted (scan second)) ∧
      (toCreate (tables .mysql first) (tables .oracle second)).map Table.name = ["index"] ∧
      List.Forall₂ Recreates (toCreate (tables .mysql first) (tables .oracle second))
        (tables .postgresql (between (tables .mysql first) (tables .oracle second)).render) := by
  intro first second
  have hfirst : Unquoted (scan first) := by decide +kernel
  have hsecond : Unquoted (scan second) := by decide +kernel
  exact ⟨⟨hfirst, hsecond⟩, by decide +kernel, tables_render hfirst hsecond .mysql .oracle .postgresql⟩

end DialectBridge.Migration
