import DialectBridge.Proofs.Migration.Rendered
import DialectBridge.Proofs.Schema.Attributes

/-!
# What a `DROP` line drops

A `DROP` line has the name of its table twice: in the comment in front of it and, without quotes, in the statement.
It drops the table of this name (`DropsTable`) exactly when the name consists of bare words with dots between them
(`dropsTable_iff`). A name loses its quotes when it is read, so a table that is declared under a quoted name which is
no such word is not dropped, and what its name holds is read as more of the statement (`drops_named`).
-/

namespace DialectBridge.Migration

open Token Reader Scan Script ColumnDefinition

/-- The tokens drop the table `n` and do nothing else: `DROP TABLE IF EXISTS`, one qualified name that is read as
`n`, `CASCADE` and a semicolon. The only comment is the line in front. -/
inductive DropsTable (n : Text) : List Token → Prop where
  | mk {head rest tail : List Token}
      (drop : head.map kind = [.keyword .drop, .keyword .table, .keyword .if, .keyword .exists])
      (name : name "table name" rest = .ok (n, tail))
      (cascade : tail.map kind = [.keyword .cascade, .semicolon, .eof])
      (comment : (head ++ rest).flatMap comments = ["-- Drop table: ".toList ++ n]) : DropsTable n (head ++ rest)

/-! ## Quotes in names -/

/-- A character that opens a quotation. -/
def isQuote (c : Char) : Bool :=
  c == '\x27' || c == '\x22' || c == '\x60'

theorem countP_doubled (p : Char → Bool) (q : Char) (t : Text) : t.countP p ≤ (doubled q t).countP p := by
  induction t with
  | nil => exact Nat.le_refl _
  | cons c t ih =>
    rw [doubled]
    split
    · next hc => simp only [hc, List.countP_cons]; omega
    · simpa only [List.countP_cons, Nat.add_le_add_iff_right] using ih

/-- A word has at least the quotes of its name, and more of them if it is a quotation. -/
theorem countP_isQuote_name {t : Token} {r w : Text} (ht : t.Fits r) (hw : t.name? = some w) :
    w.countP isQuote ≤ t.text.countP isQuote ∧ (t.text.countP isQuote ≤ w.countP isQuote → IsWord w) := by
  have hlexeme : t.lexeme.countP isQuote ≤ t.text.countP isQuote := by
    rw [text, List.countP_append]
    omega
  by_cases hquoted : ∀ n, t.kind ≠ .quoted n
  · obtain ⟨hword, heq, -⟩ := ht.word hquoted hw
    exact ⟨heq ▸ hlexeme, fun _ => hword⟩
  · obtain ⟨n, hn⟩ := not_forall_not.1 hquoted
    obtain rfl : n = w := by simpa [name?, hn] using hw
    obtain ⟨c, l, hl, htoken⟩ := ht.token_eq
    obtain ⟨hc, htext⟩ := token_quotes (c := c) (t := l ++ r) (v := n) (.inr (by rw [htoken, hn]))
    have hquote : isQuote c = true := by
      simp only [List.mem_cons, List.not_mem_nil, or_false] at hc
      rcases hc with rfl | rfl | rfl <;> decide
    have hmore : n.countP isQuote + 2 ≤ t.lexeme.countP isQuote := by
      have hdoubled := countP_doubled isQuote c n
      rw [hl, ← show (token c (l ++ r)).2.1 = c :: l by rw [htoken], htext]
      simp only [List.cons_append, List.countP_cons, List.countP_append, List.countP_nil, hquote, if_true]
      omega
    exact ⟨by omega, by omega⟩

/-- A name that is spelled with no more quotes than it has consists of words. -/
theorem countP_isQuote_spelled {ws : List Text} {us : List Token} (h : SpellsName ws us)
    (hfits : ∀ u ∈ us, ∃ r, u.Fits r) :
    (Text.joinWith "." ws).countP isQuote ≤ (textOf us).countP isQuote ∧
      ((textOf us).countP isQuote ≤ (Text.joinWith "." ws).countP isQuote → ∀ w ∈ ws, IsWord w) := by
  induction h with
  | @last t w hw =>
    obtain ⟨r, ht⟩ := hfits t List.mem_cons_self
    simpa [Text.joinWith] using countP_isQuote_name ht hw
  | @cons t dot w ws us hw _ hus ih =>
    obtain ⟨⟨r, ht⟩, hfits⟩ := List.forall_mem_cons.1 hfits
    obtain ⟨hle, hwords⟩ := ih (List.forall_mem_cons.1 hfits).2
    obtain ⟨hfirst, hword⟩ := countP_isQuote_name ht hw
    rw [Text.joinWith_cons _ _ hus.ne_nil, textOf_cons, textOf_cons, List.countP_append, List.countP_append,
      List.countP_append, List.countP_append, show ".".toList.countP isQuote = 0 by decide]
    refine ⟨by omega, fun hcount => List.forall_mem_cons.2 ⟨hword ?_, hwords ?_⟩⟩ <;> omega

/-! ## The tokens of a `DROP` line -/

theorem render_drop_eq (n : Text) : (Step.drop n).render = '-' :: '-' :: ((" Drop table: ".toList ++ n) ++ '\n' ::
    ("DROP TABLE IF EXISTS".toList ++ (" ".toList ++ n ++ " CASCADE;".toList))) := by
  have hstart : "-- Drop table: ".toList = '-' :: '-' :: " Drop table: ".toList := by decide +kernel
  have hdrop : "\nDROP TABLE IF EXISTS ".toList = '\n' :: ("DROP TABLE IF EXISTS".toList ++ " ".toList) := by
    decide +kernel
  rw [render_drop, hstart, hdrop]
  simp

/-- The comment in front of a text is the first one of its tokens. -/
theorem exists_comments_scan {t rest x : Text} (h : trivia? t = some (.comment x, rest)) :
    ∃ more, (scan t).flatMap comments = x :: more := by
  obtain ⟨u, us, hscan, hgap⟩ : ∃ u us, scan t = u :: us ∧ u.gap = .comment x :: (gap rest).1 := by
    rcases hrest : gap rest with ⟨g, _ | ⟨c, r⟩⟩
    · exact ⟨_, _, scan_of_gap_nil (by rw [gap_of_trivia h, hrest]), rfl⟩
    · exact ⟨_, _, scan_of_gap_cons (by rw [gap_of_trivia h, hrest]), rfl⟩
  have hfirst : u.comments = x :: comments { u with gap := (gap rest).1 } := by
    rw [comments, hgap]
    rfl
  exact ⟨_, by rw [hscan, List.flatMap_cons, hfirst, List.cons_append]⟩

/-- A comment line and a text behind it that starts with no gap. -/
theorem gap_commentLine {u s : Text} (hu : ∀ c ∈ u, (c != '\n') = true) (hs : gap s = ([], s))
    (hblank : s.head?.any isBlank = false) :
    gap ('-' :: '-' :: (u ++ '\n' :: s)) = ([.comment ('-' :: '-' :: u), .blank ['\n']], s) := by
  have hstop : ('\n' :: s).head?.any (· != '\n') = false := rfl
  have hline : trivia? ('-' :: '-' :: (u ++ '\n' :: s)) = some (.comment ('-' :: '-' :: u), '\n' :: s) := by
    rw [trivia?.eq_def]
    simp only [Text.takeWhile_run hu hstop, Text.dropWhile_run hu hstop]
  have hbreak : trivia? ('\n' :: s) = some (.blank ['\n'], s) := by
    have hnone : ∀ c ∈ ([] : Text), isBlank c = true := by simp
    have hrun := Text.takeWhile_run hnone hblank
    have hrest := Text.dropWhile_run hnone hblank
    rw [List.nil_append] at hrun hrest
    rw [trivia?_blank (by decide), hrun, hrest]
  rw [gap_of_trivia hline, gap_of_trivia hbreak, hs]

/-- The tokens in front of the name. -/
def dropHead : List Token :=
  [ofKeyword [] .drop, ofKeyword blankGap .table, ofKeyword blankGap .if, ofKeyword blankGap .exists]

theorem textOf_dropHead : textOf dropHead = "DROP TABLE IF EXISTS".toList := by
  decide +kernel

theorem chain_dropHead : Chain dropHead := by
  have hexists : Chain [ofKeyword blankGap .exists] := chain_ofKeyword isSpace_blankGap .exists .nil .nil
  have hguard := chain_ofKeyword isSpace_blankGap .if hexists (startsWithBreak_blankGap rfl [])
  have htable := chain_ofKeyword isSpace_blankGap .table hguard (startsWithBreak_blankGap rfl _)
  exact chain_ofKeyword .none .drop htable (startsWithBreak_blankGap rfl _)

/-- If no line ends in the name, then the line in front is a comment, and the statement follows it. -/
theorem scan_render_drop {n : Text} (hn : ∀ c ∈ n, (c != '\n') = true) :
    scan (Step.drop n).render = withGap [.comment ("-- Drop table: ".toList ++ n), .blank ['\n']]
      (dropHead ++ scan (" ".toList ++ n ++ " CASCADE;".toList)) := by
  have hline : ∀ c ∈ " Drop table: ".toList ++ n, (c != '\n') = true :=
    List.forall_mem_append.2 ⟨List.all_eq_true.1 (by decide +kernel), hn⟩
  have hstart : "-- Drop table: ".toList ++ n = '-' :: '-' :: (" Drop table: ".toList ++ n) := by
    rw [show "-- Drop table: ".toList = '-' :: '-' :: " Drop table: ".toList by decide +kernel]
    rfl
  have hbreak : StartsWithBreak (" ".toList ++ n ++ " CASCADE;".toList) := .cons (by decide) _
  rw [render_drop_eq, ← scan_chain_append chain_dropHead hbreak, textOf_dropHead, hstart]
  generalize " ".toList ++ n ++ " CASCADE;".toList = s
  have hdrop : "DROP TABLE IF EXISTS".toList ++ s = 'D' :: ("ROP TABLE IF EXISTS".toList ++ s) := by
    rw [show "DROP TABLE IF EXISTS".toList = 'D' :: "ROP TABLE IF EXISTS".toList by decide +kernel]
    rfl
  have hnone : trivia? ("DROP TABLE IF EXISTS".toList ++ s) = none := by
    rw [hdrop]
    exact trivia?_eq_none_iff.2 ⟨by decide, by simp, by simp⟩
  have hgap := gap_of_none hnone
  have hblank : ("DROP TABLE IF EXISTS".toList ++ s).head?.any isBlank = false := by
    rw [hdrop]
    rfl
  have hboth := gap_commentLine hline hgap hblank
  rw [scan_withGap (s := "DROP TABLE IF EXISTS".toList ++ s) (by rw [hboth, hgap]), hboth]

/-- No comment stands in a name that is written. -/
theorem comments_qualifiedTokens (w : Text) (ws : List Text) :
    (qualifiedTokens blankGap w ws).flatMap comments = [] := by
  refine List.flatMap_eq_nil_iff.2 (List.forall_mem_cons.2 ⟨rfl, fun t ht => ?_⟩)
  obtain ⟨v, -, ht⟩ := List.mem_flatMap.1 ht
  simp only [List.mem_cons, List.not_mem_nil, or_false] at ht
  rcases ht with rfl | rfl <;> rfl

/-! ## Which names are dropped -/

/-- A name without quotation is dropped. -/
theorem dropsTable_of_qualified {n : Text} (h : IsQualifiedName n) : DropsTable n (scan (Step.drop n).render) := by
  rw [scan_render_drop (newline_of_qualified h)]
  obtain ⟨w, ws, hwords, rfl⟩ := h
  let name := qualifiedTokens blankGap w ws
  let tail := [ofKeyword blankGap .cascade, ofSign [] ';', ⟨[], .eof, []⟩]
  have htext : " ".toList ++ Text.joinWith "." (w :: ws) ++ " CASCADE;".toList =
      textOf (name ++ [ofKeyword blankGap .cascade]) ++ [';'] := by
    rw [textOf_append, textOf_qualifiedTokens, textOf_blankGap,
      show " CASCADE;".toList = textOf [ofKeyword blankGap .cascade] ++ [';'] by decide +kernel]
    simp
  have hchain : Chain (name ++ [ofKeyword blankGap .cascade]) := by
    have hend : Chain [ofKeyword blankGap .cascade] := chain_ofKeyword isSpace_blankGap .cascade .nil .nil
    exact chain_qualifiedTokens isSpace_blankGap hwords hend (startsWithBreak_blankGap rfl [])
  have hsemicolon : scan [';'] = [ofSign [] ';', ⟨[], .eof, []⟩] := by
    rw [scan_of_gap_cons (gap_of_none rfl)]
    exact congrArg _ (scan_of_gap_nil (gap_of_none rfl))
  have hscan : scan (" ".toList ++ Text.joinWith "." (w :: ws) ++ " CASCADE;".toList) = name ++ tail := by
    rw [htext, scan_chain_append hchain (.cons (by decide) []), hsemicolon, List.append_assoc]
    rfl
  have hcomments : (name ++ tail).flatMap comments = [] := by
    rw [List.flatMap_append, comments_qualifiedTokens]
    rfl
  rw [hscan]
  refine @DropsTable.mk _ (withGap [.comment ("-- Drop table: ".toList ++ Text.joinWith "." (w :: ws)), .blank ['\n']]
    dropHead) _ _ rfl (name_qualifiedTokens _ blankGap w ws (by simp [ofKeyword]) _) rfl ?_
  rw [List.flatMap_append, hcomments]
  rfl

/-- A name that is dropped has no line break, for the comment in front ends with the line. -/
theorem newline_of_dropsTable {n : Text} (h : DropsTable n (scan (Step.drop n).render)) :
    ∀ c ∈ n, (c != '\n') = true := by
  generalize hts : scan (Step.drop n).render = ts at h
  obtain @⟨head, rest, tail, -, -, -, hcomment⟩ := h
  rw [← hts, render_drop_eq] at hcomment
  generalize "DROP TABLE IF EXISTS".toList ++ (" ".toList ++ n ++ " CASCADE;".toList) = s at hcomment
  obtain ⟨more, hfirst⟩ := exists_comments_scan
    (show trivia? ('-' :: '-' :: (" Drop table: ".toList ++ n ++ '\n' :: s)) = some (.comment _, _) from rfl)
  rw [hfirst, show "-- Drop table: ".toList = '-' :: '-' :: " Drop table: ".toList by decide +kernel] at hcomment
  have hline := (List.cons.inj (List.cons.inj (List.cons.inj hcomment).1).2).2
  have hall := Text.forall_mem_takeWhile (· != '\n') (" Drop table: ".toList ++ n ++ '\n' :: s)
  rw [hline] at hall
  exact (List.forall_mem_append.1 hall).2

/-- A `DROP` line drops the table that it names exactly when the name consists of words with dots between them. -/
theorem dropsTable_iff {n : Text} : DropsTable n (scan (Step.drop n).render) ↔ IsQualifiedName n := by
  refine ⟨fun h => ?_, dropsTable_of_qualified⟩
  have hn := newline_of_dropsTable h
  rw [scan_render_drop hn] at h
  generalize hafter : scan (" ".toList ++ n ++ " CASCADE;".toList) = after at h
  generalize hts : withGap [.comment ("-- Drop table: ".toList ++ n), .blank ['\n']] (dropHead ++ after) = ts at h
  obtain @⟨head, rest, tail, hdrop, hname, -, -⟩ := h
  obtain rfl : after = rest := by
    have hlength : head.length = 4 := by simpa using congrArg List.length hdrop
    have happend : withGap [.comment ("-- Drop table: ".toList ++ n), .blank ['\n']] dropHead ++ after =
        head ++ rest := hts
    exact (List.append_inj happend hlength.symm).2
  obtain ⟨ws, us, rfl, hws, hjoin⟩ := exists_spellsName hname
  -- the text of these tokens has no more quotes than the name itself
  have htext : textOf us ++ textOf tail = " ".toList ++ n ++ " CASCADE;".toList := by
    rw [← textOf_append, ← hafter, textOf_scan]
  have hcount : (textOf us).countP isQuote ≤ n.countP isQuote := by
    have hboth := congrArg (List.countP isQuote) htext
    rw [List.countP_append, List.countP_append, List.countP_append, show " ".toList.countP isQuote = 0 by decide,
      show " CASCADE;".toList.countP isQuote = 0 by decide] at hboth
    omega
  have hfits : ∀ u ∈ us, ∃ r, u.Fits r := fun u hu =>
    Fits.of_mem_scan (hafter ▸ List.mem_append_left tail hu) (hws.kind_ne_eof u hu)
  have hwords := (countP_isQuote_spelled hws hfits).2 (hjoin ▸ hcount)
  rw [hjoin, isQualifiedName_joinWith hws.ne_nil]
  exact fun w hw => (hwords w hw).isQualifiedName

/-! ## The names of a script -/

/-- The name between the quotes of a quoted name. -/
def quotedName? (t : Token) : Option Text :=
  match t.kind with
  | .quoted n => some n
  | _ => none

/-- A bare word needs no quotes. -/
theorem isQualifiedName_token {t : Token} {r w : Text} (ht : t.Fits r) (hw : t.name? = some w) :
    IsQualifiedName w ↔ ∀ n ∈ quotedName? t, IsQualifiedName n := by
  by_cases hquoted : ∀ n, t.kind ≠ .quoted n
  · have hnone : quotedName? t = none := by
      unfold quotedName?
      split
      · next heq => exact absurd heq (hquoted _)
      · rfl
    exact iff_of_true (ht.word hquoted hw).1.isQualifiedName (by simp [hnone])
  · obtain ⟨n, hn⟩ := not_forall_not.1 hquoted
    obtain rfl : n = w := by simpa [name?, hn] using hw
    simp [quotedName?, hn]

theorem isQualifiedName_spelled {ws : List Text} {us : List Token} (h : SpellsName ws us)
    (hfits : ∀ u ∈ us, ∃ r, u.Fits r) :
    IsQualifiedName (Text.joinWith "." ws) ↔ ∀ u ∈ us, ∀ n ∈ quotedName? u, IsQualifiedName n := by
  rw [isQualifiedName_joinWith h.ne_nil]
  induction h with
  | @last t w hw =>
    obtain ⟨r, ht⟩ := hfits t List.mem_cons_self
    rw [List.forall_mem_singleton, List.forall_mem_singleton]
    exact isQualifiedName_token ht hw
  | @cons t dot w ws us hw hdot _ ih =>
    obtain ⟨⟨r, ht⟩, hfits⟩ := List.forall_mem_cons.1 hfits
    have hnone : quotedName? dot = none := by simp [quotedName?, hdot]
    rw [List.forall_mem_cons, List.forall_mem_cons, List.forall_mem_cons, isQualifiedName_token ht hw,
      ih (List.forall_mem_cons.1 hfits).2, hnone]
    simp

theorem steps_between_nil (t : Table) : (between [t] []).steps = [.drop t.name] := rfl

/-- The statement that drops a table of a script names this table and does nothing else, exactly when each quoted
word of the name that the script declares it under consists of bare words with dots between them. -/
theorem drops_named (dialect : Dialect) (script : Text) {t : Table} (ht : t ∈ tables dialect script) :
    ∃ ws us, us <:+: scan script ∧ SpellsName ws us ∧ t.name = Text.joinWith "." ws ∧
      (between [t] []).steps = [.drop t.name] ∧
      (DropsTable t.name (scan (Step.drop t.name).render) ↔ ∀ u ∈ us, ∀ n ∈ quotedName? u, IsQualifiedName n) := by
  obtain ⟨ts, rest, hsuffix, hname⟩ := exists_name_of_mem ht
  obtain ⟨ws, us, rfl, hws, hjoin⟩ := exists_spellsName hname
  have hpart : us <:+: scan script := (List.prefix_append us rest).isInfix.trans hsuffix.isInfix
  have hfits : ∀ u ∈ us, ∃ r, u.Fits r := fun u hu => Fits.of_mem_scan (hpart.subset hu) (hws.kind_ne_eof u hu)
  refine ⟨ws, us, hpart, hws, hjoin, steps_between_nil t, dropsTable_iff.trans ?_⟩
  rw [hjoin]
  exact isQualifiedName_spelled hws hfits

/-- Quotes that are not needed do no harm. -/
theorem drops_named_quoted : ∃ t ∈ tables .mysql "CREATE TABLE app.`users` (id INT)",
    t.name = "app.users".toList ∧ DropsTable t.name (scan (Step.drop t.name).render) := by
  have hnames : (tables .mysql "CREATE TABLE app.`users` (id INT)").map Table.name = ["app.users".toList] := by
    decide +kernel
  obtain ⟨t, ht, hname⟩ := List.mem_map.1 (hnames ▸ List.mem_singleton_self "app.users".toList)
  obtain ⟨ws, us, hpart, -, -, -, hdrops⟩ := drops_named .mysql "CREATE TABLE app.`users` (id INT)" ht
  have hquoted : ∀ u ∈ scan "CREATE TABLE app.`users` (id INT)", ∀ n ∈ quotedName? u, IsQualifiedName n := by
    decide +kernel
  exact ⟨t, ht, hname, hdrops.2 fun u hu => hquoted u (hpart.subset hu)⟩

/-- A name with a semicolon in its quotes: the statement drops another table. -/
theorem drops_another : ∃ t ∈ tables .postgresql "CREATE TABLE \"a; DROP TABLE b\" (id INT)",
    (between [t] []).steps = [.drop t.name] ∧ ¬DropsTable t.name (scan (Step.drop t.name).render) := by
  have hnames : (tables .postgresql "CREATE TABLE \"a; DROP TABLE b\" (id INT)").map Table.name =
      ["a; DROP TABLE b".toList] := by
    decide +kernel
  obtain ⟨t, ht, hname⟩ := List.mem_map.1 (hnames ▸ List.mem_singleton_self "a; DROP TABLE b".toList)
  refine ⟨t, ht, steps_between_nil t, ?_⟩
  rw [hname, dropsTable_iff]
  decide +kernel

end DialectBridge.Migration
