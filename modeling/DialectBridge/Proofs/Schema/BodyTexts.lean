import DialectBridge.Proofs.Lexical.Insertion
import DialectBridge.Proofs.Schema.Bodies
import DialectBridge.Proofs.Spacing.Trim

/-!
# Table definitions as texts

A fragment is a text that may stand between two commas of a body: its quotations and groups are closed, and it has
neither a comment nor a comma of its own (`IsFragment`). It has the same tokens wherever it stands, so a body that is
put together from fragments has them as its pieces (`exists_isBody`), whatever text opens the definition in front of it
(`OpensTable.exists_run`). Whitespace around a fragment means nothing (`declarationIn_trim`).
-/

namespace DialectBridge

open Token Reader Scan

/-! ## The gap in front of a fragment -/

namespace Fragment

theorem declarationOf?_of_column {us : List Token} (h : isConstraint us = false) :
    declarationOf? us = (ColumnDefinition.read us).toOption.map .column := by
  rw [declarationOf?, declaration?, read]
  simp only [h, Bool.false_eq_true, if_false]
  cases ColumnDefinition.read us <;> rfl

theorem declarationOf?_of_constraint {us : List Token} (h : isConstraint us = true) :
    declarationOf? us = (Constraint.read us).toOption.map fun p => .constraint p.1 := by
  rw [declarationOf?, declaration?, read]
  simp only [h, if_true]
  cases Constraint.read us <;> rfl

/-- A constraint starts with a keyword. -/
theorem exists_keyword_of_isConstraint {us : List Token} (h : isConstraint us = true) :
    ∃ g k l ts, us = ⟨g, .keyword k, l⟩ :: ts := by
  cases us with
  | nil => cases h
  | cons t ts =>
    obtain ⟨g, kind, l⟩ := t
    cases kind with
    | keyword k => exact ⟨g, k, l, ts, rfl⟩
    | _ => cases h

theorem isConstraint_withGap (g : List Trivia) (us : List Token) : isConstraint (withGap g us) = isConstraint us := by
  cases us <;> rfl

/-- The gap in front of a fragment means nothing. -/
theorem declarationOf?_withGap (g : List Trivia) (us : List Token) :
    declarationOf? (withGap g us) = declarationOf? us := by
  cases h : isConstraint us with
  | false =>
    rw [declarationOf?_of_column h, declarationOf?_of_column ((isConstraint_withGap g us).trans h)]
    cases us with
    | nil => rfl
    | cons t ts =>
      have hname : ({ t with gap := g } : Token).name? = t.name? := rfl
      cases hw : t.name? <;>
        simp [withGap, ColumnDefinition.read, word, hname, hw, Bind.bind, Except.bind, Except.toOption]
  | true =>
    rw [declarationOf?_of_constraint h, declarationOf?_of_constraint ((isConstraint_withGap g us).trans h)]
    obtain ⟨g', k, l, ts, rfl⟩ := exists_keyword_of_isConstraint h
    -- each reader of a constraint passes this keyword or stops at it, without a look at its gap
    cases k <;> rfl

end Fragment

/-! ## Fragments -/

/-- The text can stand between two commas of a body: no quotation is left open, there is no comment, its groups
close, and no comma stands outside of them. -/
structure IsFragment (p : Text) : Prop where
  quotes : ∀ t ∈ scan p, ∀ cause, t.kind ≠ .error cause
  comments : ∀ t ∈ scan p, t.comments = []
  flat : isFlat isComma 0 (scan p).dropLast = true

/-- Open quotations are told by their kind alone. -/
instance (p : Text) : Decidable (IsFragment p) :=
  decidable_of_iff ((∀ t ∈ scan p, (TokenKind.error .unterminatedName).sameKind t.kind = false) ∧
      (∀ t ∈ scan p, t.comments = []) ∧ isFlat isComma 0 (scan p).dropLast = true) <| by
    have hquotes : (∀ t ∈ scan p, (TokenKind.error .unterminatedName).sameKind t.kind = false) ↔
        ∀ t ∈ scan p, ∀ cause, t.kind ≠ .error cause := by
      refine forall₂_congr fun t _ => ?_
      cases t.kind <;> simp [TokenKind.sameKind, TokenKind.ctorIdx]
    rw [hquotes]
    exact ⟨fun ⟨a, b, c⟩ => ⟨a, b, c⟩, fun ⟨a, b, c⟩ => ⟨a, b, c⟩⟩

/-- What a fragment declares. -/
def declarationIn (p : Text) : Option Declaration :=
  Fragment.declarationOf? (scan p).dropLast

/-- A fragment is a constraint and no column. -/
def isConstraintIn (p : Text) : Bool :=
  Fragment.isConstraint (scan p).dropLast

theorem IsFragment.exists_tokens {p : Text} (hp : IsFragment p) : ∃ us g, scan p = us ++ [⟨g, .eof, []⟩] ∧
    (∀ u ∈ us, u.kind ≠ .eof) ∧ (scan p).dropLast = us := by
  obtain ⟨us, g, hscan, heof, -, -⟩ := exists_scan_append hp.quotes .nil
  exact ⟨us, g, hscan, heof, by rw [hscan, List.dropLast_concat]⟩

/-- What ends alike differs in its last token alone. -/
theorem dropLast_eq_of_endsAlike {ts us : List Token} (h : List.Forall₂ EndsAlike ts us)
    (hts : ∀ t ∈ ts.dropLast, t.kind ≠ .eof ∧ ∀ cause, t.kind ≠ .error cause) :
    us.dropLast = ts.dropLast := by
  have hinit := List.forall₂_take (ts.length - 1) h
  rw [List.dropLast_eq_take] at hts ⊢
  rw [List.dropLast_eq_take, ← h.length_eq]
  generalize ts.take (ts.length - 1) = vs at hinit hts
  generalize us.take (ts.length - 1) = ws at hinit
  induction hinit with
  | nil => rfl
  | cons htu _ ih =>
    obtain ⟨ht, hts⟩ := List.forall_mem_cons.1 hts
    rw [htu.same ht.1 ht.2, ih hts]

/-- The tokens of a fragment are the same without the whitespace around it, but for the gap in front of them. -/
theorem exists_scan_trim {p : Text} (hp : IsFragment p) :
    ∃ g, (scan p.trim).dropLast = withGap g (scan p).dropLast := by
  obtain ⟨g, hstart⟩ := exists_scan_withGap (gap_dropWhile_blank p)
  have hinit : (scan p.trimStart).dropLast = withGap g (scan p).dropLast := by
    rw [Text.trimStart, hstart]
    rcases scan p with _ | ⟨t, _ | ⟨u, us⟩⟩ <;> rfl
  obtain ⟨us, e, hscan, heof, hus⟩ := hp.exists_tokens
  refine ⟨g, (dropLast_eq_of_endsAlike (scan_trimEnd p.trimStart) ?_).trans hinit⟩
  rw [hinit, hus]
  have hclosed : ∀ u ∈ us, u.kind ≠ .eof ∧ ∀ cause, u.kind ≠ .error cause := fun u hu =>
    ⟨heof u hu, hp.quotes u (by rw [hscan]; exact List.mem_append_left _ hu)⟩
  cases us with
  | nil => simp [withGap]
  | cons u us => exact List.forall_mem_cons.2 (List.forall_mem_cons.1 hclosed)

theorem declarationIn_trim {p : Text} (hp : IsFragment p) : declarationIn p.trim = declarationIn p := by
  obtain ⟨g, hscan⟩ := exists_scan_trim hp
  rw [declarationIn, hscan, Fragment.declarationOf?_withGap, declarationIn]

/-! ## Bodies -/

/-- A gap without comments is whitespace. -/
theorem isSpace_of_comments {g : List Trivia} {k : TokenKind} {l : Text} (hg : gap (Trivia.textOf g) = (g, []))
    (hcomments : comments ⟨g, k, l⟩ = []) : IsSpace g := by
  have hblank {x : Trivia} (hx : x ∈ g) : ∃ b, x = .blank b := by
    cases x with
    | blank b => exact ⟨b, rfl⟩
    | comment c =>
      have hnone := List.filterMap_eq_nil_iff.1 hcomments _ hx
      cases hnone
  cases g with
  | nil => exact .none
  | cons x g =>
    obtain ⟨b, rfl⟩ := hblank List.mem_cons_self
    obtain ⟨rest, htrivia, hrest⟩ := trivia?_of_gap_cons hg
    obtain ⟨hb, hstop⟩ := blank_of_trivia? htrivia
    -- behind a run of whitespace stands no other one
    obtain rfl : g = [] := by
      cases g with
      | nil => rfl
      | cons y g =>
        obtain ⟨d, rfl⟩ := hblank (List.mem_cons_of_mem _ List.mem_cons_self)
        obtain ⟨more, hmore, -⟩ := trivia?_of_gap_cons hrest
        rcases trivia?_cases hmore with ⟨u, -, heq, -⟩ | ⟨u, -, heq, -⟩ | ⟨c, u, rfl, hc, -, -⟩
        · cases heq
        · cases heq
        · rw [List.head?_cons, Option.any_some, hc] at hstop
          cases hstop
    exact .some (trivia?_text_ne_nil htrivia) hb

/-- A fragment has the same tokens in front of every sign that may follow it. -/
theorem IsFragment.exists_scan_append {p : Text} (hp : IsFragment p) {c : Char} (hc : c = ')' ∨ c = ',') (s : Text) :
    ∃ g, Level (scan p).dropLast ∧ scan (p ++ c :: s) = (scan p).dropLast ++ ofSign g c :: scan s := by
  have hbreak : c ∈ breaks := by rcases hc with rfl | rfl <;> decide
  have hsign : c ∈ ['(', ')', ',', ';', '.'] := by rcases hc with rfl | rfl <;> decide
  obtain ⟨us, g, hscan, heof, hg, happend⟩ := DialectBridge.exists_scan_append hp.quotes (.cons hbreak s)
  have hus : (scan p).dropLast = us := by rw [hscan, List.dropLast_concat]
  have hspace : IsSpace g := isSpace_of_comments hg (hp.comments ⟨g, .eof, []⟩ (by simp [hscan]))
  have hfits : (ofSign g c).Fits s := (fits_ofSign hsign s).space hspace
  have hend : scan (Trivia.textOf g ++ c :: s) = ofSign g c :: scan s := by
    rw [← scan_of_fits hfits, text_ofSign, List.append_assoc]
    rfl
  have hflat := hp.flat
  rw [hus] at hflat ⊢
  exact ⟨g, level_of_isFlat heof hflat, by rw [happend, hend]⟩

/-- Fragments with commas between them and a parenthesis behind them are the pieces of a body. -/
theorem exists_isBody {ps : List Text} (hne : ps ≠ []) (hps : ∀ p ∈ ps, IsFragment p) (s : Text) :
    ∃ pieces, IsBody pieces ∧ pieces.map Piece.tokens = ps.map (fun p => (scan p).dropLast) ∧
      scan (Text.joinWith "," ps ++ ')' :: s) = pieces.flatMap Piece.all ++ scan s := by
  induction ps with
  | nil => exact absurd rfl hne
  | cons p ps ih =>
    obtain ⟨hp, hps⟩ := List.forall_mem_cons.1 hps
    by_cases hmore : ps = []
    · obtain ⟨g, hlevel, hscan⟩ := hp.exists_scan_append (.inl rfl) s
      refine ⟨[⟨_, ofSign g ')'⟩], .last hlevel rfl, by simp [hmore], ?_⟩
      simpa [hmore, Text.joinWith, Piece.all] using hscan
    · obtain ⟨pieces, hbody, htokens, hrest⟩ := ih hmore hps
      obtain ⟨g, hlevel, hscan⟩ := hp.exists_scan_append (.inr rfl) (Text.joinWith "," ps ++ ')' :: s)
      have htext : Text.joinWith "," (p :: ps) ++ ')' :: s = p ++ ',' :: (Text.joinWith "," ps ++ ')' :: s) := by
        rw [Text.joinWith_cons _ _ hmore, show ",".toList = [','] by decide]
        simp
      refine ⟨⟨_, ofSign g ','⟩ :: pieces, .cons hlevel rfl hbody, by simp [htokens], ?_⟩
      rw [htext, hscan, hrest]
      simp [Piece.all]

/-- What the pieces of a body declare is what its fragments declare. -/
theorem declarationsOf_eq {pieces : List Piece} {ps : List Text}
    (h : pieces.map Piece.tokens = ps.map fun p => (scan p).dropLast) :
    declarationsOf pieces = ps.filterMap declarationIn := by
  have hboth := congrArg (List.filterMap Fragment.declarationOf?) h
  rwa [List.filterMap_map, List.filterMap_map] at hboth

/-! ## Definitions -/

/-- The text goes up to the parenthesis that opens the body of a table definition, which stands at the start of the
script or behind a semicolon. -/
inductive OpensTable (name opening : Text) : Prop where
  | mk {front head : List Token} {create o : Token} {ws : List Text} (start : IsStatementStart front)
      (isCreate : create.kind = .keyword .create) (isHead : Finding.SpellsHead ws head)
      (isName : Text.joinWith "." ws = name) (opens : o.kind = .leftParen)
      (tokens : scan opening = front ++ (create :: (head ++ [o])) ++ [⟨[], .eof, []⟩]) : OpensTable name opening

/-- The script with these fragments as the body of the table definition that is opened, and any text behind it. -/
def withBody (opening : Text) (ps : List Text) (back : Text) : Text :=
  opening ++ (Text.joinWith "," ps ++ ')' :: back)

/-- An opening parenthesis is one in front of every text. -/
theorem Token.Fits.of_leftParen {t : Token} {r : Text} (h : t.Fits r) (ht : t.kind = .leftParen) :
    t.lexeme = ['('] ∧ ∀ s, t.Fits s := by
  obtain ⟨c, l, hl, htoken⟩ := h.token_eq
  obtain ⟨hc, hsingle⟩ := token_of_sign (c := c) (t := l ++ r) (.inl (by rw [htoken, ht]))
  obtain rfl : l = [] := by simpa [htoken] using hsingle
  obtain rfl : c = '(' := by
    refine hc.resolve_right ?_
    rintro rfl
    have hkind : TokenKind.comma = t.kind := congrArg Prod.fst htoken
    rw [ht] at hkind
    cases hkind
  refine ⟨hl, fun s => h.replace hl (trivia?_eq_none_iff.2 ⟨by decide, by simp, by simp⟩) ?_⟩
  rw [ht]
  rfl

/-- A text that ends with a parenthesis has the same tokens in front of every text. -/
theorem scan_append_of_leftParen {t : Text} {us : List Token} {o : Token} (ho : o.kind = .leftParen)
    (h : scan t = us ++ [o] ++ [⟨[], .eof, []⟩]) (s : Text) : scan (t ++ s) = us ++ o :: scan s := by
  induction t using scan_induction generalizing us with
  | gap g hg =>
    rw [scan_of_gap_nil hg] at h
    have hlength := congrArg List.length h
    simp at hlength
  | token u rest hu ih =>
    rw [scan_of_fits hu] at h
    cases us with
    | nil =>
      obtain ⟨rfl, hrest⟩ := List.cons.inj h
      obtain rfl : rest = [] := by rw [← textOf_scan rest, hrest]; rfl
      rw [List.append_nil, scan_of_fits ((hu.of_leftParen ho).2 s)]
      rfl
    | cons v us =>
      obtain ⟨rfl, hrest⟩ := List.cons.inj h
      have htext : rest = textOf us ++ o.gapText ++ o.lexeme := by
        rw [← textOf_scan rest, hrest]
        simp [text, gapText]
      have hmem : o ∈ scan rest := by simp [hrest]
      obtain ⟨r, hfits⟩ := Fits.of_mem_scan hmem (by simp [ho])
      rw [(hfits.of_leftParen ho).1] at htext
      have hclosed : ∀ cause, u.kind ≠ .error cause := fun cause hkind => by
        rw [hu.rest_eq_nil hkind] at htext
        simp at htext
      -- the text behind this token is the parenthesis alone, or it has two characters and more
      have hmore : u.Fits (rest ++ s) := by
        rcases hfront : textOf us ++ o.gapText with _ | ⟨c, front⟩
        · rw [htext, hfront]
          exact hu.of_break hclosed (.cons (by decide) s)
        · refine hu.alike (.of_append _ ?_ s)
          rw [htext, hfront]
          simp
      rw [List.append_assoc, scan_of_fits hmore, ih hrest, List.cons_append]

/-- A body behind its opening is a table definition with the fragments as its pieces. -/
theorem OpensTable.exists_run {name opening : Text} (h : OpensTable name opening) :
    ∃ front, IsStatementStart front ∧ ∀ ps : List Text, (∀ p ∈ ps, IsFragment p) → ∀ back : Text,
      ∃ pieces run, SpellsTable name pieces run ∧ declarationsOf pieces = ps.filterMap declarationIn ∧
        scan (withBody opening ps back) = front ++ (run ++ scan back) := by
  obtain @⟨front, head, create, o, ws, hstart, hcreate, hhead, rfl, ho, hscan⟩ := h
  refine ⟨front, hstart, fun ps hps back => ?_⟩
  obtain ⟨pieces, hbody, htokens, hrest⟩ : ∃ pieces, IsBody pieces ∧
      declarationsOf pieces = ps.filterMap declarationIn ∧
      scan (Text.joinWith "," ps ++ ')' :: back) = pieces.flatMap Piece.all ++ scan back := by
    by_cases hne : ps = []
    · -- nothing between the parentheses is an empty fragment
      subst hne
      obtain ⟨pieces, hbody, htokens, hrest⟩ := exists_isBody (List.cons_ne_nil [] []) (by decide +kernel) back
      exact ⟨pieces, hbody, (declarationsOf_eq htokens).trans (by decide +kernel), hrest⟩
    · obtain ⟨pieces, hbody, htokens, hrest⟩ := exists_isBody hne hps back
      exact ⟨pieces, hbody, declarationsOf_eq htokens, hrest⟩
  refine ⟨pieces, _, .mk hcreate hhead rfl ho hbody, htokens, ?_⟩
  have hfront : scan opening = (front ++ create :: head) ++ [o] ++ [⟨[], .eof, []⟩] := by
    rw [hscan]
    simp
  rw [withBody, scan_append_of_leftParen ho hfront, hrest]
  simp

/-- Scripts that differ in the body of one table definition alone declare the same tables in front of it and behind
it, and the same indexes. -/
theorem OpensTable.exists_declared {name opening : Text} (h : OpensTable name opening) (dialect : Dialect)
    (back : Text) : ∃ ds es is, ∀ ps : List Text, (∀ p ∈ ps, IsFragment p) → ∃ statement,
      Script.declared dialect (withBody opening ps back) =
        ds ++ .ofDeclarations name statement dialect (ps.filterMap declarationIn) :: es ∧
      Script.declaredIndexes dialect (withBody opening ps back) = is := by
  obtain ⟨front, hfront, hbodies⟩ := h.exists_run
  obtain ⟨ds, is, hdeclares⟩ := Script.exists_declarations_front hfront dialect
  refine ⟨ds, (Script.findings dialect (scan back)).filterMap Script.table?,
    is ++ (Script.findings dialect (scan back)).filterMap Script.index?, fun ps hps => ?_⟩
  obtain ⟨pieces, run, hrun, hpieces, hscan⟩ := hbodies ps hps back
  obtain ⟨statement, fragments, hfindings⟩ := hrun.findings_append dialect (scan back)
  refine ⟨statement, ?_, ?_⟩
  · rw [Script.declared, hscan, (hdeclares _).1, hfindings, hpieces]
    rfl
  · rw [Script.declaredIndexes, hscan, (hdeclares _).2, hfindings]
    rfl

end DialectBridge
