import DialectBridge.Proofs.Rename.Shapes

/-!
# Renaming token by token

The tokens of a script with replaced words are those of the script with other spellings
(`scan_replaceNames`): a word that is a token of its own is renamed, and so are the words within quotes.
A word that goes on with a number or a sign in front of it is none of the listed ones and stays.
-/

namespace DialectBridge

open Scan

/-- The token goes on with the word in front of it, if one goes on to here. -/
def Token.isJoined (inside : Bool) (t : Token) : Bool :=
  inside && t.gapText.isEmpty

namespace Glossary

/-- What replacing makes of a token, which may be joined to the word in front of it. -/
def renameToken (g : Glossary) (joined : Bool) (t : Token) : Token :=
  match t.kind with
  | .identifier _ | .keyword _ =>
    if joined then t else ⟨t.gap, wordKind (g.replace t.lexeme), g.replace t.lexeme⟩
  | .quoted name => ⟨t.gap, .quoted (g.replace name), g.replace t.lexeme⟩
  | .error _ => { t with lexeme := g.replace t.lexeme }
  | _ => t

/-- What replacing makes of tokens, the first of which may stand behind a word. -/
def renameTokens (g : Glossary) : Bool → List Token → List Token
  | _, [] => []
  | inside, t :: ts => g.renameToken (t.isJoined inside) t :: renameTokens g t.runsOn ts

variable {g : Glossary} {p : Char → Prop}

theorem renameToken_of_isPlain {t : Token} (h : t.kind.isPlain = true) (joined : Bool) : g.renameToken joined t = t := by
  unfold renameToken
  split <;> simp_all [TokenKind.isPlain]

/-- A word is renamed unless it is joined to the word in front of it. -/
theorem renameToken_of_word {t : Token} (h : t.kind = wordKind t.lexeme) (joined : Bool) : g.renameToken joined t =
    if joined then t else ⟨t.gap, wordKind (g.replace t.lexeme), g.replace t.lexeme⟩ := by
  rcases wordKind_cases t.lexeme with ⟨k, hk⟩ | hk <;> rw [renameToken, h, hk]

@[simp] theorem gap_renameToken (joined : Bool) (t : Token) : (g.renameToken joined t).gap = t.gap := by
  unfold renameToken
  repeat' split
  all_goals rfl

@[simp] theorem gapText_renameToken (joined : Bool) (t : Token) : (g.renameToken joined t).gapText = t.gapText := by
  rw [Token.gapText, gap_renameToken, ← Token.gapText]

/-- The end of the text stays. -/
theorem renameTokens_eof (inside : Bool) (gap : List Trivia) :
    g.renameTokens inside [⟨gap, .eof, []⟩] = [⟨gap, .eof, []⟩] := by
  rw [renameTokens, renameToken_of_isPlain rfl, renameTokens]

end Glossary

/-! ## Quotations -/

namespace Scan

variable {q : Char}

/-- A word holds no quotes. -/
theorem doubled_run (hq : isIdentifierCharacter q = false) {r : Text}
    (hr : ∀ c ∈ r, isIdentifierCharacter c = true) : doubled q r = r := by
  refine doubled_of_not_mem fun hmem => ?_
  rw [hr q hmem] at hq
  cases hq

theorem head?_any_doubled (hq : isIdentifierCharacter q = false) {t : Text}
    (ht : t.head?.any isIdentifierCharacter = false) : (doubled q t).head?.any isIdentifierCharacter = false := by
  cases t with
  | nil => rfl
  | cons c t =>
    rw [doubled]
    split
    · simpa using hq
    · exact ht

/-- Doubling quotes does not touch the words between them. -/
theorem runs_doubled (hq : isIdentifierCharacter q = false) (t : Text) :
    (doubled q t).runs isIdentifierCharacter = t.runs isIdentifierCharacter := by
  induction t using Text.run_induction isIdentifierCharacter with
  | nil => rfl
  | other c t hc ih =>
    rw [doubled, Text.runs_cons_of_not hc, ← ih]
    split
    · rw [Text.runs_cons_of_not hq, Text.runs_cons_of_not hq]
    · rw [Text.runs_cons_of_not hc]
  | run r t hne hr hstop ih =>
    rw [doubled_append, doubled_run hq hr, Text.runs_run hne hr (head?_any_doubled hq hstop),
      Text.runs_run hne hr hstop, ih]

theorem subset_doubled (t : Text) : t ⊆ doubled q t := by
  induction t with
  | nil => exact List.Subset.refl []
  | cons c t ih =>
    rw [doubled]
    split
    · next hc =>
      subst hc
      exact List.cons_subset_cons c (List.subset_cons_of_subset _ ih)
    · exact List.cons_subset_cons c ih

end Scan

namespace Glossary

variable {g : Glossary} {p : Char → Prop}

/-- Words within quotes are replaced as if the quotes were not doubled. -/
theorem replace_doubled (hg : g.ListsNames p) {q : Char} (hq : isIdentifierCharacter q = false) {v : Text}
    (h : (doubled q v).Over p) : g.replace (doubled q v) = doubled q (g.replace v) := by
  have hv : v.Over p := h.subset (subset_doubled v)
  induction v using Text.run_induction isIdentifierCharacter with
  | nil => simp only [doubled, replace_nil hg]
  | other c v hc ih =>
    rw [replace_other hg hv hc]
    by_cases heq : c = q
    · rw [doubled, if_pos heq] at h
      rw [doubled, if_pos heq, doubled, if_pos heq]
      have hrest : Text.Over (q :: doubled q v) p := (List.forall_mem_cons.1 h).2
      have hbody := (List.forall_mem_cons.1 hrest).2
      rw [replace_other hg h hq, replace_other hg hrest hq, ih hbody (List.forall_mem_cons.1 hv).2]
    · rw [doubled, if_neg heq] at h
      rw [doubled, if_neg heq, doubled, if_neg heq, replace_other hg h hc,
        ih (List.forall_mem_cons.1 h).2 (List.forall_mem_cons.1 hv).2]
  | run r v hne hr hstop ih =>
    rw [doubled_append, doubled_run hq hr] at h ⊢
    rw [replace_run hg hne hr h (head?_any_doubled hq hstop), replace_run hg hne hr hv hstop, doubled_append,
      doubled_run hq (rename_run hg hne hr).2,
      ih (Text.Over.append_iff.1 h).2 (Text.Over.append_iff.1 hv).2]

/-! ## A renamed token in front of the same text -/

theorem not_identifier_of_quote {q : Char} (hq : q ∈ ['\x27', '\x22', '\x60']) : isIdentifierCharacter q = false := by
  simp only [List.mem_cons, List.not_mem_nil, or_false] at hq
  rcases hq with rfl | rfl | rfl <;> decide +kernel

theorem trivia?_quote {q : Char} (hq : q ∈ ['\x27', '\x22', '\x60']) (t : Text) : trivia? (q :: t) = none := by
  simp only [List.mem_cons, List.not_mem_nil, or_false] at hq
  refine trivia?_eq_none_iff.2 ?_
  rcases hq with rfl | rfl | rfl <;> exact ⟨by decide, by simp, by simp⟩

theorem token_name {q : Char} (hq : q ∈ ['\x22', '\x60']) (t : Text) :
    token q t = quotedToken q .quoted .unterminatedName t := by
  simp only [List.mem_cons, List.not_mem_nil, or_false] at hq
  rcases hq with rfl | rfl <;> rfl

theorem replace_quotation (hg : g.ListsNames p) {q : Char} (hq : isIdentifierCharacter q = false) {v : Text}
    (h : Text.Over (q :: (doubled q v ++ [q])) p) :
    g.replace (q :: (doubled q v ++ [q])) = q :: (doubled q (g.replace v) ++ [q]) := by
  have hbody : Text.Over (doubled q v ++ q :: []) p := (List.forall_mem_cons.1 h).2
  rw [replace_other hg h hq, replace_append_cons hg hbody hq, replace_nil hg,
    replace_doubled hg hq (Text.Over.append_iff.1 hbody).1]

theorem fits_renameToken (hg : g.ListsNames p) {t : Token} {rest : Text} (h : t.Fits rest)
    (hover : t.lexeme.Over p) (joined : Bool) : (g.renameToken joined t).Fits rest := by
  cases h.shape with
  | word hword hkind hstop =>
    rw [renameToken_of_word hkind]
    cases joined with
    | true => exact h
    | false =>
      have hreplace := replace_word hg hword.ne_nil hword.forall_identifier hover
      have hnew : IsWord (g.replace t.lexeme) := by
        rcases rename_cases g t.lexeme with hkeep | ⟨e, he, -, htarget⟩
        · rwa [hreplace, hkeep]
        · rw [hreplace, htarget]
          exact hg.target e he
      exact Token.Fits.behind (u := Token.ofWord [] _) (Token.fits_ofWord hnew hstop) h
  | literal value hkind _ =>
    rw [renameToken, hkind]
    exact h
  | name quote value hmem hkind hlexeme hstop =>
    have hquote : quote ∈ ['\x27', '\x22', '\x60'] := List.mem_cons_of_mem _ hmem
    rw [hlexeme] at hover
    rw [renameToken, hkind]
    simp only [hlexeme, replace_quotation hg (not_identifier_of_quote hquote) hover]
    have htoken := token_name hmem (doubled quote (g.replace value) ++ quote :: rest)
    rw [quotedToken, quotedBody_doubled hstop] at htoken
    refine Token.Fits.behind (u := ⟨[], _, _⟩) ⟨gap_of_none (trivia?_quote hquote _), quote, _, rfl, ?_⟩ h
    rw [List.append_assoc]
    exact htoken
  | unclosed quote body cause hmem hkind hlexeme hopen hreads hstop =>
    obtain ⟨v, rfl⟩ := quotedBody_eq_none_iff.1 hopen
    have hquote := not_identifier_of_quote hmem
    rw [hlexeme] at hover
    have hreplace : g.replace t.lexeme = quote :: doubled quote (g.replace v) := by
      rw [hlexeme, replace_other hg hover hquote,
        replace_doubled hg hquote (List.forall_mem_cons.1 hover).2]
    have htoken := hreads _ (quotedBody_eq_none_iff.2 ⟨g.replace v, rfl⟩)
    rw [renameToken, hkind]
    simp only [hreplace]
    refine Token.Fits.behind (u := ⟨[], _, _⟩) ⟨gap_of_none (trivia?_quote hmem _), quote, _, rfl, ?_⟩ h
    rw [hstop, List.append_nil, htoken]
  | plain hkind _ _ =>
    rw [renameToken_of_isPlain hkind]
    exact h

/-! ## What follows a token -/

/-- The text `s'` starts like `s`, or with another letter in place of a character of a word. -/
def StartsAlike (s s' : Text) : Prop :=
  ∀ c ∈ s'.head?, c ∈ s.head? ∨
    (isIdentifierCharacter c = true ∧ c.isDigit = false ∧ s.head?.any isIdentifierCharacter = true)

theorem StartsAlike.refl (s : Text) : StartsAlike s s :=
  fun _ hc => .inl hc

theorem startsAlike_cons (c : Char) (s s' : Text) : StartsAlike (c :: s) (c :: s') :=
  fun _ hd => .inl hd

theorem StartsAlike.append {s s' : Text} (h : StartsAlike s s') (hs : s ≠ []) (hs' : s' ≠ []) (t t' : Text) :
    StartsAlike (s ++ t) (s' ++ t') := by
  obtain ⟨c, s, rfl⟩ := List.exists_cons_of_ne_nil hs
  obtain ⟨c', s', rfl⟩ := List.exists_cons_of_ne_nil hs'
  exact h

theorem StartsAlike.append_left {t t' : Text} (h : StartsAlike t t') (s : Text) : StartsAlike (s ++ t) (s ++ t') := by
  cases s with
  | nil => exact h
  | cons c s => exact startsAlike_cons _ _ _

/-- A digit or a sign comes first only if it came first before. -/
theorem StartsAlike.head? {s s' : Text} (h : StartsAlike s s') {c : Char}
    (hc : c.isDigit = true ∨ isIdentifierCharacter c = false) (hs' : s'.head? = some c) : s.head? = some c := by
  rcases h c hs' with hs | ⟨hident, hdigit, -⟩
  · exact hs
  · rw [hident, hdigit] at hc
    simp at hc

theorem startsAlike_lexeme (hg : g.ListsNames p) {t : Token} {rest : Text} (h : t.Fits rest)
    (hover : t.lexeme.Over p) (joined : Bool) : StartsAlike t.lexeme (g.renameToken joined t).lexeme := by
  cases h.shape with
  | word hword hkind hstop =>
    rw [renameToken_of_word hkind]
    cases joined with
    | true => exact .refl _
    | false =>
      have hreplace := replace_word hg hword.ne_nil hword.forall_identifier hover
      rcases rename_cases g t.lexeme with hkeep | ⟨e, he, -, htarget⟩
      · show StartsAlike t.lexeme (g.replace t.lexeme)
        rw [hreplace, hkeep]
        exact .refl _
      · intro c hc
        obtain ⟨d, l, hd, hdigit, -⟩ := (hg.target e he).cases
        obtain ⟨b, m, hb, -⟩ := hword.cases
        have hident := (hg.target e he).forall_identifier
        have hhead := hword.forall_identifier
        have hnew : g.replace t.lexeme = d :: l := by rw [hreplace, htarget, hd]
        rw [hd] at hident
        rw [hb] at hhead ⊢
        obtain rfl : d = c := by simpa [hnew] using hc
        exact .inr ⟨hident d List.mem_cons_self, hdigit, hhead b List.mem_cons_self⟩
  | literal value hkind _ =>
    rw [renameToken, hkind]
    exact .refl _
  | name quote value hmem hkind hlexeme hstop =>
    rw [hlexeme] at hover
    rw [renameToken, hkind]
    simp only [hlexeme]
    rw [replace_other hg hover (not_identifier_of_quote (List.mem_cons_of_mem _ hmem))]
    exact startsAlike_cons _ _ _
  | unclosed quote body cause hmem hkind hlexeme hopen hreads hstop =>
    rw [hlexeme] at hover
    rw [renameToken, hkind]
    simp only [hlexeme]
    rw [replace_other hg hover (not_identifier_of_quote hmem)]
    exact startsAlike_cons _ _ _
  | plain hkind _ _ =>
    rw [renameToken_of_isPlain hkind]
    exact .refl _

/-- The text of renamed tokens starts like the text of the tokens. -/
theorem startsAlike_renameTokens (hg : g.ListsNames p) {s : Text} (hs : s.Over p) (inside : Bool) :
    StartsAlike s (Token.textOf (g.renameTokens inside (scan s))) := by
  rcases scan_cases s with ⟨gap, -, rfl, hscan⟩ | ⟨t, rest, rfl, hfits, hscan⟩
  · rw [hscan, renameTokens_eof, ← hscan, textOf_scan]
    exact .refl _
  · have hover : t.lexeme.Over p :=
      hs.subset (List.subset_append_of_subset_left _ (List.subset_append_right _ _))
    have hstart := startsAlike_lexeme hg hfits hover (t.isJoined inside)
    have hne := (fits_renameToken hg hfits hover (t.isJoined inside)).lexeme_ne_nil
    rw [hscan, renameTokens, Token.textOf_cons, Token.text, Token.text, gapText_renameToken, List.append_assoc,
      List.append_assoc]
    exact (hstart.append hfits.lexeme_ne_nil hne _ _).append_left _

/-- A gap starts with a blank or with the sign of a comment. -/
theorem gap_head {t r : Text} {gap : List Trivia} (h : Scan.gap t = (gap, r)) {c : Char}
    (hc : (Trivia.textOf gap).head? = some c) : isBlank c = true ∨ c = '-' ∨ c = '/' := by
  cases gap with
  | nil => cases hc
  | cons x gap =>
    obtain ⟨rest, htrivia, -⟩ := trivia?_of_gap_cons h
    rw [Trivia.textOf_cons] at hc
    rcases trivia?_cases htrivia with ⟨u, -, rfl, -⟩ | ⟨u, -, rfl, -⟩ | ⟨d, u, -, hd, rfl, -⟩
    · exact .inr (.inl (by simpa [Trivia.text] using hc.symm))
    · exact .inr (.inr (by simpa [Trivia.text] using hc.symm))
    · obtain rfl : d = c := by simpa [Trivia.text] using hc
      exact .inl hd

/-- Where the text of renamed tokens starts with no gap, it starts with a renamed token. -/
theorem exists_first_token {s u : Text} {c : Char} {inside : Bool}
    (h : Token.textOf (g.renameTokens inside (scan s)) = c :: u) (hblank : isBlank c = false) (hline : c ≠ '-')
    (hblock : c ≠ '/') :
    ∃ (t : Token) (rest : Text), t.Fits rest ∧ s = t.lexeme ++ rest ∧
      (g.renameToken inside t).lexeme ++ Token.textOf (g.renameTokens t.runsOn (scan rest)) = c :: u := by
  have hnone {gap : List Trivia} (hgap : ∀ d, (Trivia.textOf gap).head? = some d → isBlank d = true ∨ d = '-' ∨ d = '/')
      {v : Text} (htext : Trivia.textOf gap ++ v = c :: u) : Trivia.textOf gap = [] := by
    cases hg : Trivia.textOf gap with
    | nil => rfl
    | cons d w =>
      rw [hg] at htext
      obtain rfl : d = c := (List.cons.inj htext).1
      rcases hgap d (by rw [hg]; rfl) with hd | hd | hd
      · rw [hblank] at hd
        cases hd
      · exact absurd hd hline
      · exact absurd hd hblock
  rcases scan_cases s with ⟨gap, hgap, rfl, hscan⟩ | ⟨t, rest, rfl, hfits, hscan⟩
  · rw [hscan, renameTokens_eof, ← hscan, textOf_scan] at h
    have hnil := hnone (fun d => gap_head hgap) (v := []) (by rwa [List.append_nil])
    rw [hnil] at h
    cases h
  · rw [hscan, renameTokens, Token.textOf_cons, Token.text, gapText_renameToken, List.append_assoc] at h
    have hnil : t.gapText = [] := hnone (fun d => gap_head hfits.gap_eq) h
    rw [hnil, List.nil_append, Token.isJoined, hnil, List.isEmpty_nil, Bool.and_true] at h
    exact ⟨t, rest, hfits, by rw [Token.text, hnil, List.nil_append], h⟩

/-- A token that starts like a word and is joined to the word in front of it stays. -/
theorem renameToken_joined {t : Token} {r : Text} (h : t.Fits r)
    (hhead : t.lexeme.head?.any isIdentifierCharacter = true) : g.renameToken true t = t := by
  cases h.shape with
  | word hword hkind _ => rw [renameToken_of_word hkind, if_pos rfl]
  | literal value hkind _ => rw [renameToken, hkind]
  | name quote value hmem _ hlexeme _ =>
    have hquote := not_identifier_of_quote (List.mem_cons_of_mem _ hmem)
    rw [hlexeme, List.head?_cons, Option.any_some, hquote] at hhead
    cases hhead
  | unclosed quote body cause hmem _ hlexeme _ _ _ =>
    rw [hlexeme, List.head?_cons, Option.any_some, not_identifier_of_quote hmem] at hhead
    cases hhead
  | plain hkind _ _ => exact renameToken_of_isPlain hkind true

/-- A token that ends like a word and goes on with a character of a word is a number or a sign. -/
theorem runsOn_of_identifier {t : Token} {rest : Text} (h : t.Shape rest) (hne : t.lexeme ≠ [])
    (hlast : t.lexeme.getLast?.any isIdentifierCharacter = true)
    (hrest : rest.head?.any isIdentifierCharacter = true) : t.runsOn = true := by
  have hquote {q : Char} {u : Text} (hq : q ∈ ['\x27', '\x22', '\x60']) (hl : t.lexeme = q :: (u ++ [q])) : False := by
    rw [hl, ← List.cons_append, List.getLast?_append] at hlast
    have hq' := not_identifier_of_quote hq
    rw [show isIdentifierCharacter q = true by simpa using hlast] at hq'
    cases hq'
  cases h with
  | word _ _ hstop =>
    rw [hstop] at hrest
    cases hrest
  | literal value _ hlexeme => exact (hquote (by decide) hlexeme).elim
  | name quote value hmem _ hlexeme _ => exact (hquote (List.mem_cons_of_mem _ hmem) hlexeme).elim
  | unclosed quote body cause _ _ _ _ _ hstop =>
    rw [hstop] at hrest
    cases hrest
  | plain _ _ hends => rw [← hends true, Text.endsInside_eq hne, hlast]

theorem startsFraction_of_renamed (hg : g.ListsNames p) {s : Text} (hs : s.Over p) {inside : Bool}
    (h : startsFraction (Token.textOf (g.renameTokens inside (scan s))) = true) : startsFraction s = true := by
  obtain ⟨d, u, htext, hd⟩ := startsFraction_iff.1 h
  obtain ⟨t, rest, hfits, rfl, hfirst⟩ := exists_first_token htext (by decide) (by decide) (by decide)
  obtain ⟨hlexeme, hrest⟩ := Text.Over.append_iff.1 hs
  have hne := (fits_renameToken hg hfits hlexeme inside).lexeme_ne_nil
  have hstart := startsAlike_lexeme hg hfits hlexeme inside
  have hpoint : t.lexeme.head? = some '.' := by
    refine hstart.head? (.inr not_identifier_dot) ?_
    obtain ⟨c, l, hc⟩ := List.exists_cons_of_ne_nil hne
    rw [hc] at hfirst ⊢
    rw [(List.cons.inj hfirst).1]
    rfl
  -- a point is a token by itself
  obtain ⟨hkind, hl⟩ : t.kind = .dot ∧ t.lexeme = ['.'] := by
    obtain ⟨c, l, hl, htoken⟩ := hfits.token_eq
    obtain rfl : c = '.' := by simpa [hl] using hpoint
    obtain ⟨hkind, hnil, -⟩ : TokenKind.dot = t.kind ∧ [] = l ∧ l ++ rest = rest := by simpa [token] using htoken
    exact ⟨hkind.symm, by rw [hl, ← hnil]⟩
  rw [renameToken_of_isPlain (by rw [hkind]; rfl), hl] at hfirst
  have hnext : Token.textOf (g.renameTokens t.runsOn (scan rest)) = d :: u := (List.cons.inj hfirst).2
  have hdigit : rest.head? = some d :=
    (startsAlike_renameTokens hg hrest t.runsOn).head? (.inl hd) (by rw [hnext]; rfl)
  obtain ⟨v, rfl⟩ := List.head?_eq_some_iff.1 hdigit
  rw [hl]
  exact startsFraction_iff.2 ⟨d, v, rfl, hd⟩

theorem startsExponent_of_renamed (hg : g.ListsNames p) {s : Text} (hs : s.Over p)
    (h : startsExponent (Token.textOf (g.renameTokens true (scan s))) = true) : startsExponent s = true := by
  obtain ⟨e, d, u, htext, he, hd⟩ := startsExponent_iff.1 h
  have hident : isIdentifierCharacter e = true ∧ isBlank e = false ∧ e ≠ '-' ∧ e ≠ '/' := by
    rcases he with rfl | rfl <;> decide +kernel
  obtain ⟨t, rest, hfits, rfl, hfirst⟩ := exists_first_token htext hident.2.1 hident.2.2.1 hident.2.2.2
  obtain ⟨hlexeme, hrest⟩ := Text.Over.append_iff.1 hs
  have hne := (fits_renameToken hg hfits hlexeme true).lexeme_ne_nil
  have hstart := startsAlike_lexeme hg hfits hlexeme true
  have hhead : t.lexeme.head?.any isIdentifierCharacter = true := by
    obtain ⟨c, l, hc⟩ := List.exists_cons_of_ne_nil hne
    rw [hc] at hfirst hstart
    obtain rfl : c = e := (List.cons.inj hfirst).1
    rcases hstart c rfl with h | ⟨-, -, h⟩
    · rw [Option.mem_def.1 h]
      exact hident.1
    · exact h
  rw [renameToken_joined hfits hhead] at hfirst
  obtain ⟨c, l, hl⟩ := List.exists_cons_of_ne_nil hfits.lexeme_ne_nil
  rw [hl, List.cons_append] at hfirst ⊢
  obtain ⟨rfl, hnext⟩ := List.cons.inj hfirst
  have hsign : d.isDigit = true ∨ isIdentifierCharacter d = false := by
    rcases hd with hd | rfl | rfl
    · exact .inl hd
    · exact .inr (by decide +kernel)
    · exact .inr (by decide +kernel)
  have hsecond : (l ++ rest).head? = some d :=
    ((startsAlike_renameTokens hg hrest t.runsOn).append_left l).head? hsign (by rw [hnext]; rfl)
  obtain ⟨v, hv⟩ := List.head?_eq_some_iff.1 hsecond
  exact startsExponent_iff.2 ⟨c, d, v, by rw [hv], he, hd⟩

/-- Renaming what follows a token leaves the token what it is. -/
theorem alike_renameTokens (hg : g.ListsNames p) {t : Token} {rest : Text} (h : t.Fits rest)
    (hrest : rest.Over p) :
    Alike t.lexeme rest (Token.textOf (g.renameTokens t.runsOn (scan rest))) := by
  have hstart := startsAlike_renameTokens hg hrest t.runsOn
  refine ⟨?_, hstart, fun hfraction => .inl (startsFraction_of_renamed hg hrest hfraction), fun hexponent => ?_⟩
  · rintro rfl
    rw [scan_of_gap_nil (gap_of_none rfl), renameTokens_eof]
    rfl
  · cases hdigit : t.lexeme.getLast?.any Char.isDigit with
    | false => exact .inr rfl
    | true =>
      -- the letter of an exponent behind a digit is joined to a number
      have hhead : rest.head?.any isIdentifierCharacter = true := by
        obtain ⟨e, d, u, htext, he, -⟩ := startsExponent_iff.1 hexponent
        have hident : isIdentifierCharacter e = true := by rcases he with rfl | rfl <;> decide +kernel
        rcases hstart e (by rw [htext]; rfl) with hhead | ⟨-, -, hhead⟩
        · rw [Option.mem_def.1 hhead]
          exact hident
        · exact hhead
      have hlast : t.lexeme.getLast?.any isIdentifierCharacter = true := by
        obtain ⟨c, hc, hcdigit⟩ := Option.any_eq_true _ _ |>.1 hdigit
        rw [hc]
        exact identifier_of_digit hcdigit
      rw [runsOn_of_identifier (h.shape) h.lexeme_ne_nil hlast hhead] at hexponent
      exact .inl (startsExponent_of_renamed hg hrest hexponent)

/-- The text of renamed tokens is read as these tokens. -/
theorem scan_renameTokens (hg : g.ListsNames p) {s : Text} (hs : s.Over p) (inside : Bool) :
    scan (Token.textOf (g.renameTokens inside (scan s))) = g.renameTokens inside (scan s) := by
  induction s using scan_induction generalizing inside with
  | gap gap hgap => rw [scan_of_gap_nil hgap, renameTokens_eof, ← scan_of_gap_nil hgap, textOf_scan]
  | token t rest hfits ih =>
    obtain ⟨htext, hrest⟩ := Text.Over.append_iff.1 hs
    have hover := (Text.Over.append_iff.1 htext).2
    have hnext := hfits.alike (alike_renameTokens hg hfits hrest)
    rw [scan_of_fits hfits, renameTokens, Token.textOf_cons,
      scan_of_fits (fits_renameToken hg hnext hover (t.isJoined inside)), ih hrest]

end Glossary

end DialectBridge
