import DialectBridge.Proofs.Lexical.Break
import DialectBridge.Proofs.Lexical.Lexeme
import DialectBridge.Proofs.Text.Trim

/-!
# Tokens that can be written down

A chain is a run of tokens whose text is read back as these tokens (`scan_chain`). Every run of tokens
of a script is one (`Chain.of_scan`), single words and signs are (`Chain.word`, `Chain.sign`), and
chains are put together where a break stands between them (`Chain.append`).
-/

namespace DialectBridge

open Scan

/-! ## Words -/

/-- The text is read as one word. -/
structure IsWord (w : Text) : Prop where
  start : ∃ c ∈ w.head?, c.isDigit = false ∧ (isAlphabetic c || c == '_') = true
  identifier : ∀ c ∈ w.tail, isIdentifierCharacter c = true

instance (w : Text) : Decidable (IsWord w) :=
  decidable_of_iff (w.head?.any (fun c => !c.isDigit && (isAlphabetic c || c == '_')) = true ∧
      w.tail.all isIdentifierCharacter = true)
    ⟨fun h => ⟨by simpa [Option.any_eq_true] using h.1, List.all_eq_true.1 h.2⟩,
      fun h => ⟨by simpa [Option.any_eq_true] using h.start, List.all_eq_true.2 h.identifier⟩⟩

theorem IsWord.cases {w : Text} (h : IsWord w) : ∃ c l, w = c :: l ∧ c.isDigit = false ∧
    (isAlphabetic c || c == '_') = true ∧ ∀ d ∈ l, isIdentifierCharacter d = true := by
  obtain ⟨c, hc, hdigit, hletter⟩ := h.start
  obtain ⟨l, rfl⟩ := List.head?_eq_some_iff.1 hc
  exact ⟨c, l, rfl, hdigit, hletter, h.identifier⟩

theorem IsWord.ne_nil {w : Text} (h : IsWord w) : w ≠ [] := by
  obtain ⟨c, l, rfl, -⟩ := h.cases
  exact List.cons_ne_nil c l

theorem IsWord.forall_identifier {w : Text} (h : IsWord w) : ∀ c ∈ w, isIdentifierCharacter c = true := by
  obtain ⟨c, l, rfl, -, hletter, hl⟩ := h.cases
  refine List.forall_mem_cons.2 ⟨?_, hl⟩
  rw [Bool.or_eq_true] at hletter
  rcases hletter with h | h <;> simp [isIdentifierCharacter, isAlphanumeric, h]

theorem isWord_text (keyword : Keyword) : IsWord keyword.text := by
  cases keyword <;>
    exact ⟨⟨_, rfl, by decide, by decide +kernel⟩, List.all_eq_true.1 (by decide +kernel)⟩

theorem wordKind_text (keyword : Keyword) : wordKind keyword.text = .keyword keyword := by
  rw [wordKind, Keyword.ofWord?_text]

/-- Only a letter or an underscore starts a token that is a bare word. -/
theorem letter_of_token {c : Char} {t : Text}
    (h : (∃ n, (token c t).1 = .identifier n) ∨ ∃ k, (token c t).1 = .keyword k) :
    c.isDigit = false ∧ (isAlphabetic c || c == '_') = true := by
  have hquoted {q : Char} {kind : Text → TokenKind} {cause : LexicalError}
      (hkind : ∀ v, (∀ n, kind v ≠ .identifier n) ∧ ∀ k, kind v ≠ .keyword k) :
      ¬((∃ n, (quotedToken q kind cause t).1 = .identifier n) ∨
        ∃ k, (quotedToken q kind cause t).1 = .keyword k) := by
    unfold quotedToken
    split
    · next v _ _ => simp [(hkind v).1, (hkind v).2]
    · simp
  unfold token at h
  split at h
  case h_7 | h_8 | h_9 => exact absurd h (hquoted (by simp))
  case h_10 => split at h <;> simp at h
  case h_11 =>
    split at h
    · simp at h
    · next hdigit =>
      split at h
      · next hletter => exact ⟨by simpa using hdigit, hletter⟩
      · simp at h
  all_goals simp at h

/-- A quote that is left open takes the rest of the text. -/
theorem token_error {c : Char} {t : Text} {cause : LexicalError} (h : (token c t).1 = .error cause) :
    (token c t).2.2 = [] := by
  have hquoted {q : Char} {kind : Text → TokenKind} {why : LexicalError}
      (hkind : ∀ v, kind v ≠ .error cause) (h : (quotedToken q kind why t).1 = .error cause) :
      (quotedToken q kind why t).2.2 = [] := by
    unfold quotedToken at h ⊢
    split at h
    · exact absurd h (hkind _)
    · rfl
  unfold token at h ⊢
  split at h
  case h_7 | h_8 | h_9 => exact hquoted (by simp) h
  case h_10 => split at h <;> simp at h
  case h_11 =>
    split at h
    · simp at h
    · split at h
      · rcases wordKind_cases (c :: t.takeWhile isIdentifierCharacter) with ⟨k, hk⟩ | hk <;> simp [hk] at h
      · simp at h
  all_goals simp at h

/-- A name that a bare word carries is the word itself. -/
theorem Token.Fits.word {t : Token} {r w : Text} (h : t.Fits r) (hquoted : ∀ n, t.kind ≠ .quoted n)
    (hname : t.name? = some w) : IsWord w ∧ t.lexeme = w ∧ t.kind = wordKind w := by
  obtain ⟨c, l, hl, htoken⟩ := h.token_eq
  have hkind : t.kind = .identifier w ∨ ∃ k, t.kind = .keyword k ∧ t.lexeme = w := by
    unfold name? at hname
    split at hname
    · next heq => cases hname; exact .inl heq
    · next heq => cases hname; exact absurd heq (hquoted w)
    · next k heq => cases hname; exact .inr ⟨k, heq, rfl⟩
    · cases hname
  have hfirst : (token c (l ++ r)).1 = t.kind := congrArg Prod.fst htoken
  obtain ⟨hdigit, hletter⟩ := letter_of_token (c := c) (t := l ++ r) <| by
    rcases hkind with hkind | ⟨k, hkind, -⟩
    · exact .inl ⟨w, hfirst.trans hkind⟩
    · exact .inr ⟨k, hfirst.trans hkind⟩
  rw [token_of_letter hdigit hletter] at htoken
  obtain ⟨hk, hword, -⟩ : wordKind (c :: (l ++ r).takeWhile isIdentifierCharacter) = t.kind ∧
      (l ++ r).takeWhile isIdentifierCharacter = l ∧
      (l ++ r).dropWhile isIdentifierCharacter = r := by simpa using htoken
  have hrun := Text.forall_mem_takeWhile isIdentifierCharacter (l ++ r)
  rw [hword, ← hl] at hk
  rw [hword] at hrun
  have hlexeme : t.lexeme = w := by
    rcases hkind with hkind | ⟨-, -, hlexeme⟩
    · -- an identifier carries its own text
      rcases wordKind_cases t.lexeme with ⟨k, hkeyword⟩ | hidentifier
      · rw [← hk, hkeyword] at hkind
        cases hkind
      · rw [← hk, hidentifier] at hkind
        exact TokenKind.identifier.inj hkind
    · exact hlexeme
  refine ⟨?_, hlexeme, by rw [← hk, hlexeme]⟩
  rw [← hlexeme, hl]
  exact ⟨⟨c, rfl, hdigit, hletter⟩, hrun⟩

/-! ## Chains -/

namespace Token

/-- The tokens are those of their text: each one fits in front of the text of those behind it, and no
quote is left open. -/
inductive Chain : List Token → Prop where
  | nil : Chain []
  | cons {t : Token} {ts : List Token} (fits : t.Fits (textOf ts))
      (closed : ∀ cause, t.kind ≠ .error cause) (rest : Chain ts) : Chain (t :: ts)

theorem Chain.tail {t : Token} {ts : List Token} (h : Chain (t :: ts)) : Chain ts := by
  cases h with
  | cons _ _ rest => exact rest

theorem Chain.suffix {ts us : List Token} (h : Chain ts) (hu : us <:+ ts) : Chain us := by
  obtain ⟨vs, rfl⟩ := hu
  induction vs with
  | nil => exact h
  | cons v vs ih => exact ih h.tail

/-- The first tokens of a chain are a chain. -/
theorem Chain.left {us vs : List Token} (h : Chain (us ++ vs)) : Chain us := by
  induction us with
  | nil => exact .nil
  | cons u us ih =>
    rw [List.cons_append] at h
    cases h with
    | cons fits closed rest =>
      rw [textOf_append] at fits
      exact .cons (fits.alike (.of_initial _ (List.prefix_append _ _))) closed (ih rest)

theorem Chain.exists_fits {ts : List Token} (h : Chain ts) {t : Token} (ht : t ∈ ts) : ∃ rest, t.Fits rest := by
  obtain ⟨us, vs, rfl⟩ := List.append_of_mem ht
  cases h.suffix (List.suffix_append us _) with
  | cons fits _ _ => exact ⟨_, fits⟩

/-- A chain may go on behind a break. -/
theorem Chain.append {us vs : List Token} (hu : Chain us) (hv : Chain vs)
    (hbreak : StartsWithBreak (textOf vs)) : Chain (us ++ vs) := by
  induction hu with
  | nil => exact hv
  | cons fits closed _ ih =>
    rw [List.cons_append]
    refine .cons ?_ closed ih
    rw [textOf_append]
    exact fits.append_break closed hbreak

theorem scan_chain {ts : List Token} (h : Chain ts) : scan (textOf ts) = ts ++ [⟨[], .eof, []⟩] := by
  induction h with
  | nil => exact scan_of_gap_nil (gap_of_none rfl)
  | cons fits _ _ ih => rw [textOf_cons, scan_of_fits fits, ih, List.cons_append]

/-- In front of a break a chain is scanned as its tokens, whatever follows. -/
theorem scan_chain_append {ts : List Token} (h : Chain ts) {s : Text} (hs : StartsWithBreak s) :
    scan (textOf ts ++ s) = ts ++ scan s := by
  induction h with
  | nil => rfl
  | cons fits closed _ ih =>
    rw [textOf_cons, List.append_assoc, scan_of_fits (fits.append_break closed hs), ih, List.cons_append]

/-- The tokens of a chain are neither open quotations nor the end of a script. -/
theorem Chain.closed {ts : List Token} (h : Chain ts) :
    ∀ t ∈ ts, t.kind ≠ .eof ∧ ∀ cause, t.kind ≠ .error cause := by
  induction h with
  | nil => simp
  | cons fits closed _ ih => exact List.forall_mem_cons.2 ⟨⟨fits.kind_ne_eof, closed⟩, ih⟩

/-- A token that is no open quotation does not end in whitespace. -/
theorem Fits.getLast?_lexeme {t : Token} {rest : Text} (h : t.Fits rest)
    (hclosed : ∀ cause, t.kind ≠ .error cause) : t.lexeme.getLast?.any isBlank = false := by
  have hfits : t.Fits [' '] := h.of_break hclosed (.cons (by decide) [])
  obtain ⟨c, l, hl, htoken⟩ := hfits.token_eq
  have hnone := hfits.trivia?_eq_none
  rw [hl, List.cons_append] at hnone
  have hlast := token_getLast?_not_blank (trivia?_eq_none_iff.1 hnone).1 (t := l ++ [' ']) (by rw [htoken]; simp)
  rwa [htoken, ← hl] at hlast

theorem Fits.head?_lexeme {t : Token} {rest : Text} (h : t.Fits rest) : t.lexeme.head?.any isBlank = false := by
  obtain ⟨c, l, hl, -⟩ := h.token_eq
  have hnone := h.trivia?_eq_none
  rw [hl, List.cons_append] at hnone
  rw [hl]
  exact (trivia?_eq_none_iff.1 hnone).1

/-! ## The tokens of a script -/

theorem Fits.of_mem_scan {script : Text} {t : Token} (ht : t ∈ scan script) (heof : t.kind ≠ .eof) :
    ∃ r, t.Fits r := by
  induction script using scan_induction with
  | gap g hg =>
    rw [scan_of_gap_nil hg] at ht
    rw [List.mem_singleton.1 ht] at heof
    exact absurd rfl heof
  | token u rest hu ih =>
    rw [scan_of_fits hu] at ht
    rcases List.mem_cons.1 ht with rfl | ht
    · exact ⟨rest, hu⟩
    · exact ih ht

theorem Fits.rest_eq_nil {t : Token} {r : Text} (h : t.Fits r) {cause : LexicalError}
    (hkind : t.kind = .error cause) : r = [] := by
  obtain ⟨c, l, -, htoken⟩ := h.token_eq
  have herror : (token c (l ++ r)).1 = .error cause := by rw [htoken, hkind]
  have hrest := token_error herror
  rwa [htoken] at hrest

/-- In front of another token of a script no quote is left open. -/
theorem closed_of_scan {script : Text} {us back : List Token} {d : Token} (h : us ++ d :: back <:+ scan script)
    (hd : d.kind ≠ .eof) : ∀ t ∈ us, t.kind ≠ .eof ∧ ∀ cause, t.kind ≠ .error cause := by
  induction script using scan_induction generalizing us with
  | gap g hg =>
    rw [scan_of_gap_nil hg] at h
    rcases List.suffix_cons_iff.1 h with heq | h
    · obtain ⟨rfl, heq⟩ := List.append_eq_singleton_iff.1 heq |>.resolve_right (by simp)
      rw [(List.cons.inj heq).1] at hd
      exact absurd rfl hd
    · simp at h
  | token u rest hu ih =>
    rw [scan_of_fits hu] at h
    rcases List.suffix_cons_iff.1 h with heq | h
    · cases us with
      | nil => simp
      | cons v us =>
        rw [List.cons_append] at heq
        obtain ⟨rfl, hrest⟩ := List.cons.inj heq
        refine List.forall_mem_cons.2 ⟨⟨hu.kind_ne_eof, fun cause hkind => ?_⟩, ih ⟨[], hrest⟩⟩
        have hmem : d ∈ scan rest := by simp [← hrest]
        rw [hu.rest_eq_nil hkind, scan_of_gap_nil (gap_of_none rfl)] at hmem
        rw [List.mem_singleton.1 hmem] at hd
        exact hd rfl
    · exact ih h

/-- Tokens of a script are a chain unless they leave a quote open or reach its end. -/
theorem Chain.of_closed {script : Text} {us back : List Token} (h : us ++ back <:+ scan script)
    (hus : ∀ t ∈ us, t.kind ≠ .eof ∧ ∀ cause, t.kind ≠ .error cause) : Chain us := by
  induction script using scan_induction generalizing us with
  | gap g hg =>
    cases us with
    | nil => exact .nil
    | cons u us =>
      have hmem := h.subset List.mem_cons_self
      rw [scan_of_gap_nil hg] at hmem
      rw [List.mem_singleton.1 hmem] at hus
      exact absurd rfl (hus _ List.mem_cons_self).1
  | token u rest hu ih =>
    rw [scan_of_fits hu] at h
    rcases List.suffix_cons_iff.1 h with heq | h
    · cases us with
      | nil => exact .nil
      | cons v us =>
        rw [List.cons_append] at heq
        obtain ⟨rfl, hrest⟩ := List.cons.inj heq
        have htext : rest = textOf us ++ textOf back := by rw [← textOf_append, hrest, textOf_scan]
        obtain ⟨hclosed, hus⟩ := List.forall_mem_cons.1 hus
        exact .cons (hu.alike (.of_initial _ ⟨_, htext.symm⟩)) hclosed.2 (ih ⟨[], hrest⟩ hus)
    · exact ih h hus

/-- Tokens of a script in front of another one are a chain. -/
theorem Chain.of_scan {script : Text} {us back : List Token} {d : Token}
    (h : us ++ d :: back <:+ scan script) (hd : d.kind ≠ .eof) : Chain us :=
  .of_closed h (closed_of_scan h hd)

/-- Tokens of a script up to a parenthesis or a sign are a chain. -/
theorem Chain.of_scan_through {script : Text} {us back : List Token} {d : Token}
    (h : us ++ d :: back <:+ scan script) (hd : d.kind ≠ .eof) (hclosed : ∀ cause, d.kind ≠ .error cause) :
    Chain (us ++ [d]) := by
  have hfront : (us ++ [d]) ++ back <:+ scan script := by rwa [List.append_assoc]
  refine .of_closed hfront fun t ht => ?_
  rcases List.mem_append.1 ht with ht | ht
  · exact closed_of_scan h hd t ht
  · rw [List.mem_singleton.1 ht]
    exact ⟨hd, hclosed⟩

/-! ## Writing tokens down -/

/-- The gap is empty or a run of whitespace. -/
inductive IsSpace : List Trivia → Prop where
  | none : IsSpace []
  | some {b : Text} (nonempty : b ≠ []) (blank : ∀ c ∈ b, isBlank c = true) : IsSpace [.blank b]

/-- A token may stand behind whitespace. -/
theorem Fits.space {t : Token} {r : Text} {g : List Trivia} (h : t.Fits r) (hg : IsSpace g) :
    Fits { t with gap := g } r := by
  have hbare : Fits { t with gap := [] } r := h.dropGap (List.append_nil t.gap).symm
  cases hg with
  | none => exact hbare
  | @some b hne hb =>
    refine ⟨?_, h.token_eq⟩
    obtain ⟨c, b, rfl⟩ := List.exists_cons_of_ne_nil hne
    obtain ⟨hc, hb⟩ := List.forall_mem_cons.1 hb
    have hnone := h.trivia?_eq_none
    have hstop : (t.lexeme ++ r).head?.any isBlank = false := by
      obtain ⟨d, l, hl, -⟩ := h.token_eq
      rw [hl, List.cons_append] at hnone ⊢
      exact (trivia?_eq_none_iff.1 hnone).1
    have htrivia : trivia? (c :: b ++ (t.lexeme ++ r)) = some (.blank (c :: b), t.lexeme ++ r) := by
      rw [List.cons_append, trivia?_blank hc, Text.takeWhile_run hb hstop, Text.dropWhile_run hb hstop]
    simpa [text, gapText, Trivia.text, gap_of_none hnone] using gap_of_trivia htrivia

theorem Chain.withGap {ts : List Token} {g : List Trivia} (h : Chain ts) (hg : IsSpace g) :
    Chain (withGap g ts) := by
  cases h with
  | nil => exact .nil
  | cons fits closed rest => exact .cons (fits.space hg) closed rest

/-- What is written down of a chain is read back as its tokens, without the gap in front of them. -/
theorem scan_verbatim {ts : List Token} (h : Chain ts) :
    scan (verbatim ts) = Token.withGap [] ts ++ [⟨[], .eof, []⟩] := by
  rw [← scan_chain (h.withGap .none)]
  cases ts <;> rfl

/-- A bare word as a token. -/
def ofWord (g : List Trivia) (w : Text) : Token :=
  ⟨g, wordKind w, w⟩

/-- A sign as a token. -/
def ofSign (g : List Trivia) (c : Char) : Token :=
  ⟨g, (token c []).1, [c]⟩

@[simp] theorem text_ofWord (g : List Trivia) (w : Text) : (ofWord g w).text = Trivia.textOf g ++ w := rfl

@[simp] theorem text_ofSign (g : List Trivia) (c : Char) : (ofSign g c).text = Trivia.textOf g ++ [c] := rfl

@[simp] theorem gap_ofWord (g : List Trivia) (w : Text) : (ofWord g w).gap = g := rfl

theorem textOf_withGap {ts : List Token} (h : ts ≠ []) (g : List Trivia) :
    textOf (Token.withGap g ts) = Trivia.textOf g ++ verbatim ts := by
  obtain ⟨t, ts, rfl⟩ := List.exists_cons_of_ne_nil h
  simp [Token.withGap, text, gapText, verbatim, Trivia.textOf]

/-- The text of a chain ends with its last token. -/
theorem Chain.getLast?_textOf {ts : List Token} (h : Chain ts) : (textOf ts).getLast?.any isBlank = false := by
  induction h with
  | nil => rfl
  | @cons t ts fits closed hts ih =>
    rw [textOf_cons]
    cases ts with
    | nil =>
      rw [textOf_nil, List.append_nil, Token.text, Text.getLast?_append_right _ fits.lexeme_ne_nil]
      exact fits.getLast?_lexeme closed
    | cons u us =>
      have hne : textOf (u :: us) ≠ [] := by
        cases hts with
        | cons hu => simp [Token.text, hu.lexeme_ne_nil]
      rw [Text.getLast?_append_right _ hne]
      exact ih

/-- Tokens that are written down start and end without whitespace. -/
theorem Chain.trim_verbatim {ts : List Token} (h : Chain ts) : (verbatim ts).trim = verbatim ts := by
  cases h with
  | nil => rfl
  | @cons t ts fits closed hts =>
    have hlast := (Chain.cons fits closed hts).withGap .none |>.getLast?_textOf
    rw [textOf_withGap (List.cons_ne_nil t ts)] at hlast
    obtain ⟨c, l, hl, -⟩ := fits.token_eq
    have hfirst := fits.head?_lexeme
    rw [hl] at hfirst
    have hstart : Text.trimStart (verbatim (t :: ts)) = verbatim (t :: ts) := by
      rw [verbatim, hl, Text.trimStart]
      exact List.dropWhile_cons_of_neg (by simpa using hfirst)
    rw [Text.trim, hstart]
    exact Text.trimEnd_eq_self.2 hlast

theorem fits_ofWord {w r : Text} (hw : IsWord w) (hr : r.head?.any isIdentifierCharacter = false) :
    (ofWord [] w).Fits r := by
  obtain ⟨c, l, rfl, hdigit, hletter, hl⟩ := hw.cases
  have hnone : trivia? (c :: (l ++ r)) = none := by
    refine trivia?_eq_none_iff.2 ⟨?_, ?_, ?_⟩
    · refine not_blank_of_identifier ?_
      rw [Bool.or_eq_true] at hletter
      rcases hletter with h | h <;> simp [isIdentifierCharacter, isAlphanumeric, h]
    · rintro ⟨rfl, -⟩
      exact absurd hletter (by decide +kernel)
    · rintro ⟨rfl, -⟩
      exact absurd hletter (by decide +kernel)
  refine ⟨gap_of_none hnone, c, l, rfl, ?_⟩
  rw [token_of_letter hdigit hletter, Text.takeWhile_run hl hr, Text.dropWhile_run hl hr]
  rfl

theorem Chain.word {g : List Trivia} {w : Text} {ts : List Token} (hg : IsSpace g) (hw : IsWord w)
    (hts : Chain ts) (hstop : (textOf ts).head?.any isIdentifierCharacter = false) :
    Chain (ofWord g w :: ts) := by
  refine .cons ((fits_ofWord hw hstop).space hg) (fun cause => ?_) hts
  show wordKind w ≠ .error cause
  rcases wordKind_cases w with ⟨k, hk⟩ | hk <;> simp [hk]

theorem fits_ofSign {c : Char} (hc : c ∈ ['(', ')', ',', ';', '.']) (r : Text) : (ofSign [] c).Fits r := by
  simp only [List.mem_cons, List.not_mem_nil, or_false] at hc
  rcases hc with rfl | rfl | rfl | rfl | rfl <;>
    exact ⟨gap_of_none (trivia?_eq_none_iff.2 ⟨by decide, by simp, by simp⟩), _, [], rfl, rfl⟩

theorem Chain.sign {g : List Trivia} {c : Char} {ts : List Token} (hg : IsSpace g)
    (hc : c ∈ ['(', ')', ',', ';', '.']) (hts : Chain ts) : Chain (ofSign g c :: ts) := by
  refine .cons ((fits_ofSign hc _).space hg) (fun cause => ?_) hts
  show (token c []).1 ≠ .error cause
  simp only [List.mem_cons, List.not_mem_nil, or_false] at hc
  rcases hc with rfl | rfl | rfl | rfl | rfl <;> simp [token]

end Token

end DialectBridge
