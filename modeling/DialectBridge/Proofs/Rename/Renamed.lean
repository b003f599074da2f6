import DialectBridge.Proofs.Rename.Segments
import DialectBridge.Proofs.Schema.Verbatim

/-!
# Tokens and renamed tokens

A reader that walks over the tokens of a script walks over the renamed tokens in step. `Renamed` relates
the two places at every step: what has to be known about a token to read it is said there, once for all
tokens of a script (`renamed_scan`).
-/

namespace DialectBridge

open Scan Token

namespace Scan

theorem blockBody_getLast? {t : Text} (h : (blockBody t).2 ≠ []) : (blockBody t).1.getLast? = some '/' := by
  fun_induction blockBody t with
  | case1 t => rfl
  | case2 c t _ ih =>
    have hlast := ih h
    cases hbody : (blockBody t).1 with
    | nil =>
      rw [hbody] at hlast
      cases hlast
    | cons d u =>
      rw [hbody] at hlast
      exact hlast
  | case3 => exact absurd rfl h

/-- A piece of trivia in front of a token ends in no character of a word. -/
theorem trivia?_getLast? {t r : Text} {c : Char} {x : Trivia} (h : trivia? t = some (x, c :: r))
    (hc : trivia? (c :: r) = none) : x.text.getLast?.any isIdentifierCharacter = false := by
  rcases trivia?_cases h with ⟨u, -, rfl, hrest⟩ | ⟨u, -, rfl, hrest⟩ | ⟨e, u, -, he, rfl, -⟩
  · -- the character that ends a line comment is blank
    have hstop := Text.head?_any_dropWhile (· != '\n') u
    rw [← hrest] at hstop
    obtain rfl : c = '\n' := by simpa using hstop
    rw [trivia?_blank (by decide)] at hc
    cases hc
  · have hne : (blockBody u).1 ≠ [] := by
      intro hnil
      have hlast := blockBody_getLast? (t := u) (by simp [← hrest])
      rw [hnil] at hlast
      cases hlast
    have hlast := blockBody_getLast? (t := u) (by simp [← hrest])
    obtain ⟨d, v, hv⟩ := List.exists_cons_of_ne_nil hne
    rw [Trivia.text, List.getLast?_cons_cons, hv, List.getLast?_cons_cons, ← hv, hlast]
    decide +kernel
  · have hrun : ∀ d ∈ e :: u.takeWhile isBlank, isBlank d = true :=
      List.forall_mem_cons.2 ⟨he, Text.forall_mem_takeWhile isBlank u⟩
    rw [Trivia.text, List.getLast?_eq_some_getLast (List.cons_ne_nil _ _)]
    exact not_identifier_of_blank (hrun _ (List.getLast_mem _))

/-- A gap in front of a token ends in no character of a word. -/
theorem gap_getLast? {t r : Text} {gap : List Trivia} {c : Char} (h : Scan.gap t = (gap, c :: r)) :
    (Trivia.textOf gap).getLast?.any isIdentifierCharacter = false := by
  fun_induction Scan.gap t generalizing gap with
  | case1 t x rest hx ih =>
    obtain ⟨rfl, hrest⟩ := Prod.mk.inj h
    have htail := ih (Prod.ext rfl hrest)
    rw [Trivia.textOf_cons]
    by_cases hnil : Trivia.textOf (Scan.gap rest).1 = []
    · have htext : Trivia.textOf (Scan.gap rest).1 ++ (Scan.gap rest).2 = rest := gap_text rest
      have hnone := trivia?_gap_snd rest
      rw [hrest] at htext hnone
      rw [hnil, List.nil_append] at htext
      rw [← htext] at hx
      rw [hnil, List.append_nil]
      exact trivia?_getLast? hx hnone
    · rwa [Text.getLast?_append_right _ hnil]
  | case2 t hnone =>
    obtain ⟨rfl, -⟩ := Prod.mk.inj h
    rfl

end Scan

namespace Glossary

/-- What replacing makes of a token, when keywords stay and no other word becomes one. -/
def respellToken (g : Glossary) (joined : Bool) (t : Token) : Token :=
  match t.kind with
  | .identifier name => if joined then t else ⟨t.gap, .identifier (g.replace name), g.replace t.lexeme⟩
  | .quoted name => ⟨t.gap, .quoted (g.replace name), g.replace t.lexeme⟩
  | .error _ => { t with lexeme := g.replace t.lexeme }
  | _ => t

/-- What replacing makes of tokens, the first of which may stand behind a word. -/
def respellTokens (g : Glossary) : Bool → List Token → List Token
  | _, [] => []
  | inside, t :: ts => g.respellToken (t.isJoined inside) t :: respellTokens g t.runsOn ts

variable {g : Glossary}

theorem respellToken_of_isPlain {t : Token} (h : t.kind.isPlain = true) (joined : Bool) : g.respellToken joined t = t := by
  unfold respellToken
  split <;> simp_all [TokenKind.isPlain]

@[simp] theorem gap_respellToken (joined : Bool) (t : Token) : (g.respellToken joined t).gap = t.gap := by
  unfold respellToken
  repeat' split
  all_goals rfl

/-- The end of the text stays. -/
theorem respellTokens_eof (inside : Bool) (gap : List Trivia) :
    g.respellTokens inside [⟨gap, .eof, []⟩] = [⟨gap, .eof, []⟩] := by
  rw [respellTokens, respellToken_of_isPlain rfl, respellTokens]

/-- A renamed word is no keyword. -/
theorem wordKind_target (hg : g.KeepsApart) {e : Text × Text} (he : e ∈ g.targets) :
    wordKind e.2 = .identifier e.2 :=
  wordKind_of_not_same fun keyword _ => hg.target_free e he _ (mem_reservedWords keyword)

theorem renameToken_eq (hg : g.KeepsApart) {t : Token} {rest : Text} (h : t.Fits rest) (hascii : t.lexeme.IsAscii)
    (joined : Bool) : g.renameToken joined t = g.respellToken joined t := by
  cases h.shape with
  | word hword hkind _ =>
    rw [renameToken_of_word hkind, respellToken, hkind]
    rcases wordKind_cases t.lexeme with ⟨k, hk⟩ | hk
    · have hkeep := replace_reserved hg (mem_reservedWords k) hascii (same_of_wordKind hk)
      rw [hkeep, hk]
      split
      · rfl
      · obtain ⟨gap, kind, lexeme⟩ := t
        simp only at hk hkind ⊢
        rw [hkind, hk]
    · have hreplace := replace_word hg.toListsNames hword.ne_nil hword.forall_identifier hascii
      have hnew : wordKind (g.replace t.lexeme) = .identifier (g.replace t.lexeme) := by
        rcases rename_cases g t.lexeme with hkeep | ⟨e, he, -, htarget⟩
        · rw [hreplace, hkeep, hk]
        · rw [hreplace, htarget, wordKind_target hg he]
      rw [hnew, hk]
  | literal value hkind _ => rw [renameToken, respellToken, hkind]
  | name quote value _ hkind _ _ => rw [renameToken, respellToken, hkind]
  | unclosed quote body cause _ hkind _ _ _ _ => rw [renameToken, respellToken, hkind]
  | plain hkind _ _ => rw [renameToken_of_isPlain hkind, respellToken_of_isPlain hkind]

theorem renameTokens_scan (hg : g.KeepsApart) {s : Text} (hs : s.IsAscii) (inside : Bool) :
    g.renameTokens inside (scan s) = g.respellTokens inside (scan s) := by
  induction s using scan_induction generalizing inside with
  | gap gap hgap => rw [scan_of_gap_nil hgap, renameTokens_eof, respellTokens_eof]
  | token t rest hfits ih =>
    obtain ⟨htext, hrest⟩ := Text.Over.append_iff.1 hs
    rw [scan_of_fits hfits, renameTokens, respellTokens, ih hrest,
      renameToken_eq hg hfits (Text.Over.append_iff.1 htext).2]

theorem replaceNames_eq_respellTokens (hg : g.KeepsApart) {s : Text} (hs : s.IsAscii) :
    g.replaceNames s = textOf (g.respellTokens false (scan s)) := by
  rw [replaceNames_eq hg.toListsNames hs, renameTokens_scan hg hs]

theorem knows_doubled {q : Char} (hq : isIdentifierCharacter q = false) {v : Text} (h : g.Knows (doubled q v)) :
    g.Knows v :=
  ⟨h.ascii.subset (subset_doubled v), runs_doubled hq v ▸ h.words⟩

/-- A whole word of a text without targets is no target. -/
theorem Knows.word {front w rest : Text} (h : g.Knows (front ++ (w ++ rest))) (hw : IsWord w)
    (hfront : front.getLast?.any isIdentifierCharacter = false) (hrest : rest.head?.any isIdentifierCharacter = false) :
    g.Knows w := by
  have hmem := Text.mem_runs hw.ne_nil hw.forall_identifier hfront hrest
  have hruns : Text.runs isIdentifierCharacter (w ++ []) = w :: Text.runs isIdentifierCharacter [] :=
    Text.runs_run hw.ne_nil hw.forall_identifier rfl
  rw [List.append_assoc] at hmem
  rw [List.append_nil] at hruns
  refine ⟨(Text.Over.append_iff.1 (Text.Over.append_iff.1 h.ascii).2).1, fun v hv => ?_⟩
  rw [hruns] at hv
  obtain rfl := List.mem_singleton.1 hv
  exact h.words v hmem

/-- The name of a token of its own is replaced, and renaming keeps it apart from others. -/
theorem knows_name (hg : g.KeepsApart) {front : Text} {t : Token} {rest : Text} (h : t.Fits rest)
    (hscript : g.Knows (front ++ (t.lexeme ++ rest)))
    (hfront : t.lexeme.head?.any isIdentifierCharacter = true → front.getLast?.any isIdentifierCharacter = false)
    {n : Text} (hn : t.name? = some n) : g.Knows n ∧ (g.respellToken false t).name? = some (g.replace n) := by
  have hascii : t.lexeme.IsAscii := (Text.Over.append_iff.1 (Text.Over.append_iff.1 hscript.ascii).2).1
  cases h.shape with
  | word hword hkind hstop =>
    have hhead : t.lexeme.head?.any isIdentifierCharacter = true := by
      obtain ⟨c, l, hl, -⟩ := hword.cases
      rw [hl]
      exact hword.forall_identifier c (by simp [hl])
    have hknows := hscript.word hword (hfront hhead) hstop
    rcases wordKind_cases t.lexeme with ⟨k, hk⟩ | hk
    · obtain rfl : t.lexeme = n := by simpa [name?, hkind, hk] using hn
      have hkeep := replace_reserved hg (mem_reservedWords k) hascii (same_of_wordKind hk)
      refine ⟨hknows, ?_⟩
      rw [respellToken, hkind, hk, hkeep]
      exact hn
    · obtain rfl : t.lexeme = n := by simpa [name?, hkind, hk] using hn
      refine ⟨hknows, ?_⟩
      rw [respellToken, hkind, hk]
      rfl
  | name quote value hmem hkind hl hstop =>
    obtain rfl : value = n := by simpa [name?, hkind] using hn
    have hquote := not_identifier_of_quote (List.mem_cons_of_mem _ hmem)
    have hquote_ascii : quote.toNat < 128 := by
      rw [hl] at hascii
      exact hascii quote List.mem_cons_self
    refine ⟨?_, by rw [respellToken, hkind]; rfl⟩
    rw [hl, List.cons_append, knows_append_cons hquote hquote_ascii, List.append_assoc, List.singleton_append,
      knows_append_cons hquote hquote_ascii] at hscript
    exact knows_doubled hquote hscript.2.1
  | literal value hkind _ => simp [name?, hkind] at hn
  | unclosed quote body cause _ hkind _ _ _ _ => simp [name?, hkind] at hn
  | plain hkind _ _ =>
    unfold name? at hn
    split at hn <;> simp_all [TokenKind.isPlain]

/-- The tokens `us` are `ts` with renamed words; the first one stands behind a word or not. Of the names
among `ts` it is known that renaming keeps them apart. -/
inductive Renamed (g : Glossary) : Bool → List Token → List Token → Prop where
  | nil (inside : Bool) : Renamed g inside [] []
  | cons {inside : Bool} {t : Token} {ts us : List Token} (ascii : t.text.IsAscii)
      (name : t.isJoined inside = false → ∀ n ∈ t.name?, g.Knows n ∧ (g.respellToken false t).name? = some (g.replace n))
      (rest : Renamed g t.runsOn ts us) : Renamed g inside (t :: ts) (g.respellToken (t.isJoined inside) t :: us)

/-- The tokens of a script are renamed in step. The text `front` stands in front of them; a word that goes on
behind it is one that goes on behind the token in front. -/
theorem renamed_scan (hg : g.KeepsApart) {front s : Text} (hscript : g.Knows (front ++ s)) {inside : Bool}
    (hinside : front.getLast?.any isIdentifierCharacter = true → s.head?.any isIdentifierCharacter = true →
      inside = true) : g.Renamed inside (scan s) (g.respellTokens inside (scan s)) := by
  induction s using scan_induction generalizing front inside with
  | gap gap hgap =>
    rw [scan_of_gap_nil hgap, respellTokens]
    refine .cons ?_ (fun _ n hn => by simp [name?] at hn) (.nil _)
    have hascii := (Text.Over.append_iff.1 hscript.ascii).2
    simpa [Token.text, gapText, Trivia.textOf] using hascii
  | token t rest hfits ih =>
    have hascii := (Text.Over.append_iff.1 hscript.ascii).2
    rw [scan_of_fits hfits, respellTokens]
    refine .cons (Text.Over.append_iff.1 hascii).1 (fun hjoined n hn => ?_) (@ih (front ++ t.text) ?_ _ ?_)
    · have htext : front ++ (t.text ++ rest) = (front ++ t.gapText) ++ (t.lexeme ++ rest) := by
        simp [Token.text]
      rw [htext] at hscript
      refine knows_name hg hfits hscript (fun hhead => ?_) hn
      obtain ⟨c, l, hl⟩ := List.exists_cons_of_ne_nil hfits.lexeme_ne_nil
      by_cases hgap : t.gapText = []
      · -- nothing separates the token from a word that would go on to here
        rw [Token.isJoined, hgap, List.isEmpty_nil, Bool.and_true] at hjoined
        rw [Token.text, hgap, List.nil_append, hl] at hinside
        rw [hl] at hhead
        rw [hgap, List.append_nil, Bool.eq_false_iff]
        intro hlast
        rw [hinside hlast hhead] at hjoined
        cases hjoined
      · have hgapend := hfits.gap_eq
        rw [hl, List.cons_append] at hgapend
        rw [Text.getLast?_append_right _ hgap]
        exact gap_getLast? hgapend
    · rwa [List.append_assoc]
    · intro hlast hhead
      have hne := hfits.lexeme_ne_nil
      have hlexeme := (Text.Over.append_iff.1 (Text.Over.append_iff.1 hascii).1).2
      rw [Token.text, ← List.append_assoc, Text.getLast?_append_right _ hne] at hlast
      exact runsOn_of_identifier (hfits.shape) hne hlast hhead

/-! ## Runs of tokens -/

section Runs

variable {inside : Bool} {ts us : List Token}

theorem Renamed.eq (h : g.Renamed inside ts us) : us = g.respellTokens inside ts := by
  induction h with
  | nil => rfl
  | cons _ _ _ ih => rw [respellTokens, ← ih]

theorem Renamed.ascii (h : g.Renamed inside ts us) : (textOf ts).IsAscii := by
  induction h with
  | nil => simp [Text.Over]
  | cons ascii _ _ ih =>
    rw [textOf_cons]
    exact Text.Over.append_iff.2 ⟨ascii, ih⟩

theorem Renamed.length_eq (h : g.Renamed inside ts us) : us.length = ts.length := by
  induction h with
  | nil => rfl
  | cons _ _ _ ih => rw [List.length_cons, List.length_cons, ih]

theorem Renamed.take (h : g.Renamed inside ts us) (n : Nat) : g.Renamed inside (ts.take n) (us.take n) := by
  induction h generalizing n with
  | nil =>
    rw [List.take_nil]
    exact .nil _
  | cons ascii name _ ih =>
    cases n with
    | zero => exact .nil _
    | succ n => exact .cons ascii name (ih n)

theorem Renamed.taken {rest rest' : List Token} (h : g.Renamed inside ts us) (hrest : rest'.length = rest.length) :
    g.Renamed inside (taken ts rest) (taken us rest') := by
  unfold Token.taken
  rw [h.length_eq, hrest]
  exact h.take _

theorem respellToken_withGap (joined : Bool) (t : Token) (gap : List Trivia) :
    g.respellToken joined { t with gap := gap } = { g.respellToken joined t with gap := gap } := by
  obtain ⟨_, kind, lexeme⟩ := t
  unfold respellToken
  cases kind <;> cases joined <;> rfl

theorem textOf_respellTokens_eof (inside : Bool) (ts : List Token) :
    textOf (g.respellTokens inside (ts ++ [⟨[], .eof, []⟩])) = textOf (g.respellTokens inside ts) := by
  induction ts generalizing inside with
  | nil =>
    rw [List.nil_append, respellTokens_eof]
    rfl
  | cons t ts ih => rw [List.cons_append, respellTokens, respellTokens, textOf_cons, textOf_cons, ih]

/-- A verbatim piece of a script is replaced token by token. -/
theorem verbatim_respellTokens (hg : g.KeepsApart) (hts : Chain ts) (hascii : (textOf ts).IsAscii) :
    verbatim (g.respellTokens false ts) = g.replaceNames (verbatim ts) := by
  cases ts with
  | nil =>
    rw [verbatim, replaceNames_eq_respellTokens hg (by simp [Text.Over]), scan_of_gap_nil (gap_of_none rfl), respellTokens_eof]
    rfl
  | cons t ts =>
    have hchain : Chain (withGap [] (t :: ts)) := hts.withGap .none
    have htext : textOf (withGap [] (t :: ts)) = verbatim (t :: ts) := textOf_withGap (List.cons_ne_nil t ts) []
    have hverbatim : (verbatim (t :: ts)).IsAscii := by
      refine hascii.subset ?_
      rw [textOf_cons, Token.text, List.append_assoc]
      exact List.subset_append_right _ _
    rw [← htext, replaceNames_eq_respellTokens hg (htext ▸ hverbatim), scan_chain hchain, textOf_respellTokens_eof]
    show verbatim (g.respellTokens false (t :: ts)) = textOf (g.respellTokens false ({ t with gap := [] } :: ts))
    have hgap := respellToken_withGap (g := g) false t []
    rw [respellTokens, respellTokens, textOf_cons]
    simp only [Token.isJoined, Bool.false_and]
    rw [hgap]
    rfl

end Runs

/-! ## Looking at a token -/

section Kinds

variable {joined : Bool} {t : Token}

/-- Words and quotations are spelled anew, all other tokens stay. -/
theorem kind_respellToken_iff {k : TokenKind} (hidentifier : ∀ n, k ≠ .identifier n) (hquoted : ∀ n, k ≠ .quoted n) :
    (g.respellToken joined t).kind = k ↔ t.kind = k := by
  unfold respellToken
  split
  · next n hn =>
    have hk := hidentifier n
    have hk' := hidentifier (g.replace n)
    split <;> simp_all [eq_comm]
  · next n hn =>
    have hk := hquoted n
    have hk' := hquoted (g.replace n)
    simp_all [eq_comm]
  · rfl
  · rfl

theorem sameKind_respellToken (k : TokenKind) : k.sameKind (g.respellToken joined t).kind = k.sameKind t.kind := by
  unfold respellToken
  split
  · next n hn => split <;> simp [TokenKind.sameKind, TokenKind.ctorIdx, hn]
  · next n hn => simp [TokenKind.sameKind, TokenKind.ctorIdx, hn]
  · rfl
  · rfl

theorem keyword?_respellToken : (g.respellToken joined t).keyword? = t.keyword? := by
  obtain ⟨gap, kind, lexeme⟩ := t
  unfold respellToken
  cases kind <;> cases joined <;> rfl

theorem name?_respellToken_eq_none : (g.respellToken joined t).name? = none ↔ t.name? = none := by
  obtain ⟨gap, kind, lexeme⟩ := t
  unfold respellToken
  cases kind <;> cases joined <;> simp [name?]

theorem isEof_respellToken : (g.respellToken joined t).isEof = t.isEof := by
  rw [Bool.eq_iff_iff, Token.isEof, Token.isEof, beq_iff_eq, beq_iff_eq]
  exact kind_respellToken_iff (by simp) (by simp)

theorem respellToken_of_keyword {k : Keyword} (h : t.kind = .keyword k) : g.respellToken joined t = t := by
  rw [respellToken, h]

end Kinds

section Look

variable {inside : Bool} {ts us : List Token}

theorem Renamed.atKind (h : g.Renamed inside ts us) (k : TokenKind) : atKind k us = atKind k ts := by
  cases h with
  | nil => rfl
  | cons _ _ _ => exact sameKind_respellToken k

theorem Renamed.headKeyword? (h : g.Renamed inside ts us) : headKeyword? us = headKeyword? ts := by
  cases h with
  | nil => rfl
  | cons _ _ _ => exact keyword?_respellToken

theorem Renamed.atKeyword (h : g.Renamed inside ts us) (k : Keyword) : atKeyword k us = atKeyword k ts := by
  cases h with
  | nil => rfl
  | cons _ _ _ =>
    rw [Bool.eq_iff_iff, Token.atKeyword, Token.atKeyword, beq_iff_eq, beq_iff_eq]
    exact kind_respellToken_iff (by simp) (by simp)

theorem Renamed.atEnd (h : g.Renamed inside ts us) : atEnd us = atEnd ts := by
  cases h with
  | nil => rfl
  | cons _ _ _ =>
    rw [Bool.eq_iff_iff, Token.atEnd, Token.atEnd, beq_iff_eq, beq_iff_eq]
    exact kind_respellToken_iff (by simp) (by simp)

/-- A token is one of the reserved words exactly if it was one. -/
theorem isWord_respellToken (hg : g.KeepsApart) {joined : Bool} {t : Token}
    (hname : joined = false → ∀ n ∈ t.name?, g.Knows n ∧ (g.respellToken false t).name? = some (g.replace n))
    {w : Text} (hw : w ∈ reservedWords) : (g.respellToken joined t).isWord w = t.isWord w := by
  obtain ⟨gap, kind, lexeme⟩ := t
  cases kind with
  | identifier n =>
    cases joined with
    | true => rfl
    | false => exact same_reserved hg (hname rfl n rfl).1 hw
  | _ => rfl

theorem Renamed.atWord (hg : g.KeepsApart) (h : g.Renamed inside ts us) {w : Text} (hw : w ∈ reservedWords) :
    atWord w us = atWord w ts := by
  cases h with
  | nil => rfl
  | cons _ name _ => exact isWord_respellToken hg name hw

end Look

end Glossary

end DialectBridge
