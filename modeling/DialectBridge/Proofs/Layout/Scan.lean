import DialectBridge.Proofs.Layout.Tokens
import DialectBridge.Proofs.Lexical.Gaps
import DialectBridge.Proofs.Rename.Shapes
import DialectBridge.Proofs.Spacing.Readers

/-!
# The tokens of a tidied script

A tidied script is read as the tidied tokens (`tidied_scan`): they are the same but for their gaps. No gap
vanishes unless a semicolon stands in front of it, nothing but blanks and tabs in it and a quotation behind
it (`Token.isLoose`).
-/

namespace DialectBridge

open Scan

namespace Layout

/-! ## Open quotations -/

/-- Tidying an open quotation leaves its quotes in pairs. -/
theorem resume_doubled {q : Char} (hq : isBlank q = false) (hsemicolon : q ≠ ';') (v : Text) (behind : Bool) :
    resume behind (doubled q v) = doubled q (resume behind v) := by
  have hcopied {b : Text} (hb : ∀ c ∈ b, isBlank c = true) : doubled q b = b :=
    doubled_of_not_mem fun hmem => absurd (hb q hmem) (by simp [hq])
  have hother : (q == ';') = false := beq_eq_false_iff_ne.2 hsemicolon
  induction v using code_induction generalizing behind with
  | nil => rw [doubled, resume_nil, doubled]
  | sign c t hc ih =>
    rw [resume_cons hc, doubled, doubled]
    split
    · next heq => rw [resume_cons hq, resume_cons hq, hother, ih, heq, hother]
    · rw [resume_cons hc, ih]
  | run b y hb hy ih =>
    have hhead : (doubled q y).head?.any isBlank = false ∧ (doubled q y).isEmpty = y.isEmpty := by
      cases y with
      | nil => exact ⟨rfl, rfl⟩
      | cons d y =>
        rw [doubled]
        split
        · exact ⟨hq, rfl⟩
        · exact ⟨hy, rfl⟩
    rw [doubled_append, hcopied hb, resume_run hb hhead.1, resume_run hb hy, hhead.2, doubled_append,
      hcopied (tidyRun_blank hb _ _), ← resume_false, ih, resume_false]

/-! ## Gaps -/

section Gaps

variable {g : List Trivia} {y z : Text}

theorem tidyRun_false (last : Bool) (b : Text) : tidyRun false last b = collapse b := rfl

/-- A gap that stands behind no semicolon starts as it did. -/
theorem head?_tidyGap (hg : gap (Trivia.textOf g ++ y) = (g, y)) (hz : z.head? = y.head?) (last : Bool) :
    (tidyGap false last g ++ z).head? = (Trivia.textOf g ++ y).head? := by
  cases g with
  | nil => exact hz
  | cons x g =>
    obtain ⟨rest, htrivia, -⟩ := trivia?_of_gap_cons hg
    obtain ⟨c, u, htext⟩ := List.exists_cons_of_ne_nil (trivia?_text_ne_nil htrivia)
    cases x with
    | comment text =>
      obtain rfl : text = c :: u := htext
      rfl
    | blank run =>
      obtain rfl : run = c :: u := htext
      have hhead : (collapse (c :: u)).head? = some c := head?_collapse _
      obtain ⟨u', hcollapse⟩ := List.head?_eq_some_iff.1 hhead
      rw [tidyGap, tidyRun_false, hcollapse]
      rfl

/-- What tidying makes of a gap is a gap, with the tidied pieces. -/
theorem gap_tidyGap (hg : gap (Trivia.textOf g ++ y) = (g, y)) (hhead : z.head? = y.head?) (hz : trivia? z = none)
    (behind last : Bool) : (gap (tidyGap behind last g ++ z)).2 = z ∧
      ∀ ss, ((gap (tidyGap behind last g ++ z)).1.map Segment.ofTrivia).foldr Segment.push ss =
        ((tidiedGap behind last g).map Segment.ofTrivia).foldr Segment.push ss := by
  induction g generalizing behind with
  | nil =>
    have hnone := gap_of_none hz
    rw [tidyGap, List.nil_append, hnone]
    exact ⟨rfl, fun _ => rfl⟩
  | cons x g ih =>
    obtain ⟨rest, htrivia, hrest⟩ := trivia?_of_gap_cons hg
    have htext := trivia?_text htrivia
    rw [Trivia.textOf_cons, List.append_assoc] at htext
    obtain rfl := List.append_cancel_left htext
    have htail := ih hrest false
    have hstart := head?_tidyGap hrest hhead last
    cases x with
    | blank run =>
      obtain ⟨hblank, hstop⟩ := blank_of_trivia? htrivia
      rw [tidyGap, tidiedGap, List.append_assoc, List.map_cons]
      have hrun := tidyRun_blank hblank behind (endsCode last g)
      cases hcons : tidyRun behind (endsCode last g) run with
      | nil =>
        -- the run vanishes
        rw [List.nil_append]
        exact ⟨htail.1, fun ss => by rw [htail.2, List.foldr_cons, Segment.push_of_empty (s := Segment.ofTrivia _) rfl]⟩
      | cons c b =>
        rw [hcons] at hrun
        obtain ⟨hc, hb⟩ := List.forall_mem_cons.1 hrun
        rw [← hstart] at hstop
        have hread : trivia? (c :: b ++ (tidyGap false last g ++ z)) = some (.blank (c :: b), tidyGap false last g ++ z) := by
          rw [List.cons_append, trivia?_blank hc, Text.takeWhile_run hb hstop, Text.dropWhile_run hb hstop]
        rw [gap_of_trivia hread]
        exact ⟨htail.1, fun ss => congrArg (Segment.push _) (htail.2 ss)⟩
    | comment text =>
      have hread : trivia? (text ++ (tidyGap false last g ++ z)) = some (.comment text, tidyGap false last g ++ z) := by
        by_cases hnil : Trivia.textOf g ++ y = []
        · rw [hnil, List.head?_nil, List.head?_eq_none_iff] at hstart
          rw [hstart, List.append_nil]
          exact trivia?_self htrivia
        · exact trivia?_append htrivia hnil hstart
      rw [tidyGap, tidiedGap, List.append_assoc, gap_of_trivia hread]
      exact ⟨htail.1, fun ss => congrArg (Segment.push _) (htail.2 ss)⟩

/-- What stands behind a gap does not matter to the tokens in front of the gap, and tidying neither. -/
theorem alike_tidyGap {t : Text} (hg : gap t = (g, y)) (hne : g ≠ []) (last : Bool) (l p x z : Text) :
    Alike l (p ++ (Trivia.textOf g ++ x)) (p ++ (tidyGap false last g ++ z)) := by
  obtain ⟨w, g, rfl⟩ := List.exists_cons_of_ne_nil hne
  obtain ⟨rest, htrivia, -⟩ := trivia?_of_gap_cons hg
  rw [Trivia.textOf_cons]
  rcases trivia?_cases htrivia with ⟨u, -, rfl, -⟩ | ⟨u, -, rfl, -⟩ | ⟨c, u, -, hc, rfl, -⟩
  · exact .of_pair l p _ _ _ _
  · exact .of_pair l p _ _ _ _
  · have hhead : (collapse (c :: u.takeWhile isBlank)).head? = some c := head?_collapse _
    obtain ⟨u', hcollapse⟩ := List.head?_eq_some_iff.1 hhead
    rw [tidyGap, tidyRun_false, hcollapse]
    exact .of_sign (isNoNumberSign_of_blank hc) l p _ _

end Gaps

end Layout

/-! ## Tokens in front of other text -/

open Layout

/-- A semicolon stays what it is, whatever follows. -/
theorem Token.Fits.of_semicolon {t : Token} {rest : Text} (h : t.Fits rest) (hkind : t.kind = .semicolon)
    (hlexeme : t.lexeme = [';']) (s : Text) : t.Fits s := by
  have hnone : trivia? (';' :: ([] ++ s)) = none :=
    trivia?_eq_none_iff.2 ⟨by decide, by simp, by simp⟩
  exact h.replace hlexeme hnone (by rw [hkind]; rfl)

theorem isNoNumberSign_of_quote {q : Char} (hq : q ∈ ['\x27', '\x22', '\x60']) : isNoNumberSign q = true := by
  simp only [List.mem_cons, List.not_mem_nil, or_false] at hq
  rcases hq with rfl | rfl | rfl <;> decide

namespace Layout

theorem tidyLexeme_of_unclosed {t : Token} {q : Char} {body : Text} {cause : LexicalError}
    (hq : q ∈ ['\x27', '\x22', '\x60']) (hkind : t.kind = .error cause) (hlexeme : t.lexeme = q :: body) :
    tidyLexeme t = q :: tidyCode body := by
  have htidy : tidyLexeme t = tidyCode t.lexeme := by simp [tidyLexeme, hkind]
  rw [htidy, hlexeme, ← resume_false, resume_cons (blank_of_quote hq).1, beq_eq_false_iff_ne.2 (blank_of_quote hq).2,
    resume_false]

/-- Behind a token, tidying makes nothing look more like a part of it. -/
theorem alike_tidyTokens (l p script : Text) : Alike l (p ++ script) (p ++ tidyTokens false (scan script)) := by
  induction script using scan_induction generalizing p with
  | gap g hg =>
    rw [scan_of_gap_nil hg, tidyTokens, tidyToken, tidyTokens, List.append_assoc]
    by_cases hne : g = []
    · subst hne
      exact .refl l _
    · have hstart := alike_tidyGap hg hne true l p [] []
      rwa [List.append_nil] at hstart
  | token t rest hfits ih =>
    rw [scan_of_fits hfits, tidyTokens, tidyToken, Token.text, List.append_assoc, List.append_assoc]
    by_cases hne : t.gap = []
    · have hgap : t.gapText = [] := by rw [Token.gapText, hne]; rfl
      have hcopied (hclosed : ∀ cause, t.kind ≠ .error cause) (hother : t.kind ≠ .semicolon) :
          Alike l (p ++ (t.lexeme ++ rest)) (p ++ (tidyLexeme t ++ tidyTokens (t.kind == .semicolon) (scan rest))) := by
        have hmore := ih (p ++ t.lexeme)
        rwa [tidyLexeme_of_closed hclosed, beq_eq_false_iff_ne.2 hother, ← List.append_assoc, ← List.append_assoc]
      rw [hgap, hne, tidyGap, List.nil_append, List.nil_append]
      -- without a gap the token itself comes next, and it starts as it did
      cases hfits.layoutShape with
      | quotation kind =>
        obtain ⟨-, hclosed, hother⟩ := ofLexeme_of_quotation kind
        exact hcopied hclosed hother
      | code _ closed other _ => exact hcopied closed other
      | semicolon kind lexeme =>
        rw [tidyLexeme_of_closed (by simp [kind]), lexeme]
        exact .of_sign (by decide) l p _ _
      | unclosed cause kind =>
        obtain ⟨q, body, hq, hlexeme, -⟩ := hfits.exists_unclosed kind
        rw [tidyLexeme_of_unclosed hq kind hlexeme, hlexeme]
        exact .of_sign (isNoNumberSign_of_quote hq) l p _ _
    · exact alike_tidyGap hfits.gap_eq hne _ l p _ _

/-- A token that is no open quotation may stand behind its tidied gap and in front of tidied tokens. -/
theorem exists_fits_tidied {t : Token} {rest : Text} (h : t.Fits rest) (hclosed : ∀ cause, t.kind ≠ .error cause)
    (behind last : Bool) : ∃ g, Trivia.textOf g = tidyGap behind last t.gap ∧
      Token.Fits { t with gap := g } (tidyTokens (t.kind == .semicolon) (scan rest)) := by
  have hfits : t.Fits (tidyTokens (t.kind == .semicolon) (scan rest)) := by
    by_cases hkind : t.kind = .semicolon
    · cases h.layoutShape with
      | semicolon _ lexeme => exact h.of_semicolon hkind lexeme _
      | quotation kind => exact absurd hkind (ofLexeme_of_quotation kind).2.2
      | unclosed cause kind => exact absurd kind (hclosed cause)
      | code _ _ other _ => exact absurd hkind other
    · rw [beq_eq_false_iff_ne.2 hkind]
      exact h.alike (alike_tidyTokens t.lexeme [] rest)
  have hgap := h.gap_eq
  rw [Token.text, List.append_assoc] at hgap
  refine hfits.regap (gap_tidyGap hgap ?_ hfits.trivia?_eq_none behind last).1
  obtain ⟨c, l, hl, -⟩ := h.token_eq
  rw [hl]
  rfl

/-- So may an open quotation. -/
theorem exists_fits_unclosed {t : Token} {rest : Text} {cause : LexicalError} (h : t.Fits rest)
    (hkind : t.kind = .error cause) (behind last : Bool) : ∃ g, Trivia.textOf g = tidyGap behind last t.gap ∧
      Token.Fits ⟨g, t.kind, tidyLexeme t⟩ [] := by
  obtain ⟨q, body, hq, hlexeme, hopen, hreads⟩ := h.exists_unclosed hkind
  have htidied : quotedBody q (tidyCode body) = none := by
    obtain ⟨v, rfl⟩ := quotedBody_eq_none_iff.1 hopen
    rw [← resume_false, resume_doubled (blank_of_quote hq).1 (blank_of_quote hq).2]
    exact quotedBody_eq_none_iff.2 ⟨_, rfl⟩
  have hfits := hreads _ htidied
  rw [← tidyLexeme_of_unclosed hq hkind hlexeme] at hfits
  have hgap := h.gap_eq
  rw [Token.text, List.append_assoc] at hgap
  refine hfits.regap (gap_tidyGap hgap ?_ hfits.trivia?_eq_none behind last).1
  rw [tidyLexeme_of_unclosed hq hkind hlexeme, hlexeme]
  rfl

/-- A tidied token is read in front of the tidied tokens behind it. -/
theorem exists_fits_tidyToken {t : Token} {rest : Text} (h : t.Fits rest) (behind : Bool) :
    ∃ g, tidyToken behind t = Token.text ⟨g, t.kind, tidyLexeme t⟩ ∧
      Token.Fits ⟨g, t.kind, tidyLexeme t⟩ (tidyTokens (t.kind == .semicolon) (scan rest)) := by
  by_cases hclosed : ∀ cause, t.kind ≠ .error cause
  · obtain ⟨g, htext, hread⟩ := exists_fits_tidied h hclosed behind (t.isQuotation || t.isEof)
    refine ⟨g, ?_, ?_⟩
    · rw [tidyToken, ← htext]
      rfl
    · rwa [tidyLexeme_of_closed hclosed]
  · -- an open quotation is the rest of the script, and it is tidied with the code
    obtain ⟨cause, hkind⟩ : ∃ cause, t.kind = .error cause := by simpa using hclosed
    obtain ⟨g, htext, hread⟩ := exists_fits_unclosed h hkind behind (t.isQuotation || t.isEof)
    obtain rfl := h.rest_eq_nil hkind
    have hend : tidyTokens (t.kind == .semicolon) (scan []) = [] := by
      rw [scan_of_gap_nil (g := []) (gap_of_none rfl)]
      rfl
    refine ⟨g, ?_, ?_⟩
    · rw [tidyToken, ← htext]
      rfl
    · rwa [hend]

end Layout

/-! ## Gaps that vanish -/

/-- A quotation behind nothing but blanks and tabs. Behind a semicolon its gap vanishes. -/
def Token.isLoose (t : Token) : Bool :=
  t.isQuotation && !t.gap.isEmpty && t.gapText.all isSpace

namespace Layout

theorem tidyGap_eq_nil {g : List Trivia} {y : Text} {last : Bool} (hg : gap (Trivia.textOf g ++ y) = (g, y))
    (h : tidyGap false last g = []) : g = [] := by
  cases g with
  | nil => rfl
  | cons x g =>
    obtain ⟨rest, htrivia, -⟩ := trivia?_of_gap_cons hg
    have hne := trivia?_text_ne_nil htrivia
    cases x with
    | comment text => exact absurd (List.append_eq_nil_iff.1 h).1 hne
    | blank run => exact absurd (collapse_eq_nil.1 (List.append_eq_nil_iff.1 h).1) hne

/-- Only the gap of a loose quotation behind a semicolon vanishes. -/
theorem tidyGap_eq_nil_iff {t : Token} {rest : Text} (h : t.Fits rest) {behind : Bool}
    (hloose : behind = true → t.isLoose = false) :
    tidyGap behind (t.isQuotation || t.isEof) t.gap = [] ↔ t.gap = [] := by
  refine ⟨fun hnil => ?_, fun hnil => by rw [hnil, tidyGap]⟩
  have hgap := h.gap_eq
  have heof : t.isEof = false := beq_eq_false_iff_ne.2 h.kind_ne_eof
  rw [Token.text, List.append_assoc] at hgap
  rw [heof, Bool.or_false] at hnil
  cases hg : t.gap with
  | nil => rfl
  | cons x g =>
    rw [Token.gapText, hg] at hgap
    rw [hg] at hnil
    obtain ⟨tail, htrivia, htail⟩ := trivia?_of_gap_cons hgap
    have hne := trivia?_text_ne_nil htrivia
    have htext := trivia?_text htrivia
    rw [List.flatMap_cons, List.append_assoc] at htext
    obtain rfl := List.append_cancel_left htext
    cases x with
    | comment text => exact absurd (List.append_eq_nil_iff.1 hnil).1 hne
    | blank run =>
      obtain ⟨hrun, hmore⟩ := List.append_eq_nil_iff.1 hnil
      obtain rfl := tidyGap_eq_nil htail hmore
      obtain ⟨hbehind, hlast, hspaces⟩ := eq_nil_of_tidyRun hne hrun
      have hquotation : t.isQuotation = true := hlast
      have hall : t.gapText.all isSpace = true := by
        rw [Token.gapText, hg]
        exact List.all_eq_true.2 (by simpa [Trivia.text] using hspaces)
      have hnone := hloose hbehind
      rw [Token.isLoose, hquotation, hg, hall] at hnone
      cases hnone

/-- The gap of a token that fits is empty if it has no text. -/
theorem gapText_eq_nil_iff {t : Token} {rest : Text} (h : t.Fits rest) : t.gapText = [] ↔ t.gap = [] := by
  refine ⟨fun hnil => ?_, fun hnil => by rw [Token.gapText, hnil]; rfl⟩
  have hgap := h.gap_eq
  rw [Token.text, hnil, List.nil_append, gap_of_none h.trivia?_eq_none] at hgap
  exact (congrArg Prod.fst hgap).symm

/-! ## Scripts -/

open Token

/-- The tokens `us` are the tidied tokens `ts`, the first of which stands behind a semicolon or not. No gap
vanishes but those of loose quotations behind semicolons. -/
inductive Tidied : Bool → List Token → List Token → Prop where
  | nil (behind : Bool) : Tidied behind [] []
  | cons {behind : Bool} {t u : Token} {ts us : List Token} (agree : AgreeUpToGap t u)
      (gap : (behind = true → t.isLoose = false) → t.kind ≠ .eof → (u.gap = [] ↔ t.gap = []))
      (text : u.text = tidyToken behind t) (rest : Tidied (t.kind == .semicolon) ts us) :
      Tidied behind (t :: ts) (u :: us)

theorem Tidied.agree {behind : Bool} {ts us : List Token} (h : Tidied behind ts us) :
    List.Forall₂ AgreeUpToGap ts us := by
  induction h with
  | nil => exact .nil
  | cons agree _ _ _ ih => exact .cons agree ih

theorem tidyTokens_end (behind : Bool) (g : List Trivia) :
    tidyTokens behind [⟨g, .eof, []⟩] = tidyGap behind true g := by
  rw [tidyTokens, tidyToken, tidyTokens]
  simp [tidyLexeme, Token.isEof]

/-- A tidied script is read as the tidied tokens. -/
theorem tidied_scan (script : Text) (behind : Bool) :
    Tidied behind (scan script) (scan (tidyTokens behind (scan script))) := by
  induction script using scan_induction generalizing behind with
  | gap g hg =>
    have hwhole : Scan.gap (Trivia.textOf g ++ []) = (g, []) := by rwa [List.append_nil]
    have hgap := (gap_tidyGap hwhole rfl (show trivia? [] = none from rfl) behind true).1
    have htext := gap_text (tidyGap behind true g)
    rw [List.append_nil] at hgap
    rw [hgap, List.append_nil] at htext
    have hscan := scan_of_gap_nil (Prod.ext rfl hgap)
    rw [scan_of_gap_nil hg, tidyTokens_end, hscan]
    refine .cons ⟨rfl, fun _ => rfl⟩ (fun _ h => absurd rfl h) ?_ (.nil _)
    show Trivia.textOf _ ++ [] = tidyGap behind true g ++ []
    rw [List.append_nil, List.append_nil]
    exact htext
  | token t rest hfits ih =>
    obtain ⟨g, hsame, hread⟩ := exists_fits_tidyToken hfits behind
    rw [scan_of_fits hfits, tidyTokens, hsame, scan_of_fits hread]
    refine .cons ⟨rfl, fun hclosed => tidyLexeme_of_closed hclosed⟩ (fun hloose _ => ?_) hsame.symm (ih _)
    have htext : Token.gapText ⟨g, t.kind, tidyLexeme t⟩ = tidyGap behind (t.isQuotation || t.isEof) t.gap :=
      (List.append_cancel_right hsame).symm
    rw [← tidyGap_eq_nil_iff hfits hloose, ← htext]
    exact (gapText_eq_nil_iff hread).symm

end Layout

end DialectBridge
