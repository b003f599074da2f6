import DialectBridge.Proofs.Layout.Code
import DialectBridge.Proofs.Lexical.Chain
import DialectBridge.Proofs.Lexical.Shielded
import DialectBridge.Proofs.Rename.Shapes

/-!
# Tidying token by token

A segment of code holds many tokens and their gaps, but what tidying makes of a token depends on the
token and on whether a semicolon stands in front of it (`tidyToken`): words, numbers and signs are
copied, and so are quotations and comments. So a script is tidied token by token, its segments
(`tidiedSegments_gap`, `tidiedSegments_lexeme`) and its text (`changeCode_tidyCode`).
-/

namespace DialectBridge

open Scan

/-- A string literal or a quoted name. -/
def Token.isQuotation (t : Token) : Bool :=
  match t.kind with
  | .string _ | .quoted _ => true
  | _ => false

/-- The shapes of tokens as far as the layout distinguishes them. -/
inductive Token.LayoutShape (t : Token) : Prop where
  | quotation (kind : t.isQuotation = true)
  | unclosed (cause : LexicalError) (kind : t.kind = .error cause)
  | semicolon (kind : t.kind = .semicolon) (lexeme : t.lexeme = [';'])
  | code (quotation : t.isQuotation = false) (closed : ∀ cause, t.kind ≠ .error cause) (other : t.kind ≠ .semicolon)
      (lexeme : ∀ c ∈ t.lexeme, isBlank c = false ∧ c ≠ ';')

/-- A number or a sign holds no whitespace, and no semicolon unless it is one. -/
theorem Token.Fits.plain_lexeme {t : Token} {rest : Text} (h : t.Fits rest) (hplain : t.kind.isPlain = true) :
    (t.kind = .semicolon ∧ t.lexeme = [';']) ∨
      (t.kind ≠ .semicolon ∧ ∀ c ∈ t.lexeme, isBlank c = false ∧ c ≠ ';') := by
  obtain ⟨c, l, hl, htoken⟩ := h.token_eq
  have hnone := h.trivia?_eq_none
  rw [hl, List.cons_append] at hnone
  have hblank : isBlank c = false := (trivia?_eq_none_iff.1 hnone).1
  have hsign (hc : c ≠ ';') (hsingle : l = []) : ∀ d ∈ t.lexeme, isBlank d = false ∧ d ≠ ';' := by
    rw [hl, hsingle]
    exact List.forall_mem_singleton.2 ⟨hblank, hc⟩
  unfold token at htoken
  split at htoken
  case h_4 =>
    obtain ⟨hkind, rfl, -⟩ := by simpa using htoken
    exact .inl ⟨hkind.symm, hl⟩
  case h_1 | h_2 | h_3 | h_5 | h_6 =>
    obtain ⟨hkind, rfl, -⟩ := by simpa using htoken
    exact .inr ⟨by simp [← hkind], hsign (by decide) rfl⟩
  case h_7 | h_8 | h_9 =>
    -- quotations are not plain
    rcases quotedToken_cases htoken with ⟨v, hkind, -⟩ | ⟨hkind, -⟩ <;> rw [hkind] at hplain <;> cases hplain
  case h_10 =>
    split at htoken
    · obtain ⟨hkind, rfl, -⟩ := by simpa using htoken
      refine .inr ⟨by simp [← hkind], ?_⟩
      rw [hl]
      exact List.forall_mem_cons.2 ⟨⟨hblank, by decide⟩, List.forall_mem_singleton.2 ⟨hblank, by decide⟩⟩
    · obtain ⟨hkind, hsingle⟩ : TokenKind.symbol ':' = t.kind ∧ l = [] := by simpa using htoken
      exact .inr ⟨by simp [← hkind], hsign (by decide) hsingle⟩
  case h_11 hsemicolon _ _ _ _ _ _ =>
    split at htoken
    · next hdigit =>
      obtain ⟨hkind, hnumber⟩ : TokenKind.number (number c (l ++ rest)).1 = t.kind ∧
          number c (l ++ rest) = (c :: l, rest) := by simpa [Prod.ext_iff] using htoken
      have hcharacters := number_characters hdigit (l ++ rest)
      rw [hnumber, ← hl] at hcharacters
      refine .inr ⟨by simp [← hkind], fun d hd => ⟨not_blank_of_number (hcharacters d hd), ?_⟩⟩
      rintro rfl
      exact absurd (hcharacters _ hd) (by decide)
    · split at htoken
      · -- nor are words
        obtain ⟨hkind, -⟩ : wordKind (c :: (l ++ rest).takeWhile isIdentifierCharacter) = t.kind ∧ _ := by
          simpa using htoken
        rw [← hkind] at hplain
        rcases wordKind_cases (c :: (l ++ rest).takeWhile isIdentifierCharacter) with ⟨k, hk⟩ | hk <;>
          rw [hk] at hplain <;> cases hplain
      · obtain ⟨hkind, hsingle⟩ : TokenKind.symbol c = t.kind ∧ l = [] := by simpa using htoken
        exact .inr ⟨by simp [← hkind], hsign hsemicolon hsingle⟩

theorem IsWord.not_blank_semicolon {w : Text} (h : IsWord w) : ∀ c ∈ w, isBlank c = false ∧ c ≠ ';' := by
  intro c hc
  have hident := h.forall_identifier c hc
  refine ⟨not_blank_of_identifier hident, ?_⟩
  rintro rfl
  exact absurd hident (by decide +kernel)

theorem Token.Fits.layoutShape {t : Token} {rest : Text} (h : t.Fits rest) : t.LayoutShape := by
  cases h.shape with
  | word hword hkind _ =>
    rcases wordKind_cases t.lexeme with ⟨k, hk⟩ | hk <;> rw [hk] at hkind <;>
      exact .code (by rw [isQuotation, hkind]) (by simp [hkind]) (by simp [hkind]) hword.not_blank_semicolon
  | literal _ hkind _ => exact .quotation (by rw [isQuotation, hkind])
  | name _ _ _ hkind _ _ => exact .quotation (by rw [isQuotation, hkind])
  | unclosed _ _ cause _ hkind _ _ _ _ => exact .unclosed cause hkind
  | plain hplain _ _ =>
    have hcode : t.isQuotation = false ∧ ∀ cause, t.kind ≠ .error cause := by
      unfold isQuotation
      cases hkind : t.kind <;> simp_all [TokenKind.isPlain]
    rcases h.plain_lexeme hplain with ⟨hkind, hlexeme⟩ | ⟨hother, hlexeme⟩
    · exact .semicolon hkind hlexeme
    · exact .code hcode.1 hcode.2 hother hlexeme

namespace Layout

open Segment

/-! ## Segments -/

/-- The code that segments start with. -/
def codeFront : List Segment → Text
  | ⟨.code, code⟩ :: _ => code
  | _ => []

/-- The segments behind the code that they start with. -/
def behindCode : List Segment → List Segment
  | ⟨.code, _⟩ :: ss => ss
  | ss => ss

/-- What tidying makes of a segment. -/
def tidySegment (s : Segment) : Text :=
  if s.kind == .code then tidyCode s.text else s.text

/-- What tidying makes of segments behind a semicolon or elsewhere. -/
def resumeSegments (behind : Bool) (ss : List Segment) : Text :=
  resume behind (codeFront ss) ++ (behindCode ss).flatMap tidySegment

/-- The segments that tidying makes of segments behind a semicolon or elsewhere. -/
def tidiedSegments (behind : Bool) (ss : List Segment) : List Segment :=
  push ⟨.code, resume behind (codeFront ss)⟩ (merge ((behindCode ss).map (recode tidyCode)))

theorem textOf_map_recode (ss : List Segment) : textOf (ss.map (recode tidyCode)) = ss.flatMap tidySegment := by
  induction ss with
  | nil => rfl
  | cons s ss ih =>
    have htext : (recode tidyCode s).text = tidySegment s := by
      by_cases hs : s.kind = .code <;> simp [recode, tidySegment, hs]
    rw [List.map_cons, textOf_cons, ih, htext, List.flatMap_cons]

theorem textOf_tidiedSegments (behind : Bool) (ss : List Segment) :
    textOf (tidiedSegments behind ss) = resumeSegments behind ss := by
  rw [tidiedSegments, textOf_push, textOf_merge, textOf_map_recode, resumeSegments]

theorem tidiedSegments_false (ss : List Segment) :
    tidiedSegments false ss = merge (ss.map (recode tidyCode)) := by
  match ss with
  | [] | ⟨.literal, _⟩ :: _ | ⟨.quoted, _⟩ :: _ | ⟨.comment, _⟩ :: _ =>
    rw [tidiedSegments, codeFront, resume_nil, push_of_empty rfl, behindCode] <;> simp
  | ⟨.code, code⟩ :: ss => rfl

theorem tidiedSegments_nil (behind : Bool) : tidiedSegments behind [] = [] := by
  simp [tidiedSegments, codeFront, behindCode, push_of_empty]

theorem resumeSegments_false (ss : List Segment) : resumeSegments false ss = ss.flatMap tidySegment := by
  rw [← textOf_tidiedSegments, tidiedSegments_false, textOf_merge, textOf_map_recode]

theorem changeCode_eq (t : Text) : changeCode tidyCode t = resumeSegments false (segments t) :=
  (resumeSegments_false _).symm

theorem push_code_parts (x : Text) (ss : List Segment) :
    codeFront (push ⟨.code, x⟩ ss) = x ++ codeFront ss ∧ behindCode (push ⟨.code, x⟩ ss) = behindCode ss := by
  match ss with
  | ⟨.code, code⟩ :: ss => exact ⟨rfl, rfl⟩
  | [] | ⟨.literal, _⟩ :: _ | ⟨.quoted, _⟩ :: _ | ⟨.comment, _⟩ :: _ =>
    cases x with
    | nil => exact ⟨rfl, rfl⟩
    | cons c x => exact ⟨(List.append_nil _).symm, rfl⟩

theorem push_code_append (a b : Text) (ss : List Segment) :
    push ⟨.code, a ++ b⟩ ss = push ⟨.code, a⟩ (push ⟨.code, b⟩ ss) := by
  match ss with
  | ⟨.code, code⟩ :: ss => rw [push_code, push_code, push_code, List.append_assoc]
  | [] | ⟨.literal, _⟩ :: _ | ⟨.quoted, _⟩ :: _ | ⟨.comment, _⟩ :: _ =>
    cases b with
    | nil => rw [List.append_nil, push_of_empty (s := ⟨.code, []⟩) rfl]
    | cons c b =>
      cases a with
      | nil => exact (push_of_empty rfl _).symm
      | cons d a => rfl

theorem tidiedSegments_push_code (behind : Bool) (x : Text) (ss : List Segment) :
    tidiedSegments behind (push ⟨.code, x⟩ ss) =
      push ⟨.code, resume behind (x ++ codeFront ss)⟩ (merge ((behindCode ss).map (recode tidyCode))) := by
  rw [tidiedSegments, (push_code_parts x ss).1, (push_code_parts x ss).2]

/-- Other segments than code are copied, and no code goes on in front of them. -/
theorem push_other {s : Segment} (hs : s.kind ≠ .code) (hne : s.text ≠ []) (ss : List Segment) (behind : Bool) :
    codeFront (push s ss) = [] ∧ tidiedSegments behind (push s ss) = push s (tidiedSegments false ss) := by
  have hpush : push s ss = s :: ss := push_apart hne fun h => hs h.1
  have hfront : codeFront (s :: ss) = [] ∧ behindCode (s :: ss) = s :: ss := by
    obtain ⟨_ | _ | _ | _, text⟩ := s
    · exact absurd rfl hs
    all_goals exact ⟨rfl, rfl⟩
  rw [hpush, tidiedSegments, hfront.1, hfront.2, resume_nil, push_of_empty rfl, List.map_cons, recode_of_ne hs,
    merge_cons, tidiedSegments_false]
  exact ⟨rfl, rfl⟩

/-! ## Gaps -/

/-- No code follows what stands in front of a gap. The flag says that none follows the gap. -/
def endsCode (last : Bool) : List Trivia → Bool
  | [] => last
  | .comment _ :: _ => true
  | .blank _ :: _ => false

/-- What tidying makes of a gap, behind a semicolon or not, where `last` says that no code follows it. -/
def tidyGap (behind last : Bool) : List Trivia → Text
  | [] => []
  | .comment text :: g => text ++ tidyGap false last g
  | .blank run :: g => tidyRun behind (endsCode last g) run ++ tidyGap false last g

/-- The pieces that tidying makes of a gap. A run of whitespace may become empty. -/
def tidiedGap (behind last : Bool) : List Trivia → List Trivia
  | [] => []
  | .comment text :: g => .comment text :: tidiedGap false last g
  | .blank run :: g => .blank (tidyRun behind (endsCode last g) run) :: tidiedGap false last g

theorem textOf_tidiedGap (behind last : Bool) (g : List Trivia) :
    Trivia.textOf (tidiedGap behind last g) = tidyGap behind last g := by
  induction g generalizing behind with
  | nil => rfl
  | cons x g ih => cases x <;> rw [tidiedGap, Trivia.textOf_cons, ih, tidyGap] <;> rfl

theorem codeFront_initial (ss : List Segment) : codeFront ss <+: textOf ss := by
  match ss with
  | [] | ⟨.literal, _⟩ :: _ | ⟨.quoted, _⟩ :: _ | ⟨.comment, _⟩ :: _ => exact List.nil_prefix
  | ⟨.code, code⟩ :: ss =>
    rw [textOf_cons]
    exact List.prefix_append _ _

section Gaps

variable {g : List Trivia} {y : Text} {ss : List Segment}

theorem isEmpty_codeFront (hg : gap (Trivia.textOf g ++ y) = (g, y)) :
    (codeFront ((g.map ofTrivia).foldr push ss)).isEmpty = endsCode (codeFront ss).isEmpty g := by
  cases g with
  | nil => rfl
  | cons x g =>
    obtain ⟨rest, htrivia, -⟩ := trivia?_of_gap_cons hg
    have hne := trivia?_text_ne_nil htrivia
    rw [List.map_cons, List.foldr_cons]
    cases x with
    | comment text =>
      rw [(push_other (by simp [ofTrivia]) hne _ false).1]
      rfl
    | blank run =>
      rw [ofTrivia, (push_code_parts run _).1]
      exact List.isEmpty_eq_false_iff.2 fun h => hne (List.append_eq_nil_iff.1 h).1

/-- A gap is tidied piece by piece. -/
theorem tidiedSegments_gap (hg : gap (Trivia.textOf g ++ y) = (g, y)) (hss : textOf ss = y) (behind : Bool) :
    tidiedSegments behind ((g.map ofTrivia).foldr push ss) =
      ((tidiedGap behind (codeFront ss).isEmpty g).map ofTrivia).foldr push
        (tidiedSegments (behind && g.isEmpty) ss) := by
  induction g generalizing behind with
  | nil => simp [tidiedGap]
  | cons x g ih =>
    obtain ⟨rest, htrivia, hrest⟩ := trivia?_of_gap_cons hg
    have hne := trivia?_text_ne_nil htrivia
    have htext := trivia?_text htrivia
    rw [Trivia.textOf_cons, List.append_assoc] at htext
    obtain rfl := List.append_cancel_left htext
    have htail := ih hrest false
    rw [Bool.false_and] at htail
    rw [List.map_cons, List.foldr_cons, List.isEmpty_cons, Bool.and_false]
    cases x with
    | comment text =>
      rw [(push_other (by simp [ofTrivia]) hne _ behind).2, htail, tidiedGap]
      rfl
    | blank run =>
      obtain ⟨hblank, hstop⟩ := blank_of_trivia? htrivia
      have hfront : (codeFront ((g.map ofTrivia).foldr push ss)).head?.any isBlank = false := by
        obtain ⟨more, hmore⟩ := codeFront_initial ((g.map ofTrivia).foldr push ss)
        rw [textOf_foldr_push, textOf_map_ofTrivia, hss] at hmore
        rw [← hmore] at hstop
        cases hcode : codeFront ((g.map ofTrivia).foldr push ss) with
        | nil => rfl
        | cons c code => rwa [hcode] at hstop
      rw [ofTrivia, tidiedSegments_push_code, resume_run hblank hfront, isEmpty_codeFront hrest, tidiedGap,
        push_code_append, List.map_cons, List.foldr_cons, ← htail]
      rfl

end Gaps

/-! ## Tokens -/

/-- What tidying makes of a lexeme: only a quote that is left open holds whitespace that is changed. -/
def tidyLexeme (t : Token) : Text :=
  match t.kind with
  | .error _ => tidyCode t.lexeme
  | _ => t.lexeme

/-- What tidying makes of a token, behind a semicolon or not. -/
def tidyToken (behind : Bool) (t : Token) : Text :=
  tidyGap behind (t.isQuotation || t.isEof) t.gap ++ tidyLexeme t

/-- What tidying makes of tokens, the first of which stands behind a semicolon or not. -/
def tidyTokens (behind : Bool) : List Token → Text
  | [] => []
  | t :: ts => tidyToken behind t ++ tidyTokens (t.kind == .semicolon) ts

theorem tidyLexeme_of_closed {t : Token} (h : ∀ cause, t.kind ≠ .error cause) : tidyLexeme t = t.lexeme := by
  unfold tidyLexeme
  split
  · next cause hkind => exact absurd hkind (h cause)
  · rfl

section Lexemes

variable {t : Token} {rest : Text}

theorem ofLexeme_of_not_quotation (h : t.isQuotation = false) : ofLexeme t = ⟨.code, t.lexeme⟩ := by
  unfold Token.isQuotation at h
  unfold ofLexeme
  split <;> simp_all

theorem ofLexeme_of_quotation (h : t.isQuotation = true) :
    (ofLexeme t).kind ≠ .code ∧ (∀ cause, t.kind ≠ .error cause) ∧ t.kind ≠ .semicolon := by
  unfold Token.isQuotation at h
  unfold ofLexeme
  split <;> simp_all

/-- A quotation ends the code in front of it, and every other lexeme goes on with it. -/
theorem isEmpty_codeFront_lexeme (h : t.Fits rest) (ss : List Segment) :
    (codeFront (push (ofLexeme t) ss)).isEmpty = t.isQuotation := by
  cases hq : t.isQuotation with
  | true =>
    have hne : (ofLexeme t).text ≠ [] := by rw [text_ofLexeme]; exact h.lexeme_ne_nil
    rw [(push_other (ofLexeme_of_quotation hq).1 hne ss false).1]
    rfl
  | false =>
    rw [ofLexeme_of_not_quotation hq, (push_code_parts _ ss).1]
    exact List.isEmpty_eq_false_iff.2 fun hnil => h.lexeme_ne_nil (List.append_eq_nil_iff.1 hnil).1

/-- A lexeme is tidied by itself. -/
theorem tidiedSegments_lexeme (h : t.Fits rest) (behind : Bool) :
    tidiedSegments behind (push (ofLexeme t) (segments rest)) =
      push (ofLexeme { t with lexeme := tidyLexeme t }) (tidiedSegments (t.kind == .semicolon) (segments rest)) := by
  have hne : t.lexeme ≠ [] := h.lexeme_ne_nil
  have hcode (hother : t.isQuotation = false) :
      ofLexeme { t with lexeme := tidyLexeme t } = ⟨.code, tidyLexeme t⟩ := ofLexeme_of_not_quotation hother
  cases h.layoutShape with
  | quotation kind =>
    obtain ⟨hquoted, hclosed, hother⟩ := ofLexeme_of_quotation kind
    rw [(push_other hquoted (by rwa [text_ofLexeme]) (segments rest) behind).2, tidyLexeme_of_closed hclosed,
      beq_eq_false_iff_ne.2 hother]
  | unclosed cause kind =>
    -- a quote that is left open takes the rest of the script
    obtain rfl := h.rest_eq_nil kind
    have hcode' : t.isQuotation = false := by simp [Token.isQuotation, kind]
    obtain ⟨c, l, hl, -⟩ := h.token_eq
    have hblank : isBlank c = false := by simpa [hl] using h.head?_lexeme
    have hempty : segments [] = [] := segments_of_gap (g := []) (gap_of_none rfl)
    have htidy : tidyLexeme t = tidyCode t.lexeme := by simp [tidyLexeme, kind]
    rw [ofLexeme_of_not_quotation hcode', hcode hcode', hempty, tidiedSegments_push_code, htidy, tidiedSegments_nil, hl]
    show push ⟨.code, resume behind (c :: l ++ [])⟩ [] = push ⟨.code, tidyCode (c :: l)⟩ []
    rw [List.append_nil, ← resume_false, resume_cons hblank, resume_cons hblank]
  | semicolon kind lexeme =>
    have hcode' : t.isQuotation = false := by simp [Token.isQuotation, kind]
    rw [ofLexeme_of_not_quotation hcode', hcode hcode', tidiedSegments_push_code, tidyLexeme_of_closed (by simp [kind]),
      lexeme, kind, List.singleton_append, resume_cons (by decide), ← List.singleton_append, push_code_append,
      tidiedSegments]
    rfl
  | code quotation closed other lexeme =>
    rw [ofLexeme_of_not_quotation quotation, hcode quotation, tidiedSegments_push_code, tidyLexeme_of_closed closed,
      resume_word hne lexeme, beq_eq_false_iff_ne.2 other, push_code_append, tidiedSegments]
    rfl

/-- The segments of a token with what follows are tidied to the segments of the tidied token. -/
theorem tidiedSegments_token (h : t.Fits rest) (behind : Bool) : tidiedSegments behind (segments (t.text ++ rest)) =
    ((tidiedGap behind (t.isQuotation || t.isEof) t.gap).map ofTrivia).foldr push
      (push (ofLexeme { t with lexeme := tidyLexeme t })
        (tidiedSegments (t.kind == .semicolon) (segments rest))) := by
  have hgap := h.gap_eq
  rw [Token.text, List.append_assoc] at hgap
  have hss : textOf (push (ofLexeme t) (segments rest)) = t.lexeme ++ rest := by
    rw [textOf_push, segments_text, text_ofLexeme]
  have heof : t.isEof = false := beq_eq_false_iff_ne.2 h.kind_ne_eof
  rw [segments_of_fits h, tidiedSegments_gap hgap hss, isEmpty_codeFront_lexeme h, tidiedSegments_lexeme h, heof,
    Bool.or_false]

end Lexemes

/-- The segments of a gap at the end of a script are tidied. -/
theorem tidiedSegments_end {g : List Trivia} (hg : gap (Trivia.textOf g) = (g, [])) (behind : Bool) :
    tidiedSegments behind (segments (Trivia.textOf g)) = merge ((tidiedGap behind true g).map ofTrivia) := by
  have hwhole : gap (Trivia.textOf g ++ []) = (g, []) := by rwa [List.append_nil]
  rw [segments_of_gap hg, tidiedSegments_gap hwhole textOf_nil, tidiedSegments_nil]
  rfl

/-- The code of a script is tidied token by token. -/
theorem resumeSegments_segments (script : Text) (behind : Bool) :
    resumeSegments behind (segments script) = tidyTokens behind (scan script) := by
  rw [← textOf_tidiedSegments]
  induction script using scan_induction generalizing behind with
  | gap g hg =>
    rw [tidiedSegments_end hg, textOf_merge, textOf_map_ofTrivia, textOf_tidiedGap, scan_of_gap_nil hg, tidyTokens,
      tidyToken, tidyTokens]
    simp [tidyLexeme, Token.isEof]
  | token t rest hfits ih =>
    rw [tidiedSegments_token hfits, textOf_foldr_push, textOf_map_ofTrivia, textOf_tidiedGap, textOf_push, ih,
      text_ofLexeme, scan_of_fits hfits, tidyTokens, tidyToken, List.append_assoc]

theorem changeCode_tidyCode (script : Text) : changeCode tidyCode script = tidyTokens false (scan script) := by
  rw [changeCode_eq, resumeSegments_segments]

end Layout

end DialectBridge
