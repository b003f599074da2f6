import DialectBridge.Proofs.Lexical.Gaps
import DialectBridge.Proofs.Lexical.Spans
import DialectBridge.Proofs.Lexical.Tiling

/-!
# Comments behind a sign

An opening parenthesis and a comma are tokens whatever stands around them. So a script may be cut behind
one of them (`exists_cells_of_cut`), and a block comment that is put there between spaces becomes a piece of
its own (`cells_comment`).
-/

namespace DialectBridge

open Segment

namespace Scan

/-! ## Signs -/

/-- Only the characters themselves are read as an opening parenthesis and as a comma. -/
theorem token_of_sign {c : Char} {t : Text} (h : (token c t).1 = .leftParen ∨ (token c t).1 = .comma) :
    (c = '(' ∨ c = ',') ∧ (token c t).2.1 = [c] := by
  have hquoted {q : Char} {kind : Text → TokenKind} {cause : LexicalError}
      (hkind : ∀ v, kind v ≠ .leftParen ∧ kind v ≠ .comma)
      (h : (quotedToken q kind cause t).1 = .leftParen ∨ (quotedToken q kind cause t).1 = .comma) : False := by
    unfold quotedToken at h
    split at h
    · exact h.elim (hkind _).1 (hkind _).2
    · simp at h
  unfold token at h ⊢
  split at h
  case h_1 => exact ⟨.inl rfl, rfl⟩
  case h_3 => exact ⟨.inr rfl, rfl⟩
  case h_7 | h_8 | h_9 => exact (hquoted (by simp) h).elim
  case h_10 => split at h <;> simp at h
  case h_11 =>
    split at h
    · simp at h
    · split at h
      · rcases wordKind_cases (c :: t.takeWhile isIdentifierCharacter) with ⟨k, hk⟩ | hk <;> simp [hk] at h
      · simp at h
  all_goals simp at h

end Scan

open Scan

/-- The sign is a token of its own in front of every text. -/
theorem cells_sign {c : Char} (hc : c = '(' ∨ c = ',') (s : Text) : cells (c :: s) = ⟨.code, [c]⟩ :: cells s := by
  have hfits (kind : TokenKind) (htoken : token c s = (kind, [c], s)) : Token.Fits ⟨[], kind, [c]⟩ s := by
    refine ⟨gap_of_none (trivia?_eq_none_iff.2 ?_), c, [], rfl, htoken⟩
    rcases hc with rfl | rfl <;> exact ⟨by decide, by simp, by simp⟩
  rcases hc with rfl | rfl
  · exact cells_token (hfits .leftParen rfl)
  · exact cells_token (hfits .comma rfl)

/-- The script ends in front of `rest` directly behind an opening parenthesis or a comma. -/
def CutBehindSign (front rest : Text) : Prop :=
  ∃ us t vs, scan (front ++ rest) = us ++ t :: vs ∧ Token.textOf (us ++ [t]) = front ∧
    (t.kind = .leftParen ∨ t.kind = .comma)

/-- The cut is found among the tokens. -/
theorem cutBehindSign_iff {front rest : Text} : CutBehindSign front rest ↔
    ∃ n ∈ List.range (scan (front ++ rest)).length, Token.textOf ((scan (front ++ rest)).take (n + 1)) = front ∧
      ((scan (front ++ rest))[n]?.map Token.kind = some .leftParen ∨
        (scan (front ++ rest))[n]?.map Token.kind = some .comma) := by
  constructor
  · rintro ⟨us, t, vs, hscan, hfront, hkind⟩
    refine ⟨us.length, by simp [hscan], ?_, by simpa [hscan] using hkind⟩
    rw [hscan, List.take_length_add_append]
    exact hfront
  · rintro ⟨n, hn, hfront, hkind⟩
    rw [List.mem_range] at hn
    refine ⟨(scan (front ++ rest)).take n, (scan (front ++ rest))[n], (scan (front ++ rest)).drop (n + 1), ?_, ?_, ?_⟩
    · rw [List.getElem_cons_drop, List.take_append_drop]
    · rw [← List.take_succ_eq_append_getElem hn, hfront]
    · simpa [List.getElem?_eq_getElem hn] using hkind

instance (front rest : Text) : Decidable (CutBehindSign front rest) :=
  decidable_of_iff _ cutBehindSign_iff.symm

/-- Behind a sign a script may go on in any way. -/
theorem exists_cells_of_cut {front rest : Text} (h : CutBehindSign front rest) :
    ∃ xs c, (c = '(' ∨ c = ',') ∧ front = textOf xs ++ [c] ∧
      ∀ s, cells (front ++ s) = xs ++ ⟨.code, [c]⟩ :: cells s := by
  obtain ⟨us, t, vs, hscan, rfl, hkind⟩ := h
  have hmem : t ∈ scan (Token.textOf (us ++ [t]) ++ rest) := by
    rw [hscan]
    exact List.mem_append_right us List.mem_cons_self
  obtain ⟨r, hfits⟩ := Token.Fits.of_mem_scan hmem (by rcases hkind with h | h <;> simp [h])
  obtain ⟨c, l, hl, htoken⟩ := hfits.token_eq
  obtain ⟨hc, hlexeme⟩ := token_of_sign (c := c) (t := l ++ r) (by rwa [htoken])
  have hsign : t.lexeme = [c] := by rw [hl, ← hlexeme, htoken]
  have hlast : ofLexeme t = ⟨.code, [c]⟩ := by
    unfold ofLexeme
    rcases hkind with h | h <;> rw [h, hsign]
  have htokens (us : List Token) : textOf (us.flatMap cellsOf) = Token.textOf us := by
    have htoken (u : Token) : textOf (cellsOf u) = u.text := by
      rw [cellsOf, textOf_append, textOf_map_ofTrivia]
      refine congrArg _ ?_
      split
      · next hnil => simpa using hnil.symm
      · simp [text_ofLexeme]
    induction us with
    | nil => rfl
    | cons u us ih => rw [List.flatMap_cons, textOf_append, htoken, ih, Token.textOf_cons]
  let xs := us.flatMap cellsOf ++ t.gap.map ofTrivia
  have hfront : Token.textOf (us ++ [t]) = textOf xs ++ [c] := by
    rw [textOf_append, htokens, textOf_map_ofTrivia, Token.textOf_append, Token.textOf_cons, Token.text, hsign]
    simp [Token.gapText, Trivia.textOf]
  have hcells : cells (Token.textOf (us ++ [t]) ++ rest) = xs ++ (⟨.code, [c]⟩ :: vs.flatMap cellsOf) := by
    rw [cells, hscan]
    simp [xs, cellsOf, hsign, hlast]
  refine ⟨xs, c, hc, hfront, fun s => ?_⟩
  -- in front of the sign everything stays as it is, and behind it scanning starts afresh
  have hleft := cells_replace (s := c :: s) hcells (fun _ => rfl) fun ws p zs _ _ => by
    rw [textOf_cons]
    exact Alike.of_sign (by rcases hc with rfl | rfl <;> decide) p.text (textOf zs) _ s
  rw [hfront, List.append_assoc]
  exact hleft.trans (congrArg (xs ++ ·) (cells_sign hc s))

/-! ## Comments -/

/-- The text is a block comment that ends with the first `*/` in it. -/
def IsBlockComment (comment : Text) : Prop :=
  ∃ body, comment = '/' :: '*' :: (body ++ ['*', '/']) ∧
    ∀ front back, body ++ ['*', '/'] = front ++ '*' :: '/' :: back → back = []

theorem blockBody_of_first {body : Text}
    (h : ∀ front back, body ++ ['*', '/'] = front ++ '*' :: '/' :: back → back = []) :
    blockBody (body ++ ['*', '/']) = (body ++ ['*', '/'], []) := by
  have htext := blockBody_text (body ++ ['*', '/'])
  rcases blockBody_cases (body ++ ['*', '/']) with ⟨b, hb, -⟩ | ⟨hall, -⟩
  · rw [hb, List.append_assoc] at htext
    have hnil : (blockBody (body ++ ['*', '/'])).2 = [] := h b _ htext.symm
    rw [hnil, List.append_nil] at htext
    exact Prod.ext (hb.trans htext) hnil
  · exact hall

theorem isBlockComment_iff {comment : Text} : IsBlockComment comment ↔
    comment.take 2 = ['/', '*'] ∧ blockBody (comment.drop 2) = (comment.drop 2, []) ∧
      ['*', '/'].isSuffixOf (comment.drop 2) = true := by
  rw [List.isSuffixOf_iff_suffix]
  constructor
  · rintro ⟨body, rfl, hfirst⟩
    exact ⟨rfl, blockBody_of_first hfirst, List.suffix_append _ _⟩
  · rintro ⟨hopen, hself, body, hbody⟩
    refine ⟨body, ?_, ?_⟩
    · rw [hbody, ← List.take_append_drop 2 comment, hopen]
      rfl
    · rcases blockBody_cases (comment.drop 2) with ⟨b, hb, hfirst⟩ | ⟨-, hnone⟩
      · rw [hself, ← hbody] at hb
        rwa [List.append_cancel_right hb]
      · exact absurd hbody.symm (hnone body [])

instance (comment : Text) : Decidable (IsBlockComment comment) :=
  decidable_of_iff _ isBlockComment_iff.symm

/-- A block comment between spaces is a piece of its own. -/
theorem cells_comment {comment : Text} (h : IsBlockComment comment) (rest : Text) :
    cells (' ' :: (comment ++ ' ' :: rest)) =
      ⟨.code, [' ']⟩ :: ⟨.comment, comment⟩ :: cells (' ' :: rest) := by
  obtain ⟨body, rfl, hfirst⟩ := h
  have hbody := blockBody_of_closed (blockBody_of_first hfirst) (List.suffix_append _ _) (' ' :: rest)
  have hcomment : trivia? ('/' :: '*' :: (body ++ ['*', '/']) ++ ' ' :: rest) =
      some (.comment ('/' :: '*' :: (body ++ ['*', '/'])), ' ' :: rest) := by
    show some (Trivia.comment ('/' :: '*' :: (blockBody (body ++ ['*', '/'] ++ ' ' :: rest)).1),
      (blockBody (body ++ ['*', '/'] ++ ' ' :: rest)).2) = _
    rw [hbody]
  have hblank : trivia? (' ' :: ('/' :: '*' :: (body ++ ['*', '/']) ++ ' ' :: rest)) =
      some (.blank [' '], '/' :: '*' :: (body ++ ['*', '/']) ++ ' ' :: rest) :=
    trivia?_blank (by decide) _
  have hgap := gap_of_trivia hblank
  rw [gap_of_trivia hcomment] at hgap
  let g : List Trivia := [.blank [' '], .comment ('/' :: '*' :: (body ++ ['*', '/']))]
  have htext : Trivia.textOf g = ' ' :: '/' :: '*' :: (body ++ ['*', '/']) := by simp [g, Trivia.text]
  have hcells := cells_append_of_gap (g := g) (s := ' ' :: rest) (by rw [htext]; exact hgap)
  rw [htext] at hcells
  exact hcells

theorem cells_eq_gap (t : Text) : cells t = (gap t).1.map ofTrivia ++ cells (gap t).2 := by
  have htext : Trivia.textOf (gap t).1 ++ (gap t).2 = t := gap_text t
  have hrest := gap_of_none (trivia?_gap_snd t)
  have hcells := cells_append_of_gap (g := (gap t).1) (s := (gap t).2) (by simp [htext, hrest])
  rwa [htext] at hcells

/-- A space in front of a script becomes a piece, or it joins the blanks that the script starts with. -/
theorem cells_space (rest : Text) : cells (' ' :: rest) = ⟨.code, [' ']⟩ :: cells rest ∨
    ∃ run more, cells rest = ⟨.code, run⟩ :: more ∧ cells (' ' :: rest) = ⟨.code, ' ' :: run⟩ :: more := by
  have hspace := gap_of_trivia (trivia?_blank (c := ' ') (by decide) rest)
  rw [cells_eq_gap (' ' :: rest), hspace]
  cases rest with
  | nil => exact .inl (congrArg (_ :: ·) (cells_eq_gap []).symm)
  | cons c u =>
    cases hc : isBlank c with
    | true =>
      rw [cells_eq_gap (c :: u), gap_of_trivia (trivia?_blank hc u), List.takeWhile_cons_of_pos hc,
        List.dropWhile_cons_of_pos hc]
      exact .inr ⟨_, _, rfl, rfl⟩
    | false =>
      rw [List.takeWhile_cons_of_neg (by simp [hc]), List.dropWhile_cons_of_neg (by simp [hc])]
      exact .inl (congrArg (_ :: ·) (cells_eq_gap (c :: u)).symm)

end DialectBridge
