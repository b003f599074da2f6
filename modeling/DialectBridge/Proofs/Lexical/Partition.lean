import Mathlib.Data.List.Chain
import DialectBridge.Proofs.Lexical.Gaps
import DialectBridge.Proofs.Lexical.Shielded
import DialectBridge.Proofs.Lexical.Spans

/-!
# Segments in their places

The segments of a script partition it (`segments_partition`). Its literals, quoted names and comments stand at the
spans of the string tokens, the quoted tokens and the comments, in the same order, and joining the code between
them moves none of them (`spotsFrom_merge`). Each segment stands on its own, and a quote that is left open lies in
the code at the end of the script.
-/

namespace DialectBridge

/-! ## Places -/

/-- A token of a run stands behind the tokens in front of it. -/
theorem Token.mem_zip_spansFrom {ts : List Token} {offset : Nat} {p : Span × Token}
    (h : p ∈ (spansFrom offset ts).zip ts) :
    ∃ us vs, ts = us ++ p.2 :: vs ∧ p.1 = p.2.spanAt (offset + (textOf us).utf8Size) := by
  induction ts generalizing offset with
  | nil => simp [spansFrom] at h
  | cons t ts ih =>
    rw [spansFrom, List.zip_cons_cons] at h
    rcases List.mem_cons.1 h with rfl | h
    · exact ⟨[], ts, rfl, rfl⟩
    · obtain ⟨us, vs, rfl, hspan⟩ := ih h
      refine ⟨t :: us, vs, rfl, ?_⟩
      rw [hspan, textOf_cons, Text.utf8Size_append, Nat.add_assoc]

namespace Segment

/-- Pieces with their spans, of which the first starts at byte `offset`. -/
def placedFrom (offset : Nat) : List Segment → List (Span × Segment)
  | [] => []
  | p :: ps => (⟨offset, offset + p.text.utf8Size⟩, p) :: placedFrom (offset + p.text.utf8Size) ps

theorem placedFrom_append (offset : Nat) (ps qs : List Segment) :
    placedFrom offset (ps ++ qs) = placedFrom offset ps ++ placedFrom (offset + (textOf ps).utf8Size) qs := by
  induction ps generalizing offset with
  | nil => rfl
  | cons p ps ih => simp [placedFrom, ih, Nat.add_assoc]

/-- The pieces of one kind with their spans. -/
def spotsFrom (kind : SegmentKind) (offset : Nat) (ps : List Segment) : List (Span × Segment) :=
  (placedFrom offset ps).filter fun p => p.2.kind == kind

section Spots

variable {kind : SegmentKind}

@[simp] theorem spotsFrom_nil (kind : SegmentKind) (offset : Nat) : spotsFrom kind offset [] = [] := rfl

theorem spotsFrom_append (kind : SegmentKind) (offset : Nat) (ps qs : List Segment) :
    spotsFrom kind offset (ps ++ qs) =
      spotsFrom kind offset ps ++ spotsFrom kind (offset + (textOf ps).utf8Size) qs := by
  rw [spotsFrom, placedFrom_append, List.filter_append]
  rfl

theorem spotsFrom_cons_of_ne {p : Segment} (h : p.kind ≠ kind) (offset : Nat) (ps : List Segment) :
    spotsFrom kind offset (p :: ps) = spotsFrom kind (offset + p.text.utf8Size) ps := by
  simp [spotsFrom, placedFrom, h]

theorem spotsFrom_cons_self (kind : SegmentKind) (text : Text) (offset : Nat) (ps : List Segment) :
    spotsFrom kind offset (⟨kind, text⟩ :: ps) =
      (⟨offset, offset + text.utf8Size⟩, ⟨kind, text⟩) :: spotsFrom kind (offset + text.utf8Size) ps := by
  simp [spotsFrom, placedFrom]

/-- Code that joins other code leaves the pieces of other kinds where they are. -/
theorem spotsFrom_push (hkind : kind ≠ .code) {s : Segment} (hs : s.kind ≠ .code → s.text ≠ []) (offset : Nat)
    (ps : List Segment) : spotsFrom kind offset (push s ps) = spotsFrom kind offset (s :: ps) := by
  by_cases hnil : s.text = []
  · have hcode : s.kind = .code := Decidable.byContradiction fun hk => hs hk hnil
    rw [push_of_empty hnil, spotsFrom_cons_of_ne (by rw [hcode]; exact hkind.symm), hnil]
    rfl
  · by_cases hj : Joins s ps
    · obtain ⟨f, b, more, rfl, rfl⟩ := joins_cases hj
      rw [push_code, spotsFrom_cons_of_ne hkind.symm, spotsFrom_cons_of_ne hkind.symm, spotsFrom_cons_of_ne hkind.symm,
        Text.utf8Size_append, Nat.add_assoc]
    · rw [push_apart hnil hj]

theorem spotsFrom_merge (hkind : kind ≠ .code) {ps : List Segment} (h : ∀ p ∈ ps, p.kind ≠ .code → p.text ≠ [])
    (offset : Nat) : spotsFrom kind offset (merge ps) = spotsFrom kind offset ps := by
  induction ps generalizing offset with
  | nil => rfl
  | cons p ps ih =>
    have hrest := ih (fun q hq => h q (List.mem_cons_of_mem _ hq)) (offset + p.text.utf8Size)
    rw [merge_cons, spotsFrom_push hkind (h p List.mem_cons_self)]
    by_cases hp : p.kind = kind
    · obtain ⟨_, text⟩ := p
      subst hp
      rw [spotsFrom_cons_self, spotsFrom_cons_self, hrest]
    · rw [spotsFrom_cons_of_ne hp, spotsFrom_cons_of_ne hp, hrest]

end Spots

/-! ## Tokens and comments -/

/-- A comment as a placed piece. -/
def ofComment (p : Span × Text) : Span × Segment :=
  (p.1, ⟨.comment, p.2⟩)

/-- The tokens of the same kind as `token` among placed tokens, as placed pieces of the kind `kind`. -/
def ofTokens (kind : SegmentKind) (token : TokenKind) (ps : List (Span × Token)) : List (Span × Segment) :=
  (ps.filter fun p => token.sameKind p.2.kind).map fun p => (p.1, ⟨kind, p.2.lexeme⟩)

/-- The comments of a gap stand where they are counted. -/
theorem spotsFrom_gap (offset : Nat) (g : List Trivia) :
    spotsFrom .comment offset (g.map ofTrivia) = (Token.gapComments offset g).map ofComment := by
  induction g generalizing offset with
  | nil => rfl
  | cons x g ih =>
    cases x with
    | blank run =>
      rw [List.map_cons, spotsFrom_cons_of_ne (by simp [ofTrivia]), ih]
      rfl
    | comment text =>
      rw [List.map_cons, ofTrivia, spotsFrom_cons_self, ih]
      rfl

/-- A gap holds nothing but code and comments. -/
theorem spotsFrom_gap_of_ne {kind : SegmentKind} (hcode : kind ≠ .code) (hcomment : kind ≠ .comment) (offset : Nat)
    (g : List Trivia) : spotsFrom kind offset (g.map ofTrivia) = [] := by
  induction g generalizing offset with
  | nil => rfl
  | cons x g ih =>
    cases x with
    | blank run => rw [List.map_cons, spotsFrom_cons_of_ne hcode.symm, ih]
    | comment text => rw [List.map_cons, spotsFrom_cons_of_ne hcomment.symm, ih]

theorem spotsFrom_ofToken (kind : SegmentKind) (offset : Nat) (u : Token) :
    spotsFrom kind offset (ofToken u) =
      spotsFrom kind offset (u.gap.map ofTrivia) ++ spotsFrom kind (u.spanAt offset).start [ofLexeme u] := by
  rw [ofToken, spotsFrom_append, textOf_map_ofTrivia]
  rfl

/-- The lexeme of a token is no comment. -/
theorem kind_ofLexeme_ne (u : Token) : (ofLexeme u).kind ≠ .comment := by
  unfold ofLexeme
  split <;> simp

theorem spotsFrom_comments (offset : Nat) (ts : List Token) :
    spotsFrom .comment offset (ts.flatMap ofToken) = (Token.commentsFrom offset ts).map ofComment := by
  induction ts generalizing offset with
  | nil => rfl
  | cons u ts ih =>
    rw [List.flatMap_cons, spotsFrom_append, spotsFrom_ofToken, spotsFrom_gap, spotsFrom_cons_of_ne (kind_ofLexeme_ne u),
      spotsFrom_nil, List.append_nil, textOf_ofToken, ih, Token.commentsFrom, List.map_append]

/-- The kind of piece that the tokens of the same kind as `token` are. -/
structure Stands (kind : SegmentKind) (token : TokenKind) : Prop where
  not_code : kind ≠ .code
  not_comment : kind ≠ .comment
  lexeme : ∀ u : Token, (ofLexeme u).kind = kind ↔ token.sameKind u.kind = true

theorem stands_literal : Stands .literal (.string []) := by
  refine ⟨by simp, by simp, fun u => ?_⟩
  unfold ofLexeme
  cases hu : u.kind <;> simp [TokenKind.sameKind, TokenKind.ctorIdx]

theorem stands_quoted : Stands .quoted (.quoted []) := by
  refine ⟨by simp, by simp, fun u => ?_⟩
  unfold ofLexeme
  cases hu : u.kind <;> simp [TokenKind.sameKind, TokenKind.ctorIdx]

theorem spotsFrom_tokens {kind : SegmentKind} {token : TokenKind} (h : Stands kind token) (offset : Nat)
    (ts : List Token) : spotsFrom kind offset (ts.flatMap ofToken) =
      ofTokens kind token ((Token.spansFrom offset ts).zip ts) := by
  induction ts generalizing offset with
  | nil => rfl
  | cons u ts ih =>
    have hrest : spotsFrom kind offset ((u :: ts).flatMap ofToken) =
        spotsFrom kind (u.spanAt offset).start [ofLexeme u] ++
          ofTokens kind token ((Token.spansFrom (offset + u.text.utf8Size) ts).zip ts) := by
      rw [List.flatMap_cons, spotsFrom_append, spotsFrom_ofToken, spotsFrom_gap_of_ne h.not_code h.not_comment,
        textOf_ofToken, ih, List.nil_append]
    rw [hrest, Token.spansFrom, List.zip_cons_cons]
    by_cases hu : token.sameKind u.kind = true
    · have hkind := (h.lexeme u).2 hu
      have hpiece : ofLexeme u = ⟨kind, u.lexeme⟩ := by rw [← hkind, ← text_ofLexeme u]
      have hstop : (u.spanAt offset).start + u.lexeme.utf8Size = (u.spanAt offset).stop := by
        simp [Token.spanAt, Token.text, Nat.add_assoc]
      rw [hpiece, spotsFrom_cons_self, hstop]
      simp [ofTokens, hu]
    · have hkind : (ofLexeme u).kind ≠ kind := fun hk => hu ((h.lexeme u).1 hk)
      rw [spotsFrom_cons_of_ne hkind]
      simp [ofTokens, hu]

/-- The segments of a script have the places of the pieces of its tokens. -/
theorem spotsFrom_segments {kind : SegmentKind} (hkind : kind ≠ .code) (t : Text) :
    spotsFrom kind 0 (segments t) = spotsFrom kind 0 ((scan t).flatMap ofToken) := by
  refine spotsFrom_merge hkind (fun p hp hk => ?_) 0
  obtain ⟨u, hu, hp⟩ := List.mem_flatMap.1 hp
  exact ofToken_text_ne_nil hu hp hk

/-! ## Open quotes -/

/-- Code at the end of pieces is the end of the code at the end of the merged pieces. -/
theorem exists_merge_concat_code (ps : List Segment) {code : Text} (h : code ≠ []) :
    ∃ qs front, merge (ps ++ [⟨.code, code⟩]) = qs ++ [⟨.code, front ++ code⟩] := by
  induction ps with
  | nil => exact ⟨[], [], push_apart (s := ⟨.code, code⟩) h (not_joins_nil _)⟩
  | cons p ps ih =>
    obtain ⟨qs, front, hmerge⟩ := ih
    rw [List.cons_append, merge_cons, hmerge]
    by_cases hqs : qs = []
    · subst hqs
      by_cases hnil : p.text = []
      · exact ⟨[], front, push_of_empty hnil _⟩
      · by_cases hj : Joins p ([] ++ [⟨.code, front ++ code⟩])
        · obtain ⟨f, b, more, rfl, hcode⟩ := joins_cases hj
          exact ⟨[], f ++ front, by rw [List.nil_append, push_code, List.append_assoc]; rfl⟩
        · exact ⟨[p], front, push_apart hnil hj⟩
    · exact ⟨push p qs, front, push_append (.inl hqs)⟩

/-- A quote that is left open ends the script, and its token is the end of the code at the end of the script. -/
theorem exists_segments_of_open {t : Text} {us vs : List Token} {u : Token} (h : scan t = us ++ u :: vs)
    {cause : LexicalError} (hopen : u.kind = .error cause) :
    Token.textOf us ++ u.text = t ∧ ∃ qs front, segments t = qs ++ [⟨.code, front ++ u.lexeme⟩] := by
  obtain ⟨hfits, hvs⟩ := fits_of_scan h (by simp [hopen])
  have hend := hfits.rest_eq_nil hopen
  have htext := textOf_scan t
  rw [h, Token.textOf_append, Token.textOf_cons, hend, List.append_nil] at htext
  refine ⟨htext, ?_⟩
  have hcells : cells t = (us.flatMap cellsOf ++ u.gap.map ofTrivia) ++ [⟨.code, u.lexeme⟩] := by
    have hpiece : ofLexeme u = ⟨.code, u.lexeme⟩ := by simp [ofLexeme, hopen]
    have hlast : vs.flatMap cellsOf = [] := by
      rw [← hvs, hend]
      exact cells_nil
    rw [cells, h, List.flatMap_append, List.flatMap_cons, hlast, cellsOf, hpiece]
    simp [hfits.lexeme_ne_nil]
  rw [← merge_cells, hcells]
  exact exists_merge_concat_code _ hfits.lexeme_ne_nil

/-! ## The partition -/

theorem isChain_merge (ps : List Segment) :
    (merge ps).IsChain fun p q => ¬(p.kind = .code ∧ q.kind = .code) := by
  generalize hqs : merge ps = qs
  induction qs generalizing ps with
  | nil => exact .nil
  | cons q qs ih =>
    cases qs with
    | nil => exact .singleton q
    | cons r qs =>
      obtain ⟨-, zs, -, -, hrest⟩ := merge_split (show merge ps = [q] ++ (r :: qs) from hqs)
      exact .cons_cons (fun ⟨hq, hr⟩ => merge_code_apart hqs hq hr) (ih zs hrest)

/-- The pieces partition the script: they put it together, none is empty, and no code meets code. Literals and
quoted names are the string tokens and the quoted tokens, comments are the comments, each in its place. A quote
that is left open lies in a piece of code that goes up to the end. Each piece is the only one of its own text. -/
structure Partitions (ps : List Segment) (t : Text) : Prop where
  text : textOf ps = t
  nonempty : ∀ p ∈ ps, p.text ≠ []
  code_apart : ps.IsChain fun p q => ¬(p.kind = .code ∧ q.kind = .code)
  literals : spotsFrom .literal 0 ps = ofTokens .literal (.string []) ((Token.spansFrom 0 (scan t)).zip (scan t))
  quoted : spotsFrom .quoted 0 ps = ofTokens .quoted (.quoted []) ((Token.spansFrom 0 (scan t)).zip (scan t))
  comments : spotsFrom .comment 0 ps = (Token.commentsFrom 0 (scan t)).map ofComment
  open_quotes : ∀ p ∈ (Token.spansFrom 0 (scan t)).zip (scan t), ∀ cause, p.2.kind = .error cause →
    p.1.stop = t.utf8Size ∧ ∃ q ∈ spotsFrom .code 0 ps, q.1.start ≤ p.1.start ∧ q.1.stop = t.utf8Size
  alone : ∀ p ∈ ps, segments p.text = [p]

end Segment

open Segment in
/-- The segments of a script partition it, and each of them is a script with one segment. -/
theorem segments_partition (t : Text) : Partitions (segments t) t where
  text := segments_text t
  nonempty p hp := by
    rw [← merge_cells] at hp
    exact mem_merge_text_ne_nil hp
  code_apart := by
    rw [← merge_cells]
    exact isChain_merge (cells t)
  literals := (spotsFrom_segments (by simp) t).trans (spotsFrom_tokens stands_literal 0 (scan t))
  quoted := (spotsFrom_segments (by simp) t).trans (spotsFrom_tokens stands_quoted 0 (scan t))
  comments := (spotsFrom_segments (by simp) t).trans (spotsFrom_comments 0 (scan t))
  open_quotes := by
    intro p hp cause hopen
    obtain ⟨us, vs, hscan, hspan⟩ := Token.mem_zip_spansFrom hp
    obtain ⟨htext, qs, front, hsegments⟩ := exists_segments_of_open hscan hopen
    have hsize : t.utf8Size = (textOf qs).utf8Size + (front ++ p.2.lexeme).utf8Size := by
      have hpieces := segments_text t
      rw [hsegments, textOf_append, textOf_cons, textOf_nil, List.append_nil] at hpieces
      rw [← hpieces, Text.utf8Size_append]
    have hstop : t.utf8Size = (Token.textOf us).utf8Size + p.2.text.utf8Size := by
      rw [← htext, Text.utf8Size_append]
    have hlexeme : p.2.text.utf8Size = p.2.gapText.utf8Size + p.2.lexeme.utf8Size := Text.utf8Size_append _ _
    have hlast : spotsFrom .code 0 (segments t) = spotsFrom .code 0 qs ++
        [(⟨(textOf qs).utf8Size, t.utf8Size⟩, ⟨.code, front ++ p.2.lexeme⟩)] := by
      rw [hsegments, spotsFrom_append, spotsFrom_cons_self, spotsFrom_nil, Nat.zero_add, hsize]
    rw [Text.utf8Size_append] at hsize
    refine ⟨?_, _, by rw [hlast]; exact List.mem_append_right _ (List.mem_singleton_self _), ?_, rfl⟩
    · simp only [hspan, Token.spanAt]
      omega
    · simp only [hspan, Token.spanAt]
      omega
  alone _ hp := segments_of_mem hp

/-- A quote that is left open belongs to the code in front of it. -/
example : segments "a 'b'-- c\n/ \"d -- 'e'" =
    [⟨.code, "a "⟩, ⟨.literal, "'b'"⟩, ⟨.comment, "-- c"⟩, ⟨.code, "\n/ \"d -- 'e'"⟩] := by
  decide +kernel

end DialectBridge
