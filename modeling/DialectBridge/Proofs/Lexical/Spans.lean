import DialectBridge.Proofs.Lexical.Break

/-!
# Spans of tokens and comments

The tokens of a text and its comments tile it: their spans follow one another without overlap, each
cuts out what it stands for, and what they leave is blank (`scan_tiles`). The tiling is put together
piece by piece, in the order of the text (`Tiles.append`).
-/

namespace DialectBridge

namespace Text

theorem dropBytes_append (front rest : Text) :
    slice?.dropBytes (front ++ rest) front.utf8Size = some rest := by
  induction front with
  | nil => simp [slice?.dropBytes]
  | cons c front ih =>
    obtain ⟨n, hn⟩ := Nat.exists_eq_succ_of_ne_zero (Nat.ne_of_gt c.utf8Size_pos)
    have hsize : utf8Size (c :: front) = (n + utf8Size front) + 1 := by
      rw [utf8Size_cons, hn]
      omega
    have hrest : n + utf8Size front + 1 - c.utf8Size = utf8Size front := by omega
    rw [hsize, List.cons_append, slice?.dropBytes, if_pos (by omega), hrest, ih]
    omega

end Text

namespace Span

/-- `part` stands in `t` at the span, and `rest` behind it. -/
def Marks (s : Span) (t part rest : Text) : Prop :=
  ∃ front, t = front ++ part ++ rest ∧ s = ⟨front.utf8Size, front.utf8Size + part.utf8Size⟩

/-- What stands at a span is what the span cuts out. -/
theorem Marks.slice?_eq {s : Span} {t part rest : Text} (h : s.Marks t part rest) :
    t.slice? s.start s.stop = some part := by
  obtain ⟨front, rfl, rfl⟩ := h
  have hstart := Text.dropBytes_append front (part ++ rest)
  have hstop := Text.dropBytes_append (front ++ part) rest
  rw [Text.utf8Size_append, List.append_assoc] at hstop
  simp [Text.slice?, hstart, hstop]

/-- The first span starts earlier and ends before the second one starts. -/
def Before (s u : Span) : Prop :=
  s.start < u.start ∧ s.stop ≤ u.start

/-- The byte lies in the span. -/
def Holds (s : Span) (byte : Nat) : Prop :=
  s.start ≤ byte ∧ byte < s.stop

end Span

/-! ## Comments -/

/-- What the text of a comment looks like in front of `rest`. -/
inductive IsComment : Text → Text → Prop
  /-- It goes up to a line break or to the end of the text. -/
  | line {body rest : Text} (hbody : '\n' ∉ body) (hrest : ∀ c ∈ rest.head?, c = '\n') :
      IsComment ('-' :: '-' :: body) rest
  /-- It goes up to the first `*/` behind its opening. -/
  | block {body rest : Text}
      (hfirst : ∀ front back, body ++ ['*', '/'] = front ++ '*' :: '/' :: back → back = []) :
      IsComment ('/' :: '*' :: (body ++ ['*', '/'])) rest
  /-- No `*/` comes, and it goes up to the end of the text. -/
  | endless {body : Text} (hnone : ∀ front back, body ≠ front ++ '*' :: '/' :: back) :
      IsComment ('/' :: '*' :: body) []

namespace Scan

/-- A block comment ends with the first `*/`, or it takes everything. -/
theorem blockBody_cases (t : Text) :
    (∃ body, (blockBody t).1 = body ++ ['*', '/'] ∧
      ∀ front back, body ++ ['*', '/'] = front ++ '*' :: '/' :: back → back = []) ∨
    (blockBody t = (t, []) ∧ ∀ front back, t ≠ front ++ '*' :: '/' :: back) := by
  fun_induction blockBody t with
  | case1 t =>
    refine .inl ⟨[], rfl, fun front back h => ?_⟩
    cases front with
    | nil => exact (by simpa using h : [] = back).symm
    | cons c front =>
      have hlength := congrArg List.length h
      simp at hlength
      omega
  | case2 c t hend ih =>
    have hhead := blockBody_fst_head t
    -- the mark is not at the start, so it is found in the rest of the text
    rcases ih with ⟨body, hbody, hfirst⟩ | ⟨hall, hnone⟩
    · refine .inl ⟨c :: body, by rw [hbody, List.cons_append], fun front back h => ?_⟩
      cases front with
      | nil =>
        obtain ⟨rfl, htail⟩ : c = '*' ∧ body ++ ['*', '/'] = '/' :: back := by simpa using h
        have hslash : (body ++ ['*', '/']).head? = some '/' := congrArg List.head? htail
        rw [hbody, hslash] at hhead
        obtain ⟨u, rfl⟩ := List.head?_eq_some_iff.1 hhead.symm
        exact absurd rfl (hend u rfl)
      | cons d front => exact hfirst front back (List.cons.inj h).2
    · refine .inr ⟨by rw [hall], fun front back h => ?_⟩
      cases front with
      | nil =>
        obtain ⟨rfl, rfl⟩ := List.cons.inj h
        exact hend back rfl rfl
      | cons d front => exact hnone front back (List.cons.inj h).2
  | case3 => exact .inr ⟨rfl, fun front back h => by simp at h⟩

/-- A piece of trivia is blank or a comment. -/
theorem trivia?_shape {t rest : Text} {x : Trivia} (h : trivia? t = some (x, rest)) :
    (∃ run, x = .blank run ∧ ∀ c ∈ run, isBlank c = true) ∨
    ∃ text, x = .comment text ∧ IsComment text rest := by
  rcases trivia?_cases h with ⟨u, -, rfl, rfl⟩ | ⟨u, -, rfl, rfl⟩ | ⟨c, u, -, hc, rfl, -⟩
  · refine .inr ⟨_, rfl, .line (fun hmem => ?_) fun c hc => ?_⟩
    · simpa using Text.forall_mem_takeWhile (· != '\n') u _ hmem
    · have hstop := Text.head?_any_dropWhile (· != '\n') u
      rw [Option.mem_def.1 hc] at hstop
      simpa using hstop
  · refine .inr ⟨_, rfl, ?_⟩
    rcases blockBody_cases u with ⟨body, hbody, hfirst⟩ | ⟨hall, hnone⟩
    · rw [hbody]
      exact .block hfirst
    · rw [hall]
      exact .endless hnone
  · exact .inl ⟨_, rfl, List.forall_mem_cons.2 ⟨hc, Text.forall_mem_takeWhile isBlank u⟩⟩

end Scan

/-! ## Tilings -/

/-- The tokens and the comments tile the text from the byte `lo` up to the byte `hi`. -/
structure Tiles (t : Text) (lo hi : Nat) (tokens : List (Span × Token)) (comments : List (Span × Text)) :
    Prop where
  within : ∀ s ∈ tokens.map Prod.fst ++ comments.map Prod.fst, lo ≤ s.start ∧ s.start ≤ s.stop ∧ s.stop ≤ hi
  token_marks : ∀ p ∈ tokens, ∃ rest, p.1.Marks t p.2.lexeme rest
  comment_marks : ∀ p ∈ comments, ∃ rest, p.1.Marks t p.2 rest ∧ IsComment p.2 rest
  /-- Only the mark of the end of the text has no text. -/
  token_nonempty : ∀ p ∈ tokens, p.2.kind ≠ .eof → p.1.start < p.1.stop
  comment_nonempty : ∀ p ∈ comments, p.1.start < p.1.stop
  tokens_ordered : (tokens.map Prod.fst).Pairwise Span.Before
  comments_ordered : (comments.map Prod.fst).Pairwise Span.Before
  apart : ∀ p ∈ tokens, ∀ q ∈ comments, p.1.Before q.1 ∨ q.1.Before p.1
  /-- A byte that no span holds belongs to a blank. -/
  rest_blank : ∀ byte, lo ≤ byte → byte < hi →
    (∃ s ∈ tokens.map Prod.fst ++ comments.map Prod.fst, s.Holds byte) ∨
    ∃ (front : Text) (c : Char) (back : Text), t = front ++ c :: back ∧ isBlank c = true ∧ front.utf8Size ≤ byte ∧
      byte < front.utf8Size + c.utf8Size

namespace Tiles

variable {t : Text} {lo mid hi : Nat} {ps qs : List (Span × Token)} {cs ds : List (Span × Text)}

/-- Spans that are not empty come before the spans of what follows. -/
theorem before (h : Tiles t lo mid ps cs) (h' : Tiles t mid hi qs ds) {s u : Span}
    (hs : s ∈ ps.map Prod.fst ++ cs.map Prod.fst) (hne : s.start < s.stop)
    (hu : u ∈ qs.map Prod.fst ++ ds.map Prod.fst) : s.Before u := by
  have hleft := h.within s hs
  have hright := h'.within u hu
  constructor <;> omega

/-- Two tilings side by side, of which the first does not reach the end of the text, make up one. -/
theorem append (h : Tiles t lo mid ps cs) (hkind : ∀ p ∈ ps, p.2.kind ≠ .eof)
    (h' : Tiles t mid hi qs ds) (hlo : lo ≤ mid) (hhi : mid ≤ hi) :
    Tiles t lo hi (ps ++ qs) (cs ++ ds) := by
  have htoken {p} (hp : p ∈ ps) := h.token_nonempty p hp (hkind p hp)
  have hmem {p : Span × Token} (hp : p ∈ ps) : p.1 ∈ ps.map Prod.fst ++ cs.map Prod.fst :=
    List.mem_append_left _ (List.mem_map_of_mem hp)
  have hmem' {c : Span × Text} (hc : c ∈ cs) : c.1 ∈ ps.map Prod.fst ++ cs.map Prod.fst :=
    List.mem_append_right _ (List.mem_map_of_mem hc)
  constructor
  case within =>
    intro s hs
    rcases (by simpa only [List.map_append, List.mem_append] using hs :
      (s ∈ ps.map Prod.fst ∨ s ∈ qs.map Prod.fst) ∨ s ∈ cs.map Prod.fst ∨ s ∈ ds.map Prod.fst)
      with (hs | hs) | hs | hs
    · have := h.within s (List.mem_append_left _ hs)
      omega
    · have := h'.within s (List.mem_append_left _ hs)
      omega
    · have := h.within s (List.mem_append_right _ hs)
      omega
    · have := h'.within s (List.mem_append_right _ hs)
      omega
  case token_marks => exact List.forall_mem_append.2 ⟨h.token_marks, h'.token_marks⟩
  case comment_marks => exact List.forall_mem_append.2 ⟨h.comment_marks, h'.comment_marks⟩
  case token_nonempty => exact List.forall_mem_append.2 ⟨h.token_nonempty, h'.token_nonempty⟩
  case comment_nonempty => exact List.forall_mem_append.2 ⟨h.comment_nonempty, h'.comment_nonempty⟩
  case tokens_ordered =>
    rw [List.map_append]
    refine List.pairwise_append.2 ⟨h.tokens_ordered, h'.tokens_ordered, fun s hs u hu => ?_⟩
    obtain ⟨p, hp, rfl⟩ := List.mem_map.1 hs
    exact h.before h' (hmem hp) (htoken hp) (List.mem_append_left _ hu)
  case comments_ordered =>
    rw [List.map_append]
    refine List.pairwise_append.2 ⟨h.comments_ordered, h'.comments_ordered, fun s hs u hu => ?_⟩
    obtain ⟨c, hc, rfl⟩ := List.mem_map.1 hs
    exact h.before h' (hmem' hc) (h.comment_nonempty c hc) (List.mem_append_right _ hu)
  case apart =>
    intro p hp c hc
    rcases List.mem_append.1 hp with hp | hp <;> rcases List.mem_append.1 hc with hc | hc
    · exact h.apart p hp c hc
    · exact .inl (h.before h' (hmem hp) (htoken hp) (List.mem_append_right _ (List.mem_map_of_mem hc)))
    · exact .inr (h.before h' (hmem' hc) (h.comment_nonempty c hc)
        (List.mem_append_left _ (List.mem_map_of_mem hp)))
    · exact h'.apart p hp c hc
  case rest_blank =>
    intro byte hstart hstop
    rcases Nat.lt_or_ge byte mid with hbyte | hbyte
    · refine (h.rest_blank byte hstart hbyte).imp_left ?_
      rintro ⟨s, hs, hholds⟩
      exact ⟨s, by grind, hholds⟩
    · refine (h'.rest_blank byte hbyte hstop).imp_left ?_
      rintro ⟨s, hs, hholds⟩
      exact ⟨s, by grind, hholds⟩

/-- Blanks are tiled by nothing. -/
theorem blanks (front rest : Text) {run : Text} (hrun : ∀ c ∈ run, isBlank c = true) :
    Tiles (front ++ run ++ rest) front.utf8Size (front ++ run).utf8Size [] [] := by
  constructor
  case rest_blank =>
    intro byte hstart hstop
    right
    induction run generalizing front with
    | nil => simp at hstop; omega
    | cons c run ih =>
      obtain ⟨hc, hrun⟩ := List.forall_mem_cons.1 hrun
      by_cases hbyte : byte < front.utf8Size + c.utf8Size
      · exact ⟨front, c, run ++ rest, by simp, hc, hstart, hbyte⟩
      · -- the byte lies in a later blank
        have hnext := ih (front ++ [c]) hrun (by simp; omega) (by simpa using hstop)
        simpa using hnext
  all_goals simp

/-- A comment is tiled by itself. -/
theorem comment (front : Text) {text rest : Text} (h : IsComment text rest) :
    Tiles (front ++ text ++ rest) front.utf8Size (front ++ text).utf8Size []
      [(⟨front.utf8Size, front.utf8Size + text.utf8Size⟩, text)] := by
  have hpos : 0 < text.utf8Size := by
    cases h <;> exact Nat.lt_of_lt_of_le (Char.utf8Size_pos _) (Nat.le_add_right _ _)
  constructor
  case comment_marks => simpa using ⟨rest, ⟨front, by simp, rfl⟩, h⟩
  case rest_blank =>
    intro byte hstart hstop
    rw [Text.utf8Size_append] at hstop
    exact .inl ⟨_, List.mem_singleton_self _, hstart, hstop⟩
  all_goals simp [hpos]

/-- A token is tiled by itself. -/
theorem token (front rest : Text) {u : Token} (h : u.kind ≠ .eof → u.lexeme ≠ []) :
    Tiles (front ++ u.lexeme ++ rest) front.utf8Size (front ++ u.lexeme).utf8Size
      [(⟨front.utf8Size, front.utf8Size + u.lexeme.utf8Size⟩, u)] [] := by
  constructor
  case token_marks => simpa using ⟨rest, front, by simp, rfl⟩
  case token_nonempty =>
    intro p hp hkind
    obtain rfl := List.mem_singleton.1 hp
    obtain ⟨c, l, hl⟩ := List.exists_cons_of_ne_nil (h hkind)
    have := c.utf8Size_pos
    simp only [hl, Text.utf8Size_cons]
    omega
  case rest_blank =>
    intro byte hstart hstop
    rw [Text.utf8Size_append] at hstop
    exact .inl ⟨_, List.mem_singleton_self _, hstart, hstop⟩
  all_goals simp

/-- A gap is tiled by its comments. -/
theorem gap (front : Text) {rest : Text} {g : List Trivia} (hg : Scan.gap (Trivia.textOf g ++ rest) = (g, rest)) :
    Tiles (front ++ Trivia.textOf g ++ rest) front.utf8Size (front ++ Trivia.textOf g).utf8Size []
      (Token.gapComments front.utf8Size g) := by
  induction g generalizing front with
  | nil => simpa [Token.gapComments] using @Tiles.blanks front rest [] (by simp)
  | cons x g ih =>
    obtain ⟨next, hx, hnext⟩ := Scan.trivia?_of_gap_cons hg
    obtain rfl : Trivia.textOf g ++ rest = next := by
      have htext := Scan.gap_text next
      rw [hnext] at htext
      exact htext
    have htail := ih (front ++ x.text) hnext
    have hfirst : Tiles (front ++ x.text ++ (Trivia.textOf g ++ rest)) front.utf8Size (front ++ x.text).utf8Size []
        (Token.gapComments front.utf8Size [x]) := by
      rcases Scan.trivia?_shape hx with ⟨run, rfl, hrun⟩ | ⟨text, rfl, htext⟩
      · exact blanks front _ hrun
      · exact comment front htext
    rw [← List.append_assoc] at hfirst
    have hboth := hfirst.append (by simp) htail (by simp) (by simp)
    cases x <;> simpa [Trivia.textOf_cons, Token.gapComments, Trivia.text] using hboth

end Tiles

/-- A token with the gap in front of it is tiled by its comments and itself. -/
theorem Tiles.gap_token (front : Text) {rest : Text} {u : Token} (hgap : Scan.gap (u.text ++ rest) = (u.gap, u.lexeme ++ rest))
    (h : u.kind ≠ .eof → u.lexeme ≠ []) :
    Tiles (front ++ u.text ++ rest) front.utf8Size (front ++ u.text).utf8Size
      [(u.spanAt front.utf8Size, u)] (Token.gapComments front.utf8Size u.gap) := by
  have htext : u.text = Trivia.textOf u.gap ++ u.lexeme := rfl
  rw [htext, List.append_assoc] at hgap
  have hleft := Tiles.gap front hgap
  have hright := Tiles.token (front ++ Trivia.textOf u.gap) rest h
  rw [← List.append_assoc (front ++ _)] at hleft
  have hboth := hleft.append (by simp) hright (by simp) (by simp)
  have hspan : u.spanAt front.utf8Size = ⟨(front ++ Trivia.textOf u.gap).utf8Size,
      (front ++ Trivia.textOf u.gap).utf8Size + u.lexeme.utf8Size⟩ := by
    simp [Token.spanAt, htext, Token.gapText, Trivia.textOf, Nat.add_assoc]
  rw [hspan]
  simpa [htext] using hboth

/-- The tokens of the end of a text, counted from where it starts, tile that end. -/
theorem Tiles.of_scan (front t : Text) :
    Tiles (front ++ t) front.utf8Size (front ++ t).utf8Size
      ((Token.spansFrom front.utf8Size (scan t)).zip (scan t)) (Token.commentsFrom front.utf8Size (scan t)) := by
  induction t using scan_induction generalizing front with
  | gap g hg =>
    rw [scan_of_gap_nil hg]
    have hlast := @Tiles.gap_token front [] ⟨g, .eof, []⟩
      (by simpa [Token.text, Token.gapText, Trivia.textOf] using hg) (by simp)
    simpa [Token.spansFrom, Token.commentsFrom, Token.text, Token.gapText, Trivia.textOf] using hlast
  | token u rest hu ih =>
    rw [scan_of_fits hu]
    have hfirst := Tiles.gap_token front hu.gap_eq fun _ => hu.lexeme_ne_nil
    have hrest := ih (front ++ u.text)
    rw [List.append_assoc] at hfirst hrest
    have hboth := hfirst.append (by simpa using hu.kind_ne_eof) hrest (by simp) (by simp)
    simpa [Token.spansFrom, Token.commentsFrom] using hboth

/-! ## The end of a text -/

/-- The last token of a text, and no other one, marks its end. -/
theorem exists_scan_eof (t : Text) :
    ∃ us g, scan t = us ++ [⟨g, .eof, []⟩] ∧ ∀ u ∈ us, u.kind ≠ .eof := by
  induction t using scan_induction with
  | gap g hg => exact ⟨[], g, scan_of_gap_nil hg, by simp⟩
  | token u rest hu ih =>
    obtain ⟨us, g, hscan, hkind⟩ := ih
    exact ⟨u :: us, g, by rw [scan_of_fits hu, hscan, List.cons_append],
      List.forall_mem_cons.2 ⟨hu.kind_ne_eof, hkind⟩⟩

theorem Token.spansFrom_append (offset : Nat) (ts us : List Token) :
    spansFrom offset (ts ++ us) = spansFrom offset ts ++ spansFrom (offset + (textOf ts).utf8Size) us := by
  induction ts generalizing offset with
  | nil => simp [spansFrom]
  | cons t ts ih => simp [spansFrom, ih, Nat.add_assoc]

@[simp] theorem Token.length_spansFrom (offset : Nat) (ts : List Token) :
    (spansFrom offset ts).length = ts.length := by
  induction ts generalizing offset with
  | nil => rfl
  | cons t ts ih => simp [spansFrom, ih]

/-- The tokens of a text, each with its span, and its comments tile the text. Its last token, which
alone marks its end, stands behind everything. -/
theorem scan_tiles (t : Text) :
    Tiles t 0 t.utf8Size ((Token.spansFrom 0 (scan t)).zip (scan t)) (Token.commentsFrom 0 (scan t)) ∧
    (∀ p ∈ (Token.spansFrom 0 (scan t)).zip (scan t), t.slice? p.1.start p.1.stop = some p.2.lexeme) ∧
    (∀ p ∈ Token.commentsFrom 0 (scan t), t.slice? p.1.start p.1.stop = some p.2) ∧
    ∃ us g spans, scan t = us ++ [⟨g, .eof, []⟩] ∧ (∀ u ∈ us, u.kind ≠ .eof) ∧
      Token.spansFrom 0 (scan t) = spans ++ [⟨t.utf8Size, t.utf8Size⟩] ∧ spans.length = us.length := by
  have htiles : Tiles t 0 t.utf8Size ((Token.spansFrom 0 (scan t)).zip (scan t))
      (Token.commentsFrom 0 (scan t)) := Tiles.of_scan [] t
  refine ⟨htiles, fun p hp => ?_, fun p hp => ?_, ?_⟩
  · obtain ⟨rest, hmarks⟩ := htiles.token_marks p hp
    exact hmarks.slice?_eq
  · obtain ⟨rest, hmarks, -⟩ := htiles.comment_marks p hp
    exact hmarks.slice?_eq
  obtain ⟨us, g, hscan, hkind⟩ := exists_scan_eof t
  have htext : t.utf8Size = (Token.textOf us).utf8Size + (Trivia.textOf g).utf8Size := by
    have htext := textOf_scan t
    rw [hscan] at htext
    rw [← htext]
    simp [Token.text, Token.gapText, Trivia.textOf]
  refine ⟨us, g, Token.spansFrom 0 us, hscan, hkind, ?_, Token.length_spansFrom 0 us⟩
  rw [hscan, Token.spansFrom_append, htext]
  simp [Token.spansFrom, Token.spanAt, Token.text, Token.gapText, Trivia.textOf]

end DialectBridge
