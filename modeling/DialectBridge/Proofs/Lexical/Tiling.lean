import DialectBridge.Proofs.Lexical.Locality

/-!
# Pieces side by side

Text that was put together from pieces need not have these pieces as its segments: two signs may meet
and open a comment, or a line comment may lose the line break that ends it. Whether that happens shows
at the places where two pieces meet, two pieces at a time (`segments_textOf_iff`).
-/

namespace DialectBridge

namespace Segment

/-! ## Merging -/

/-- Pieces with neighbouring code joined and empty pieces left out. -/
def merge (ss : List Segment) : List Segment :=
  ss.foldr push []

@[simp] theorem merge_nil : merge [] = [] := rfl

@[simp] theorem merge_cons (s : Segment) (ss : List Segment) :
    merge (s :: ss) = push s (merge ss) := rfl

theorem textOf_foldr_push (ps ss : List Segment) : textOf (ps.foldr push ss) = textOf ps ++ textOf ss := by
  induction ps with
  | nil => rfl
  | cons p ps ih => simp [ih]

@[simp] theorem textOf_merge (ss : List Segment) : textOf (merge ss) = textOf ss := by
  induction ss with
  | nil => rfl
  | cons s ss ih => simp [ih]

/-- The piece is code, and the pieces start with code. -/
def Joins (s : Segment) (rest : List Segment) : Prop :=
  s.kind = .code ∧ ∃ q ∈ rest.head?, q.kind = .code

theorem not_joins_nil (s : Segment) : ¬ Joins s [] := by
  rintro ⟨-, q, hq, -⟩
  cases hq

theorem push_of_empty {s : Segment} (h : s.text = []) (rest : List Segment) : push s rest = rest := by
  unfold push
  split
  · simp_all
  · simp [h]

theorem push_code (f b : Text) (more : List Segment) :
    push ⟨.code, f⟩ (⟨.code, b⟩ :: more) = ⟨.code, f ++ b⟩ :: more := rfl

theorem push_apart {s : Segment} {rest : List Segment} (hs : s.text ≠ []) (h : ¬ Joins s rest) :
    push s rest = s :: rest := by
  unfold push
  split
  · next f b more => exact absurd ⟨rfl, _, rfl, rfl⟩ h
  · rw [if_neg (by simpa using hs)]

theorem joins_cases {s : Segment} {rest : List Segment} (h : Joins s rest) :
    ∃ f b more, s = ⟨.code, f⟩ ∧ rest = ⟨.code, b⟩ :: more := by
  obtain ⟨hs, q, hq, hk⟩ := h
  obtain ⟨more, rfl⟩ := List.head?_eq_some_iff.1 hq
  obtain ⟨_, f⟩ := s
  obtain ⟨_, b⟩ := q
  cases hs
  cases hk
  exact ⟨f, b, more, rfl, rfl⟩

/-- Pieces that are merged to a list with two parts have two parts that are merged to these. -/
theorem merge_split {xs as bs : List Segment} (h : merge xs = as ++ bs) :
    ∃ ys zs, xs = ys ++ zs ∧ merge ys = as ∧ merge zs = bs := by
  induction xs generalizing as with
  | nil =>
    obtain ⟨rfl, rfl⟩ := List.append_eq_nil_iff.1 h.symm
    exact ⟨[], [], rfl, rfl, rfl⟩
  | cons s xs ih =>
    cases as with
    | nil => exact ⟨[], s :: xs, rfl, rfl, h⟩
    | cons a as =>
      rw [merge_cons] at h
      by_cases hs : s.text = []
      · rw [push_of_empty hs] at h
        obtain ⟨ys, zs, rfl, hy, hz⟩ := ih h
        exact ⟨s :: ys, zs, rfl, by rw [merge_cons, push_of_empty hs, hy], hz⟩
      · by_cases hj : Joins s (merge xs)
        · obtain ⟨f, b, more, rfl, hm⟩ := joins_cases hj
          rw [hm, push_code, List.cons_append, List.cons.injEq] at h
          obtain ⟨rfl, rfl⟩ := h
          obtain ⟨ys, zs, rfl, hy, hz⟩ := ih (show merge xs = (⟨.code, b⟩ :: as) ++ bs from hm)
          exact ⟨⟨.code, f⟩ :: ys, zs, rfl, by rw [merge_cons, hy, push_code], hz⟩
        · rw [push_apart hs hj, List.cons_append, List.cons.injEq] at h
          obtain ⟨rfl, hm⟩ := h
          obtain ⟨ys, zs, rfl, hy, hz⟩ := ih hm
          refine ⟨s :: ys, zs, rfl, ?_, hz⟩
          rw [merge_cons, hy, push_apart hs]
          rintro ⟨hk, q, hq, hqk⟩
          exact hj ⟨hk, q, by rw [hm, List.head?_append, Option.mem_def.1 hq]; rfl, hqk⟩

theorem push_append {s : Segment} {as bs : List Segment} (h : as ≠ [] ∨ ¬ Joins s bs) :
    push s (as ++ bs) = push s as ++ bs := by
  by_cases hs : s.text = []
  · rw [push_of_empty hs, push_of_empty hs]
  · cases as with
    | nil =>
      have hb : ¬ Joins s bs := by simpa using h
      rw [List.nil_append, push_apart hs hb, push_apart hs (not_joins_nil s)]
      rfl
    | cons a as =>
      by_cases hj : Joins s (a :: as)
      · obtain ⟨f, b, more, rfl, hm⟩ := joins_cases hj
        cases hm
        rfl
      · have hj' : ¬ Joins s (a :: (as ++ bs)) := hj
        rw [push_apart hs hj, List.cons_append, push_apart hs hj']
        rfl

theorem kind_getLast?_push (s : Segment) {as : List Segment} (h : as ≠ []) :
    (push s as).getLast?.map kind = as.getLast?.map kind := by
  obtain ⟨a, as, rfl⟩ := List.exists_cons_of_ne_nil h
  by_cases hs : s.text = []
  · rw [push_of_empty hs]
  · by_cases hj : Joins s (a :: as)
    · obtain ⟨f, b, more, rfl, hm⟩ := joins_cases hj
      cases hm
      cases as <;> rfl
    · rw [push_apart hs hj, List.getLast?_cons_cons]

theorem mem_merge_text_ne_nil {xs : List Segment} {p : Segment} (h : p ∈ merge xs) : p.text ≠ [] := by
  induction xs generalizing p with
  | nil => cases h
  | cons s xs ih =>
    rw [merge_cons] at h
    by_cases hs : s.text = []
    · rw [push_of_empty hs] at h
      exact ih h
    · by_cases hj : Joins s (merge xs)
      · obtain ⟨f, b, more, rfl, hm⟩ := joins_cases hj
        rw [hm] at ih h
        rw [push_code] at h
        rcases List.mem_cons.1 h with rfl | h
        · have hf : f ≠ [] := hs
          simp [hf]
        · exact ih (List.mem_cons_of_mem _ h)
      · rw [push_apart hs hj] at h
        rcases List.mem_cons.1 h with rfl | h
        · exact hs
        · exact ih h

theorem push_ne_nil (s : Segment) {as : List Segment} (h : as ≠ []) : push s as ≠ [] := by
  have hkind := kind_getLast?_push s h
  intro hnil
  rw [hnil, List.getLast?_eq_some_getLast h] at hkind
  cases hkind

/-- The last piece decides about the kind of the last merged piece. -/
theorem kind_getLast?_merge_append (xs : List Segment) {ys : List Segment} (h : merge ys ≠ []) :
    merge (xs ++ ys) ≠ [] ∧
      (merge (xs ++ ys)).getLast?.map kind = (merge ys).getLast?.map kind := by
  induction xs with
  | nil => exact ⟨h, rfl⟩
  | cons s xs ih =>
    rw [List.cons_append, merge_cons]
    exact ⟨push_ne_nil s ih.1, (kind_getLast?_push s ih.1).trans ih.2⟩

theorem merge_eq_nil {xs : List Segment} (h : textOf xs = []) : merge xs = [] := by
  cases hm : merge xs with
  | nil => rfl
  | cons p ps =>
    have hp : p ∈ merge xs := by simp [hm]
    rw [← textOf_merge, hm, textOf_cons] at h
    exact absurd (List.append_eq_nil_iff.1 h).1 (mem_merge_text_ne_nil hp)

/-- Pieces may be merged part by part where no code meets code. -/
theorem merge_append {xs ys : List Segment}
    (h : ∀ k ∈ (merge xs).getLast?.map kind, k = .code → ∀ q ∈ (merge ys).head?, q.kind ≠ .code) :
    merge (xs ++ ys) = merge xs ++ merge ys := by
  induction xs with
  | nil => rfl
  | cons s xs ih =>
    rw [List.cons_append, merge_cons, merge_cons]
    by_cases hnil : merge xs = []
    · have ih : merge (xs ++ ys) = merge ys := by
        simpa [hnil] using ih (by simp [hnil])
      by_cases hs : s.text = []
      · rw [push_of_empty hs, push_of_empty hs, ih, hnil, List.nil_append]
      · rw [merge_cons, hnil, push_apart hs (not_joins_nil s)] at h
        have hj : ¬ Joins s (merge ys) := fun ⟨hk, q, hq, hqk⟩ => h _ rfl hk q hq hqk
        rw [ih, hnil, ← push_append (.inr hj), List.nil_append]
    · rw [merge_cons, kind_getLast?_push s hnil] at h
      rw [ih h, push_append (.inl hnil)]

theorem mem_of_mem_merge {xs : List Segment} {p : Segment} (h : p ∈ merge xs) (hp : p.kind ≠ .code) :
    p ∈ xs := by
  induction xs with
  | nil => cases h
  | cons s xs ih =>
    rw [merge_cons] at h
    by_cases hs : s.text = []
    · rw [push_of_empty hs] at h
      exact List.mem_cons_of_mem _ (ih h)
    · by_cases hj : Joins s (merge xs)
      · obtain ⟨f, b, more, rfl, hm⟩ := joins_cases hj
        rw [hm] at ih h
        rw [push_code] at h
        rcases List.mem_cons.1 h with rfl | h
        · exact absurd rfl hp
        · exact List.mem_cons_of_mem _ (ih (List.mem_cons_of_mem _ h))
      · rw [push_apart hs hj] at h
        rcases List.mem_cons.1 h with rfl | h
        · exact List.mem_cons_self
        · exact List.mem_cons_of_mem _ (ih h)

/-- No two pieces of code meet in merged pieces. -/
theorem merge_code_apart {xs : List Segment} {p q : Segment} {rest : List Segment}
    (h : merge xs = p :: q :: rest) (hp : p.kind = .code) : q.kind ≠ .code := by
  induction xs generalizing p with
  | nil => cases h
  | cons s xs ih =>
    rw [merge_cons] at h
    by_cases hs : s.text = []
    · rw [push_of_empty hs] at h
      exact ih h hp
    · by_cases hj : Joins s (merge xs)
      · obtain ⟨f, b, more, rfl, hm⟩ := joins_cases hj
        rw [hm, push_code] at h
        cases h
        exact ih hm rfl
      · rw [push_apart hs hj, List.cons.injEq] at h
        obtain ⟨rfl, hm⟩ := h
        exact fun hq => hj ⟨hp, q, by rw [hm]; rfl, hq⟩

/-! ## Cells -/

/-- The segments of a token, without an empty one. -/
def cellsOf (u : Token) : List Segment :=
  u.gap.map ofTrivia ++ if u.lexeme.isEmpty then [] else [ofLexeme u]

/-- The pieces of a script before neighbouring code is joined. -/
def cells (t : Text) : List Segment :=
  (scan t).flatMap cellsOf

theorem merge_cells (t : Text) : merge (cells t) = segments t := by
  have htoken (u : Token) (rest : List Segment) :
      (cellsOf u).foldr push rest = (ofToken u).foldr push rest := by
    cases hu : u.lexeme with
    | nil =>
      have : (ofLexeme u).text = [] := by unfold ofLexeme; split <;> exact hu
      simp [cellsOf, ofToken, hu, push_of_empty this]
    | cons c l => simp [cellsOf, ofToken, hu]
  have htokens (us : List Token) :
      (us.flatMap cellsOf).foldr push [] = (us.flatMap ofToken).foldr push [] := by
    induction us with
    | nil => rfl
    | cons u us ih => rw [List.flatMap_cons, List.flatMap_cons, List.foldr_append, List.foldr_append, ih, htoken]
  exact htokens (scan t)

theorem textOf_cells (t : Text) : textOf (cells t) = t := by
  rw [← textOf_merge, merge_cells, segments_text]

theorem cells_gap {g : List Trivia} (h : Scan.gap (Trivia.textOf g) = (g, [])) :
    cells (Trivia.textOf g) = g.map ofTrivia := by
  simp [cells, scan_of_gap_nil h, cellsOf]

theorem cells_token {u : Token} {rest : Text} (h : u.Fits rest) :
    cells (u.text ++ rest) = u.gap.map ofTrivia ++ ofLexeme u :: cells rest := by
  have hne : u.lexeme.isEmpty = false := by simpa using h.lexeme_ne_nil
  simp [cells, scan_of_fits h, cellsOf, hne]

theorem segments_of_gap {g : List Trivia} (h : Scan.gap (Trivia.textOf g) = (g, [])) :
    segments (Trivia.textOf g) = (g.map ofTrivia).foldr push [] := by
  rw [← merge_cells, cells_gap h]
  rfl

theorem segments_of_fits {u : Token} {rest : Text} (h : u.Fits rest) :
    segments (u.text ++ rest) = (u.gap.map ofTrivia).foldr push (push (ofLexeme u) (segments rest)) := by
  rw [← merge_cells, cells_token h, merge, List.foldr_append, List.foldr_cons, ← merge_cells]
  rfl

theorem textOf_map_ofTrivia (g : List Trivia) : textOf (g.map ofTrivia) = Trivia.textOf g := by
  induction g with
  | nil => rfl
  | cons x g ih => cases x <;> simp [ih, ofTrivia, Trivia.text]

theorem text_ofLexeme (u : Token) : (ofLexeme u).text = u.lexeme := by
  unfold ofLexeme
  split <;> rfl

@[simp] theorem cells_nil : cells [] = [] :=
  cells_gap (g := []) (Scan.gap_of_none rfl)

/-! ## Cutting at the border of two cells -/

/-- The first part of a gap keeps its cells in front of a text, if it keeps its end there. -/
theorem cells_append_of_gap {g : List Trivia} {s : Text}
    (h : Scan.gap (Trivia.textOf g ++ s) = (g ++ (Scan.gap s).1, (Scan.gap s).2)) :
    cells (Trivia.textOf g ++ s) = g.map ofTrivia ++ cells s := by
  rcases hgap : Scan.gap s with ⟨g', _ | ⟨c, rest⟩⟩
  · rw [hgap] at h
    simp [cells, scan_of_gap_nil h, scan_of_gap_nil hgap, cellsOf]
  · rw [hgap] at h
    have hlexeme (k : TokenKind) (l : Text) : ofLexeme ⟨g ++ g', k, l⟩ = ofLexeme ⟨g', k, l⟩ := rfl
    simp [cells, scan_of_gap_cons h, scan_of_gap_cons hgap, cellsOf, hlexeme]

/-- The text `s` starts like `r`, if it is not empty. -/
def StartsLike (r s : Text) : Prop :=
  s ≠ [] → s.head? = r.head?

theorem cells_gap_cut {t s : Text} {g h : List Trivia} (hg : (Scan.gap t).1 = g ++ h)
    (hs : StartsLike (Trivia.textOf h ++ (Scan.gap t).2) s) :
    cells (Trivia.textOf g ++ s) = g.map ofTrivia ++ cells s := by
  apply cells_append_of_gap
  cases s with
  | nil =>
    rw [List.append_nil, Scan.gap_first hg, Scan.gap_of_none rfl, List.append_nil]
  | cons c s =>
    obtain ⟨r, hr⟩ := List.head?_eq_some_iff.1 (hs (List.cons_ne_nil c s)).symm
    exact Scan.gap_append hg hr

/-- Where the cells of a text are cut, other text may follow the first part if it looks alike. -/
theorem cells_replace {t s : Text} {xs ys : List Segment} (h : cells t = xs ++ ys)
    (hs : StartsLike (textOf ys) s)
    (ha : ∀ ws p zs, xs = ws ++ p :: zs → p.kind ≠ .comment →
      Scan.Alike p.text (textOf zs ++ textOf ys) (textOf zs ++ s)) :
    cells (textOf xs ++ s) = xs ++ cells s := by
  induction t using scan_induction generalizing xs with
  | gap g hg =>
    rw [cells_gap hg] at h
    obtain ⟨g₁, g₂, rfl, rfl, rfl⟩ := List.map_eq_append_iff.1 h
    rw [textOf_map_ofTrivia] at hs ⊢
    refine cells_gap_cut (t := Trivia.textOf (g₁ ++ g₂)) (by rw [hg]) ?_
    rwa [hg, List.append_nil]
  | token u rest hu ih =>
    have hgap := hu.gap_eq
    rw [cells_token hu] at h
    rcases List.append_eq_append_iff.1 h with ⟨vs, rfl, hv⟩ | ⟨vs, hv, rfl⟩
    · cases vs with
      | nil =>
        -- the cut is between the gap and the token
        obtain rfl : ys = ofLexeme u :: cells rest := by simpa using hv.symm
        rw [List.append_nil, textOf_map_ofTrivia]
        refine cells_gap_cut (t := u.text ++ rest) (h := []) (by simp [hgap]) ?_
        simpa [hgap, textOf_cells, text_ofLexeme] using hs
      | cons p vs =>
        -- the cut is behind the token
        obtain ⟨rfl, hrest⟩ : ofLexeme u = p ∧ cells rest = vs ++ ys := by simpa using hv
        have hkind : (ofLexeme u).kind ≠ .comment := by unfold ofLexeme; split <;> simp
        have hlike := ha (u.gap.map ofTrivia) _ vs rfl hkind
        rw [← textOf_append, ← hrest, textOf_cells, text_ofLexeme] at hlike
        have ih := ih hrest fun ws p zs hz => ha (u.gap.map ofTrivia ++ ofLexeme u :: ws) p zs (by simp [hz])
        have htext : textOf (u.gap.map ofTrivia ++ ofLexeme u :: vs) ++ s = u.text ++ (textOf vs ++ s) := by
          simp [textOf_map_ofTrivia, text_ofLexeme, Token.text, Token.gapText, Trivia.textOf]
        rw [htext, cells_token (hu.alike hlike), ih]
        simp
    · -- the cut is in the gap
      obtain ⟨g₁, g₂, hg, rfl, rfl⟩ := List.map_eq_append_iff.1 hv
      rw [textOf_map_ofTrivia]
      refine cells_gap_cut (t := u.text ++ rest) (h := g₂) (by rw [hgap, hg]) ?_
      simpa [hgap, textOf_cells, text_ofLexeme, textOf_map_ofTrivia] using hs

theorem cells_left {t : Text} {xs ys : List Segment} (h : cells t = xs ++ ys) :
    cells (textOf xs) = xs := by
  have := cells_replace (s := []) h (fun hne => absurd rfl hne) fun ws p zs _ _ => by
    rw [List.append_nil]
    exact Scan.Alike.of_initial _ (List.prefix_append _ _)
  simpa using this

theorem cells_right {t : Text} {xs ys : List Segment} (h : cells t = xs ++ ys) :
    cells (textOf ys) = ys := by
  induction t using scan_induction generalizing xs with
  | gap g hg =>
    rw [cells_gap hg] at h
    obtain ⟨g₁, g₂, rfl, rfl, rfl⟩ := List.map_eq_append_iff.1 h
    have hrest := Scan.gap_rest (t := Trivia.textOf (g₁ ++ g₂)) (g := g₁) (h := g₂) (by rw [hg])
    rw [hg, List.append_nil] at hrest
    rw [textOf_map_ofTrivia, cells_gap hrest]
  | token u rest hu ih =>
    have hdrop {g₁ g₂ : List Trivia} (hg : u.gap = g₁ ++ g₂) :
        cells (textOf (g₂.map ofTrivia ++ ofLexeme u :: cells rest)) =
          g₂.map ofTrivia ++ ofLexeme u :: cells rest := by
      have := cells_token (hu.dropGap hg)
      have hlexeme : ofLexeme { u with gap := g₂ } = ofLexeme u := rfl
      simpa [hlexeme, textOf_map_ofTrivia, text_ofLexeme, textOf_cells, Token.text, Token.gapText,
        Trivia.textOf] using this
    rw [cells_token hu] at h
    rcases List.append_eq_append_iff.1 h with ⟨vs, rfl, hv⟩ | ⟨vs, hv, rfl⟩
    · cases vs with
      | nil =>
        obtain rfl : ys = ofLexeme u :: cells rest := by simpa using hv.symm
        exact hdrop (List.append_nil _).symm
      | cons p vs =>
        obtain ⟨rfl, hrest⟩ : ofLexeme u = p ∧ cells rest = vs ++ ys := by simpa using hv
        exact ih hrest
    · obtain ⟨g₁, g₂, hg, rfl, rfl⟩ := List.map_eq_append_iff.1 hv
      exact hdrop hg

/-! ## Segments -/

theorem segments_left {t : Text} {as bs : List Segment} (h : segments t = as ++ bs) :
    segments (textOf as) = as := by
  rw [← merge_cells] at h
  obtain ⟨xs, ys, hxs, rfl, rfl⟩ := merge_split h
  rw [textOf_merge, ← merge_cells, cells_left hxs]

theorem segments_right {t : Text} {as bs : List Segment} (h : segments t = as ++ bs) :
    segments (textOf bs) = bs := by
  rw [← merge_cells] at h
  obtain ⟨xs, ys, hxs, rfl, rfl⟩ := merge_split h
  rw [textOf_merge, ← merge_cells, cells_right hxs]

/-- A segment of a script is the only segment of its own text. -/
theorem segments_of_mem {t : Text} {p : Segment} (h : p ∈ segments t) : segments p.text = [p] := by
  obtain ⟨front, back, happend⟩ := List.append_of_mem h
  have hright : segments (textOf (p :: back)) = [p] ++ back := segments_right happend
  have hleft := segments_left hright
  rwa [textOf_cons, textOf_nil, List.append_nil] at hleft

theorem not_digit_of_quote {q : Char} (h : q ∈ ['\x27', '\x22', '\x60']) : q.isDigit = false := by
  simp only [List.mem_cons, List.not_mem_nil, or_false] at h
  rcases h with rfl | rfl | rfl <;> decide

/-- What a cell looks like that is no code. -/
theorem cell_cases {t : Text} {p : Segment} (h : p ∈ cells t) :
    p.kind = .code ∨ (p.kind = .comment ∧ 2 ≤ p.text.length) ∨
      ∃ q v, q ∈ ['\x27', '\x22', '\x60'] ∧ p.text = q :: v ++ [q] := by
  have htrivia {t : Text} {x : Trivia} (hx : x ∈ (Scan.gap t).1) :
      (ofTrivia x).kind = .code ∨ ((ofTrivia x).kind = .comment ∧ 2 ≤ (ofTrivia x).text.length) := by
    obtain ⟨u, rest, hu⟩ := Scan.trivia?_of_mem_gap hx
    rcases Scan.trivia?_cases hu with ⟨_, -, rfl, -⟩ | ⟨_, -, rfl, -⟩ | ⟨_, _, -, -, rfl, -⟩
    · exact .inr ⟨rfl, by simp [ofTrivia]⟩
    · exact .inr ⟨rfl, by simp [ofTrivia]⟩
    · exact .inl rfl
  induction t using scan_induction with
  | gap g hg =>
    rw [cells_gap hg] at h
    obtain ⟨x, hx, rfl⟩ := List.mem_map.1 h
    have := htrivia (t := Trivia.textOf g) (x := x) (by rw [hg]; exact hx)
    exact this.imp_right .inl
  | token u rest hu ih =>
    rw [cells_token hu] at h
    rcases List.mem_append.1 h with h | h
    · obtain ⟨x, hx, rfl⟩ := List.mem_map.1 h
      have := htrivia (t := u.text ++ rest) (x := x) (by rw [hu.gap_eq]; exact hx)
      exact this.imp_right .inl
    · rcases List.mem_cons.1 h with rfl | h
      · obtain ⟨c, l, hl, htoken⟩ := hu.token_eq
        have hquotes (v : Text) (hv : u.kind = .string v ∨ u.kind = .quoted v) :
            c ∈ ['\x27', '\x22', '\x60'] ∧ u.lexeme = c :: Scan.doubled c v ++ [c] := by
          have := Scan.token_quotes (c := c) (t := l ++ rest) (v := v) (by rwa [htoken])
          rwa [htoken, ← hl] at this
        rw [text_ofLexeme]
        unfold ofLexeme
        split
        · next v hv => exact .inr (.inr ⟨c, _, hquotes v (.inl hv)⟩)
        · next v hv => exact .inr (.inr ⟨c, _, hquotes v (.inr hv)⟩)
        · exact .inl rfl
      · exact ih h

/-- The pieces of a token that are no code are not empty. -/
theorem ofToken_text_ne_nil {t : Text} {u : Token} (hu : u ∈ scan t) {p : Segment} (hp : p ∈ ofToken u)
    (hk : p.kind ≠ .code) : p.text ≠ [] := by
  have htrivia {t : Text} {x : Trivia} (hx : x ∈ (Scan.gap t).1) : (ofTrivia x).text ≠ [] := by
    obtain ⟨v, rest, hv⟩ := Scan.trivia?_of_mem_gap hx
    have hne := Scan.trivia?_text_ne_nil hv
    cases x <;> exact hne
  induction t using scan_induction with
  | gap g hg =>
    rw [scan_of_gap_nil hg] at hu
    obtain rfl := List.mem_singleton.1 hu
    rcases List.mem_append.1 hp with hp | hp
    · obtain ⟨x, hx, rfl⟩ := List.mem_map.1 hp
      exact htrivia (t := Trivia.textOf g) (by rw [hg]; exact hx)
    · rw [List.mem_singleton.1 hp] at hk
      exact absurd rfl hk
  | token v rest hv ih =>
    rw [scan_of_fits hv] at hu
    rcases List.mem_cons.1 hu with rfl | hu
    · rcases List.mem_append.1 hp with hp | hp
      · obtain ⟨x, hx, rfl⟩ := List.mem_map.1 hp
        exact htrivia (t := u.text ++ rest) (by rw [hv.gap_eq]; exact hx)
      · rw [List.mem_singleton.1 hp, text_ofLexeme]
        exact hv.lexeme_ne_nil
    · exact ih hu

theorem segment_length {t : Text} {p : Segment} (h : p ∈ segments t) (hp : p.kind ≠ .code) :
    2 ≤ p.text.length := by
  rw [← merge_cells] at h
  rcases cell_cases (mem_of_mem_merge h hp) with hcode | ⟨-, hlen⟩ | ⟨q, v, -, htext⟩
  · exact absurd hcode hp
  · exact hlen
  · simp [htext]

/-- Two pieces that stand next to each other stay what they are when text follows of which the second
one is a piece. -/
theorem segments_glue {p q : Segment} {t : Text} {rest : List Segment}
    (hpq : segments (p.text ++ q.text) = [p, q]) (hq : segments (q.text ++ t) = q :: rest) :
    segments (p.text ++ (q.text ++ t)) = p :: q :: rest := by
  have hmem : q ∈ segments (p.text ++ q.text) := by simp [hpq]
  have hlen := segment_length hmem
  rw [← merge_cells] at hpq hq hmem
  have hne : q.text ≠ [] := mem_merge_text_ne_nil hmem
  have hcode := merge_code_apart hpq
  obtain ⟨xs, ys, hcells, hxs, hys⟩ := merge_split (show merge _ = [p] ++ [q] from hpq)
  have hp : textOf xs = p.text := by rw [← textOf_merge, hxs]; simp
  have hy : textOf ys = q.text := by rw [← textOf_merge, hys]; simp
  have hreplace : cells (textOf xs ++ (q.text ++ t)) = xs ++ cells (q.text ++ t) := by
    refine cells_replace hcells (fun _ => ?_) fun ws c zs hws hc => ?_
    · obtain ⟨d, u, hu⟩ := List.exists_cons_of_ne_nil hne
      rw [hy, hu]
      rfl
    · rw [hy, ← List.append_assoc]
      by_cases htwo : 2 ≤ (textOf zs ++ q.text).length
      · exact .of_append _ htwo t
      · -- the second piece is one sign of code, so the cell in front of it is the first piece
        have hqtext := List.length_pos_iff.2 hne
        rw [List.length_append] at htwo
        have hz : textOf zs = [] := List.length_eq_zero_iff.1 (by omega)
        have hlast : c.text.getLast?.any Char.isDigit = false := by
          by_cases hctext : c.text = []
          · simp [hctext]
          · have hcmerge : merge (c :: zs) = [c] := by
              rw [merge_cons, merge_eq_nil hz, push_apart hctext (not_joins_nil c)]
            have hcne : merge (c :: zs) ≠ [] := by simp [hcmerge]
            have hkind := (kind_getLast?_merge_append ws hcne).2
            rw [← hws, hxs, hcmerge] at hkind
            have hqcode : q.kind = .code := Decidable.byContradiction fun hk => by
              have := hlen hk
              omega
            have hckind : c.kind ≠ .code := fun hk => hcode (by simpa [hk] using hkind) hqcode
            have hcmem : c ∈ cells (p.text ++ q.text) := by simp [hcells, hws]
            rcases cell_cases hcmem with hk | ⟨hk, -⟩ | ⟨d, v, hd, htext⟩
            · exact absurd hk hckind
            · exact absurd hk hc
            · rw [htext, List.getLast?_append]
              exact not_digit_of_quote hd
        rw [hz, List.nil_append]
        refine ⟨fun hnil => absurd hnil hne, fun d hd => .inl ?_, fun _ => .inr hlast, fun _ => .inr hlast⟩
        obtain ⟨e, u, hu⟩ := List.exists_cons_of_ne_nil hne
        rw [hu] at hd ⊢
        exact hd
  rw [← hp, ← merge_cells, hreplace, merge_append, hxs, hq]
  · rfl
  · rw [hxs, hq]
    rintro k hk rfl r hr
    cases hr
    exact hcode (by simpa using hk)

/-! ## Pieces that stand apart -/

/-- Each two neighbouring pieces stay what they are when they stand next to each other. -/
def StandApart : List Segment → Prop
  | [] => True
  | [p] => segments p.text = [p]
  | p :: q :: ps => segments (p.text ++ q.text) = [p, q] ∧ StandApart (q :: ps)

instance decidableStandApart : (ps : List Segment) → Decidable (StandApart ps)
  | [] => inferInstanceAs (Decidable True)
  | [p] => inferInstanceAs (Decidable (segments p.text = [p]))
  | p :: q :: ps =>
    haveI := decidableStandApart (q :: ps)
    inferInstanceAs (Decidable (segments (p.text ++ q.text) = [p, q] ∧ StandApart (q :: ps)))

/-- Pieces are the segments of their text exactly if they stand apart. -/
theorem segments_textOf_iff (ps : List Segment) : segments (textOf ps) = ps ↔ StandApart ps := by
  induction ps with
  | nil => simp [StandApart, ← merge_cells]
  | cons p ps ih =>
    cases ps with
    | nil => simp [StandApart]
    | cons q ps =>
      rw [StandApart, ← ih, textOf_cons, textOf_cons]
      constructor
      · intro h
        refine ⟨?_, ?_⟩
        · have := segments_left (show segments _ = [p, q] ++ ps from h)
          simpa using this
        · have := segments_right (show segments _ = [p] ++ (q :: ps) from h)
          simpa using this
      · rintro ⟨hpq, hq⟩
        exact segments_glue hpq hq

/-- A text is cut into given pieces exactly if it is their text and they stand apart. -/
theorem segments_eq_iff {t : Text} {ps : List Segment} :
    segments t = ps ↔ textOf ps = t ∧ StandApart ps := by
  rw [← segments_textOf_iff]
  constructor
  · rintro rfl
    exact ⟨segments_text t, by rw [segments_text]⟩
  · rintro ⟨rfl, h⟩
    exact h

end Segment

end DialectBridge
