import Mathlib
import DialectBridge.Proofs.Lexical.Shielded
import DialectBridge.Proofs.Spacing.Trim

/-!
# The pieces of a trimmed script

Whitespace at the start of a script belongs to the code that it starts with (`segments_blank_append`).
Trimming the end of a script trims its last piece, and when nothing of that one is left, the piece in
front of it (`segments_trimEnd`).
-/

namespace DialectBridge

open Scan

/-! ## Comments -/

theorem Scan.blockBody_cons {c : Char} {t : Text} (h : ¬(c = '*' ∧ t.head? = some '/')) :
    blockBody (c :: t) = (c :: (blockBody t).1, (blockBody t).2) := by
  rw [blockBody]
  rintro v rfl rfl
  exact h ⟨rfl, rfl⟩

/-- A block comment that is cut short has no end mark, so it takes the rest. -/
theorem Scan.blockBody_front {p r : Text} (h : blockBody (p ++ r) = (p ++ r, [])) : blockBody p = (p, []) := by
  induction p with
  | nil => rfl
  | cons c p ih =>
    rw [List.cons_append] at h
    by_cases hmark : c = '*' ∧ (p ++ r).head? = some '/'
    · obtain ⟨rfl, hhead⟩ := hmark
      obtain ⟨v, hv⟩ := List.head?_eq_some_iff.1 hhead
      rw [hv, blockBody] at h
      obtain rfl : v = [] := (Prod.mk.inj h).2
      -- the end mark itself is cut, or nothing is
      rcases List.append_eq_singleton_iff.1 hv with ⟨rfl, -⟩ | ⟨rfl, -⟩ <;> rfl
    · have hrest : blockBody (p ++ r) = (p ++ r, []) := by
        rw [blockBody_cons hmark] at h
        exact Prod.ext (List.cons.inj (Prod.mk.inj h).1).2 (Prod.mk.inj h).2
      have hmark' : ¬(c = '*' ∧ p.head? = some '/') := by
        rintro ⟨hc, hp⟩
        obtain ⟨v, rfl⟩ := List.head?_eq_some_iff.1 hp
        exact hmark ⟨hc, rfl⟩
      rw [blockBody_cons hmark', ih hrest]

/-- A comment that is trimmed is a comment. -/
theorem Scan.trivia?_trimEnd {t rest text : Text} (h : trivia? t = some (.comment text, rest)) :
    trivia? (Text.trimEnd text) = some (.comment (Text.trimEnd text), []) := by
  rcases trivia?_cases h with ⟨u, -, heq, -⟩ | ⟨u, -, heq, -⟩ | ⟨c, u, -, -, heq, -⟩
  · obtain rfl : text = '-' :: '-' :: u.takeWhile (· != '\n') := Trivia.comment.inj heq
    have htrim : Text.trimEnd ('-' :: '-' :: u.takeWhile (· != '\n')) =
        '-' :: '-' :: Text.trimEnd (u.takeWhile (· != '\n')) :=
      Text.trimEnd_append (p := ['-', '-']) rfl _
    have hrun : ∀ c ∈ Text.trimEnd (u.takeWhile (· != '\n')), (c != '\n') = true := fun c hc =>
      Text.forall_mem_takeWhile (· != '\n') u c ((trimEnd_initial _).subset hc)
    rw [htrim, trivia?, Text.takeWhile_all hrun, Text.dropWhile_all hrun]
  · obtain rfl : text = '/' :: '*' :: (blockBody u).1 := Trivia.comment.inj heq
    have htrim : Text.trimEnd ('/' :: '*' :: (blockBody u).1) = '/' :: '*' :: Text.trimEnd (blockBody u).1 :=
      Text.trimEnd_append (p := ['/', '*']) rfl _
    obtain ⟨b, hb⟩ := trimEnd_initial (blockBody u).1
    have hbody : blockBody (Text.trimEnd (blockBody u).1) = (Text.trimEnd (blockBody u).1, []) :=
      blockBody_front (r := b) (by rw [hb]; exact blockBody_self u)
    rw [htrim, trivia?, hbody]
  · cases heq

namespace Segment

/-! ## The start of a script -/

/-- Whitespace at the start of a script goes into the code there. -/
theorem segments_blank_append {b y : Text} (hb : ∀ c ∈ b, isBlank c = true) (hy : y.head?.any isBlank = false) :
    segments (b ++ y) = push ⟨.code, b⟩ (segments y) := by
  cases b with
  | nil => exact (push_of_empty rfl _).symm
  | cons c b =>
    obtain ⟨hc, hrun⟩ := List.forall_mem_cons.1 hb
    have htrivia : trivia? (c :: (b ++ y)) = some (.blank (c :: b), y) := by
      rw [trivia?_blank hc, Text.takeWhile_run hrun hy, Text.dropWhile_run hrun hy]
    have htext : c :: b ++ y = Trivia.textOf [.blank (c :: b)] ++ y := by simp [Trivia.text]
    have hgap := gap_of_trivia htrivia
    rw [← List.cons_append, htext] at hgap
    rw [← merge_cells, ← merge_cells, htext, cells_append_of_gap hgap]
    rfl

/-! ## The end of pieces -/

/-- Pieces without the whitespace at their end. -/
def settleEnd : List Segment → List Segment
  | [] => []
  | p :: ps => if settleEnd ps = [] then push ⟨p.kind, Text.trimEnd p.text⟩ [] else p :: settleEnd ps

theorem settleEnd_cons_of_nil (p : Segment) {ps : List Segment} (h : settleEnd ps = []) :
    settleEnd (p :: ps) = push ⟨p.kind, Text.trimEnd p.text⟩ [] :=
  if_pos h

theorem settleEnd_cons_of_ne (p : Segment) {ps : List Segment} (h : settleEnd ps ≠ []) :
    settleEnd (p :: ps) = p :: settleEnd ps :=
  if_neg h

/-- A single piece stays as long as something of its text is left. -/
theorem push_nil (p : Segment) : push p [] = if p.text = [] then [] else [p] := by
  split
  · next h => exact push_of_empty h []
  · next h => exact push_apart h (not_joins_nil p)

theorem settleEnd_eq_nil {ps : List Segment} : settleEnd ps = [] ↔ ∀ c ∈ textOf ps, isBlank c = true := by
  induction ps with
  | nil => simp [settleEnd]
  | cons p ps ih =>
    rw [textOf_cons, List.forall_mem_append, ← ih, settleEnd]
    split
    · next h => rw [push_nil, ← Text.trimEnd_eq_nil]; simp [h]
    · next h => simp [h]

theorem textOf_settleEnd (ps : List Segment) : textOf (settleEnd ps) = Text.trimEnd (textOf ps) := by
  induction ps with
  | nil => rfl
  | cons p ps ih =>
    rw [textOf_cons, settleEnd]
    split
    · next h => rw [textOf_push, textOf_nil, List.append_nil, Text.trimEnd_append_blank _ (settleEnd_eq_nil.1 h)]
    · next h =>
      have hne : Text.trimEnd (textOf ps) ≠ [] := fun hnil => h (settleEnd_eq_nil.2 (Text.trimEnd_eq_nil.1 hnil))
      rw [textOf_cons, ih, Text.trimEnd_append_of_ne hne]

theorem settleEnd_append_of_nil {ps qs : List Segment} (h : settleEnd qs = []) :
    settleEnd (ps ++ qs) = settleEnd ps := by
  induction ps with
  | nil => exact h
  | cons p ps ih => rw [List.cons_append, settleEnd, settleEnd, ih]

theorem settleEnd_append_of_ne {ps qs : List Segment} (h : settleEnd qs ≠ []) :
    settleEnd (ps ++ qs) = ps ++ settleEnd qs := by
  induction ps with
  | nil => rfl
  | cons p ps ih =>
    have hne : settleEnd (ps ++ qs) ≠ [] := by
      rw [ih]
      exact List.append_ne_nil_of_right_ne_nil ps h
    rw [List.cons_append, settleEnd_cons_of_ne p hne, ih, List.cons_append]

theorem kind_head?_settleEnd {ps : List Segment} (h : settleEnd ps ≠ []) :
    (settleEnd ps).head?.map kind = ps.head?.map kind := by
  cases ps with
  | nil => rfl
  | cons p ps =>
    by_cases hnil : settleEnd ps = []
    · rw [settleEnd_cons_of_nil p hnil, push_nil] at h ⊢
      split
      · next htext => exact absurd (if_pos htext) h
      · rfl
    · rw [settleEnd_cons_of_ne p hnil]
      rfl

/-- Code joins trimmed pieces as it joined the pieces. -/
theorem settleEnd_push (p : Segment) (ps : List Segment) : settleEnd (push p ps) =
    if settleEnd ps = [] then push ⟨p.kind, Text.trimEnd p.text⟩ [] else push p (settleEnd ps) := by
  by_cases hp : p.text = []
  · have htrim : Text.trimEnd p.text = [] := by rw [hp]; rfl
    rw [push_of_empty hp, push_of_empty hp, push_of_empty htrim]
    split
    · assumption
    · rfl
  by_cases hj : Joins p ps
  · obtain ⟨f, b, more, rfl, rfl⟩ := joins_cases hj
    rw [push_code, settleEnd, settleEnd]
    by_cases hmore : settleEnd more = []
    · rw [if_pos hmore, if_pos hmore, push_nil, push_nil]
      by_cases hb : Text.trimEnd b = []
      · rw [if_pos hb, if_pos rfl, Text.trimEnd_append_blank f (Text.trimEnd_eq_nil.1 hb), push_nil]
      · have hne : f ++ Text.trimEnd b ≠ [] := List.append_ne_nil_of_right_ne_nil f hb
        rw [if_neg hb, if_neg (List.cons_ne_nil _ _), push_code, Text.trimEnd_append_of_ne hb, if_neg hne]
    · rw [if_neg hmore, if_neg hmore, if_neg (List.cons_ne_nil _ _), push_code]
  · rw [push_apart hp hj, settleEnd]
    split
    · rfl
    · next hne =>
      have hj' : ¬ Joins p (settleEnd ps) := fun ⟨hk, q, hq, hqk⟩ => by
        have hhead := kind_head?_settleEnd hne
        rw [Option.mem_def.1 hq] at hhead
        obtain ⟨q', hq', hkind⟩ := Option.map_eq_some_iff.1 hhead.symm
        exact hj ⟨hk, q', hq', hkind.trans hqk⟩
      exact (push_apart hp hj').symm

theorem settleEnd_merge (ps : List Segment) : settleEnd (merge ps) = merge (settleEnd ps) := by
  induction ps with
  | nil => rfl
  | cons p ps ih =>
    have hnil : merge (settleEnd ps) = [] ↔ settleEnd ps = [] := by
      rw [← ih, settleEnd_eq_nil, settleEnd_eq_nil, textOf_merge]
    rw [merge_cons, settleEnd_push, settleEnd, ih]
    by_cases h : settleEnd ps = []
    · rw [if_pos h, if_pos (hnil.2 h), push_nil]
      split
      · rfl
      · next hne => exact (push_apart hne (not_joins_nil _)).symm
    · rw [if_neg h, if_neg (mt hnil.1 h), merge_cons]

/-! ## The end of a script -/

theorem ofLexeme_lexeme (g : List Trivia) (t : Token) (l : Text) :
    ofLexeme ⟨g, t.kind, l⟩ = ⟨(ofLexeme t).kind, l⟩ := by
  unfold ofLexeme
  cases t.kind <;> rfl

/-- A script of one piece is trimmed to one piece or none. -/
theorem cells_trimEnd_single {t : Text} {p : Segment} (h : cells t = [p]) :
    cells (Text.trimEnd t) = push ⟨p.kind, Text.trimEnd p.text⟩ [] := by
  rcases scan_cases t with ⟨g, hgap, rfl, -⟩ | ⟨u, rest, rfl, hfits, -⟩
  · rw [cells_gap hgap] at h
    obtain ⟨x, rfl, rfl⟩ := List.map_eq_singleton_iff.1 h
    obtain ⟨more, htrivia, -⟩ := trivia?_of_gap_cons hgap
    rw [Trivia.textOf_cons, Trivia.textOf_nil, List.append_nil] at htrivia ⊢
    cases x with
    | blank run =>
      have hnil : Text.trimEnd run = [] := Text.trimEnd_eq_nil.2 (blank_of_trivia? htrivia).1
      have hpush : push ⟨.code, Text.trimEnd run⟩ [] = [] := push_of_empty hnil []
      show cells (Text.trimEnd run) = push ⟨.code, Text.trimEnd run⟩ []
      rw [hpush, hnil, cells_nil]
    | comment text =>
      have hread := trivia?_trimEnd htrivia
      have hgap : gap (Trivia.textOf [.comment (Text.trimEnd text)]) = ([.comment (Text.trimEnd text)], []) := by
        rw [Trivia.textOf_cons, Trivia.textOf_nil, List.append_nil, Trivia.text, gap_of_trivia hread, gap_of_none rfl]
      have hcells := cells_gap hgap
      rw [Trivia.textOf_cons, Trivia.textOf_nil, List.append_nil] at hcells
      exact hcells.trans (push_apart (trivia?_text_ne_nil hread) (not_joins_nil _)).symm
  · rw [cells_token hfits] at h
    obtain ⟨hgap, hcons⟩ : u.gap.map ofTrivia = [] ∧ ofLexeme u :: cells rest = [p] := by
      rcases List.append_eq_singleton_iff.1 h with h | h
      · exact h
      · exact absurd h.2 (List.cons_ne_nil _ _)
    obtain ⟨rfl, hcells⟩ := List.cons.inj hcons
    obtain rfl : rest = [] := by rw [← textOf_cells rest, hcells, textOf_nil]
    have htrimmed := cells_token hfits.trimEnd
    rw [List.map_eq_nil_iff.1 hgap] at htrimmed
    have hgapText : u.gapText = [] := by rw [Token.gapText, List.map_eq_nil_iff.1 hgap]; rfl
    have htext : Text.trimEnd (u.text ++ []) = Token.text ⟨[], u.kind, Text.trimEnd u.lexeme⟩ ++ [] := by
      rw [List.append_nil, hfits.trimEnd_text, hgapText]
      simp [Token.text, Token.gapText]
    have hpush : push ⟨(ofLexeme u).kind, Text.trimEnd u.lexeme⟩ [] = [⟨(ofLexeme u).kind, Text.trimEnd u.lexeme⟩] :=
      push_apart hfits.trimEnd.lexeme_ne_nil (not_joins_nil _)
    rw [htext, htrimmed, text_ofLexeme, hpush, cells_nil, ofLexeme_lexeme]
    rfl

theorem cells_trimEnd (t : Text) : cells (Text.trimEnd t) = settleEnd (cells t) := by
  generalize hcells : cells t = ps
  have htext := textOf_cells t
  rw [hcells] at htext
  induction ps using List.reverseRecOn generalizing t with
  | nil =>
    rw [← htext]
    exact cells_nil
  | append_singleton xs p ih =>
    have hlast := cells_trimEnd_single (cells_right hcells)
    rw [textOf_append, textOf_cons, textOf_nil, List.append_nil] at htext
    rw [textOf_cons, textOf_nil, List.append_nil] at hlast
    by_cases hblank : Text.trimEnd p.text = []
    · -- the last piece goes, and the piece in front of it is the end
      have hnil : settleEnd [p] = [] := by rw [settleEnd_cons_of_nil p rfl, hblank, push_of_empty rfl]
      rw [settleEnd_append_of_nil hnil, ← htext, Text.trimEnd_append_blank _ (Text.trimEnd_eq_nil.1 hblank)]
      exact ih (textOf xs) (cells_left hcells) rfl
    · have hlike (ws zs : List Segment) (q : Segment) :
          Alike q.text (textOf zs ++ textOf [p]) (textOf zs ++ Text.trimEnd p.text) := by
        refine .of_initial _ ?_
        rw [textOf_cons, textOf_nil, List.append_nil, List.prefix_append_right_inj]
        exact trimEnd_initial p.text
      have hstart : StartsLike (textOf [p]) (Text.trimEnd p.text) := fun hne => by
        rw [textOf_cons, textOf_nil, List.append_nil, head?_trimEnd hne]
      have hreplace := cells_replace hcells hstart fun ws q zs _ _ => hlike ws zs q
      have hsingle : settleEnd [p] = push ⟨p.kind, Text.trimEnd p.text⟩ [] := settleEnd_cons_of_nil p rfl
      have hne : settleEnd [p] ≠ [] := by
        rw [hsingle, push_apart hblank (not_joins_nil _)]
        exact List.cons_ne_nil _ _
      rw [settleEnd_append_of_ne hne, ← htext, Text.trimEnd_append_of_ne hblank, hreplace, hlast, hsingle]

/-- The pieces of a trimmed script are the trimmed pieces. -/
theorem segments_trimEnd (t : Text) : segments (Text.trimEnd t) = settleEnd (segments t) := by
  rw [← merge_cells, ← merge_cells, cells_trimEnd, settleEnd_merge]

/-! ## Shielded pieces -/

/-- The literals, quoted names and comments among pieces, where a comment with nothing but whitespace
behind it is trimmed. -/
def shieldedToEnd : List Segment → List Segment
  | [] => []
  | p :: ps =>
    if p.kind = .code then shieldedToEnd ps
    else if p.kind = .comment ∧ ∀ c ∈ textOf ps, isBlank c = true then [⟨.comment, Text.trimEnd p.text⟩]
    else p :: shieldedToEnd ps

/-- Only code is blank. -/
theorem trimEnd_ne_nil_of_mem {t : Text} {p : Segment} (h : p ∈ segments t) (hp : p.kind ≠ .code) :
    Text.trimEnd p.text ≠ [] := by
  intro hnil
  have hblank := segments_blank_append (y := []) (Text.trimEnd_eq_nil.1 hnil) rfl
  have hempty : segments [] = [] := segments_of_gap (g := []) (gap_of_none rfl)
  rw [List.append_nil, segments_of_mem h, hempty, push_nil] at hblank
  split at hblank
  · cases hblank
  · exact hp (congrArg kind (List.cons.inj hblank).1)

/-- A literal or a quoted name ends in its quote. -/
theorem trimEnd_of_mem {t : Text} {p : Segment} (h : p ∈ segments t) (hp : p.kind ≠ .code)
    (hcomment : p.kind ≠ .comment) : Text.trimEnd p.text = p.text := by
  rw [← merge_cells] at h
  rcases cell_cases (mem_of_mem_merge h hp) with hcode | ⟨hkind, -⟩ | ⟨q, v, hq, htext⟩
  · exact absurd hcode hp
  · exact absurd hkind hcomment
  · rw [Text.trimEnd_eq_self, htext, Text.getLast?_append_right _ (List.cons_ne_nil q [])]
    exact (blank_of_quote hq).1

/-- Code in front of pieces does not matter to the shielded ones. -/
theorem shielded_settleEnd_push (code : Text) (ps : List Segment) :
    shielded (settleEnd (push ⟨.code, code⟩ ps)) = shielded (settleEnd ps) := by
  rw [settleEnd_push]
  split
  · next h =>
    rw [h, shielded_push (s := ⟨.code, Text.trimEnd code⟩) fun hk => absurd rfl hk]
    rfl
  · rw [shielded_push (s := ⟨.code, code⟩) fun hk => absurd rfl hk]
    rfl

theorem shielded_settleEnd (t : Text) : shielded (settleEnd (segments t)) = shieldedToEnd (segments t) := by
  have hpieces : ∀ p ∈ segments t, p.kind ≠ .code → Text.trimEnd p.text ≠ [] ∧
      (p.kind ≠ .comment → Text.trimEnd p.text = p.text) := fun p hp hk =>
    ⟨trimEnd_ne_nil_of_mem hp hk, trimEnd_of_mem hp hk⟩
  generalize segments t = ps at hpieces
  induction ps with
  | nil => rfl
  | cons p ps ih =>
    obtain ⟨hp, hps⟩ := List.forall_mem_cons.1 hpieces
    have hrest := ih hps
    rw [shieldedToEnd, ← hrest]
    by_cases hnil : settleEnd ps = []
    · have hblank := settleEnd_eq_nil.1 hnil
      rw [settleEnd_cons_of_nil p hnil, hnil]
      by_cases hcode : p.kind = .code
      · rw [if_pos hcode, shielded_push (by simp [hcode])]
        simp [shielded, hcode]
      · rw [if_neg hcode, push_apart (hp hcode).1 (not_joins_nil _)]
        by_cases hcomment : p.kind = .comment
        · rw [if_pos ⟨hcomment, hblank⟩]
          simp [shielded, hcomment]
        · rw [if_neg fun h => hcomment h.1, (hp hcode).2 hcomment]
          simp [shielded, hcode]
    · have hgoes : ¬(p.kind = .comment ∧ ∀ c ∈ textOf ps, isBlank c = true) := fun h =>
        hnil (settleEnd_eq_nil.2 h.2)
      rw [settleEnd_cons_of_ne p hnil, if_neg hgoes]
      by_cases hcode : p.kind = .code <;> simp [shielded, hcode]

/-! ## Code without whitespace -/

/-- The code among pieces, without whitespace. -/
def solidCode (ps : List Segment) : Text :=
  ps.flatMap fun p => if p.kind = .code then p.text.filter fun c => !isBlank c else []

theorem filter_blank {b : Text} (hb : ∀ c ∈ b, isBlank c = true) : b.filter (fun c => !isBlank c) = [] :=
  List.filter_eq_nil_iff.2 fun c hc => by simp [hb c hc]

theorem solidCode_push_blank {b : Text} (hb : ∀ c ∈ b, isBlank c = true) (ps : List Segment) :
    solidCode (push ⟨.code, b⟩ ps) = solidCode ps := by
  by_cases hnil : b = []
  · rw [push_of_empty (s := ⟨.code, b⟩) hnil]
  by_cases hj : Joins ⟨.code, b⟩ ps
  · obtain ⟨_, code, more, hb', rfl⟩ := joins_cases hj
    obtain rfl := (Segment.mk.inj hb').2
    rw [push_code]
    simp [solidCode, filter_blank hb]
  · rw [push_apart (s := ⟨.code, b⟩) hnil hj]
    simp [solidCode, filter_blank hb]

theorem solidCode_settleEnd (ps : List Segment) : solidCode (settleEnd ps) = solidCode ps := by
  induction ps with
  | nil => rfl
  | cons p ps ih =>
    by_cases h : settleEnd ps = []
    · rw [h] at ih
      obtain ⟨b, htext, hb⟩ := exists_trimEnd_append p.text
      have htrim : (Text.trimEnd p.text).filter (fun c => !isBlank c) = p.text.filter fun c => !isBlank c := by
        conv_rhs => rw [htext, List.filter_append, filter_blank hb, List.append_nil]
      have hrest : solidCode (p :: ps) = solidCode [p] := by
        show _ ++ solidCode ps = _ ++ solidCode []
        rw [← ih]
      rw [settleEnd_cons_of_nil p h, hrest, push_nil]
      split
      · next hnil =>
        rw [show Text.trimEnd p.text = [] from hnil] at htrim
        simp [solidCode, ← htrim]
      · simp [solidCode, htrim]
    · rw [settleEnd_cons_of_ne p h]
      exact congrArg (_ ++ ·) ih

/-! ## Changes of code -/

section Changes

variable {change : Text → Text}

theorem push_recode_nil (hnil : ∀ x, change x = [] ↔ x = []) (p : Segment) :
    (push p []).map (recode change) = push (recode change p) [] := by
  rw [push_nil, push_nil]
  by_cases h : p.text = []
  · rw [if_pos h, if_pos ((text_recode_eq_nil hnil p).2 h), List.map_nil]
  · rw [if_neg h, if_neg (mt (text_recode_eq_nil hnil p).1 h), List.map_singleton]

/-- A change that does not care about whitespace at the end may be made before or after trimming. -/
theorem settleEnd_map_recode (hnil : ∀ x, change x = [] ↔ x = [])
    (htrim : ∀ x, change (Text.trimEnd x) = Text.trimEnd (change x)) (ps : List Segment) :
    settleEnd (ps.map (recode change)) = (settleEnd ps).map (recode change) := by
  induction ps with
  | nil => rfl
  | cons p ps ih =>
    have hpiece : ⟨(recode change p).kind, Text.trimEnd (recode change p).text⟩ =
        recode change ⟨p.kind, Text.trimEnd p.text⟩ := by
      unfold recode
      split
      · next hk => rw [htrim]
      · rfl
    rw [List.map_cons]
    by_cases h : settleEnd ps = []
    · rw [settleEnd_cons_of_nil p h, settleEnd_cons_of_nil _ (by rw [ih, h, List.map_nil]), hpiece, push_recode_nil hnil]
    · rw [settleEnd_cons_of_ne p h, settleEnd_cons_of_ne _ (by rwa [ih, Ne, List.map_eq_nil_iff]), ih, List.map_cons]

theorem changeCode_trimEnd (hnil : ∀ x, change x = [] ↔ x = [])
    (htrim : ∀ x, change (Text.trimEnd x) = Text.trimEnd (change x)) (t : Text) :
    changeCode change (Text.trimEnd t) = Text.trimEnd (changeCode change t) := by
  rw [changeCode_eq_textOf, changeCode_eq_textOf, segments_trimEnd, ← settleEnd_map_recode hnil htrim,
    textOf_settleEnd]

end Changes

end Segment

end DialectBridge
