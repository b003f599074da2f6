import DialectBridge.Proofs.Lexical.Respaced
import DialectBridge.Proofs.Types.CutMask
import DialectBridge.Proofs.Types.FilledTypes
import Mathlib.Data.Bool.AllAny

/-!
# The mask of a script filled again

Filled with the texts that it holds, the mask of a script is the script (`spell_scriptParts`). What is held starts with
a quote or with the sign of a comment, and it ends in a quote, at the end of a block comment, or at the end of a line
(`shielded_ends`). So the type rules cannot tell where a literal, a quoted name or a comment stands, as long as no
parenthesis is in it (`fills_scriptParts`).
-/

namespace DialectBridge

open Masked Segment

/-! ## Where shielded pieces start and end -/

namespace Masked

/-- The mark, and the characters that literals, quoted names and comments start with. -/
def shieldStops : List Char :=
  [mark, '\x27', '\x22', '\x60', '-', '/']

theorem areStops_shieldStops : AreStops shieldStops where
  mark := List.mem_cons_self
  word := List.all_iff_forall_prop.1 (by decide +kernel)
  blank := List.all_iff_forall_prop.1 (by decide +kernel)

end Masked

namespace Scan

/-- A block comment goes up to its end mark or to the end of the text. -/
theorem blockBody_end (t : Text) : (∃ x, (blockBody t).1 = x ++ ['*', '/']) ∨ (blockBody t).2 = [] := by
  fun_induction blockBody t with
  | case1 t => exact .inl ⟨[], rfl⟩
  | case2 c t _ ih =>
    rcases ih with ⟨x, hx⟩ | hnil
    · exact .inl ⟨c :: x, congrArg (c :: ·) hx⟩
    · exact .inr hnil
  | case3 => exact .inr rfl

/-- A comment starts with its sign, and it ends apart from what follows. -/
theorem comment_ends {t rest u : Text} (h : trivia? t = some (.comment u, rest)) :
    (∃ c ∈ ['-', '/'], ∃ v, u = c :: v) ∧ EndsApart shieldStops u rest := by
  rcases trivia?_cases h with ⟨v, rfl, hu, hrest⟩ | ⟨v, rfl, hu, hrest⟩ | ⟨c, v, -, -, hu, -⟩
  · obtain rfl := Trivia.comment.inj hu
    refine ⟨⟨'-', List.mem_cons_self, _, rfl⟩, .inr fun c hc => ?_⟩
    have hstop := Text.head?_any_dropWhile (· != '\n') v
    rw [← hrest, Option.mem_def.1 hc] at hstop
    simpa using hstop
  · obtain rfl := Trivia.comment.inj hu
    refine ⟨⟨'/', by decide, _, rfl⟩, ?_⟩
    rcases blockBody_end v with ⟨x, hx⟩ | hnil
    · refine .inl ⟨'/', ?_, by decide⟩
      rw [hx, show '/' :: '*' :: (x ++ ['*', '/']) = ('/' :: '*' :: (x ++ ['*'])) ++ ['/'] by simp]
      exact List.getLast?_concat
    · rw [hrest, hnil]
      exact .inr (by simp)
  · cases hu

end Scan

namespace Segment

/-- A shielded piece starts with a quote or the sign of a comment, and it ends apart from what follows. -/
theorem shielded_ends {t : Text} {xs ys : List Segment} {p : Segment} (h : cells t = xs ++ p :: ys)
    (hp : p.kind ≠ .code) :
    (∃ c ∈ shieldStops, ∃ u, p.text = c :: u ∧ c ≠ mark ∧ (p.kind = .comment → c ≠ '\x22')) ∧
      EndsApart shieldStops p.text (textOf ys) := by
  have hright := cells_right h
  generalize textOf (p :: ys) = s at hright
  cases htrivia : Scan.trivia? s with
  | some found =>
    obtain ⟨x, rest⟩ := found
    have hcells : cells s = ofTrivia x :: cells rest := by
      rw [cells_eq_gap, Scan.gap_of_trivia htrivia, cells_eq_gap rest]
      rfl
    obtain ⟨rfl, rfl⟩ := List.cons.inj (hright.symm.trans hcells)
    cases x with
    | blank run => exact absurd rfl hp
    | comment u =>
      obtain ⟨⟨c, hc, v, hv⟩, hapart⟩ := Scan.comment_ends htrivia
      have hstop : ∀ c ∈ ['-', '/'], c ∈ shieldStops ∧ c ≠ mark ∧ c ≠ '\x22' := List.all_iff_forall_prop.1 (by decide)
      rw [textOf_cells]
      exact ⟨⟨c, (hstop c hc).1, v, hv, (hstop c hc).2.1, fun _ => (hstop c hc).2.2⟩, hapart⟩
  | none =>
    have hgap := Scan.gap_of_none htrivia
    rcases scan_cases s with ⟨g, hg, rfl, -⟩ | ⟨u, rest, rfl, hu, -⟩
    · rw [cells_gap hg] at hright
      rw [hgap] at hg
      cases hg
      cases hright
    · have hu' := hu.gap_eq
      rw [hgap] at hu'
      have hnone : u.gap = [] := (congrArg Prod.fst hu').symm
      rw [cells_token hu, hnone] at hright
      obtain ⟨rfl, -⟩ := List.cons.inj hright
      have hquotes (v : Text) (hv : u.kind = .string v ∨ u.kind = .quoted v) :
          ∃ q ∈ ['\x27', '\x22', '\x60'], u.lexeme = q :: Scan.doubled q v ++ [q] := hu.quotes hv
      have hstop {q : Char} (hq : q ∈ ['\x27', '\x22', '\x60']) : q ∈ shieldStops ∧ q ≠ mark := by
        simp only [List.mem_cons, List.not_mem_nil, or_false] at hq
        rcases hq with rfl | rfl | rfl <;> decide
      obtain ⟨q, hq, hlexeme⟩ : ∃ q ∈ ['\x27', '\x22', '\x60'], ∃ v, u.lexeme = q :: v ++ [q] := by
        unfold ofLexeme at hp
        split at hp
        · next v hv => exact (hquotes v (.inl hv)).imp fun q h => ⟨h.1, _, h.2⟩
        · next v hv => exact (hquotes v (.inr hv)).imp fun q h => ⟨h.1, _, h.2⟩
        · exact absurd rfl hp
      obtain ⟨v, hlexeme⟩ := hlexeme
      have hkind : (ofLexeme u).kind ≠ .comment := by
        unfold ofLexeme
        split <;> simp
      rw [text_ofLexeme, hlexeme]
      exact ⟨⟨q, (hstop hq).1, _, rfl, (hstop hq).2, fun hcomment => absurd hcomment hkind⟩,
        .inl ⟨q, List.getLast?_concat, (hstop hq).1⟩⟩

end Segment

namespace Masked

/-! ## Filling with what is held -/

/-- The text that stands in the place of a placeholder. -/
def filling (held : List Segment) (n : Nat) : Text :=
  (Part.fill held (.held n)).text

theorem spell_filling (held : List Segment) (ps : List Part) :
    spell (filling held) ps = textOf (ps.map (Part.fill held)) := by
  induction ps with
  | nil => rfl
  | cons p ps ih => cases p <;> simp [ih, filling, Part.fill]

theorem filling_append (front : List Segment) (s : Segment) (back : List Segment) :
    filling (front ++ s :: back) front.length = s.text := by
  simp [filling, Part.fill]

/-- Filled with what it holds, a mask gives the text back. -/
theorem spell_scriptParts (front ss : List Segment) :
    spell (filling (front ++ shielded ss)) (scriptParts front.length ss) = textOf ss := by
  induction ss generalizing front with
  | nil => rfl
  | cons s ss ih =>
    rw [scriptParts]
    by_cases hs : s.kind = .code
    · have hshielded : shielded (s :: ss) = shielded ss := by simp [shielded, hs]
      rw [if_pos hs, spell_append, spell_map_code, hshielded, ih, textOf_cons]
    · have hshielded : shielded (s :: ss) = s :: shielded ss := by simp [shielded, hs]
      have hrest := ih (front ++ [s])
      rw [List.append_assoc, List.singleton_append, List.length_append, List.length_singleton] at hrest
      rw [if_neg hs, spell_cons, Part.spelled_held, hshielded, filling_append, hrest, textOf_cons]

/-- In front of a placeholder the mask is that of the pieces in front of the one that it stands for. -/
theorem exists_piece_of_held {ss : List Segment} {k n : Nat} {xs ys : List Part}
    (h : scriptParts k ss = xs ++ .held n :: ys) : ∃ as s bs, ss = as ++ s :: bs ∧ s.kind ≠ .code ∧
      xs = scriptParts k as ∧ n = k + (shielded as).length ∧ ys = scriptParts (n + 1) bs := by
  induction ss generalizing k xs with
  | nil => simp [scriptParts] at h
  | cons s ss ih =>
    rw [scriptParts] at h
    by_cases hs : s.kind = .code
    · rw [if_pos hs] at h
      obtain ⟨zs, rfl, hzs⟩ : ∃ zs, xs = s.text.map .code ++ zs ∧ scriptParts k ss = zs ++ .held n :: ys := by
        rcases List.append_eq_append_iff.1 h with ⟨zs, hxs, hzs⟩ | ⟨zs, hxs, hzs⟩
        · exact ⟨zs, hxs, hzs⟩
        · cases zs with
          | nil => exact ⟨[], by simpa using hxs.symm, hzs.symm⟩
          | cons p zs =>
            obtain ⟨rfl, -⟩ := List.cons.inj hzs
            have hmem : Part.held n ∈ s.text.map Part.code := by simp [hxs]
            simp at hmem
      obtain ⟨as, t, bs, rfl, ht, rfl, rfl, rfl⟩ := ih hzs
      have hshielded : shielded (s :: as) = shielded as := by simp [shielded, hs]
      exact ⟨s :: as, t, bs, rfl, ht, by rw [scriptParts, if_pos hs], by rw [hshielded], rfl⟩
    · rw [if_neg hs] at h
      cases xs with
      | nil =>
        obtain ⟨hn, rfl⟩ := List.cons.inj h
        obtain rfl := Part.held.inj hn
        exact ⟨[], s, ss, rfl, hs, rfl, rfl, rfl⟩
      | cons p xs =>
        obtain ⟨rfl, hrest⟩ := List.cons.inj h
        obtain ⟨as, t, bs, rfl, ht, rfl, rfl, rfl⟩ := ih hrest
        have hshielded : shielded (s :: as) = s :: shielded as := by simp [shielded, hs]
        refine ⟨s :: as, t, bs, rfl, ht, by rw [scriptParts, if_neg hs], ?_, rfl⟩
        rw [hshielded, List.length_cons, Nat.add_right_comm, Nat.add_assoc]

/-- The text that is filled in is that of the piece. -/
theorem filling_held {ss : List Segment} {n : Nat} {xs ys : List Part} (h : scriptParts 0 ss = xs ++ .held n :: ys) :
    ∃ as s bs, ss = as ++ s :: bs ∧ s.kind ≠ .code ∧ filling (shielded ss) n = s.text ∧ xs = scriptParts 0 as ∧
      spell (filling (shielded ss)) ys = textOf bs := by
  obtain ⟨as, s, bs, rfl, hs, rfl, rfl, rfl⟩ := exists_piece_of_held h
  have hshielded : shielded (as ++ s :: bs) = shielded as ++ s :: shielded bs := by simp [shielded, hs]
  refine ⟨as, s, bs, rfl, hs, ?_, rfl, ?_⟩
  · rw [hshielded, Nat.zero_add, filling_append]
  · have hrest := spell_scriptParts (shielded as ++ [s]) bs
    rw [List.append_assoc, List.singleton_append, List.length_append, List.length_singleton] at hrest
    rw [hshielded, Nat.zero_add, hrest]

/-- The mask of a script without marks in its code is filled with pieces that stand apart, if no parenthesis is in
them. -/
theorem fills_scriptParts {t : Text} (hmark : ∀ s ∈ segments t, s.kind = .code → mark ∉ s.text)
    (hparens : ∀ p ∈ shielded (cells t), '(' ∉ p.text ∧ ')' ∉ p.text) :
    Fills shieldStops (filling (shielded (cells t))) (scriptParts 0 (cells t)) where
  sound := by
    rw [← scriptParts_merge fun p => cell_text_ne_nil, merge_cells]
    exact sound_scriptParts_iff.2 hmark
  starts n hn := by
    obtain ⟨xs, ys, hsplit⟩ := List.append_of_mem hn
    obtain ⟨as, s, bs, hcells, hs, hfill, -, -⟩ := filling_held hsplit
    rw [hfill]
    obtain ⟨c, hc, u, hu, -⟩ := (shielded_ends hcells hs).1
    exact ⟨c, hc, u, hu⟩
  parens n hn := by
    obtain ⟨xs, ys, hsplit⟩ := List.append_of_mem hn
    obtain ⟨as, s, bs, hcells, hs, hfill, -, -⟩ := filling_held hsplit
    rw [hfill]
    refine hparens s (List.mem_filter.2 ⟨?_, by simpa using hs⟩)
    rw [hcells]
    simp
  apart xs n ys hsplit := by
    obtain ⟨as, s, bs, hcells, hs, hfill, -, hrest⟩ := filling_held hsplit
    rw [hfill]
    refine (shielded_ends hcells hs).2.imp_right fun hnext p hp => ?_
    obtain ⟨zs, rfl⟩ := List.head?_eq_some_iff.1 hp
    cases p with
    | code c =>
      rw [hnext c]
      rw [← hrest]
      rfl
    | held m =>
      -- what is filled in starts with a stop and not with the end of a line
      have hsplit' : scriptParts 0 (cells t) = (xs ++ [.held n]) ++ .held m :: zs := by simpa using hsplit
      obtain ⟨as', s', bs', hcells', hs', hfill', -, -⟩ := filling_held hsplit'
      obtain ⟨c, hc, u, hu, -⟩ := (shielded_ends hcells' hs').1
      obtain rfl := hnext c (by rw [← hrest]; simp [hfill', hu])
      exact absurd hc (by decide)

end Masked

end DialectBridge
