import DialectBridge.Proofs.Lexical.Chain
import DialectBridge.Proofs.Reading.Stop

/-!
# Groups and pieces

A group is cut into pieces at its own commas. The pieces are level: outside of the groups in them
there is neither a comma nor a closing parenthesis (`pieces?_level`). So level tokens stay together
wherever they are put into a group (`Level.passes`).
-/

namespace DialectBridge

namespace Reader

/-- Tokens that the cutting of a group takes into the current piece. -/
def Passes (depth : Nat) (ts : List Token) : Prop :=
  ∀ rest, pieces? depth (ts ++ rest) =
    (pieces? depth rest).map fun (ps, after) => (ts.foldr Piece.push ps, after)

theorem Passes.nil (depth : Nat) : Passes depth [] := fun rest => by simp

theorem Passes.append {depth : Nat} {ts us : List Token} (ht : Passes depth ts) (hu : Passes depth us) :
    Passes depth (ts ++ us) := by
  intro rest
  rw [List.append_assoc, ht, hu, Option.map_map]
  congr 1
  funext p
  simp

/-- Tokens go in front of the first piece. -/
theorem foldr_push (ts : List Token) (us : List Token) (d : Token) (ps : List Piece) :
    ts.foldr Piece.push (⟨us, d⟩ :: ps) = ⟨ts ++ us, d⟩ :: ps := by
  induction ts with
  | nil => rfl
  | cons t ts ih => rw [List.foldr_cons, ih, Piece.push, List.cons_append]

theorem pieces?_open {o : Token} (ho : o.kind = .leftParen) (depth : Nat) (ts : List Token) :
    pieces? depth (o :: ts) = (pieces? (depth + 1) ts).map fun (ps, after) => (Piece.push o ps, after) := by
  rw [pieces?.eq_def]
  simp only [ho]

theorem pieces?_close {c : Token} (hc : c.kind = .rightParen) (depth : Nat) (ts : List Token) :
    pieces? (depth + 1) (c :: ts) = (pieces? depth ts).map fun (ps, after) => (Piece.push c ps, after) := by
  rw [pieces?.eq_def]
  simp only [hc]

theorem pieces?_comma {c : Token} (hc : c.kind = .comma) (ts : List Token) :
    pieces? 0 (c :: ts) = (pieces? 0 ts).map fun (ps, after) => (⟨[], c⟩ :: ps, after) := by
  rw [pieces?.eq_def]
  simp only [hc]

theorem pieces?_last {c : Token} (hc : c.kind = .rightParen) (ts : List Token) :
    pieces? 0 (c :: ts) = some ([⟨[], c⟩], ts) := by
  rw [pieces?.eq_def]
  simp only [hc]

theorem pieces?_end {e : Token} (he : e.kind = .eof) (depth : Nat) (ts : List Token) :
    pieces? depth (e :: ts) = none := by
  rw [pieces?.eq_def]
  simp only [he]

theorem pieces?_other {t : Token} {depth : Nat} (hleft : t.kind ≠ .leftParen) (hright : t.kind ≠ .rightParen)
    (hcomma : t.kind = .comma → depth ≠ 0) (heof : t.kind ≠ .eof) (ts : List Token) :
    pieces? depth (t :: ts) = (pieces? depth ts).map fun (ps, after) => (Piece.push t ps, after) := by
  rw [pieces?.eq_def]
  cases hkind : t.kind <;> cases depth <;> simp_all

/-! ## The rest of a group -/

/-- The tokens close `depth` nested groups and the one around them, and go into one piece of the group
around these. -/
def Closes (depth : Nat) (us : List Token) : Prop :=
  ∀ tail, afterGroup? depth (us ++ tail) = some tail ∧
    pieces? (depth + 1) (us ++ tail) =
      (pieces? 0 tail).map fun (ps, after) => (us.foldr Piece.push ps, after)

/-- What is passed of a group closes it. -/
theorem exists_closes {depth : Nat} {ts rest : List Token} (h : afterGroup? depth ts = some rest) :
    ∃ us, ts = us ++ rest ∧ Closes depth us := by
  fun_induction afterGroup? depth ts with
  | case1 => cases h
  | case2 depth t ts hkind ih =>
    obtain ⟨us, rfl, hus⟩ := ih h
    refine ⟨t :: us, rfl, fun tail => ?_⟩
    rw [List.cons_append, afterGroup?.eq_def, pieces?.eq_def]
    simp only [hkind, (hus tail).1, (hus tail).2, Option.map_map, true_and]
    rfl
  | case3 t ts hkind =>
    cases h
    refine ⟨[t], rfl, fun tail => ?_⟩
    rw [List.cons_append, afterGroup?.eq_def, pieces?.eq_def]
    simp only [hkind, List.nil_append, true_and]
    rfl
  | case4 t ts hkind depth ih =>
    obtain ⟨us, rfl, hus⟩ := ih h
    refine ⟨t :: us, rfl, fun tail => ?_⟩
    rw [List.cons_append, afterGroup?.eq_def, pieces?.eq_def]
    simp only [hkind, (hus tail).1, (hus tail).2, Option.map_map, true_and]
    rfl
  | case5 => cases h
  | case6 depth t ts hleft hright heof ih =>
    obtain ⟨us, rfl, hus⟩ := ih h
    refine ⟨t :: us, rfl, fun tail => ?_⟩
    rw [List.cons_append, afterGroup?_cons_other hleft hright heof,
      pieces?_other hleft hright (fun _ => Nat.succ_ne_zero depth) heof, (hus tail).1, (hus tail).2, Option.map_map]
    exact ⟨rfl, rfl⟩

theorem closes_of_afterGroup? {depth : Nat} {us : List Token} (h : afterGroup? depth us = some []) :
    Closes depth us := by
  obtain ⟨vs, heq, hvs⟩ := exists_closes h
  rw [List.append_nil] at heq
  exact heq ▸ hvs

/-- Closing several groups is closing the inner ones and then the outer ones. -/
theorem afterGroup?_add (depth inner : Nat) (ts : List Token) :
    afterGroup? (depth + inner + 1) ts = (afterGroup? inner ts).bind (afterGroup? depth) := by
  fun_induction afterGroup? inner ts with
  | case1 => rfl
  | case2 inner t ts hkind ih =>
    rw [← ih, afterGroup?.eq_def]
    simp only [hkind]
    rfl
  | case3 t ts hkind =>
    rw [afterGroup?.eq_def]
    simp only [hkind]
    rfl
  | case4 t ts hkind inner ih =>
    rw [← ih, afterGroup?.eq_def]
    simp only [hkind]
    rfl
  | case5 inner t ts hkind =>
    rw [afterGroup?.eq_def]
    simp only [hkind]
    rfl
  | case6 inner t ts hleft hright heof ih => rw [afterGroup?_cons_other hleft hright heof, ih]

/-! ## Level tokens -/

/-- The token neither opens, closes nor separates anything. -/
def IsPlain (t : Token) : Prop :=
  t.kind ≠ .leftParen ∧ t.kind ≠ .rightParen ∧ t.kind ≠ .comma ∧ t.kind ≠ .eof

/-- Plain tokens and whole groups. -/
inductive Level : List Token → Prop where
  | nil : Level []
  | plain {t : Token} {ts : List Token} (ht : IsPlain t) (hts : Level ts) : Level (t :: ts)
  | group {o : Token} {us ts : List Token} (ho : o.kind = .leftParen) (hus : Closes 0 us) (hts : Level ts) :
      Level (o :: (us ++ ts))

theorem Level.append {ts us : List Token} (ht : Level ts) (hu : Level us) : Level (ts ++ us) := by
  induction ht with
  | nil => exact hu
  | plain ht _ ih => exact .plain ht ih
  | group ho hvs _ ih =>
    rw [List.cons_append, List.append_assoc]
    exact .group ho hvs ih

theorem Level.of_plain {t : Token} {ts : List Token} (h : Level (t :: ts)) (ht : t.kind ≠ .leftParen) :
    IsPlain t ∧ Level ts := by
  cases h with
  | plain ht hts => exact ⟨ht, hts⟩
  | group ho _ _ => exact absurd ho ht

/-- A group at the head of level tokens ends among them, and what follows is level. -/
theorem Level.of_group {o : Token} {ts : List Token} (h : Level (o :: ts)) (ho : o.kind = .leftParen) :
    ∃ us rest, ts = us ++ rest ∧ Closes 0 us ∧ Level rest ∧ afterGroup? 0 ts = some rest := by
  cases h with
  | plain ht _ => exact absurd ho ht.1
  | @group _ us ts _ hus hts => exact ⟨us, ts, rfl, hus, hts, (hus ts).1⟩

theorem Level.withGap {ts : List Token} (h : Level ts) (g : List Trivia) : Level (Token.withGap g ts) := by
  cases h with
  | nil => exact .nil
  | plain ht hts => exact .plain ht hts
  | group ho hus hts => exact .group ho hus hts

/-- Level tokens stay in one piece. -/
theorem Level.passes {ts : List Token} (h : Level ts) : Passes 0 ts := by
  induction h with
  | nil => exact .nil 0
  | plain ht _ ih =>
    intro rest
    rw [List.cons_append, pieces?_other ht.1 ht.2.1 (fun hkind => absurd hkind ht.2.2.1) ht.2.2.2, ih,
      Option.map_map]
    rfl
  | @group o us ts ho hus _ ih =>
    intro rest
    rw [List.cons_append, List.append_assoc, pieces?_open ho, (hus (ts ++ rest)).2, ih rest, Option.map_map,
      Option.map_map]
    congr 1
    funext p
    simp

/-- What holds of the pieces of a group: they are level, and each one stands in the group with its
delimiter behind it, the first one at its start. -/
structure AreCutFrom (ts : List Token) (ps : List Piece) : Prop where
  first : ∃ q qs back, ps = q :: qs ∧ ts = q.tokens ++ q.delimiter :: back
  level : ∀ p ∈ ps, Level p.tokens
  place : ∀ p ∈ ps, p.delimiter.kind ≠ .eof ∧ ∃ back, p.tokens ++ p.delimiter :: back <:+ ts

/-- Level tokens in front of a group go into its first piece. -/
theorem AreCutFrom.append {us ts : List Token} {ps : List Piece} (hu : Level us) (h : AreCutFrom ts ps) :
    AreCutFrom (us ++ ts) (us.foldr Piece.push ps) := by
  obtain ⟨q, qs, back, rfl, rfl⟩ := h.first
  rw [foldr_push]
  refine ⟨⟨_, _, back, rfl, by simp⟩, ?_, ?_⟩
  · refine List.forall_mem_cons.2 ⟨hu.append (h.level q List.mem_cons_self), fun p hp => ?_⟩
    exact h.level p (List.mem_cons_of_mem _ hp)
  · refine List.forall_mem_cons.2 ⟨⟨(h.place q List.mem_cons_self).1, back, by simp⟩, fun p hp => ?_⟩
    obtain ⟨hdelimiter, back', hback⟩ := h.place p (List.mem_cons_of_mem _ hp)
    exact ⟨hdelimiter, back', hback.trans (List.suffix_append _ _)⟩

/-- A group at the head of another one ends in it and goes into the first piece. -/
theorem pieces?_group {o : Token} {ts rest : List Token} {ps : List Piece} (ho : o.kind = .leftParen)
    (h : pieces? 0 (o :: ts) = some (ps, rest)) :
    ∃ us next qs, ts = us ++ next ∧ Closes 0 us ∧ pieces? 0 next = some (qs, rest) ∧
      ps = (o :: us).foldr Piece.push qs := by
  rw [pieces?_open ho] at h
  obtain ⟨⟨inner, after⟩, hinner, heq⟩ := Option.map_eq_some_iff.1 h
  cases heq
  have houter : (afterGroup? 1 ts).isSome = true := by
    rw [← pieces?_map_snd, hinner]
    rfl
  rw [show afterGroup? 1 ts = _ from afterGroup?_add 0 0 ts] at houter
  obtain ⟨next, hnext⟩ := Option.isSome_iff_exists.1 (Option.isSome_of_isSome_bind houter)
  obtain ⟨us, rfl, hus⟩ := exists_closes hnext
  rw [(hus next).2] at hinner
  obtain ⟨⟨qs, after⟩, hqs, heq⟩ := Option.map_eq_some_iff.1 hinner
  cases heq
  exact ⟨us, next, qs, rfl, hus, hqs, rfl⟩

/-- A group is cut into level pieces. -/
theorem areCutFrom_pieces? {ts rest : List Token} {ps : List Piece} (h : pieces? 0 ts = some (ps, rest)) :
    AreCutFrom ts ps := by
  induction hlen : ts.length using Nat.strongRecOn generalizing ts ps with
  | ind n ih =>
    cases ts with
    | nil => cases h
    | cons t ts =>
      rw [List.length_cons] at hlen
      by_cases hleft : t.kind = .leftParen
      · obtain ⟨us, next, qs, rfl, hus, hqs, rfl⟩ := pieces?_group hleft h
        have hcut := ih next.length (by rw [List.length_append] at hlen; omega) hqs rfl
        have hgroup : Level (t :: (us ++ [])) := .group hleft hus .nil
        rw [List.append_nil] at hgroup
        exact hcut.append hgroup
      · by_cases hright : t.kind = .rightParen
        · rw [pieces?.eq_def] at h
          simp only [hright] at h
          cases h
          refine ⟨⟨_, [], rest, rfl, rfl⟩, by simp [Level.nil], ?_⟩
          exact List.forall_mem_cons.2 ⟨⟨by simp [hright], rest, List.suffix_refl _⟩, by simp⟩
        · by_cases hcomma : t.kind = .comma
          · rw [pieces?_comma hcomma] at h
            obtain ⟨⟨qs, after⟩, hqs, heq⟩ := Option.map_eq_some_iff.1 h
            cases heq
            have hcut := ih ts.length (by omega) hqs rfl
            refine ⟨⟨_, qs, ts, rfl, rfl⟩, List.forall_mem_cons.2 ⟨.nil, hcut.level⟩, ?_⟩
            refine List.forall_mem_cons.2 ⟨⟨by simp [hcomma], ts, List.suffix_refl _⟩, fun p hp => ?_⟩
            obtain ⟨hdelimiter, back, hback⟩ := hcut.place p hp
            exact ⟨hdelimiter, back, hback.trans (List.suffix_cons t ts)⟩
          · have heof : t.kind ≠ .eof := fun heof => by
              rw [pieces?.eq_def] at h
              simp [heof] at h
            rw [pieces?_other hleft hright (fun hkind => absurd hkind hcomma) heof] at h
            obtain ⟨⟨qs, after⟩, hqs, heq⟩ := Option.map_eq_some_iff.1 h
            cases heq
            have hcut := ih ts.length (by omega) hqs rfl
            exact hcut.append (.plain ⟨hleft, hright, hcomma, heof⟩ .nil)

/-! ## Groups of a script -/

/-- What is passed of a group ends with a parenthesis. -/
theorem exists_closing {depth : Nat} {ts rest : List Token} (h : afterGroup? depth ts = some rest) :
    ∃ us c, ts = us ++ c :: rest ∧ c.kind = .rightParen := by
  fun_induction afterGroup? depth ts with
  | case1 => cases h
  | case2 depth t ts _ ih | case4 t ts _ depth ih | case6 depth t ts _ _ _ ih =>
    obtain ⟨us, c, rfl, hc⟩ := ih h
    exact ⟨t :: us, c, rfl, hc⟩
  | case3 t ts hkind =>
    cases h
    exact ⟨[], t, rfl, hkind⟩
  | case5 => cases h

section

variable {o : Token} {ts rest : List Token} (ho : o.kind = .leftParen)
include ho

theorem skipGroup_cons (h : afterGroup? 0 ts = some rest) :
    skipGroup (o :: ts) = .ok (Token.taken (o :: ts) rest, rest) := by
  simp [skipGroup, expect, atLeftParen_cons.2 ho, h]

theorem skipGroup_unclosed (h : afterGroup? 0 ts = none) : skipGroup (o :: ts) = .error (unclosed (o :: ts)) := by
  simp [skipGroup, expect, atLeftParen_cons.2 ho, h]

theorem splitGroup_cons {ps : List Piece} (h : pieces? 0 ts = some (ps, rest)) :
    splitGroup (o :: ts) = .ok (partsFrom ts ps, rest) := by
  simp [splitGroup, expect, atLeftParen_cons.2 ho, h]

theorem splitGroup_unclosed (h : pieces? 0 ts = none) : splitGroup (o :: ts) = .error (unclosed (o :: ts)) := by
  simp [splitGroup, expect, atLeftParen_cons.2 ho, h]

end

variable {ts rest : List Token} {parts : List Part}

theorem exists_pieces_of_splitGroup (h : splitGroup ts = .ok (parts, rest)) :
    ∃ inside ps, inside <:+ ts ∧ pieces? 0 inside = some (ps, rest) ∧ parts = partsFrom inside ps := by
  unfold splitGroup at h
  split at h
  · cases h
  · next inside hopen =>
    split at h
    · next ps after hpieces =>
      cases h
      exact ⟨inside, ps, leavesSuffix_expect _ _ hopen, hpieces, rfl⟩
    · cases h

theorem exists_closing_of_splitGroup (h : splitGroup ts = .ok (parts, rest)) :
    ∃ us c, ts = us ++ c :: rest ∧ c.kind = .rightParen := by
  obtain ⟨inside, ps, ⟨front, rfl⟩, hpieces, -⟩ := exists_pieces_of_splitGroup h
  have hgroup : afterGroup? 0 inside = some rest := by rw [← pieces?_map_snd, hpieces, Option.map_some]
  obtain ⟨us, c, rfl, hc⟩ := exists_closing hgroup
  exact ⟨front ++ us, c, by rw [List.append_assoc], hc⟩

/-- The parts of a group of a script are runs of level tokens that can be written down. -/
theorem part_of_splitGroup {script : Text} (hts : ts <:+ scan script) (h : splitGroup ts = .ok (parts, rest))
    {part : Part} (hpart : part ∈ parts) :
    Token.Chain part.tokens ∧ Level part.tokens ∧ part.tokens ⊆ scan script := by
  obtain ⟨inside, ps, hinside, hpieces, rfl⟩ := exists_pieces_of_splitGroup h
  have hcut := areCutFrom_pieces? hpieces
  have htokens : part.tokens ∈ (partsFrom inside ps).map Part.tokens := List.mem_map_of_mem hpart
  rw [tokens_partsFrom] at htokens
  obtain ⟨p, hp, heq⟩ := List.mem_map.1 (List.mem_filter.1 htokens).1
  obtain ⟨hdelimiter, back, hback⟩ := hcut.place p hp
  have hscript := hback.trans (hinside.trans hts)
  rw [← heq]
  exact ⟨.of_scan hscript hdelimiter, hcut.level p hp, fun t ht => hscript.subset (List.mem_append_left _ ht)⟩

end Reader

end DialectBridge
