import DialectBridge.Idiom.Clause
import DialectBridge.Proofs.Lexical.Lexeme
import DialectBridge.Proofs.Lexical.Shielded
import DialectBridge.Proofs.Text.Trim

/-!
# What the removal of a clause leaves
-/

namespace DialectBridge

/-- A gap without the whitespace at its end. -/
def Trivia.trimmed (g : List Trivia) : List Trivia :=
  (g.reverse.dropWhile fun x => x matches .blank _).reverse

namespace Clause

/-- The pieces of the tokens outside the clauses of a word. A clause takes the whitespace in front of
it along. -/
def outside (word : Text) (ts : List Token) : List Segment :=
  match ts with
  | [] => []
  | t :: rest =>
    match _h : after? word (t :: rest) with
    | some next => (Trivia.trimmed t.gap).map Segment.ofTrivia ++ outside word next
    | none => Segment.ofToken t ++ outside word rest
termination_by ts.length
decreasing_by
  · exact after?_length _h
  · simp

/-- The gaps in front of the clauses of a word. -/
def gaps (word : Text) (ts : List Token) : List (List Trivia) :=
  match ts with
  | [] => []
  | t :: rest =>
    match _h : after? word (t :: rest) with
    | some next => t.gap :: gaps word next
    | none => gaps word rest
termination_by ts.length
decreasing_by
  · exact after?_length _h
  · simp

/-- No whitespace is left at the end of the gap when the whitespace behind its last comment goes: that
comment does not end in whitespace itself. -/
def EndsClean (g : List Trivia) : Prop :=
  (Trivia.textOf (Trivia.trimmed g)).getLast?.any isBlank = false

/-! ## Step by step -/

variable {word : Text} {t : Token} {rest next : List Token}

theorem outside_clause (h : after? word (t :: rest) = some next) :
    outside word (t :: rest) =
      (Trivia.trimmed t.gap).map Segment.ofTrivia ++ outside word next := by
  rw [outside]
  split
  · next heq => cases h.symm.trans heq; rfl
  · next heq => cases h.symm.trans heq

theorem outside_token (h : after? word (t :: rest) = none) :
    outside word (t :: rest) = Segment.ofToken t ++ outside word rest := by
  rw [outside]
  split
  · next heq => cases h.symm.trans heq
  · rfl

theorem gaps_clause (h : after? word (t :: rest) = some next) :
    gaps word (t :: rest) = t.gap :: gaps word next := by
  rw [gaps]
  split
  · next heq => cases h.symm.trans heq; rfl
  · next heq => cases h.symm.trans heq

theorem gaps_token (h : after? word (t :: rest) = none) : gaps word (t :: rest) = gaps word rest := by
  rw [gaps]
  split
  · next heq => cases h.symm.trans heq
  · rfl

theorem remove_clause (h : after? word (t :: rest) = some next) (pending : Text) :
    remove word pending (t :: rest) = Text.trimEnd (pending ++ t.gapText) ++ remove word [] next := by
  rw [remove]
  split
  · next heq => cases h.symm.trans heq; rfl
  · next heq => cases h.symm.trans heq

theorem remove_token (h : after? word (t :: rest) = none) (pending : Text) :
    remove word pending (t :: rest) = remove word (pending ++ t.text) rest := by
  rw [remove]
  split
  · next heq => cases h.symm.trans heq
  · rfl

/-- Tokens are walked through clause by clause, and token by token between the clauses. -/
theorem clause_induction (word : Text) {motive : List Token → Prop} (nil : motive [])
    (clause : ∀ t rest next, after? word (t :: rest) = some next → motive next → motive (t :: rest))
    (token : ∀ t rest, after? word (t :: rest) = none → motive rest → motive (t :: rest))
    (ts : List Token) : motive ts := by
  induction hn : ts.length using Nat.strongRecOn generalizing ts with
  | ind n ih =>
    cases ts with
    | nil => exact nil
    | cons t rest =>
      cases h : after? word (t :: rest) with
      | none => exact token t rest h (ih rest.length (by simp [← hn]) rest rfl)
      | some next => exact clause t rest next h (ih next.length (hn ▸ after?_length h) next rfl)

theorem after?_suffix (h : after? word (t :: rest) = some next) : next <:+ rest := by
  cases rest with
  | nil => cases h
  | cons u us =>
    simp only [after?] at h
    split at h
    · exact (Reader.afterGroup?_suffix h).1.trans (List.suffix_cons _ _)
    · cases h

theorem not_eof_of_after? (h : after? word (t :: rest) = some next) : t.isEof = false := by
  cases rest with
  | nil => cases h
  | cons u us =>
    simp only [after?] at h
    split at h
    · next hword =>
      unfold Token.isWord at hword
      unfold Token.isEof
      split at hword <;> simp_all
    · cases h

/-- What is left outside the clauses comes from the tokens. -/
theorem mem_outside {ts : List Token} {p : Segment} (h : p ∈ outside word ts) :
    ∃ t ∈ ts, p ∈ Segment.ofToken t := by
  have htrimmed (g : List Trivia) : Trivia.trimmed g ⊆ g := by
    intro x hx
    rw [Trivia.trimmed, List.mem_reverse] at hx
    exact List.mem_reverse.1 ((List.dropWhile_sublist _).subset hx)
  induction ts using clause_induction word with
  | nil => simp [outside] at h
  | token t rest hafter ih =>
    rw [outside_token hafter] at h
    rcases List.mem_append.1 h with h | h
    · exact ⟨t, List.mem_cons_self, h⟩
    · obtain ⟨u, hu, hp⟩ := ih h
      exact ⟨u, List.mem_cons_of_mem _ hu, hp⟩
  | clause t rest next hafter ih =>
    rw [outside_clause hafter] at h
    rcases List.mem_append.1 h with h | h
    · obtain ⟨x, hx, rfl⟩ := List.mem_map.1 h
      exact ⟨t, List.mem_cons_self, List.mem_append_left _ (List.mem_map_of_mem (htrimmed _ hx))⟩
    · obtain ⟨u, hu, hp⟩ := ih h
      exact ⟨u, List.mem_cons_of_mem _ ((after?_suffix hafter).subset hu), hp⟩

/-! ## The text that is left -/

/-- Runs of whitespace are whitespace, and a token before another one does not end in it. -/
def Firm : List Token → Prop
  | [] => True
  | t :: ts =>
    (∀ run, .blank run ∈ t.gap → ∀ c ∈ run, isBlank c = true) ∧
      (ts.head?.any (fun u => !u.isEof) = true → t.lexeme ≠ [] ∧ t.lexeme.getLast?.any isBlank = false) ∧
      Firm ts

theorem Firm.of_suffix {ts us : List Token} (h : Firm ts) (hs : us <:+ ts) : Firm us := by
  induction ts with
  | nil => rwa [List.suffix_nil.1 hs]
  | cons t ts ih =>
    rcases List.suffix_cons_iff.1 hs with rfl | hs
    · exact h
    · exact ih h.2.2 hs

theorem Firm.getLast? (hf : Firm (t :: rest)) (q : Text)
    (hrest : rest.head?.any (fun u => !u.isEof) = true) : (q ++ t.text).getLast?.any isBlank = false := by
  obtain ⟨hne, hblank⟩ := hf.2.1 hrest
  rw [Token.text, ← List.append_assoc, Text.getLast?_append_right _ hne]
  exact hblank

/-- The tokens of a text are firm. -/
theorem firm_scan (t : Text) : Firm (scan t) := by
  have hgap {t : Text} {g : List Trivia} (hg : (Scan.gap t).1 = g) :
      ∀ run, .blank run ∈ g → ∀ c ∈ run, isBlank c = true := by
    intro run hrun
    obtain ⟨u, rest, hu⟩ := Scan.trivia?_of_mem_gap (hg ▸ hrun)
    exact (Scan.blank_of_trivia? hu).1
  induction t using scan_induction with
  | gap g hg =>
    rw [scan_of_gap_nil hg]
    exact ⟨hgap (t := Trivia.textOf g) (by rw [hg]), nofun, trivial⟩
  | token u rest hu ih =>
    rw [scan_of_fits hu]
    refine ⟨hgap (t := u.text ++ rest) (by rw [hu.gap_eq]), fun hhead => ⟨hu.lexeme_ne_nil, ?_⟩, ih⟩
    have hne : rest ≠ [] := by
      rintro rfl
      have hnil : Scan.gap [] = ([], []) := Scan.gap_of_none rfl
      simp [scan_of_gap_nil hnil, Token.isEof] at hhead
    obtain ⟨c, l, hl, htoken⟩ := hu.token_eq
    have hnone := Scan.trivia?_gap_snd (u.text ++ rest)
    rw [hu.gap_eq, hl, List.cons_append] at hnone
    have := Scan.token_getLast?_not_blank (Scan.trivia?_eq_none_iff.1 hnone).1 (t := l ++ rest)
      (by rwa [htoken])
    rwa [htoken, ← hl] at this

/-- What was read since the last clause stays in front of what is read next. -/
theorem remove_pending {ts : List Token} (hf : Firm ts) {pending : Text}
    (hp : ts.head?.any (fun u => !u.isEof) = true → pending.getLast?.any isBlank = false) :
    remove word pending ts = pending ++ remove word [] ts := by
  induction ts using clause_induction word generalizing pending with
  | nil => simp [remove]
  | clause t rest next h _ =>
    rw [remove_clause h, remove_clause h, List.nil_append,
      Text.trimEnd_append (hp (by simp [not_eof_of_after? h])), List.append_assoc]
  | token t rest h ih =>
    rw [remove_token h, remove_token h, ih hf.2.2 (hf.getLast? pending), ih hf.2.2 (hf.getLast? []),
      List.nil_append, List.append_assoc]

theorem trimEnd_trimmed {g : List Trivia} (h : ∀ run, .blank run ∈ g → ∀ c ∈ run, isBlank c = true) :
    Text.trimEnd (Trivia.textOf g) = Text.trimEnd (Trivia.textOf (Trivia.trimmed g)) := by
  suffices hreverse : ∀ r : List Trivia, (∀ run, .blank run ∈ r → ∀ c ∈ run, isBlank c = true) →
      Text.trimEnd (Trivia.textOf r.reverse) =
        Text.trimEnd (Trivia.textOf (r.dropWhile fun x => x matches .blank _).reverse) by
    have := hreverse g.reverse (by simpa using h)
    rwa [List.reverse_reverse] at this
  intro r hr
  induction r with
  | nil => rfl
  | cons x r ih =>
    cases x with
    | comment text => rfl
    | blank run =>
      rw [List.reverse_cons, Trivia.textOf_append, Trivia.textOf_cons, Trivia.textOf_nil, List.append_nil,
        Trivia.text, Text.trimEnd_append_blank _ (hr run List.mem_cons_self),
        ih fun u hu => hr u (List.mem_cons_of_mem _ hu)]
      rfl

/-- The pieces outside the clauses make up the text without the clauses, exactly if no clause stands
behind a comment that ends in whitespace. -/
theorem textOf_outside_iff {ts : List Token} (hf : Firm ts) :
    (remove word [] ts).length ≤ (Segment.textOf (outside word ts)).length ∧
      (Segment.textOf (outside word ts) = remove word [] ts ↔ ∀ g ∈ gaps word ts, EndsClean g) := by
  induction ts using clause_induction word with
  | nil => simp [outside, remove, gaps]
  | token t rest h ih =>
    obtain ⟨hlength, hiff⟩ := ih hf.2.2
    have hremove : remove word [] (t :: rest) = t.text ++ remove word [] rest := by
      rw [remove_token h, List.nil_append]
      exact remove_pending hf.2.2 (hf.getLast? [])
    rw [outside_token h, gaps_token h, hremove, Segment.textOf_append, Segment.textOf_ofToken,
      List.append_cancel_left_eq, ← hiff]
    simpa using hlength
  | clause t rest next h ih =>
    obtain ⟨hlength, hiff⟩ := ih (hf.2.2.of_suffix (after?_suffix h))
    have htrim : Text.trimEnd ([] ++ t.gapText) = Text.trimEnd (Trivia.textOf (Trivia.trimmed t.gap)) :=
      trimEnd_trimmed hf.1
    have hle := Text.length_trimEnd_le (Trivia.textOf (Trivia.trimmed t.gap))
    rw [outside_clause h, gaps_clause h, remove_clause h, htrim, Segment.textOf_append,
      Segment.textOf_map_ofTrivia, List.forall_mem_cons, ← hiff, EndsClean, ← Text.trimEnd_eq_self]
    refine ⟨by simp only [List.length_append]; omega, ?_, ?_⟩
    · intro heq
      have hlen := congrArg List.length heq
      simp only [List.length_append] at hlen
      obtain ⟨hgap, hrest⟩ := List.append_inj heq (by omega)
      exact ⟨hgap.symm, hrest⟩
    · rintro ⟨hgap, hrest⟩
      rw [hgap, hrest]

/-- The segments after the removal of the clauses are the pieces outside them, exactly if no clause
stands behind a comment that ends in whitespace and the pieces stand apart. -/
theorem segments_removeClause_iff (word script : Text) :
    segments (removeClause word script) = Segment.merge (outside word (scan script)) ↔
      (∀ g ∈ gaps word (scan script), EndsClean g) ∧
        Segment.StandApart (Segment.merge (outside word (scan script))) := by
  rw [Segment.segments_eq_iff, Segment.textOf_merge]
  exact and_congr_left fun _ => (textOf_outside_iff (firm_scan script)).2

/-- The removal of clauses keeps the shielded pieces outside them among the pieces that it puts
together. -/
theorem shielded_merge_outside (word script : Text) :
    Segment.shielded (Segment.merge (outside word (scan script))) =
      Segment.shielded (outside word (scan script)) := by
  refine Segment.shielded_merge fun p hp hk => ?_
  obtain ⟨t, ht, hp⟩ := mem_outside hp
  exact Segment.ofToken_text_ne_nil ht hp hk

end Clause

end DialectBridge
