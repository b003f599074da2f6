import DialectBridge.Proofs.Idiom.WholeWords
import DialectBridge.Proofs.Pattern.InStep

/-!
# New words in the place of idioms

A function or a type of Oracle gives way to a new word, and perhaps to signs and digits behind it. None of
these is the start of an idiom, and what stands around a match looks as before, so in the renewed code an
idiom matches only where it matched in the old code (`Renewed.not_reaches`).
-/

namespace DialectBridge

open Pattern

/-! ## New words -/

/-- The words that functions and types are replaced by. -/
def newWords : List Text :=
  ["CURRENT_DATE", "CURRENT_TIMESTAMP", "COALESCE", "VARCHAR", "INTEGER", "BIGINT", "BOOLEAN", "DECIMAL", "NUMERIC"]

/-- The letters that new words start with. -/
def newLetters : List Char :=
  ['C', 'V', 'I', 'B', 'D', 'N']

/-- A text that stands whole gives way to a new word with signs and digits behind it. Behind a word there are none, and
the one word that a word of an idiom goes on from is written for a word. -/
structure Renews (before taken after word signs : Text) : Prop where
  whole : StandsWhole before taken after
  starts : taken.head?.any isWordCharacter = true
  mem : word ∈ newWords
  behind : ∀ c ∈ signs, isWordDigit c = true ∨ c ∈ ['(', ')', ',']
  bare : taken.getLast?.any isWordCharacter = true → signs = []
  closed : word = "VARCHAR" → taken.getLast?.any isWordCharacter = true

/-- The second text is the first one with new words in the place of some matches. Where a character is
copied, the pattern does not match. -/
inductive Renewed (p : Pattern) : Text → Text → Text → Text → Prop
  | nil (before before' : Text) : Renewed p before [] before' []
  | copied {c : Char} {before after before' after' : Text} (hnone : p.matcher before (c :: after) = none)
      (rest : Renewed p (c :: before) after (c :: before') after') : Renewed p before (c :: after) before' (c :: after')
  | found {before taken after before' after' word signs : Text} (renews : Renews before taken after word signs)
      (rest : Renewed p (taken.reverse ++ before) after ((word ++ signs).reverse ++ before') after') :
      Renewed p before (taken ++ after) before' (word ++ signs ++ after')

theorem newWords_bare : ∀ word ∈ newWords, IsBareWord word := by decide +kernel

theorem head_mem_newLetters : ∀ word ∈ newWords, word.head?.any newLetters.contains = true := by decide +kernel

/-- Only one word of an idiom goes on from a new word. -/
theorem newWords_prefix : ∀ word ∈ newWords, ∀ w ∈ oracleWords, Text.fold word <+: Text.fold w →
    word = "VARCHAR" ∧ Text.fold w ≠ Text.fold word := by decide +kernel

theorem Renews.wordCharacter {before taken after word signs : Text} (h : Renews before taken after word signs) :
    ∀ c ∈ word, isWordCharacter c = true := fun c hc =>
  wordCharacter_of_bare ((newWords_bare word h.mem).bare c hc)

theorem Renews.exists_head {before taken after word signs : Text} (h : Renews before taken after word signs) :
    ∃ c u, word = c :: u ∧ c ∈ newLetters ∧ isWordCharacter c = true := by
  obtain ⟨c, u, rfl⟩ := List.exists_cons_of_ne_nil (newWords_bare word h.mem).ne_nil
  exact ⟨c, u, rfl, List.contains_iff_mem.1 (head_mem_newLetters _ h.mem), h.wordCharacter c List.mem_cons_self⟩

section

variable {p : Pattern} {before after before' after' : Text}

/-- The renewed text starts with a word, and with a line, where the old one does. -/
theorem Renewed.head (h : Renewed p before after before' after') :
    after'.head?.any isWordCharacter = after.head?.any isWordCharacter ∧
      after'.head?.all (· == '\n') = after.head?.all (· == '\n') := by
  cases h with
  | nil => exact ⟨rfl, rfl⟩
  | copied => exact ⟨rfl, rfl⟩
  | @found _ taken after _ after' _ signs renews rest =>
    obtain ⟨c, u, rfl, -, hc⟩ := renews.exists_head
    have hstart := renews.starts
    cases taken with
    | nil => cases hstart
    | cons d taken =>
      have hd : isWordCharacter d = true := hstart
      have hline {e : Char} (he : isWordCharacter e = true) : (e == '\n') = false :=
        beq_eq_false_iff_ne.2 fun h => absurd he (by rw [h]; decide +kernel)
      exact ⟨hc.trans hd.symm, (hline hc).trans (hline hd).symm⟩

theorem Renewed.eq_nil_iff (h : Renewed p before after before' after') : after' = [] ↔ after = [] := by
  cases h with
  | nil => exact Iff.rfl
  | copied => exact iff_of_false (List.cons_ne_nil _ _) (List.cons_ne_nil _ _)
  | @found _ taken _ _ _ _ _ renews _ =>
    obtain ⟨c, u, rfl, -⟩ := renews.exists_head
    have hstart := renews.starts
    cases taken with
    | nil => cases hstart
    | cons d taken => exact iff_of_false (List.cons_ne_nil _ _) (List.cons_ne_nil _ _)

/-- New words start with few letters, and not within a word, so other text is copied, and no match starts at it. -/
theorem Renewed.copied_prefix {x y' : Text} (h : Renewed p before after before' (x ++ y'))
    (hx : ∀ front c back, x = front ++ c :: back →
      c ∉ newLetters ∨ (front.reverse ++ before).head?.any isWordCharacter = true) :
    (x ≠ [] → p.matcher before after = none) ∧
      ∃ y, after = x ++ y ∧ Renewed p (x.reverse ++ before) y (x.reverse ++ before') y' := by
  induction x generalizing before after before' with
  | nil => exact ⟨fun hne => absurd rfl hne, after, rfl, h⟩
  | cons c x ih =>
    generalize htext : c :: x ++ y' = text at h
    cases h with
    | nil => cases htext
    | copied hnone rest =>
      obtain ⟨rfl, rfl⟩ := List.cons.inj htext
      obtain ⟨-, y, rfl, hy⟩ := ih rest fun front d back heq => by
        simpa using hx (c :: front) d back (by rw [heq, List.cons_append])
      exact ⟨fun _ => hnone, y, rfl, by simpa using hy⟩
    | found renews rest =>
      obtain ⟨d, u, rfl, hd, -⟩ := renews.exists_head
      obtain ⟨rfl, -⟩ := List.cons.inj htext
      rcases hx [] c x rfl with hc | hword
      · exact absurd hd hc
      · rw [List.reverse_nil, List.nil_append, renews.whole.starts] at hword
        cases hword

/-- Text without the letters that new words start with is copied. -/
theorem Renewed.copied_plain {x y' : Text} (h : Renewed p before after before' (x ++ y')) (hx : ∀ c ∈ newLetters, c ∉ x) :
    (x ≠ [] → p.matcher before after = none) ∧
      ∃ y, after = x ++ y ∧ Renewed p (x.reverse ++ before) y (x.reverse ++ before') y' :=
  h.copied_prefix fun _ c _ heq => .inl fun hc => hx c hc (by simp [heq])

/-- No word of an idiom stands where a new word is written. -/
theorem Renews.ne_word {taken word signs w rest' v : Text} (h : Renews before taken after word signs)
    (hhead : after'.head?.any isWordCharacter = after.head?.any isWordCharacter) (hv : v ∈ oracleWords)
    (hfold : Text.fold w = Text.fold v) (hstop : rest'.head?.any isWordCharacter = false) :
    word ++ signs ++ after' ≠ w ++ rest' := by
  intro htext
  have hw := Text.wordCharacter_of_fold (oracleWords_bare v hv).bare hfold
  have htake : w = word ++ (signs ++ after').takeWhile isWordCharacter := by
    rw [← Text.takeWhile_run hw hstop, ← htext, List.append_assoc, List.takeWhile_append_of_pos h.wordCharacter]
  have hprefix : Text.fold word <+: Text.fold v :=
    ⟨Text.fold ((signs ++ after').takeWhile isWordCharacter), by rw [← hfold, htake]; exact (List.map_append ..).symm⟩
  obtain ⟨hvarchar, hne⟩ := newWords_prefix word h.mem v hv hprefix
  -- this one is written for a whole word, so it is whole itself
  have hlast := h.closed hvarchar
  have hafter : after'.head?.any isWordCharacter = false := hhead.trans (h.whole.ends hlast)
  have hnone : ([] ++ after').takeWhile isWordCharacter = [] := Text.takeWhile_run (List.forall_mem_nil _) hafter
  rw [h.bare hlast, hnone, List.append_nil] at htake
  exact hne (by rw [← hfold, htake])

/-- A word of an idiom is copied, and no match starts at it. -/
theorem Renewed.copied_word {w y' v : Text} (h : Renewed p before after before' (w ++ y')) (hv : v ∈ oracleWords)
    (hfold : Text.fold w = Text.fold v) (hstop : y'.head?.any isWordCharacter = false) :
    p.matcher before after = none ∧
      ∃ y, after = w ++ y ∧ Renewed p (w.reverse ++ before) y (w.reverse ++ before') y' := by
  have hw := Text.wordCharacter_of_fold (oracleWords_bare v hv).bare hfold
  have hne : w ≠ [] := by
    rintro rfl
    exact (oracleWords_bare v hv).ne_nil (List.map_eq_nil_iff.1 hfold.symm)
  obtain ⟨c, w, rfl⟩ := List.exists_cons_of_ne_nil hne
  generalize htext : c :: w ++ y' = text at h
  cases h with
  | nil => cases htext
  | copied hnone rest =>
    obtain ⟨rfl, rfl⟩ := List.cons.inj htext
    -- the characters in front of a later one belong to the word
    have hfront (front : Text) (d : Char) (back : Text) (heq : w = front ++ d :: back) :
        (front.reverse ++ c :: before).head?.any isWordCharacter = true := by
      have hchars : ∀ e ∈ c :: front, isWordCharacter e = true := fun e he =>
        hw e (heq ▸ List.mem_append_left (d :: back) he)
      simpa using Text.head?_any_reverse_append (List.cons_ne_nil c front) hchars before
    obtain ⟨-, y, rfl, hy⟩ := rest.copied_prefix fun front d back heq => .inr (hfront front d back heq)
    exact ⟨hnone, y, rfl, by simpa using hy⟩
  | found renews rest => exact absurd htext.symm (renews.ne_word rest.head.1 hv hfold hstop)

end

/-! ## The shapes of idioms -/

/-- An idiom is a word with a place behind it that ends the word, or an option: a word between whitespace, with an
operand. New words fit into neither: what stands behind the word has none of their letters, and an operand that may
start with one may be any word. -/
inductive IdiomShape : Pattern → Prop
  | led {w : Text} {q : Pattern} (hw : w ∈ oracleWords) (hq : Closes q)
      (hplain : ∀ c ∈ newLetters, q.avoids c = true) : IdiomShape (seq edge (seq (text w) q))
  | option {w : Text} {operand : Char → Bool} (hw : w ∈ oracleWords)
      (hoperand : (∃ c ∈ newLetters, operand c = true) → ∀ c, isWordCharacter c = true → operand c = true) :
      IdiomShape (sequence [space, text w, space, Pattern.some operand])

theorem IdiomShape.of_mem {r : IdiomRule} (hr : r ∈ oracleIdioms) : IdiomShape r.pattern := by
  have hword {w : Text} (hw : w ∈ oracleWords) : IdiomShape (sequence [edge, text w, edge]) :=
    .led hw (closes_edge.seq empty) (List.all_eq_true.1 (by decide +kernel))
  have hcall {w : Text} (hw : w ∈ oracleWords) {q : Pattern} (hq : newLetters.all q.avoids = true) :
      IdiomShape (seq edge (seq (text w) (seq gap (seq (letter '(') q)))) :=
    .led hw (closes_paren q) fun c hc => by
      have hparen : newLetters.all (fun c => gap.avoids c && (letter '(').avoids c) = true := by decide +kernel
      simpa [avoids, List.all_eq_true.1 hq c hc] using List.all_eq_true.1 hparen c hc
  have hoption {w : Text} (hw : w ∈ oracleWords) : IdiomShape (sequence [space, text w, space, Pattern.some isWordDigit]) :=
    .option hw fun hdigit => absurd (List.any_eq_true.2 hdigit) (by decide +kernel)
  simp only [oracleIdioms, List.mem_cons, List.not_mem_nil, or_false] at hr
  rcases hr with rfl | rfl | rfl | rfl | rfl | rfl | rfl | rfl | rfl | rfl | rfl | rfl | rfl | rfl
  · exact hword (w := "SYSDATE") (by decide +kernel)
  · exact hword (w := "SYSTIMESTAMP") (by decide +kernel)
  · exact hcall (w := "NVL") (by decide +kernel) (by decide +kernel)
  · exact .option (w := "TABLESPACE") (by decide +kernel) fun _ c hc => by simp [IdiomRule.isNameCharacter, hc]
  · exact hoption (w := "PCTFREE") (by decide +kernel)
  · exact hoption (w := "PCTUSED") (by decide +kernel)
  · exact hoption (w := "INITRANS") (by decide +kernel)
  · exact hoption (w := "MAXTRANS") (by decide +kernel)
  · exact hword (w := "VARCHAR2") (by decide +kernel)
  · exact hcall (w := "NUMBER") (by decide +kernel) (by decide +kernel)
  · exact hcall (w := "NUMBER") (by decide +kernel) (by decide +kernel)
  · exact hcall (w := "NUMBER") (by decide +kernel) (by decide +kernel)
  · exact hcall (w := "NUMBER") (by decide +kernel) (by decide +kernel)
  · exact hword (w := "NUMBER") (by decide +kernel)

/-- What equals the start of a name up to case is neither a digit nor a sign. -/
theorem not_behind_of_sameLetter {c d : Char} (hc : isBareStart c = true) (h : sameLetter c d = true) :
    isWordDigit d = false ∧ d ∉ ['(', ')', ','] := by
  rcases sameLetter_ascii (toNat_lt_of_bare (bare_of_start hc)) h with ⟨hd, hlower⟩ | hmem
  · have hcase (e : Char) (he : e.toNat < 128) : isBareStart e = isBareStart e.toLower :=
      forall_ascii (P := fun e => isBareStart e = isBareStart e.toLower) (by decide +kernel) he
    have hstart : isBareStart d = true := by
      rw [hcase d hd, ← hlower, ← hcase c (toNat_lt_of_bare (bare_of_start hc)), hc]
    exact forall_ascii (P := fun d => isBareStart d = true → isWordDigit d = false ∧ d ∉ ['(', ')', ','])
      (by decide +kernel) hd hstart
  · simp only [foldsToAscii, List.mem_cons, List.not_mem_nil, or_false] at hmem
    rcases hmem with rfl | rfl <;> decide +kernel

namespace IdiomShape

variable {p : Pattern} {s t : Site}

/-- No idiom starts with a digit or a sign. -/
theorem not_behind (hp : IdiomShape p) {c : Char} (h : p.startsWith c = true) :
    ¬ (isWordDigit c = true ∨ c ∈ ['(', ')', ',']) := by
  cases hp with
  | @led w q hw =>
    have hbare := oracleWords_bare w hw
    obtain ⟨d, w, rfl⟩ := List.exists_cons_of_ne_nil hbare.ne_nil
    have hsame : sameLetter d c = true := by
      simpa [Pattern.startsWith, Pattern.nullable, Pattern.text, Pattern.sequence] using h
    obtain ⟨hdigit, hsign⟩ := not_behind_of_sameLetter hbare.start hsame
    simp [hdigit, hsign]
  | option =>
    have hblank : isBlank c = true := by
      simpa [Pattern.startsWith, Pattern.nullable, Pattern.space, Pattern.some, Pattern.sequence] using h
    have hmem := mem_blankCodePoints hblank
    rw [← Char.ofNat_toNat c]
    generalize c.toNat = n at hmem
    revert n
    decide +kernel

theorem nullable (hp : IdiomShape p) : p.nullable = false := by
  cases hp with
  | @led w q hw =>
    obtain ⟨d, w, rfl⟩ := List.exists_cons_of_ne_nil (oracleWords_bare w hw).ne_nil
    rfl
  | option => rfl

/-- No idiom starts within a word. -/
theorem opens (hp : IdiomShape p) (h : Reaches p s t) (hafter : s.after.head?.any isWordCharacter = true) :
    s.before.head?.any isWordCharacter = false := by
  cases hp with
  | @led w q hw hq =>
    have hbare := oracleWords_bare w hw
    obtain ⟨u, ⟨-, rfl⟩, hbefore, -⟩ := reaches_word opens_edge hq hbare.ne_nil hbare.bare h
    exact hbefore
  | option =>
    obtain ⟨u, ⟨v, ⟨c, rest, hrest, hc, -⟩, -⟩, -⟩ := h
    rw [hrest] at hafter
    exact absurd hafter (Bool.eq_false_iff.1 (not_wordCharacter_of_blank hc))

end IdiomShape

/-! ## No new matches -/

section

variable {p : Pattern} {before after before' after' : Text} {captured : List (Nat × Text)} {t : Site}

/-- At a place that the old text has, too, no idiom matches. -/
theorem Renewed.not_reaches_kept (h : Renewed p before after before' after') (hp : IdiomShape p)
    (hbefore : before'.head?.any isWordCharacter = false → before.head?.any isWordCharacter = false) :
    ¬ Reaches p ⟨before', after', captured⟩ t := by
  intro hreach
  -- what the idiom takes is copied, so it would have matched in the old text
  cases hp with
  | @led word q hw hq hplain =>
    have hbare := oracleWords_bare word hw
    obtain ⟨_, v, w, ⟨-, rfl⟩, hclose, hafter, hfold, hstart, hstop⟩ :=
      reaches_whole_word opens_edge hq hbare.ne_nil hbare.bare hreach
    obtain rfl : after' = w ++ v.after := hafter
    obtain ⟨hnone, y, rfl, hy⟩ := h.copied_word hw hfold hstop
    obtain ⟨z, hz, -⟩ := hclose.split
    have hletters : ∀ c ∈ newLetters, c ∉ z := fun c hc => by
      obtain ⟨z', hz', -, hmem⟩ := hclose.avoids (hplain c hc)
      rwa [List.append_cancel_right (hz.symm.trans hz')]
    rw [hz] at hy
    obtain ⟨-, y, rfl, hrest⟩ := hy.copied_plain hletters
    have htaken : w ++ v.after = (w ++ z) ++ t.after := by rw [hz, List.append_assoc]
    obtain ⟨captured', hmoved⟩ :=
      hreach.exists_moved [] htaken (hstart.trans (hbefore hstart).symm) hrest.head.1 hrest.head.2
    rw [List.append_assoc] at hmoved
    exact matcher_ne_none hmoved hnone
  | @option word operand hw hoperand =>
    obtain ⟨_, hfront, v, hword, _, hback, _, hone, -⟩ := hreach
    obtain ⟨c, front, rest, rfl, hblank, rfl⟩ := reaches_some_iff.1 hfront
    obtain ⟨w, rfl, -, hfold⟩ := reaches_text hword
    obtain ⟨d, back, rest, hv, hblank', rfl⟩ := reaches_some_iff.1 hback
    obtain ⟨e, _, rest, rfl, he, -⟩ := reaches_some_iff.1 hone
    have hletters {x : Text} (hx : ∀ c ∈ x, isBlank c = true) : ∀ c ∈ newLetters, c ∉ x := by
      have hnew : ∀ c ∈ newLetters, isBlank c = false := List.all_iff_forall_prop.1 (by decide +kernel)
      exact fun c hc hmem => Bool.false_ne_true ((hnew c hc).symm.trans (hx c hmem))
    have hstop : v.after.head?.any isWordCharacter = false := by
      rw [hv]
      exact not_wordCharacter_of_blank (hblank' d List.mem_cons_self)
    obtain ⟨hnone, y, rfl, hy⟩ := h.copied_plain (hletters hblank)
    obtain ⟨-, y, rfl, hy'⟩ := hy.copied_word hw hfold hstop
    rw [hv] at hy'
    obtain ⟨-, y, rfl, hrest⟩ := hy'.copied_plain (hletters hblank')
    -- a new word stands for a word, which the operand may start with as well
    have hoperand' : ∃ e more, y = e :: more ∧ operand e = true := by
      generalize htext : e :: _ ++ rest = text at hrest
      cases hrest with
      | nil => cases htext
      | copied _ rest =>
        obtain ⟨rfl, -⟩ := List.cons.inj htext
        exact ⟨_, _, rfl, he _ List.mem_cons_self⟩
      | @found _ taken _ _ _ _ _ renews _ =>
        obtain ⟨g, u, rfl, hg, -⟩ := renews.exists_head
        obtain ⟨rfl, -⟩ := List.cons.inj htext
        have hstart := renews.starts
        cases taken with
        | nil => cases hstart
        | cons f taken => exact ⟨f, _, rfl, hoperand ⟨_, hg, he _ List.mem_cons_self⟩ f hstart⟩
    obtain ⟨f, more, rfl, hf⟩ := hoperand'
    have hreach : Reaches (sequence [space, text word, space, Pattern.some operand])
        ⟨before, c :: front ++ (w ++ (d :: back ++ f :: more)), []⟩ _ :=
      ⟨_, reaches_some_iff.2 ⟨c, front, _, rfl, hblank, rfl⟩, _, reaches_text_of_fold hfold _ _ _, _,
        reaches_some_iff.2 ⟨d, back, _, rfl, hblank', rfl⟩, _,
        reaches_some_iff.2 ⟨f, [], more, rfl, by simpa using hf, rfl⟩, rfl⟩
    exact matcher_ne_none hreach (hnone (List.cons_ne_nil c front))

/-- What stands at a place of a renewed text: a place that the old text has, too, or one within a new word or behind it. -/
inductive RenewedPlace (p : Pattern) (before' after' : Text) : Prop
  | kept {before after : Text} (h : Renewed p before after before' after')
      (hbefore : before'.head?.any isWordCharacter = false → before.head?.any isWordCharacter = false)
  | within (hbefore : before'.head?.any isWordCharacter = true) (hafter : after'.head?.any isWordCharacter = true)
  | behind {c : Char} {rest : Text} (h : after' = c :: rest) (hc : isWordDigit c = true ∨ c ∈ ['(', ')', ','])

/-- Where no word ends with what was written, none ended with what was taken. -/
theorem Renews.last {taken word signs : Text} (h : Renews before taken after word signs)
    (hword : ((word ++ signs).reverse ++ before').head?.any isWordCharacter = false) :
    (taken.reverse ++ before).head?.any isWordCharacter = false := by
  have hstart := h.starts
  cases taken using List.reverseRecOn with
  | nil => cases hstart
  | append_singleton taken c =>
    rw [List.reverse_append]
    show isWordCharacter c = false
    refine Bool.eq_false_iff.2 fun hc => ?_
    have hsigns : signs = [] := h.bare (by rw [List.getLast?_concat]; exact hc)
    rw [hsigns, List.append_nil, Text.head?_any_reverse_append (newWords_bare word h.mem).ne_nil h.wordCharacter] at hword
    cases hword

theorem Renews.place {taken word signs x z : Text} {c d : Char} (h : Renews before taken after word signs)
    (htext : word ++ signs = d :: x ++ c :: z) : RenewedPlace p ((d :: x).reverse ++ before') (c :: z ++ after') := by
  have hword := h.wordCharacter
  rcases List.append_eq_append_iff.1 htext with ⟨u, hu, hsigns⟩ | ⟨u, rfl, hrest⟩
  · exact .behind rfl (h.behind c (hsigns ▸ List.mem_append_right u List.mem_cons_self))
  · cases u with
    | nil =>
      obtain rfl : c :: z = signs := hrest
      exact .behind rfl (h.behind c List.mem_cons_self)
    | cons e u =>
      obtain ⟨rfl, -⟩ := List.cons.inj hrest
      have hlast := Text.head?_any_reverse_append (List.cons_ne_nil d x) (fun f hf => hword f (List.mem_append_left _ hf)) before'
      exact .within hlast (hword _ (by simp))

theorem Renewed.place {x y' : Text} (h : Renewed p before after before' (x ++ y'))
    (hbefore : before'.head?.any isWordCharacter = false → before.head?.any isWordCharacter = false) :
    RenewedPlace p (x.reverse ++ before') y' := by
  generalize htext : x ++ y' = text at h
  induction h generalizing x with
  | nil before before' =>
    obtain ⟨rfl, rfl⟩ := List.append_eq_nil_iff.1 htext
    exact .kept (.nil before before') hbefore
  | @copied c before after before' after' hnone rest ih =>
    cases x with
    | nil =>
      obtain rfl : y' = c :: after' := htext
      exact .kept (.copied hnone rest) hbefore
    | cons d x =>
      obtain ⟨rfl, hrest⟩ := List.cons.inj htext
      simpa using ih id hrest
  | @found before taken after before' after' word signs renews rest ih =>
    rcases List.append_eq_append_iff.1 htext with ⟨z, hz, rfl⟩ | ⟨z, rfl, hrest⟩
    · cases x with
      | nil =>
        obtain rfl : word ++ signs = z := hz
        exact .kept (.found renews rest) hbefore
      | cons d x =>
        cases z with
        | nil =>
          rw [List.append_nil] at hz
          rw [← hz]
          exact ih (x := []) renews.last rfl
        | cons c z => exact renews.place hz
    · simpa using ih renews.last hrest.symm

/-- At no place of a renewed text an idiom matches. -/
theorem RenewedPlace.not_reaches (h : RenewedPlace p before' after') (hp : IdiomShape p) :
    ¬ Reaches p ⟨before', after', captured⟩ t := by
  intro hreach
  cases h with
  | kept h hbefore => exact h.not_reaches_kept hp hbefore hreach
  | within hbefore hafter => exact Bool.false_ne_true ((hp.opens hreach hafter).symm.trans hbefore)
  | @behind c rest heq hc =>
    rcases hreach.start with ⟨-, hempty⟩ | ⟨d, taken, hafter, hd⟩
    · rw [hp.nullable] at hempty
      cases hempty
    · obtain ⟨rfl, -⟩ := List.cons.inj (heq.symm.trans hafter)
      exact hp.not_behind hd hc

/-- A renewed text has no match. -/
theorem Renewed.hasMatch_eq_false {x x' : Text} (h : Renewed p [] x [] x') (hp : IdiomShape p) :
    hasMatch p.matcher x' = false := by
  refine hasMatch_of_reaches fun s u hs hreach => ?_
  obtain ⟨before, after, captured⟩ := s
  obtain rfl : before.reverse ++ after = x' := hs
  have hplace := h.place id
  rw [List.reverse_reverse, List.append_nil] at hplace
  exact hplace.not_reaches hp hreach

end

end DialectBridge
