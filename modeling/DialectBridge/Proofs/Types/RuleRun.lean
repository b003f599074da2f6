import DialectBridge.Proofs.Types.Shape

/-!
# What a type rule makes of a declared type

Behind the first word of a declared type stands a size or nothing, and then a comma, a parenthesis or
the end, or for most rules another word (`EndsBefore`). Whether a rule matches there depends on the rule and
the size alone, and a match takes the word and the size (`Settles`). A type of several words is matched by
its own rule.
-/

namespace DialectBridge

namespace Pattern

variable {before after rest : Text} {captured : List (Nat × Text)} {next : Site → Option Site}

/-- A gap and a character where no whitespace stands. -/
theorem run_gap_letter {c d : Char} (hd : isBlank d = false) (qs : List Pattern) :
    Pattern.run (sequence (gap :: letter c :: qs)) ⟨before, d :: after, captured⟩ next =
      if sameLetter c d then Pattern.run (sequence qs) ⟨d :: before, after, captured⟩ next else none := by
  rw [run_sequence_cons, run_gap (by simpa using hd), run_sequence_cons]
  split
  · next h => rw [run_letter_cons h]
  · next h => rw [run_letter_ne (by simpa using h)]

end Pattern

namespace TypeRule

open Pattern

variable {before after stop y : Text} {captured : List (Nat × Text)} {next : Site → Option Site}

/-! ## Arguments -/

/-- Without an opening parenthesis there are no arguments. -/
theorem run_paren_none (h : (Text.trimStart after).head? ≠ some '(') (qs : List Pattern) :
    Pattern.run (sequence (gap :: letter '(' :: qs)) ⟨before, after, captured⟩ next = none := by
  rw [Option.eq_none_iff_forall_ne_some]
  intro out hrun
  obtain ⟨t, ⟨u, ⟨run, rest, hafter, hblank, rfl⟩, v, ⟨d, rest', hrest, hd, -⟩, -⟩, -⟩ := run_reaches hrun
  obtain rfl := eq_leftParen hd
  obtain rfl : rest = '(' :: rest' := hrest
  obtain rfl : after = run ++ '(' :: rest' := hafter
  have hstop : ('(' :: rest').head?.any isBlank = false := show isBlank '(' = false by decide
  rw [Text.trimStart, Text.dropWhile_run hblank hstop] at h
  exact h rfl

/-- A size is passed as arguments. -/
theorem run_anyArguments (hy : ∀ c ∈ y, isSizeCharacter c = true) :
    Pattern.run anyArguments ⟨before, '(' :: (y ++ ')' :: stop), captured⟩ next =
      next ⟨')' :: (y.reverse ++ '(' :: before), stop, captured⟩ := by
  have hmany (c : Char) (hc : c ∈ y) : (c != '(' && c != ')') = true := by
    rcases sizeCharacter_cases (hy c hc) with hd | rfl
    · have h₁ : c ≠ '(' := by rintro rfl; exact absurd hd (by decide)
      have h₂ : c ≠ ')' := by rintro rfl; exact absurd hd (by decide)
      simp [h₁, h₂]
    · decide
  have hclose (c : Char) (hc : c ∈ y) : sameLetter ')' c = false := by
    rw [sameLetter_eq (.inr rfl) (.inl (hy c hc)), beq_eq_false_iff_ne]
    rintro rfl
    exact absurd (hy _ hc) (by decide)
  rw [anyArguments, run_gap_letter (by decide), if_pos (by decide), run_sequence_cons]
  show passMany _ _ _ _ (y ++ ')' :: stop) = _
  rw [passMany_exact hmany rfl]
  · exact run_letter_cons (by decide)
  · exact fun c hc b a => run_letter_ne (hclose c hc)

/-- Digits are passed up to the comma or the parenthesis behind them. -/
theorem run_gap_digits {p t : Text} {c d : Char} (hp : ∀ e ∈ p, e.isDigit = true)
    (hc : c = ',' ∨ c = ')') (hd : d = ',' ∨ d = ')') (qs : List Pattern) :
    Pattern.run (sequence (gap :: digits :: gap :: letter c :: qs)) ⟨before, p ++ d :: t, captured⟩ next =
      if p ≠ [] ∧ c = d then Pattern.run (sequence qs) ⟨d :: (p.reverse ++ before), t, captured⟩ next
      else none := by
  have hsame : sameLetter c d = (c == d) := by
    rcases hc with rfl | rfl <;> rcases hd with rfl | rfl <;> decide
  have hblank : isBlank d = false := by rcases hd with rfl | rfl <;> decide
  have hstop : (d :: t).head?.any isWordDigit = false := by
    rcases hd with rfl | rfl <;> exact (isWordDigit_of_ascii (by decide)).trans (by decide)
  have hgap : (p ++ d :: t).head?.any isBlank = false := by
    cases p with
    | nil => exact hblank
    | cons e p => exact not_blank_of_digit (hp e List.mem_cons_self)
  rw [run_sequence_cons, run_gap hgap, run_sequence_cons]
  by_cases hne : p = []
  · rw [if_neg (by simp [hne]), hne]
    show Pattern.run (seq _ _) _ _ = none
    exact run_one_ne hstop
  · -- a digit is no place for the gap and the character behind the digits
    have hnext : ∀ e ∈ p, ∀ before after, Pattern.run (sequence (gap :: letter c :: qs))
        ⟨before, e :: after, captured⟩ next = none := by
      intro e he before after
      have hdigit := hp e he
      have hce : sameLetter c e = false := by
        rw [sameLetter_eq (by rcases hc with rfl | rfl <;> decide) (.inl (by simp [isSizeCharacter, hdigit])),
          beq_eq_false_iff_ne]
        rintro rfl
        rcases hc with rfl | rfl <;> exact absurd hdigit (by decide)
      rw [run_gap_letter (not_blank_of_digit hdigit), if_neg (by simp [hce])]
    rw [run_digits hne hp hstop hnext, run_gap_letter hblank, hsame]
    by_cases hcd : c = d
    · rw [if_pos (by simpa using hcd), if_pos ⟨hne, hcd⟩]
    · rw [if_neg (by simpa using hcd), if_neg (by simp [hcd])]

/-- Whether a size has a precision and a scale depends on the size alone. -/
theorem run_scaleArguments (hy : ∀ c ∈ y, isSizeCharacter c = true) :
    ∃ ok : Bool, ∀ before stop captured next,
      Pattern.run scaleArguments ⟨before, '(' :: (y ++ ')' :: stop), captured⟩ next =
        if ok then next ⟨')' :: (y.reverse ++ '(' :: before), stop, captured⟩ else none := by
  -- a size is made of digits up to a comma or its end
  have hsplit {z : Text} (hz : ∀ c ∈ z, isSizeCharacter c = true) :
      ∃ p z', z = p ++ z' ∧ (∀ d ∈ p, d.isDigit = true) ∧ (z' = [] ∨ ∃ w, z' = ',' :: w) := by
    refine ⟨_, _, (List.takeWhile_append_dropWhile (p := Char.isDigit) (l := z)).symm,
      Text.forall_mem_takeWhile _ z, ?_⟩
    have hstop := Text.head?_any_dropWhile Char.isDigit z
    cases hw : z.dropWhile Char.isDigit with
    | nil => exact .inl rfl
    | cons c w =>
      have hc : c.isDigit = false := by simpa [hw] using hstop
      have hmem : c ∈ z := (List.dropWhile_suffix Char.isDigit).mem (hw ▸ List.mem_cons_self)
      obtain rfl : c = ',' := (sizeCharacter_cases (hz c hmem)).resolve_left (by simp [hc])
      exact .inr ⟨w, rfl⟩
  obtain ⟨p, z, rfl, hp, rfl | ⟨w, rfl⟩⟩ := hsplit hy
  · refine ⟨false, fun before stop captured next => ?_⟩
    rw [scaleArguments, run_gap_letter (by decide), if_pos (by decide), List.append_nil,
      run_gap_digits hp (.inl rfl) (.inr rfl), if_neg (by simp)]
    rfl
  · have hw : ∀ c ∈ w, isSizeCharacter c = true := fun c hc => hy c (by simp [hc])
    obtain ⟨q, v, rfl, hq, rfl | ⟨u, rfl⟩⟩ := hsplit hw
    · refine ⟨!p.isEmpty && !q.isEmpty, fun before stop captured next => ?_⟩
      rw [scaleArguments, run_gap_letter (by decide), if_pos (by decide), List.append_nil,
        List.append_assoc, List.cons_append, run_gap_digits hp (.inl rfl) (.inl rfl)]
      cases p with
      | nil => simp
      | cons d p =>
        rw [if_pos ⟨List.cons_ne_nil _ _, rfl⟩, run_gap_digits hq (.inr rfl) (.inr rfl)]
        cases q with
        | nil => simp
        | cons e q =>
          rw [if_pos ⟨List.cons_ne_nil _ _, rfl⟩]
          simp [Pattern.sequence, Pattern.run]
    · refine ⟨false, fun before stop captured next => ?_⟩
      rw [scaleArguments, run_gap_letter (by decide), if_pos (by decide), List.append_assoc,
        List.cons_append, List.append_assoc, List.cons_append, run_gap_digits hp (.inl rfl) (.inl rfl)]
      split
      · rw [run_gap_digits hq (.inr rfl) (.inl rfl), if_neg (by simp)]
        rfl
      · rfl

/-- A character of the size of a source passes the same character; a comma may have gaps around it. -/
theorem run_sourceParts_cons {c d : Char} {x : Text} (hc : isSizeCharacter c = true)
    (hd : isSizeCharacter d = true ∨ d = ')') (hafter : c = d → after.head?.any isBlank = false) :
    Pattern.run (sequence (sourceParts false (c :: x))) ⟨before, d :: after, captured⟩ next =
      if c = d then Pattern.run (sequence (sourceParts false x)) ⟨d :: before, after, captured⟩ next
      else none := by
  have hsame := sameLetter_eq (.inl hc) hd
  have hblank : isBlank d = false := by
    rcases hd with hd | rfl
    · exact not_blank_of_size hd
    · decide
  rw [sourceParts, if_neg (by simp [not_blank_of_size hc])]
  rcases sizeCharacter_cases hc with hdigit | rfl
  · have hsign : ¬(c = '(' ∨ c = ',') := by
      rintro (rfl | rfl) <;> exact absurd hdigit (by decide)
    have hclose : c ≠ ')' := by
      rintro rfl
      exact absurd hdigit (by decide)
    simp only [if_neg hsign, if_neg hclose]
    rw [run_sequence_cons]
    by_cases hcd : c = d
    · rw [if_pos hcd]
      exact run_letter_cons (hsame.trans (by simpa using hcd))
    · rw [if_neg hcd]
      exact run_letter_ne (hsame.trans (by simpa using hcd))
  · simp only [or_true, if_true]
    rw [run_sequence_cons, spaced, run_gap_letter hblank, hsame]
    by_cases hcd : ',' = d
    · rw [if_pos (by simpa using hcd), if_pos hcd, run_sequence_cons, run_gap (hafter hcd)]
      rfl
    · rw [if_neg (by simpa using hcd), if_neg hcd]

/-- The size of a source passes the same size and no other. -/
theorem run_sourceParts_size {x : Text} (hx : ∀ c ∈ x, isSizeCharacter c = true)
    (hy : ∀ c ∈ y, isSizeCharacter c = true) :
    Pattern.run (sequence (sourceParts false (x ++ [')']))) ⟨before, y ++ ')' :: stop, captured⟩ next =
      if x = y then next ⟨')' :: (y.reverse ++ before), stop, captured⟩ else none := by
  have hblank {z : Text} (hz : ∀ c ∈ z, isSizeCharacter c = true) :
      (z ++ ')' :: stop).head?.any isBlank = false := by
    cases z with
    | nil => exact (show isBlank ')' = false by decide)
    | cons d z => exact not_blank_of_size (hz d List.mem_cons_self)
  induction x generalizing y before with
  | nil =>
    show Pattern.run (seq (seq gap (letter ')')) empty) _ _ = _
    rw [Pattern.run, Pattern.run, run_gap (hblank hy)]
    cases y with
    | nil => exact run_letter_cons (by decide)
    | cons d y =>
      have hd := hy d List.mem_cons_self
      have hne : sameLetter ')' d = false := by
        rw [sameLetter_eq (.inr rfl) (.inl hd), beq_eq_false_iff_ne]
        rintro rfl
        exact absurd hd (by decide)
      rw [if_neg (List.cons_ne_nil d y).symm]
      exact run_letter_ne hne
  | cons c x ih =>
    have hc := hx c List.mem_cons_self
    have hx' : ∀ d ∈ x, isSizeCharacter d = true := fun d hd => hx d (List.mem_cons_of_mem _ hd)
    rw [List.cons_append]
    cases y with
    | nil =>
      have hne : c ≠ ')' := by
        rintro rfl
        exact absurd hc (by decide)
      rw [List.nil_append, run_sourceParts_cons hc (.inr rfl) (fun h => absurd h hne), if_neg hne,
        if_neg (List.cons_ne_nil c x)]
    | cons d y =>
      have hy' : ∀ e ∈ y, isSizeCharacter e = true := fun e he => hy e (List.mem_cons_of_mem _ he)
      rw [List.cons_append, run_sourceParts_cons hc (.inl (hy d List.mem_cons_self)) fun _ => hblank hy',
        ih hx' hy']
      by_cases hcd : c = d
      · simp [hcd]
      · simp [hcd]

/-! ## Types of one word -/

/-- What can follow a type for the rule to decide by the type alone: no word goes on, no parenthesis opens, and
if the rule looks for several words, there is no whitespace. -/
structure EndsBefore (r : TypeRule) (stop : Text) : Prop where
  word : stop.head?.any isWordCharacter = false
  paren : (Text.trimStart stop).head? ≠ some '('
  blank : r.isMultiWord = true → stop.head?.any isBlank = false

/-- In front of `size` and the end of a type the rule decides by the size alone, and a match takes the
first word of the source and the size. -/
structure Settles (r : TypeRule) (size : Text) (out : Option (List (Nat × Text))) : Prop where
  captures : ∀ cs ∈ out, cs = [] ∨ cs = [(1, size)]
  matcher : ∀ ⦃before stop⦄, before.head?.any isWordCharacter = false → r.EndsBefore stop →
    r.pattern.matcher before (r.word ++ (size ++ stop)) = out.map fun cs => (r.word ++ size, cs)

theorem endsBefore_of_endsType (h : EndsType stop) (r : TypeRule) : r.EndsBefore stop where
  word := h.head?_wordCharacter
  paren := h.head?_ne (by decide) (by decide)
  blank := fun _ => h.head?_any (by decide) (by decide)

/-- No word goes on behind a word with a size or without one. -/
theorem head?_size {size : Text} (hsize : IsSize size) (hstop : stop.head?.any isWordCharacter = false) :
    (size ++ stop).head?.any isWordCharacter = false := by
  cases hsize with
  | none => exact hstop
  | some hy => exact (show isWordCharacter '(' = false by decide +kernel)

/-- A rule that goes on with the pattern `p` behind its first word settles what `p` settles there. -/
theorem settles_of_run {r : TypeRule} {size : Text} {out : Option (List (Nat × Text))} {p : Pattern}
    (hsize : IsSize size) (hout : ∀ cs ∈ out, cs = [] ∨ cs = [(1, size)])
    (hfront : ∀ before tail, before.head?.any isWordCharacter = false →
      tail.head?.any isWordCharacter = false →
      Pattern.run r.pattern ⟨before, r.word ++ tail, []⟩ .some =
        Pattern.run p ⟨r.word.reverse ++ before, tail, []⟩ .some)
    (hbehind : ∀ before stop, r.EndsBefore stop → Pattern.run p ⟨before, size ++ stop, []⟩ .some =
      out.map fun cs => ⟨size.reverse ++ before, stop, cs⟩) : Settles r size out := by
  refine ⟨hout, fun before stop hbefore hstop => ?_⟩
  have htaken (cs : List (Nat × Text)) : Site.textUpTo ⟨before, r.word ++ (size ++ stop), []⟩
      ⟨size.reverse ++ (r.word.reverse ++ before), stop, cs⟩ = r.word ++ size :=
    textUpTo_eq (by simp)
  rw [Pattern.matcher, hfront before _ hbefore (head?_size hsize hstop.word), hbehind _ _ hstop]
  cases out with
  | none => rfl
  | some cs => simp [htaken]

section

variable {r : TypeRule} {tail : Text}

/-- Where no word stands before, the first word of a source starts at an edge. -/
theorem run_edge_word (hne : r.word ≠ []) (hbefore : before.head?.any isWordCharacter = false) :
    Pattern.run edge ⟨before, r.word ++ tail, captured⟩ next =
      next ⟨before, r.word ++ tail, captured⟩ := by
  obtain ⟨c, w, hw⟩ := List.exists_cons_of_ne_nil hne
  have hc : isWordCharacter c = true := wordCharacter_of_bare (r.bare_word c (hw ▸ List.mem_cons_self))
  refine if_pos ?_
  simp [Site.isEdge, hbefore, hw, hc]

/-- Where no word goes on, the first word of a source ends at an edge. -/
theorem run_edge_tail (hne : r.word ≠ []) (htail : tail.head?.any isWordCharacter = false) :
    Pattern.run edge ⟨r.word.reverse ++ before, tail, captured⟩ next =
      next ⟨r.word.reverse ++ before, tail, captured⟩ := by
  have hne' : r.word.reverse ≠ [] := by simpa using hne
  obtain ⟨c, w, hw⟩ := List.exists_cons_of_ne_nil hne'
  have hc : isWordCharacter c = true :=
    wordCharacter_of_bare (r.bare_word c (List.mem_reverse.1 (hw ▸ List.mem_cons_self)))
  refine if_pos ?_
  simp [Site.isEdge, htail, hw, hc]

/-- A rule for a word without a size is settled by the arguments it wants. -/
theorem settles_word (hne : r.word ≠ []) (h : r.source = r.word) {size : Text} (hsize : IsSize size) :
    ∃ out, Settles r size out ∧ (r.argumentsOptional = true → out.isSome = true) := by
  have hfront (before tail : Text) (hbefore : before.head?.any isWordCharacter = false)
      (htail : tail.head?.any isWordCharacter = false) :
      Pattern.run r.pattern ⟨before, r.word ++ tail, []⟩ .some =
        Pattern.run r.argumentsPattern ⟨r.word.reverse ++ before, tail, []⟩ .some := by
    rw [pattern_word hne h, run_sequence_cons, run_edge_word hne hbefore, run_sequence_cons,
      run_sequence_append, ← Pattern.text, run_text rfl, run_sequence_cons, run_edge_tail hne htail]
    rfl
  have hcontains : r.sourceHasArguments = false := by
    rw [sourceHasArguments, h, Bool.eq_false_iff, ne_eq, List.contains_iff_mem]
    exact fun hc => absurd (r.bare_word _ hc) (by decide)
  cases hsize with
  | none =>
    have hparen {before stop : Text} (hstop : r.EndsBefore stop) (qs : List Pattern)
        {next : Site → Option Site} :
        Pattern.run (sequence (gap :: letter '(' :: qs)) ⟨before, stop, []⟩ next = .none :=
      run_paren_none hstop.paren qs
    rcases argumentsPattern_cases hcontains with ⟨-, hpattern⟩ | ⟨hneeds, -, hpattern⟩ | ⟨hneeds, -, hpattern⟩
    · refine ⟨.some [], settles_of_run .none (by simp) hfront fun before stop hstop => ?_, fun _ => rfl⟩
      rw [hpattern]
      show (Pattern.run (sequence (gap :: letter '(' :: _)) _ _ <|> _) = _
      rw [List.nil_append, hparen hstop]
      rfl
    all_goals
      refine ⟨.none, settles_of_run .none (by simp) hfront fun before stop hstop => ?_, by simp [hneeds]⟩
      rw [hpattern]
      exact hparen hstop _
  | @some y hy =>
    have hsize : IsSize ('(' :: (y ++ [')'])) := .some hy
    have hpass {p : Pattern} {ok : Bool} (hp : ∀ before stop captured next,
        Pattern.run p ⟨before, '(' :: (y ++ ')' :: stop), captured⟩ next =
          if ok then next ⟨')' :: (y.reverse ++ '(' :: before), stop, captured⟩ else .none)
        (before stop : Text) :
        Pattern.run (capture 1 p) ⟨before, '(' :: (y ++ [')']) ++ stop, []⟩ .some =
          if ok then .some ⟨('(' :: (y ++ [')'])).reverse ++ before, stop, [(1, '(' :: (y ++ [')']))]⟩
          else .none := by
      have htaken : Site.textUpTo ⟨before, '(' :: (y ++ [')']) ++ stop, []⟩
          ⟨')' :: (y.reverse ++ '(' :: before), stop, []⟩ = '(' :: (y ++ [')']) := textUpTo_eq rfl
      have htext : '(' :: (y ++ [')']) ++ stop = '(' :: (y ++ ')' :: stop) := by simp
      rw [Pattern.run]
      simp only [htext] at htaken ⊢
      rw [hp, htaken]
      simp
    have hany := @hpass anyArguments true fun before stop captured next => run_anyArguments hy
    rcases argumentsPattern_cases hcontains with ⟨-, hpattern⟩ | ⟨hneeds, -, hpattern⟩ | ⟨-, -, hpattern⟩
    · refine ⟨.some [(1, '(' :: (y ++ [')']))],
        settles_of_run hsize (by simp) hfront fun before stop _ => ?_, fun _ => rfl⟩
      rw [hpattern]
      show (Pattern.run (capture 1 anyArguments) _ _ <|> _) = _
      rw [hany]
      rfl
    · obtain ⟨ok, hok⟩ := run_scaleArguments hy
      refine ⟨if ok then .some [(1, '(' :: (y ++ [')']))] else .none,
        settles_of_run hsize (by cases ok <;> simp) hfront fun before stop _ => ?_, by simp [hneeds]⟩
      rw [hpattern]
      exact (hpass hok before stop).trans (by cases ok <;> rfl)
    · refine ⟨.some [(1, '(' :: (y ++ [')']))],
        settles_of_run hsize (by simp) hfront fun before stop _ => ?_, fun _ => rfl⟩
      rw [hpattern]
      exact hany before stop

/-- A rule for a word with a size matches this size and no other. -/
theorem settles_sized (hne : r.word ≠ []) {x : Text} (hx : ∀ c ∈ x, isSizeCharacter c = true)
    (h : r.source = r.word ++ '(' :: (x ++ [')'])) {size : Text} (hsize : IsSize size) :
    ∃ out, Settles r size out ∧ (out.isSome = true ↔ r.source = r.word ++ size) := by
  have hfront (before tail : Text) (hbefore : before.head?.any isWordCharacter = false)
      (htail : tail.head?.any isWordCharacter = false) :
      Pattern.run r.pattern ⟨before, r.word ++ tail, []⟩ .some =
        Pattern.run (sequence (gap :: letter '(' :: gap :: [sequence (sourceParts false (x ++ [')']))]))
          ⟨r.word.reverse ++ before, tail, []⟩ .some := by
    rw [pattern_sized hx h, run_sequence_cons, run_edge_word hne hbefore, run_sequence_cons,
      run_sequence_append, ← Pattern.text, run_text rfl, run_sequence_cons]
    rfl
  cases hsize with
  | none =>
    refine ⟨.none, settles_of_run .none (by simp) hfront fun before stop hstop => ?_, ?_⟩
    · exact run_paren_none hstop.paren _
    · rw [h, List.append_cancel_left_eq]
      simp
  | @some y hy =>
    refine ⟨if x = y then .some [] else .none,
      settles_of_run (.some hy) (by split <;> simp) hfront fun before stop hstop => ?_, ?_⟩
    · have hgap : (y ++ ')' :: stop).head?.any isBlank = false := by
        cases y with
        | nil => exact (show isBlank ')' = false by decide)
        | cons d y => exact not_blank_of_size (hy d List.mem_cons_self)
      have htext : '(' :: (y ++ [')']) ++ stop = '(' :: (y ++ ')' :: stop) := by simp
      rw [htext, run_gap_letter (by decide), if_pos (by decide), run_sequence_cons, run_gap hgap,
        run_sequence_cons, run_sourceParts_size hx hy]
      split
      · simp [Pattern.sequence, Pattern.run]
      · rfl
    · rw [h, List.append_cancel_left_eq]
      split <;> simp_all

/-- A rule for several words does not match a single one. -/
theorem settles_words (hne : r.word ≠ []) {rest : Text} (hrest : spelled (' ' :: rest) = true)
    (hform : r.argumentsOptional = true) (h : r.source = r.word ++ ' ' :: rest) {size : Text}
    (hsize : IsSize size) : Settles r size .none := by
  have hfront (before tail : Text) (hbefore : before.head?.any isWordCharacter = false)
      (htail : tail.head?.any isWordCharacter = false) :
      Pattern.run r.pattern ⟨before, r.word ++ tail, []⟩ .some =
        Pattern.run (sequence [optional (capture 1 anyArguments), space, sourcePattern rest])
          ⟨r.word.reverse ++ before, tail, []⟩ .some := by
    rw [pattern_words hrest hform h, run_sequence_cons, run_edge_word hne hbefore, run_sequence_cons,
      run_text rfl, run_sequence_cons, run_edge_tail hne htail]
  have hspace {before after : Text} {captured : List (Nat × Text)}
      (hafter : after.head?.any isBlank = false) :
      Pattern.run (sequence [space, sourcePattern rest]) ⟨before, after, captured⟩ .some = .none :=
    run_space_none hafter
  have hmulti : r.isMultiWord = true := by simp [isMultiWord, h, show isBlank ' ' = true by decide]
  refine settles_of_run hsize (by simp) hfront fun before stop hstop => ?_
  show (Pattern.run (capture 1 anyArguments) ⟨before, size ++ stop, []⟩
      (fun t => Pattern.run (sequence [space, sourcePattern rest]) t .some) <|>
    Pattern.run (sequence [space, sourcePattern rest]) ⟨before, size ++ stop, []⟩ .some) = .none
  have hblank := hstop.blank hmulti
  rw [Pattern.run]
  cases hsize with
  | none =>
    rw [List.nil_append, anyArguments, run_paren_none hstop.paren, hspace hblank]
    rfl
  | @some y hy =>
    have htext : '(' :: (y ++ [')']) ++ stop = '(' :: (y ++ ')' :: stop) := by simp
    have hopen : ('(' :: (y ++ ')' :: stop)).head?.any isBlank = false := show isBlank '(' = false by decide
    rw [htext, run_anyArguments hy, hspace hopen]
    simp only [hspace hblank]
    rfl

end

/-! ## Types of several words -/

theorem spelled_cons {c : Char} {t : Text} (h : spelled (c :: t) = true) :
    spelled t = true ∧ (isBare c = true ∨ c = ' ' ∧ t.head?.any isBare = true) := by
  cases t with
  | nil => exact ⟨rfl, .inl h⟩
  | cons d t =>
    simp only [spelled, Bool.and_eq_true, Bool.or_eq_true, beq_iff_eq] at h
    exact ⟨h.2, h.1⟩

theorem head?_any_blank {t : Text} (h : t.head?.any isBare = true) (s : Text) :
    (t ++ s).head?.any isBlank = false := by
  cases t with
  | nil => cases h
  | cons c t => exact not_blank_of_bare h

theorem not_inSpace {inSpace : Bool} {t : Text}
    (h : inSpace = true → (' ' :: t).head?.any isBare = true) : inSpace = false := by
  rw [Bool.eq_false_iff]
  intro hspace
  have hbare : isBare ' ' = true := h hspace
  exact absurd hbare (by decide)

/-- Words pass themselves. The flag tells that the blank in front of them was treated. -/
theorem run_sourceParts_spelled {t : Text} {inSpace : Bool} (ht : spelled t = true)
    (hspace : inSpace = true → t.head?.any isBare = true) (qs : List Pattern) :
    Pattern.run (sequence (sourceParts inSpace t ++ qs)) ⟨before, t ++ stop, captured⟩ next =
      Pattern.run (sequence qs) ⟨t.reverse ++ before, stop, captured⟩ next := by
  induction t generalizing inSpace before with
  | nil => rfl
  | cons c t ih =>
    obtain ⟨ht', hc | ⟨rfl, hd⟩⟩ := spelled_cons ht
    · rw [sourceParts_bare hc, List.cons_append, List.cons_append, run_sequence_cons,
        run_letter_cons (by simp [sameLetter]), ih ht' (by simp)]
      simp
    · obtain rfl := not_inSpace hspace
      show Pattern.run (sequence (space :: (sourceParts true t ++ qs))) _ _ = _
      rw [run_sequence_cons, List.cons_append, run_space_cons (head?_any_blank hd stop), ih ht' fun _ => hd]
      simp

/-- The first place where two texts differ holds bare characters in both that are no case variants. -/
def diverges : Text → Text → Bool
  | c :: s, d :: t => if c = d then diverges s t else isBare c && isBare d && !sameLetter c d
  | _, _ => false

/-- Words do not pass words that diverge from them. -/
theorem run_sourceParts_diverging {s t : Text} {inSpace : Bool} (hs : spelled s = true)
    (ht : spelled t = true) (hst : diverges s t = true)
    (hspace : inSpace = true → s.head?.any isBare = true) (qs : List Pattern) :
    Pattern.run (sequence (sourceParts inSpace s ++ qs)) ⟨before, t ++ stop, captured⟩ next = none := by
  induction s generalizing t inSpace before with
  | nil => cases hst
  | cons c s ih =>
    cases t with
    | nil => cases hst
    | cons d t =>
      obtain ⟨hs', hc⟩ := spelled_cons hs
      obtain ⟨ht', hd⟩ := spelled_cons ht
      rw [diverges] at hst
      by_cases hcd : c = d
      · subst hcd
        rw [if_pos rfl] at hst
        rcases hc with hc | ⟨rfl, hc⟩
        · rw [sourceParts_bare hc, List.cons_append, List.cons_append, run_sequence_cons,
            run_letter_cons (by simp [sameLetter])]
          exact ih hs' ht' hst (by simp)
        · obtain rfl := not_inSpace hspace
          have hd' : t.head?.any isBare = true := hd.elim (fun h => absurd h (by decide)) And.right
          show Pattern.run (sequence (space :: (sourceParts true s ++ qs))) _ _ = _
          rw [run_sequence_cons, List.cons_append, run_space_cons (head?_any_blank hd' stop)]
          exact ih hs' ht' hst fun _ => hc
      · rw [if_neg hcd] at hst
        simp only [Bool.and_eq_true, Bool.not_eq_true'] at hst
        rw [sourceParts_bare hst.1.1, List.cons_append, List.cons_append, run_sequence_cons]
        exact run_letter_ne hst.2

section

variable {r : TypeRule} {rest found : Text}

/-- Behind its first word, a rule for several words looks for the others. -/
theorem run_words (hne : r.word ≠ []) (hrest : spelled (' ' :: rest) = true)
    (hform : r.argumentsOptional = true) (h : r.source = r.word ++ ' ' :: rest)
    (hfound : found.head?.any isBare = true) (hbefore : before.head?.any isWordCharacter = false) :
    Pattern.run r.pattern ⟨before, r.word ++ ' ' :: (found ++ stop), []⟩ .some =
      Pattern.run (sourcePattern rest) ⟨' ' :: (r.word.reverse ++ before), found ++ stop, []⟩ .some := by
  have htail : (' ' :: (found ++ stop)).head?.any isWordCharacter = false :=
    not_wordCharacter_of_blank (c := ' ') (by decide)
  have htrim : (Text.trimStart (' ' :: (found ++ stop))).head? ≠ some '(' := by
    cases found with
    | nil => cases hfound
    | cons c found =>
      have hc : isBare c = true := hfound
      rw [Text.trimStart, List.dropWhile_cons_of_pos (by decide), List.cons_append,
        List.dropWhile_cons_of_neg (by simp [not_blank_of_bare hc])]
      intro hparen
      obtain rfl : c = '(' := Option.some.inj hparen
      exact absurd hc (by decide)
  rw [pattern_words hrest hform h, run_sequence_cons, run_edge_word hne hbefore, run_sequence_cons,
    run_text rfl, run_sequence_cons, run_edge_tail hne htail]
  show (Pattern.run (sequence (gap :: letter '(' :: _)) _ _ <|> Pattern.run (sequence [space, _]) _ _) = _
  rw [run_paren_none htrim, run_sequence_cons, run_space_cons (head?_any_blank hfound stop)]
  rfl

theorem head?_of_spelled (hrest : spelled (' ' :: rest) = true) (hne : rest ≠ []) :
    rest.head?.any isBare = true := by
  obtain ⟨c, rest, rfl⟩ := List.exists_cons_of_ne_nil hne
  exact (spelled_cons hrest).2.elim (fun h => absurd h (by decide)) And.right

/-- Words end bare. -/
theorem getLast_of_spelled (hrest : spelled rest = true) (hne : rest ≠ []) :
    isBare (rest.getLast hne) = true := by
  induction rest with
  | nil => exact absurd rfl hne
  | cons c rest ih =>
    cases rest with
    | nil => exact hrest
    | cons d rest =>
      rw [List.getLast_cons (List.cons_ne_nil d rest)]
      exact ih (spelled_cons hrest).1 (List.cons_ne_nil d rest)

/-- A rule for several words matches its source. -/
theorem matcher_words (hne : r.word ≠ []) (hrest : spelled (' ' :: rest) = true) (hrne : rest ≠ [])
    (hform : r.argumentsOptional = true) (h : r.source = r.word ++ ' ' :: rest)
    (hbefore : before.head?.any isWordCharacter = false) (hstop : EndsType stop) :
    r.pattern.matcher before (r.source ++ stop) = .some (r.source, []) := by
  have hspelled := (spelled_cons hrest).1
  have hlast := getLast_of_spelled hspelled hrne
  have htext : r.source ++ stop = r.word ++ ' ' :: (rest ++ stop) := by simp [h]
  have hedge : Site.isEdge ⟨rest.reverse ++ ' ' :: (r.word.reverse ++ before), stop, []⟩ = true := by
    have hafter : stop.head?.any isWordCharacter = false :=
      hstop.head?_wordCharacter
    have hhead : (rest.reverse ++ ' ' :: (r.word.reverse ++ before)).head? = .some (rest.getLast hrne) := by
      rw [List.head?_append, List.head?_reverse, List.getLast?_eq_some_getLast hrne]
      rfl
    simp [Site.isEdge, hhead, hafter, wordCharacter_of_bare hlast]
  have htaken : Site.textUpTo ⟨before, r.source ++ stop, []⟩
      ⟨rest.reverse ++ ' ' :: (r.word.reverse ++ before), stop, []⟩ = r.source := textUpTo_eq rfl
  rw [htext] at htaken
  rw [Pattern.matcher, htext, run_words hne hrest hform h (head?_of_spelled hrest hrne) hbefore,
    sourcePattern_of_bare (List.getLast?_eq_some_getLast hrne) hlast,
    run_sourceParts_spelled hspelled (by simp), run_sequence_cons, Pattern.run, if_pos hedge]
  simp [Pattern.sequence, Pattern.run, htaken]

/-- A rule for several words does not match words that diverge from its source. -/
theorem matcher_diverging (hne : r.word ≠ []) (hrest : spelled (' ' :: rest) = true) (hrne : rest ≠ [])
    (hform : r.argumentsOptional = true) (h : r.source = r.word ++ ' ' :: rest)
    (hfound : spelled (' ' :: found) = true) (hfne : found ≠ []) (hdiverge : diverges rest found = true)
    (hbefore : before.head?.any isWordCharacter = false) :
    r.pattern.matcher before (r.word ++ ' ' :: found ++ stop) = none := by
  have hspelled := (spelled_cons hrest).1
  have htext : r.word ++ ' ' :: found ++ stop = r.word ++ ' ' :: (found ++ stop) := by simp
  rw [Pattern.matcher, htext, run_words hne hrest hform h (head?_of_spelled hfound hfne) hbefore,
    sourcePattern_of_bare (List.getLast?_eq_some_getLast hrne) (getLast_of_spelled hspelled hrne),
    run_sourceParts_diverging hspelled (spelled_cons hfound).1 hdiverge (by simp)]
  rfl

end

end TypeRule

end DialectBridge
