import DialectBridge.Proofs.Serial.Types

/-!
# Where a serial column is found

The pattern of serial columns finds a column that a sequence feeds from its name to the end of its default value
(`matcher_fed`). A match needs a name, whitespace, a numeric word, perhaps a precision, and the word `DEFAULT`
(`reaches_pattern`), so it is found neither inside a word nor at words of a plain column.
-/

namespace DialectBridge

namespace SerialColumn

open Pattern

variable {before after rest w : Text} {captured : List (Nat × Text)} {next : Site → Option Site}

/-! ## Names -/

/-- A character of a name, as the pattern sees it. -/
def isNameCharacter (c : Char) : Bool :=
  isWordCharacter c || c == '$' || c == '#'

theorem nameCharacter_of_bare {c : Char} (h : isBare c = true) : isNameCharacter c = true := by
  simp [isNameCharacter, wordCharacter_of_bare h]

theorem not_blank_of_nameCharacter {c : Char} (h : isNameCharacter c = true) : isBlank c = false := by
  by_contra hblank
  rw [Bool.not_eq_false] at hblank
  have hsign : c ≠ '$' ∧ c ≠ '#' := by constructor <;> (rintro rfl; exact absurd hblank (by decide))
  simp [isNameCharacter, not_wordCharacter_of_blank hblank, hsign] at h

/-- A name takes a whole word if what follows it wants no bare character. -/
theorem run_name (hw : IsBareWord w) (hrest : rest.head?.any isNameCharacter = false)
    (hnext : ∀ c, isBare c = true → ∀ before after, next ⟨before, c :: after, captured⟩ = none) :
    Pattern.run name ⟨before, w ++ rest, captured⟩ next = next ⟨w.reverse ++ before, rest, captured⟩ := by
  obtain ⟨c, w, rfl⟩ := List.exists_cons_of_ne_nil hw.ne_nil
  have hbare := hw.bare
  show Pattern.run (one isNameCharacter) ⟨before, c :: (w ++ rest), captured⟩ _ = _
  rw [run_one_cons (nameCharacter_of_bare (hbare c List.mem_cons_self)), List.reverse_cons, List.append_assoc]
  exact passMany_exact (fun d hd => nameCharacter_of_bare (hbare d (List.mem_cons_of_mem _ hd))) hrest
    fun d hd => hnext d (hbare d (List.mem_cons_of_mem _ hd))

/-- What wants whitespace first wants no bare character. -/
theorem run_space_bare {c : Char} (hc : isBare c = true) (qs : List Pattern) (next : Site → Option Site) :
    Pattern.run (Pattern.sequence (space :: qs)) ⟨before, c :: after, captured⟩ next = none :=
  run_space_none (by simpa using not_blank_of_bare hc)

/-- What wants a dot first wants no bare character. -/
theorem run_dot_bare {c : Char} (hc : isBare c = true) :
    Pattern.run (letter '.') ⟨before, c :: after, captured⟩ next = none := by
  refine run_letter_ne ?_
  exact forall_ascii (P := fun c => isBare c = true → sameLetter '.' c = false) (by decide)
    (toNat_lt_of_bare hc) hc

/-! ## Numbers -/

/-- The words of the numeric types that a sequence can feed. -/
def numericWords : List Text :=
  ["NUMBER", "NUMERIC", "INTEGER", "INT", "BIGINT", "DECIMAL"]

theorem numericWords_bare : ∀ w ∈ numericWords, IsBareWord w := by decide +kernel

/-- Letters do not pass a word that diverges from them. -/
theorem run_text_diverging {word : Text} (h : TypeRule.diverges word w = true) :
    Pattern.run (text word) ⟨before, w ++ rest, captured⟩ next = none := by
  induction word generalizing w before with
  | nil => cases h
  | cons c word ih =>
    cases w with
    | nil => cases h
    | cons d w =>
      show Pattern.run (letter c) ⟨before, d :: (w ++ rest), captured⟩ _ = _
      rw [TypeRule.diverges] at h
      by_cases hcd : c = d
      · subst hcd
        rw [if_pos rfl] at h
        rw [run_letter_cons (by simp [sameLetter])]
        exact ih h
      · rw [if_neg hcd] at h
        simp only [Bool.and_eq_true, Bool.not_eq_true'] at h
        exact run_letter_ne h.2

theorem orElse_none {out : Option Site} : (none <|> out) = out := by
  cases out <;> rfl

/-- The numeric types that conversion writes are passed as wholes, if a match follows. -/
theorem run_numericType {word : Text} (hword : word ∈ writtenWords) {out : Site}
    (hnext : next ⟨word.reverse ++ before, rest, captured⟩ = .some out) :
    Pattern.run numericType ⟨before, word ++ rest, captured⟩ next = .some out := by
  have hpass : Pattern.run (text word) ⟨before, word ++ rest, captured⟩ next = .some out := (run_text rfl).trans hnext
  have hfail {v : Text} (h : TypeRule.diverges v word = true) :
      Pattern.run (text v) ⟨before, word ++ rest, captured⟩ next = none := run_text_diverging h
  have hstop (o : Option Site) : (Option.some out <|> o) = .some out := rfl
  simp only [writtenWords, List.mem_cons, List.not_mem_nil, or_false] at hword
  rcases hword with rfl | rfl | rfl | rfl <;> simp only [numericType, choice, Pattern.run]
  · rw [@hfail "NUMBER" (by decide), hpass, orElse_none, hstop]
  · rw [@hfail "NUMBER" (by decide), @hfail "NUMERIC" (by decide), @hfail "INTEGER" (by decide),
      @hfail "INT" (by decide), @hfail "BIGINT" (by decide), hpass]
    simp only [orElse_none]
  · rw [@hfail "NUMBER" (by decide), @hfail "NUMERIC" (by decide), hpass, hstop]
    simp only [orElse_none]
  · rw [@hfail "NUMBER" (by decide), @hfail "NUMERIC" (by decide), @hfail "INTEGER" (by decide),
      @hfail "INT" (by decide), hpass, hstop]
    simp only [orElse_none]

/-- A gap, digits and a gap in front of a comma or a parenthesis. -/
theorem run_gap_digits_gap {n : Text} (hne : n ≠ []) (hn : ∀ d ∈ n, d.isDigit = true) {c : Char}
    (hc : c = ',' ∨ c = ')') (qs : List Pattern) {out : Site}
    (hnext : Pattern.run (Pattern.sequence qs) ⟨n.reverse ++ before, c :: rest, captured⟩ next = .some out) :
    Pattern.run (Pattern.sequence (gap :: digits :: gap :: qs)) ⟨before, n ++ c :: rest, captured⟩ next =
      .some out := by
  have hsign : isBlank c = false ∧ isWordDigit c = false := by
    rcases hc with rfl | rfl <;> exact ⟨by decide, (isWordDigit_of_ascii (by decide)).trans (by decide)⟩
  have hblank : (n ++ c :: rest).head?.any isBlank = false := by
    obtain ⟨d, n, rfl⟩ := List.exists_cons_of_ne_nil hne
    exact not_blank_of_digit (hn d List.mem_cons_self)
  rw [run_sequence_cons, run_gap hblank, run_sequence_cons]
  refine run_digits_some hne hn (by simpa using hsign.2) ?_
  rw [run_sequence_cons, run_gap (by simpa using hsign.1)]
  exact hnext

theorem run_optional_cons (p : Pattern) (qs : List Pattern) (s : Site) :
    Pattern.run (Pattern.sequence (optional p :: qs)) s next =
      (Pattern.run p s (fun t => Pattern.run (Pattern.sequence qs) t next) <|>
        Pattern.run (Pattern.sequence qs) s next) :=
  rfl

theorem run_close : Pattern.run (Pattern.sequence [letter ')']) ⟨before, ')' :: rest, captured⟩ next =
    next ⟨')' :: before, rest, captured⟩ := by
  rw [run_sequence_cons, run_letter_cons (by decide)]
  rfl

/-- A precision is passed as a whole, if a match follows; without one, nothing is passed. -/
theorem run_precision {size : Text} (hsize : IsPrecision size) (hrest : (Text.trimStart rest).head? ≠ .some '(')
    {out : Site} (hnext : next ⟨size.reverse ++ before, rest, captured⟩ = .some out) :
    Pattern.run (optional precision) ⟨before, size ++ rest, captured⟩ next = .some out := by
  have hopen (t : Text) (qs : List Pattern) : Pattern.run (Pattern.sequence (gap :: letter '(' :: qs))
      ⟨before, '(' :: t, captured⟩ next = Pattern.run (Pattern.sequence qs) ⟨'(' :: before, t, captured⟩ next := by
    rw [run_gap_letter (by decide), if_pos (by decide)]
  have hpass (h : Pattern.run precision ⟨before, size ++ rest, captured⟩ next = .some out) :
      Pattern.run (optional precision) ⟨before, size ++ rest, captured⟩ next = .some out := by
    show (Pattern.run precision _ next <|> next _) = _
    rw [h]
    rfl
  cases hsize with
  | none =>
    show (Pattern.run precision _ next <|> next _) = _
    rw [precision, List.nil_append, TypeRule.run_paren_none hrest]
    exact hnext
  | @length n hne hn =>
    refine hpass ?_
    have htext : '(' :: (n ++ [')']) ++ rest = '(' :: (n ++ ')' :: rest) := by simp
    rw [precision, htext, hopen]
    refine run_gap_digits_gap hne hn (.inr rfl) _ ?_
    -- no comma, no scale
    have hcomma (next : Site → Option Site) : Pattern.run (Pattern.sequence [letter ',', gap, digits, gap])
        ⟨n.reverse ++ '(' :: before, ')' :: rest, captured⟩ next = none := by
      rw [run_sequence_cons, run_letter_ne (by decide)]
    rw [run_optional_cons, hcomma, orElse_none, run_close]
    simpa using hnext
  | @scale p s hpne hp hsne hs =>
    refine hpass ?_
    have htext : '(' :: (p ++ ',' :: (s ++ [')'])) ++ rest = '(' :: (p ++ ',' :: (s ++ ')' :: rest)) := by simp
    rw [precision, htext, hopen]
    refine run_gap_digits_gap hpne hp (.inl rfl) _ ?_
    have hscale : Pattern.run (Pattern.sequence [letter ',', gap, digits, gap])
        ⟨p.reverse ++ '(' :: before, ',' :: (s ++ ')' :: rest), captured⟩
        (fun t => Pattern.run (Pattern.sequence [letter ')']) t next) = .some out := by
      rw [run_sequence_cons, run_letter_cons (by decide)]
      refine run_gap_digits_gap hsne hs (.inr rfl) [] ?_
      rw [Pattern.sequence, List.foldr_nil, Pattern.run, run_close]
      simpa using hnext
    rw [run_optional_cons, hscale]
    rfl

/-! ## The name of a sequence -/

theorem not_nameCharacter_of_sign {c : Char} (hc : c ∈ ['(', ')', ',', '.', ' ']) : isNameCharacter c = false := by
  have hnone : ['(', ')', ',', '.', ' '].any isNameCharacter = false := by decide +kernel
  exact Bool.eq_false_iff.2 (List.any_eq_false.1 hnone c hc)

theorem head?_nameCharacter (hstop : EndsType rest) : rest.head?.any isNameCharacter = false :=
  hstop.head?_any (not_nameCharacter_of_sign (by decide)) (not_nameCharacter_of_sign (by decide))

/-- The name of a sequence is passed up to `.NEXTVAL`. A bare name is no schema of a sequence `NEXTVAL`, because
no second dot follows. -/
theorem run_sequenceName {sequence stop : Text} (hsequence : IsSequenceName sequence) (hstop : EndsType stop)
    (hnext : ∀ c, isBare c = true → ∀ before after, next ⟨before, c :: after, captured⟩ = none)
    (hend : ∀ before, next ⟨before, stop, captured⟩ = none) {out : Site}
    (hout : next ⟨sequence.reverse ++ before, '.' :: ("NEXTVAL".toList ++ stop), captured⟩ = .some out) :
    Pattern.run sequenceName ⟨before, sequence ++ '.' :: ("NEXTVAL".toList ++ stop), captured⟩ next = .some out := by
  have hdot (t : Text) : ('.' :: t).head?.any isNameCharacter = false :=
    not_nameCharacter_of_sign (c := '.') (by decide)
  -- a word and a dot are passed as a schema
  have hschema {w t : Text} (hw : IsBareWord w) (next : Site → Option Site) :
      Pattern.run (seq name (letter '.')) ⟨before, w ++ '.' :: t, captured⟩ next =
        next ⟨'.' :: (w.reverse ++ before), t, captured⟩ :=
    (run_name hw (hdot t) fun c hc _ _ => run_dot_bare hc).trans (run_letter_cons (by decide))
  show (Pattern.run (seq name (letter '.')) _ (fun t => Pattern.run name t next) <|> Pattern.run name _ next) = _
  cases hsequence with
  | bare hw =>
    rw [hschema hw.toIsBareWord, run_name (by decide) (head?_nameCharacter hstop) hnext, hend, orElse_none,
      run_name hw.toIsBareWord (hdot _) hnext]
    exact hout
  | @qualified q w hq hw =>
    have hw' : Pattern.run name ⟨'.' :: (q.reverse ++ before), w ++ '.' :: ("NEXTVAL".toList ++ stop), captured⟩ next =
        .some out := by
      rw [run_name hw.toIsBareWord (hdot _) hnext]
      simpa using hout
    rw [List.append_assoc, List.cons_append, hschema hq.toIsBareWord, hw']
    rfl

/-! ## The match -/

/-- What the pattern wants behind the type. -/
def feedParts : List Pattern :=
  [space, text "DEFAULT", space, capture 2 sequenceName, letter '.', text "NEXTVAL", edge]

/-- The default value is passed up to its end. -/
theorem run_feed {sequence stop : Text} (hsequence : IsSequenceName sequence) (hstop : EndsType stop) :
    Pattern.run (Pattern.sequence feedParts) ⟨before, feed sequence ++ stop, captured⟩ .some =
      .some ⟨(feed sequence).reverse ++ before, stop, (2, sequence) :: captured⟩ := by
  have hshape : feed sequence ++ stop =
      ' ' :: (Keyword.default.text ++ ' ' :: (sequence ++ '.' :: ("NEXTVAL".toList ++ stop))) := by simp [feed]
  obtain ⟨c, t, hct, hc⟩ : ∃ c t, sequence = c :: t ∧ isBare c = true := by
    have hfirst {w : Text} (hw : IsBareWord w) (rest : Text) : ∃ c t, w ++ rest = c :: t ∧ isBare c = true := by
      obtain ⟨c, t, rfl⟩ := List.exists_cons_of_ne_nil hw.ne_nil
      exact ⟨c, t ++ rest, rfl, hw.bare c List.mem_cons_self⟩
    cases hsequence with
    | bare hw => simpa using hfirst hw.toIsBareWord []
    | qualified hq _ => exact hfirst hq.toIsBareWord _
  have hedge (b : Text) : Site.isEdge ⟨"NEXTVAL".toList.reverse ++ b, stop, (2, sequence) :: captured⟩ = true := by
    have hword : isWordCharacter 'L' = true := wordCharacter_of_bare (by decide)
    show ((some 'L').any isWordCharacter != stop.head?.any isWordCharacter) = true
    rw [hstop.head?_wordCharacter]
    simp [hword]
  have hout (b : Text) : Pattern.run (Pattern.sequence [letter '.', text "NEXTVAL", edge])
      ⟨b, '.' :: ("NEXTVAL".toList ++ stop), (2, sequence) :: captured⟩ .some =
        .some ⟨"NEXTVAL".toList.reverse ++ '.' :: b, stop, (2, sequence) :: captured⟩ := by
    rw [run_sequence_cons, run_letter_cons (by decide), run_sequence_cons, run_text rfl, run_sequence_cons, Pattern.run,
      if_pos (hedge _)]
    rfl
  have hname (b : Text) : Pattern.run (Pattern.sequence [capture 2 sequenceName, letter '.', text "NEXTVAL", edge])
      ⟨b, sequence ++ '.' :: ("NEXTVAL".toList ++ stop), captured⟩ .some =
        .some ⟨"NEXTVAL".toList.reverse ++ '.' :: (sequence.reverse ++ b), stop, (2, sequence) :: captured⟩ := by
    have htaken : Site.textUpTo ⟨b, sequence ++ '.' :: ("NEXTVAL".toList ++ stop), captured⟩
        ⟨sequence.reverse ++ b, '.' :: ("NEXTVAL".toList ++ stop), captured⟩ = sequence := textUpTo_eq rfl
    rw [run_sequence_cons, Pattern.run]
    refine run_sequenceName hsequence hstop (fun c hc _ _ => run_dot_bare hc) (fun _ => ?_) ?_
    · exact run_letter_none (hstop.head?_any (by decide) (by decide))
    · rw [htaken]
      exact hout _
  have hfirst : (sequence ++ '.' :: ("NEXTVAL".toList ++ stop)).head?.any isBlank = false := by
    rw [hct]
    exact not_blank_of_bare hc
  have hdefault (t : Text) : (Keyword.default.text ++ t).head?.any isBlank = false := show isBlank 'D' = false by decide
  have hpass (b t : Text) (next : Site → Option Site) : Pattern.run (text "DEFAULT")
      ⟨b, Keyword.default.text ++ t, captured⟩ next = next ⟨Keyword.default.text.reverse ++ b, t, captured⟩ :=
    run_text rfl
  rw [hshape, feedParts, run_sequence_cons, run_space_cons (hdefault _), run_sequence_cons, hpass, run_sequence_cons,
    run_space_cons hfirst, hname]
  simp [feed]

/-- A column that a sequence feeds is found from its name to the end of its default value. -/
theorem matcher_fed {name type sequence stop : Text} (hname : IsBareWord name) (htype : IsWritten type)
    (hsequence : IsSequenceName sequence) (hbefore : before.head?.any isWordCharacter = false) (hstop : EndsType stop) :
    pattern.matcher before (name ++ ' ' :: (type ++ feed sequence) ++ stop) =
      .some (name ++ ' ' :: (type ++ feed sequence), [(2, sequence), (1, name)]) := by
  obtain ⟨word, hword, size, hsize, rfl⟩ := htype
  have hshape : name ++ ' ' :: (word ++ size ++ feed sequence) ++ stop =
      name ++ ' ' :: (word ++ (size ++ (feed sequence ++ stop))) := by simp
  have hnumeric (b : Text) : Pattern.run (Pattern.sequence (numericType :: optional precision :: feedParts))
      ⟨b, word ++ (size ++ (feed sequence ++ stop)), [(1, name)]⟩ .some =
        .some ⟨(feed sequence).reverse ++ (size.reverse ++ (word.reverse ++ b)), stop, [(2, sequence), (1, name)]⟩ := by
    refine run_numericType hword (run_precision hsize ?_ (run_feed hsequence hstop))
    simp [head?_trimStart_feed]
  have hblank : (word ++ (size ++ (feed sequence ++ stop))).head?.any isBlank = false := by
    simp only [writtenWords, List.mem_cons, List.not_mem_nil, or_false] at hword
    rcases hword with rfl | rfl | rfl | rfl <;> rfl
  have hedge (rest : Text) : Site.isEdge ⟨before, name ++ rest, []⟩ = true := by
    obtain ⟨c, w, rfl⟩ := List.exists_cons_of_ne_nil hname.ne_nil
    simp [Site.isEdge, hbefore, wordCharacter_of_bare (hname.bare c List.mem_cons_self)]
  have hrun : Pattern.run pattern ⟨before, name ++ ' ' :: (word ++ (size ++ (feed sequence ++ stop))), []⟩ .some =
      .some ⟨(feed sequence).reverse ++ (size.reverse ++ (word.reverse ++ ' ' :: (name.reverse ++ before))), stop,
        [(2, sequence), (1, name)]⟩ := by
    have htaken (rest : Text) : Site.textUpTo ⟨before, name ++ rest, []⟩ ⟨name.reverse ++ before, rest, []⟩ = name :=
      textUpTo_eq rfl
    have hstop : (' ' :: (word ++ (size ++ (feed sequence ++ stop)))).head?.any isNameCharacter = false :=
      not_nameCharacter_of_sign (c := ' ') (by decide)
    rw [pattern, run_sequence_cons, Pattern.run, if_pos (hedge _), run_sequence_cons, Pattern.run]
    refine (run_name hname hstop fun c hc b a => ?_).trans ?_
    · exact run_space_bare hc _ _
    · rw [htaken, run_sequence_cons, run_space_cons hblank]
      exact hnumeric _
  have htaken : Site.textUpTo ⟨before, name ++ ' ' :: (word ++ (size ++ (feed sequence ++ stop))), []⟩
      ⟨(feed sequence).reverse ++ (size.reverse ++ (word.reverse ++ ' ' :: (name.reverse ++ before))), stop,
        [(2, sequence), (1, name)]⟩ = name ++ ' ' :: (word ++ size ++ feed sequence) := textUpTo_eq (by simp)
  rw [hshape, Pattern.matcher, hrun, Option.map_some, htaken]

/-! ## What a match needs -/

/-- What a match takes as a precision, or nothing. -/
inductive TakenPrecision : Text → Prop
  | none : TakenPrecision []
  | some {lead blanks rest : Text} {d : Char} (hlead : ∀ c ∈ lead, isBlank c = true)
      (hblanks : ∀ c ∈ blanks, isBlank c = true) (hd : isWordDigit d = true) (hrest : ')' ∉ rest) :
      TakenPrecision (lead ++ '(' :: (blanks ++ d :: (rest ++ [')'])))

/-- What a match needs behind a numeric word: perhaps a precision, whitespace and the first letter of `DEFAULT`. -/
def LeadsToDefault (t : Text) : Prop :=
  ∃ size blanks d rest, t = size ++ (blanks ++ d :: rest) ∧ TakenPrecision size ∧ blanks ≠ [] ∧
    (∀ c ∈ blanks, isBlank c = true) ∧ sameLetter 'D' d = true

theorem reaches_some {p : Char → Bool} {s t : Site} (h : Reaches (Pattern.some p) s t) :
    ∃ run, s.after = run ++ t.after ∧ run ≠ [] ∧ ∀ c ∈ run, p c = true := by
  obtain ⟨u, ⟨c, rest, hafter, hc, rfl⟩, run, rest', hrest, hrun, rfl⟩ := h
  refine ⟨c :: run, ?_, List.cons_ne_nil c run, List.forall_mem_cons.2 ⟨hc, hrun⟩⟩
  rw [hafter]
  exact congrArg (c :: ·) hrest

theorem reaches_numericType {s t : Site} (h : Reaches numericType s t) :
    ∃ word ∈ numericWords, Reaches (text word) s t := by
  simp only [numericType, choice, Reaches] at h
  simp only [numericWords, List.mem_cons, List.not_mem_nil, or_false, exists_eq_or_imp, exists_eq_left]
  exact h

theorem reaches_precision {s t : Site} (h : Reaches (optional precision) s t) :
    ∃ size, s.after = size ++ t.after ∧ TakenPrecision size := by
  rcases h with h | rfl
  · obtain ⟨-, ⟨lead, r₁, h₁, hlead, rfl⟩, -, ⟨o, r₂, h₂, ho, rfl⟩, -, ⟨blanks, r₃, h₃, hblanks, rfl⟩, u,
      ⟨v, ⟨d, r₄, h₄, hd, rfl⟩, hdigits⟩, w, hgap, x, hscale, -, ⟨c, r₅, h₅, hc, rfl⟩, rfl⟩ := h
    -- no part between the first digit and the end takes a closing parenthesis
    have hinner : Reaches (seq (many isWordDigit) (seq gap (optional
        (Pattern.sequence [letter ',', gap, digits, gap])))) _ x := ⟨u, hdigits, w, hgap, hscale⟩
    obtain ⟨rest, hrest, -, hnot⟩ := hinner.avoids (show avoids ')' _ = true by decide)
    obtain rfl := eq_leftParen ho
    obtain rfl : c = ')' := eq_of_sameLetter (by decide) hc
    refine ⟨_, ?_, .some hlead hblanks hd hnot⟩
    simp only at h₁ h₂ h₃ h₄ hrest
    rw [h₁, h₂, h₃, h₄, hrest, h₅]
    simp
  · exact ⟨[], rfl, .none⟩

/-- A match needs a name, whitespace, a numeric word and what leads to `DEFAULT`, and it starts at an edge. -/
theorem reaches_pattern {s t : Site} (h : Reaches pattern s t) : s.isEdge = true ∧
    ∃ w blanks word rest, s.after = w ++ (blanks ++ (word ++ rest)) ∧ w ≠ [] ∧ (∀ c ∈ w, isNameCharacter c = true) ∧
      blanks ≠ [] ∧ (∀ c ∈ blanks, isBlank c = true) ∧ (∃ v ∈ numericWords, Text.fold word = Text.fold v) ∧
        LeadsToDefault rest := by
  obtain ⟨_, ⟨hedge, rfl⟩, _, ⟨u₁, hname, rfl⟩, u₂, hspace, u₃, hnumeric, u₄, hsize, u₅, hspace', u₆, hdefault, -⟩ := h
  obtain ⟨w, hw, hwne, hwall⟩ := reaches_some hname
  obtain ⟨blanks, hblanks, hbne, hball⟩ := reaches_some hspace
  obtain ⟨v, hv, htext⟩ := reaches_numericType hnumeric
  obtain ⟨word, hword, -, hfold⟩ := reaches_text htext
  obtain ⟨size, htaken, hprecision⟩ := reaches_precision hsize
  obtain ⟨blanks', hblanks', hbne', hball'⟩ := reaches_some hspace'
  obtain ⟨-, ⟨d, rest, hd, hsame, -⟩, -⟩ := hdefault
  refine ⟨hedge, w, blanks, word, u₃.after, ?_, hwne, hwall, hbne, hball, ⟨v, hv, hfold⟩, size, blanks', d, rest, ?_,
    hprecision, hbne', hball', hsame⟩
  · simp only at hblanks
    rw [hw, hblanks, hword]
  · rw [htaken, hblanks', hd]

/-! ## Where nothing is found -/

theorem matcher_none (h : ∀ t, ¬ Reaches pattern ⟨before, after, []⟩ t) : pattern.matcher before after = none := by
  rw [Option.eq_none_iff_forall_ne_some]
  rintro ⟨taken, captures⟩ hmatch
  obtain ⟨t, hreach, -⟩ := matcher_reaches hmatch
  exact h t hreach

/-- In the middle of a word nothing is found. -/
theorem matcher_none_inside (hbefore : before.head?.any isWordCharacter = true)
    (hafter : after.head?.any isWordCharacter = true) : pattern.matcher before after = none := by
  refine matcher_none fun t h => ?_
  have hedge := (reaches_pattern h).1
  rw [Site.isEdge, hbefore, hafter] at hedge
  cases hedge

/-- At a blank nothing is found. -/
theorem matcher_none_blank : pattern.matcher before (' ' :: after) = none := by
  refine matcher_none fun t h => ?_
  obtain ⟨-, w, blanks, word, rest, heq, hne, hw, -⟩ := reaches_pattern h
  obtain ⟨c, w, rfl⟩ := List.exists_cons_of_ne_nil hne
  obtain rfl : ' ' = c := (List.cons.inj heq).1
  have hname := hw ' ' List.mem_cons_self
  rw [not_nameCharacter_of_sign (by decide)] at hname
  cases hname

/-- Nothing is found where a sign comes before the next blank. -/
theorem matcher_none_of_sign {x : Text} (hblank : ∀ c ∈ x, isBlank c = false)
    (hsign : ∃ c ∈ x, isNameCharacter c = false) : pattern.matcher before (x ++ rest) = none := by
  refine matcher_none fun t h => ?_
  obtain ⟨-, w, blanks, word, tail, heq, -, hw, hne, hblanks, -⟩ := reaches_pattern h
  obtain ⟨b, blanks, rfl⟩ := List.exists_cons_of_ne_nil hne
  have hheq : x ++ rest = w ++ b :: (blanks ++ (word ++ tail)) := heq
  rcases List.append_eq_append_iff.1 hheq with ⟨y, rfl, -⟩ | ⟨y, rfl, hy⟩
  · -- the name goes over the sign
    obtain ⟨c, hc, hname⟩ := hsign
    rw [hw c (List.mem_append_left _ hc)] at hname
    cases hname
  · cases y with
    | nil =>
      obtain ⟨c, hc, hname⟩ := hsign
      rw [List.append_nil] at hc
      rw [hw c hc] at hname
      cases hname
    | cons d y =>
      obtain rfl : b = d := (List.cons.inj hy).1
      have hb := hblank b (by simp)
      rw [hblanks b List.mem_cons_self] at hb
      cases hb

/-- What leads to a default value starts with whitespace or a parenthesis. -/
theorem LeadsToDefault.exists_head (h : LeadsToDefault rest) : ∃ c t, rest = c :: t ∧ (isBlank c = true ∨ c = '(') := by
  obtain ⟨size, blanks, d, tail, rfl, hsize, hne, hblanks, -⟩ := h
  cases hsize with
  | none =>
    obtain ⟨b, blanks, rfl⟩ := List.exists_cons_of_ne_nil hne
    exact ⟨b, _, rfl, .inl (hblanks b List.mem_cons_self)⟩
  | @some lead _ _ _ hlead =>
    cases lead with
    | nil => exact ⟨'(', _, rfl, .inr rfl⟩
    | cons c lead => exact ⟨c, _, rfl, .inl (hlead c List.mem_cons_self)⟩

/-- Behind a size and the end of a column no default value follows. -/
theorem not_leadsToDefault_size {size stop : Text} (hsize : IsSize size) (hstop : EndsType stop) :
    ¬ LeadsToDefault (size ++ stop) := by
  intro h
  cases hsize with
  | none =>
    obtain ⟨c, t, heq, hc⟩ := h.exists_head
    rw [List.nil_append] at heq
    rcases hstop c (by rw [heq]; rfl) with rfl | rfl <;> rcases hc with hc | hc <;> exact absurd hc (by decide)
  | @some y hy =>
    obtain ⟨taken, blanks, d, tail, heq, htaken, hne, hblanks, -⟩ := h
    obtain ⟨b, blanks, rfl⟩ := List.exists_cons_of_ne_nil hne
    have hb := hblanks b List.mem_cons_self
    cases htaken with
    | none =>
      obtain rfl : '(' = b := (List.cons.inj heq).1
      exact absurd hb (by decide)
    | @some lead gap inner e hlead hgap he hinner =>
      cases lead with
      | cons c lead =>
        obtain rfl : '(' = c := (List.cons.inj heq).1
        exact absurd (hlead '(' List.mem_cons_self) (by decide)
      | nil =>
        -- both texts hold one closing parenthesis up to here, so the whitespace stands behind the size
        have hopen : ∀ c ∈ y, (c != ')') = true := by
          intro c hc
          rw [bne_iff_ne]
          rintro rfl
          exact absurd (hy _ hc) (by decide)
        have hinside : ∀ c ∈ gap ++ e :: inner, (c != ')') = true := by
          intro c hc
          rw [bne_iff_ne]
          rintro rfl
          rcases List.mem_append.1 hc with hc | hc
          · exact absurd (hgap _ hc) (by decide)
          · rcases List.mem_cons.1 hc with rfl | hc
            · rw [isWordDigit_of_ascii (by decide)] at he
              exact absurd he (by decide)
            · exact hinner hc
        have hbody : y ++ ')' :: stop = gap ++ e :: inner ++ ')' :: (b :: (blanks ++ d :: tail)) := by simpa using heq
        have hclose := congrArg (List.dropWhile (· != ')')) hbody
        rw [Text.dropWhile_run hopen rfl, Text.dropWhile_run hinside rfl] at hclose
        rcases hstop b (by rw [(List.cons.inj hclose).2]; rfl) with rfl | rfl <;> exact absurd hb (by decide)

/-- Behind the parenthesis that opens the columns no default value follows. -/
theorem not_leadsToDefault_open (hblank : rest.head?.any isBlank = false)
    (hdigit : rest.head?.any isWordDigit = false) : ¬ LeadsToDefault (' ' :: '(' :: rest) := by
  rintro ⟨size, blanks, d, tail, heq, hsize, hne, hblanks, hd⟩
  have hparen : isBlank '(' ≠ true := by decide
  cases hsize with
  | none =>
    obtain ⟨b, blanks, rfl⟩ := List.exists_cons_of_ne_nil hne
    have hrest : '(' :: rest = blanks ++ d :: tail := (List.cons.inj heq).2
    cases blanks with
    | nil =>
      obtain rfl : '(' = d := (List.cons.inj hrest).1
      exact absurd hd (by decide)
    | cons c blanks =>
      obtain rfl : '(' = c := (List.cons.inj hrest).1
      exact hparen (hblanks '(' (by simp))
  | @some lead gap inner e hlead hgap he hinner =>
    cases lead with
    | nil => exact absurd (List.cons.inj heq).1 (by decide)
    | cons c lead =>
      have hrest : '(' :: rest = lead ++ '(' :: (gap ++ e :: (inner ++ [')'])) ++ (blanks ++ d :: tail) :=
        (List.cons.inj heq).2
      cases lead with
      | cons c lead =>
        obtain rfl : '(' = c := (List.cons.inj hrest).1
        exact hparen (hlead '(' (by simp))
      | nil =>
        rw [(List.cons.inj hrest).2] at hblank hdigit
        cases gap with
        | nil => exact absurd he (by simpa using hdigit)
        | cons c gap => exact absurd (hgap c List.mem_cons_self) (by simpa using hblank)

/-- A numeric word ends where a match goes on. -/
theorem takeWhile_numeric {word v : Text} (hv : v ∈ numericWords) (hfold : Text.fold word = Text.fold v)
    (hrest : LeadsToDefault rest) : (word ++ rest).takeWhile isWordCharacter = word := by
  refine Text.takeWhile_run (Text.wordCharacter_of_fold (numericWords_bare v hv).bare hfold) ?_
  obtain ⟨c, t, rfl, hc | rfl⟩ := hrest.exists_head
  · exact not_wordCharacter_of_blank hc
  · exact Item.not_wordCharacter_of_sign (.inl rfl)

/-- The word is none of the numeric types that the step looks for. -/
def IsNotNumeric (w : Text) : Prop :=
  ∀ word ∈ numericWords, Text.fold w ≠ Text.fold word

instance (w : Text) : Decidable (IsNotNumeric w) := by
  unfold IsNotNumeric; infer_instance

/-- Nothing is found at a word and a blank if the next word is not numeric, or no default value follows it. -/
theorem matcher_none_of_word {v : Text} (hw : IsBareWord w) (hv : ∀ c ∈ v, isBare c = true)
    (hrest : rest.head?.any isWordCharacter = false) (hblank : (v ++ rest).head?.any isBlank = false)
    (hnot : IsNotNumeric v ∨ ¬ LeadsToDefault rest) :
    pattern.matcher before (w ++ ' ' :: (v ++ rest)) = none := by
  refine matcher_none fun t h => ?_
  obtain ⟨-, w', blanks, word, tail, heq, -, hw', hne, hblanks, ⟨u, hu, hfold⟩, hlead⟩ := reaches_pattern h
  have hstart : (word ++ tail).head?.any isBlank = false := by
    cases word with
    | nil => exact absurd (List.map_eq_nil_iff.1 hfold.symm) (numericWords_bare u hu).ne_nil
    | cons c word =>
      have hc := Text.wordCharacter_of_fold (numericWords_bare u hu).bare hfold c List.mem_cons_self
      exact Bool.eq_false_iff.2 fun hb => by simp [not_wordCharacter_of_blank hb] at hc
  have hstop {t : Text} (ht : t ≠ []) (hall : ∀ c ∈ t, isBlank c = true) (t' : Text) :
      (t ++ t').head?.any isNameCharacter = false := by
    obtain ⟨b, t, rfl⟩ := List.exists_cons_of_ne_nil ht
    exact Bool.eq_false_iff.2 fun hb => by simp [not_blank_of_nameCharacter hb] at hall
  -- name, whitespace and word are the longest runs of their classes on both sides
  have heq : w ++ ([' '] ++ (v ++ rest)) = w' ++ (blanks ++ (word ++ tail)) := heq
  have hone : ∀ c ∈ [' '], isBlank c = true := List.forall_mem_singleton.2 (by decide)
  have hback := congrArg (List.dropWhile isNameCharacter) heq
  rw [Text.dropWhile_run (fun c hc => nameCharacter_of_bare (hw.bare c hc)) (hstop (List.cons_ne_nil _ _) hone _),
    Text.dropWhile_run hw' (hstop hne hblanks _)] at hback
  have hwords := congrArg (List.dropWhile isBlank) hback
  rw [Text.dropWhile_run hone hblank, Text.dropWhile_run hblanks hstart] at hwords
  have hword := congrArg (List.takeWhile isWordCharacter) hwords
  rw [Text.takeWhile_run (fun c hc => wordCharacter_of_bare (hv c hc)) hrest, takeWhile_numeric hu hfold hlead] at hword
  subst hword
  rcases hnot with hnot | hnot
  · exact hnot u hu hfold
  · rw [List.append_cancel_left hwords] at hnot
    exact hnot hlead

end SerialColumn

end DialectBridge
