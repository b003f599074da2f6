import DialectBridge.Proofs.Types.LaterTypes

/-!
# Changes behind a new placeholder

Whether a bare word is a type depends on what stands around it. Behind a new placeholder that changes for
the first thing alone, and only if it stood directly behind an opening parenthesis or a comma
(`changes_later`, `length_changes_lt`).
-/

namespace DialectBridge

open Masked

/-! ## Places of names -/

/-- What stands in front of a word shows the same about it. -/
structure SameEnd (before before' : Text) : Prop where
  head : (Text.trimStart before).head? = (Text.trimStart before').head?
  word : wordBefore (Text.trimStart before) = wordBefore (Text.trimStart before')

theorem isNamePlace_congr {before before' after after' : Text} (h : SameEnd before before')
    (hafter : (Text.trimStart after).head? = (Text.trimStart after').head?) :
    isNamePlace before after = isNamePlace before' after' := by
  have hempty (t : Text) : t.isEmpty = t.head?.isNone := by cases t <;> rfl
  unfold isNamePlace
  simp only [hempty (Text.trimStart before), hempty (Text.trimStart before'), h.head, h.word, hafter]

/-- The texts in front of a place end in the same word, or both do not end in one. -/
def SameWord (before before' : Text) : Prop :=
  wordBefore before = wordBefore before'

section

variable {before before' : Text}

theorem wordBefore_cons {c : Char} (h : SameWord before before') :
    wordBefore (c :: before) = wordBefore (c :: before') := by
  have hrun : before.takeWhile (fun c => isAlphanumeric c || c == '_') =
      before'.takeWhile fun c => isAlphanumeric c || c == '_' := List.reverse_inj.1 h
  unfold wordBefore
  rw [List.takeWhile_cons, List.takeWhile_cons, hrun]

theorem wordBefore_mark (t : Text) : wordBefore (mark :: t) = [] := by
  have hmark : (isAlphanumeric mark || mark == '_') = false := by decide +kernel
  rw [wordBefore, List.takeWhile_cons_of_neg (by simp [hmark])]
  rfl

theorem trimStart_cons {c : Char} (hc : isBlank c = false) (t : Text) : Text.trimStart (c :: t) = c :: t :=
  List.dropWhile_cons_of_neg (by simp [hc])

theorem trimStart_blank {c : Char} (hc : isBlank c = true) (t : Text) :
    Text.trimStart (c :: t) = Text.trimStart t :=
  List.dropWhile_cons_of_pos hc

/-- A part behind the texts keeps them alike, and one that is no blank makes them alike. -/
theorem SameWord.push (h : SameWord before before') (p : Part) :
    SameWord (p.text.reverse ++ before) (p.later.text.reverse ++ before') ∧
      (p.isSpace = false ∨ SameEnd before before' →
        SameEnd (p.text.reverse ++ before) (p.later.text.reverse ++ before')) := by
  cases p with
  | code c =>
    have hword := wordBefore_cons (c := c) h
    refine ⟨hword, fun hsolid => ?_⟩
    cases hc : isBlank c with
    | true =>
      obtain ⟨hhead, hend⟩ := hsolid.resolve_left (by simp [Part.isSpace, hc])
      constructor
      · show (Text.trimStart (c :: before)).head? = (Text.trimStart (c :: before')).head?
        rw [trimStart_blank hc, trimStart_blank hc, hhead]
      · show wordBefore (Text.trimStart (c :: before)) = wordBefore (Text.trimStart (c :: before'))
        rw [trimStart_blank hc, trimStart_blank hc, hend]
    | false =>
      constructor
      · show (Text.trimStart (c :: before)).head? = (Text.trimStart (c :: before')).head?
        rw [trimStart_cons hc, trimStart_cons hc]
        rfl
      · show wordBefore (Text.trimStart (c :: before)) = wordBefore (Text.trimStart (c :: before'))
        rwa [trimStart_cons hc, trimStart_cons hc]
  | held n =>
    have hplaceholder (n : Nat) (t : Text) : ∃ u, (placeholder n).reverse ++ t = mark :: u := by
      simp [placeholder]
    have hmark : isBlank mark = false := by decide
    obtain ⟨u, hu⟩ := hplaceholder n before
    obtain ⟨v, hv⟩ := hplaceholder (n + 1) before'
    rw [show (Part.held n).text.reverse ++ before = mark :: u from hu,
      show (Part.held n).later.text.reverse ++ before' = mark :: v from hv]
    refine ⟨?_, fun _ => ⟨?_, ?_⟩⟩
    · rw [SameWord, wordBefore_mark, wordBefore_mark]
    · rw [trimStart_cons hmark, trimStart_cons hmark]
      rfl
    · rw [trimStart_cons hmark, trimStart_cons hmark, wordBefore_mark, wordBefore_mark]

/-- Behind parts that are not blank alone, the texts in front of them do not matter. -/
theorem sameEnd_of_solid (h : SameWord before before') {done : List Part}
    (hdone : ∃ p ∈ done, p.isSpace = false) :
    SameEnd ((render done).reverse ++ before) ((render (done.map Part.later)).reverse ++ before') := by
  have hpush (done : List Part) {before before' : Text} (h : SameWord before before')
      (hsame : (∃ p ∈ done, p.isSpace = false) ∨ SameEnd before before') :
      SameEnd ((render done).reverse ++ before) ((render (done.map Part.later)).reverse ++ before') := by
    induction done generalizing before before' with
    | nil => exact hsame.resolve_left (by simp)
    | cons p done ih =>
      obtain ⟨hword, hend⟩ := h.push p
      rw [List.map_cons, render_cons, render_cons, List.reverse_append, List.reverse_append, List.append_assoc,
        List.append_assoc]
      refine ih hword ?_
      rcases hsame with ⟨q, hq, hsolid⟩ | hsame
      · rcases List.mem_cons.1 hq with rfl | hq
        · exact .inr (hend (.inl hsolid))
        · exact .inl ⟨q, hq, hsolid⟩
      · exact .inr (hend (.inr hsame))
  exact hpush done h (.inl hdone)

theorem head?_trimStart_later (ps : List Part) :
    (Text.trimStart (render ps)).head? = (Text.trimStart (render (ps.map Part.later))).head? := by
  induction ps with
  | nil => rfl
  | cons p ps ih =>
    cases p with
    | held n =>
      have hmark : isBlank mark = false := by decide
      show (Text.trimStart (mark :: (Text.ofNat n ++ [mark] ++ render ps))).head? =
        (Text.trimStart (mark :: (Text.ofNat (n + 1) ++ [mark] ++ render (ps.map Part.later)))).head?
      rw [trimStart_cons hmark, trimStart_cons hmark, List.head?_cons, List.head?_cons]
    | code c =>
      show (Text.trimStart (c :: render ps)).head? = (Text.trimStart (c :: render (ps.map Part.later))).head?
      cases hc : isBlank c with
      | true => rw [trimStart_blank hc, trimStart_blank hc, ih]
      | false =>
        rw [trimStart_cons hc, trimStart_cons hc]
        rfl

end

namespace TypeTable

/-! ## Single matches -/

/-- The match has no arguments, its own or those of its source. -/
def isBareMatch (m : Match RuleMatch) : Bool :=
  m.value.arguments.isNone && !m.value.rule.sourceHasArguments

theorem change?_eq (m : Match RuleMatch) :
    change? m = if isBareMatch m && isNamePlace m.before m.after then none else some ⟨m.text, m.value.written⟩ := rfl

/-- The placeholders in a size that is carried over. -/
def carriedNumbers (m : Match RuleMatch) : List Nat :=
  if m.value.rule.keepsSize then numbers (parts (m.value.arguments.getD [])) else []

section

variable {types : TypeTable} {qs : List Part} {m m' : RuleMatch}

/-- The same text is written for the same match but for what is filled into its arguments, if no blank is filled into a
size that is carried over. -/
theorem written_filled {stops : List Char} {f : Nat → Text} (hstops : AreStops stops)
    (hunit : ∀ c ∈ stops, lengthUnit.avoids c = true) (hregular : m.rule.isRegular = true) (hrule : m'.rule = m.rule)
    (harguments : (m.arguments = none ∧ m'.arguments = none) ∨ ∃ as, Fills stops f as ∧ numbers as = numbers qs ∧
      m.arguments = some (render as) ∧ m'.arguments = some (spell f as)) {b x a : Text}
    (hblank : ∀ n ∈ carriedNumbers ⟨b, x, a, m⟩, ∀ c ∈ f n, isBlank c = false) :
    ∃ ws, Sound ws ∧ numbers ws ⊆ numbers qs ∧ m.written = render ws ∧ m'.written = spell f ws := by
  have htarget : Sound (m.rule.target.map .code) := by
    simp only [TypeRule.isRegular, Bool.and_eq_true, Bool.not_eq_true'] at hregular
    simpa [Sound] using hregular.2
  have hplain : ∃ ws, Sound ws ∧ numbers ws ⊆ numbers qs ∧ m.rule.target = render ws ∧ m.rule.target = spell f ws :=
    ⟨_, htarget, by simp, (render_map_code _).symm, (spell_map_code f _).symm⟩
  unfold RuleMatch.written
  rw [hrule]
  rcases harguments with ⟨hnone, hnone'⟩ | ⟨as, has, hnumbers, hsome, hsome'⟩
  · rw [hnone, hnone']
    exact hplain
  · rw [hsome, hsome']
    cases hkeeps : m.rule.keepsSize with
    | false => exact hplain
    | true =>
      have hcarries (n : Nat) (hn : .held n ∈ as) : n ∈ carriedNumbers ⟨b, x, a, m⟩ := by
        rw [carriedNumbers, if_pos hkeeps, hsome, Option.getD_some, parts_render has.sound]
        exact mem_numbers.2 hn
      obtain ⟨ws, hws, hsame, hcarried, hcarried'⟩ :=
        carriedSize_filled hstops hunit has fun n hn => hblank n (hcarries n hn)
      refine ⟨m.rule.target.map .code ++ ws, sound_append.2 ⟨htarget, hws⟩, ?_, ?_, ?_⟩
      · rw [numbers_append, numbers_map_code, List.nil_append, hsame, hnumbers]
        exact List.Subset.refl _
      · simp [render_map_code, hcarried]
      · simp [hcarried']

/-- The same text is written for the same match, up to the numbers of placeholders. -/
theorem written_later (ht : types.IsSteady) (h : types.SameMatch qs m m') :
    ∃ ws, Sound ws ∧ numbers ws ⊆ numbers qs ∧ m.written = render ws ∧
      m'.written = render (ws.map Part.later) := by
  have hunit : lengthUnit.avoids mark = true := by decide
  have harguments : (m.arguments = none ∧ m'.arguments = none) ∨ ∃ as, Fills [mark] laterPlaceholder as ∧
      numbers as = numbers qs ∧ m.arguments = some (render as) ∧ m'.arguments = some (spell laterPlaceholder as) := by
    refine h.arguments.imp_right ?_
    rintro ⟨as, has, hnumbers, hm, hm'⟩
    exact ⟨as, fills_later.2 has, hnumbers, hm, by rw [hm', spell_later]⟩
  obtain ⟨ws, hws, hnumbers, hwritten, hwritten'⟩ :=
    written_filled (b := []) (x := []) (a := []) areStops_mark (List.forall_mem_singleton.2 hunit)
      (ht.regular _ h.mem) h.rule harguments fun n _ c hc => blank_laterPlaceholder hc
  exact ⟨ws, hws, hnumbers, hwritten, hwritten'.trans (spell_later ws)⟩

/-- Whether a match is bare depends on its rule, and on whether it has arguments. -/
theorem isBareMatch_congr (hrule : m'.rule = m.rule) (harguments : m'.arguments.isNone = m.arguments.isNone)
    (b x a b' x' a' : Text) : isBareMatch ⟨b', x', a', m'⟩ = isBareMatch ⟨b, x, a, m⟩ := by
  rw [isBareMatch, isBareMatch, hrule, harguments]

theorem isBareMatch_later (h : types.SameMatch qs m m') (b x a b' x' a' : Text) :
    isBareMatch ⟨b', x', a', m'⟩ = isBareMatch ⟨b, x, a, m⟩ := by
  refine isBareMatch_congr h.rule ?_ b x a b' x' a'
  rcases h.arguments with ⟨hnone, hnone'⟩ | ⟨as, -, -, hsome, hsome'⟩
  · rw [hnone, hnone']
  · rw [hsome, hsome']
    rfl

/-- A change with its texts as parts. -/
structure PartChange where
  found : List Part
  written : List Part

/-- The change with these numbers of placeholders. -/
def PartChange.now (u : PartChange) : TypeChange :=
  ⟨render u.found, render u.written⟩

/-- The change with the next numbers. -/
def PartChange.next (u : PartChange) : TypeChange :=
  ⟨render (u.found.map Part.later), render (u.written.map Part.later)⟩

/-- The change is made of whole parts, and its placeholders are among those of `ps`. -/
structure PartChange.Within (u : PartChange) (ps : List Part) : Prop where
  found : Sound u.found ∧ numbers u.found ⊆ numbers ps
  written : Sound u.written ∧ numbers u.written ⊆ numbers ps

/-- In the same place the same match makes the same change. -/
theorem change_later (ht : types.IsSteady) (h : types.SameMatch qs m m') (hqs : Sound qs)
    {before before' after after' : Text}
    (hplace : isBareMatch ⟨before, render qs, after, m⟩ = true →
      isNamePlace before after = isNamePlace before' after') :
    (change? ⟨before, render qs, after, m⟩ = none ∧
      change? ⟨before', render (qs.map Part.later), after', m'⟩ = none) ∨
    ∃ u : PartChange, u.Within qs ∧ change? ⟨before, render qs, after, m⟩ = some u.now ∧
      change? ⟨before', render (qs.map Part.later), after', m'⟩ = some u.next := by
  obtain ⟨ws, hws, hnumbers, hwritten, hwritten'⟩ := written_later ht h
  rw [change?_eq, change?_eq, isBareMatch_later h before (render qs) after]
  simp only [hwritten, hwritten']
  by_cases hbare : isBareMatch ⟨before, render qs, after, m⟩ = true
  · rw [← hplace hbare]
    split
    · exact .inl ⟨rfl, rfl⟩
    · exact .inr ⟨⟨qs, ws⟩, ⟨⟨hqs, List.Subset.refl _⟩, hws, hnumbers⟩, rfl, rfl⟩
  · rw [if_neg (by simp [hbare]), if_neg (by simp [hbare])]
    exact .inr ⟨⟨qs, ws⟩, ⟨⟨hqs, List.Subset.refl _⟩, hws, hnumbers⟩, rfl, rfl⟩

end

/-! ## Whole texts -/

/-- The changes that the matches of a cut text make. -/
def changesOf (cs : List (Cut RuleMatch)) : List TypeChange :=
  (cs.filterMap Cut.match?).filterMap change?

/-- Only the place makes the match a name: it is bare, blanks alone stand between it and the text in front
of them, and no point follows. -/
structure NamedAt (before : Text) (m : Match RuleMatch) : Prop where
  bare : isBareMatch m = true
  first : ∃ blanks, m.before = blanks ++ before ∧ ∀ c ∈ blanks, isBlank c = true
  follows : (Text.trimStart m.after).head? ≠ some '.'

theorem namedAt_iff {before : Text} {m : Match RuleMatch} :
    NamedAt before m ↔ isBareMatch m = true ∧ (before.isSuffixOf m.before = true ∧
      (m.before.take (m.before.length - before.length)).all isBlank = true) ∧
      (Text.trimStart m.after).head? ≠ some '.' := by
  have hfirst : (∃ blanks, m.before = blanks ++ before ∧ ∀ c ∈ blanks, isBlank c = true) ↔
      before.isSuffixOf m.before = true ∧ (m.before.take (m.before.length - before.length)).all isBlank = true := by
    rw [List.isSuffixOf_iff_suffix, List.all_eq_true]
    constructor
    · rintro ⟨blanks, hbefore, hblanks⟩
      rw [hbefore]
      exact ⟨List.suffix_append _ _, by simpa using hblanks⟩
    · rintro ⟨⟨blanks, hbefore⟩, hblanks⟩
      rw [← hbefore] at hblanks ⊢
      exact ⟨blanks, rfl, by simpa using hblanks⟩
  rw [← hfirst]
  exact ⟨fun h => ⟨h.bare, h.first, h.follows⟩, fun h => ⟨h.1, h.2.1, h.2.2⟩⟩

instance (before : Text) (m : Match RuleMatch) : Decidable (NamedAt before m) :=
  decidable_of_iff _ namedAt_iff.symm

/-- The cuts `cs` and `cs'` of the parts `ps` with these numbers and with the next ones are converted to
the same texts with the same changes, up to these numbers. -/
structure ConvertsAlike (ps : List Part) (cs cs' : List (Cut RuleMatch)) (ws : List Part)
    (us : List PartChange) : Prop where
  sound : Sound ws
  placeholders : numbers ws ⊆ numbers ps
  text : cs.flatMap convertedPiece = render ws
  text' : cs'.flatMap convertedPiece = render (ws.map Part.later)
  changes : changesOf cs = us.map PartChange.now
  changes' : changesOf cs' = us.map PartChange.next
  within : ∀ u ∈ us, u.Within ps

/-- In front of the first text stands a parenthesis or a comma, in front of the second one a placeholder. -/
structure CommentBetween (before before' : Text) : Prop where
  sign : (Text.trimStart before).head? = some '(' ∨ (Text.trimStart before).head? = some ','
  mark : (Text.trimStart before').head? = some mark
  word : SameWord before before'

section

variable {types : TypeTable} {before before' : Text}

theorem trimStart_blanks {blanks : Text} (h : ∀ c ∈ blanks, isBlank c = true) (t : Text) :
    Text.trimStart (blanks ++ t) = Text.trimStart t := by
  induction blanks with
  | nil => rfl
  | cons c blanks ih =>
    obtain ⟨hc, h⟩ := List.forall_mem_cons.1 h
    rw [List.cons_append, trimStart_blank hc, ih h]

/-- Directly behind the sign everything is in the place of a name, directly behind the placeholder only
what a point follows. -/
theorem CommentBetween.namePlace_iff (h : CommentBetween before before') {blanks blanks' : Text}
    (hblanks : ∀ c ∈ blanks, isBlank c = true) (hblanks' : ∀ c ∈ blanks', isBlank c = true) (after : Text) :
    isNamePlace (blanks ++ before) after = true ∧
      (isNamePlace (blanks' ++ before') after = true ↔ (Text.trimStart after).head? = some '.') := by
  unfold isNamePlace
  rw [trimStart_blanks hblanks, trimStart_blanks hblanks']
  constructor
  · rcases h.sign with hsign | hsign <;> simp [hsign]
  · obtain ⟨t, ht⟩ := List.head?_eq_some_iff.1 h.mark
    simp only [ht, wordBefore_mark, List.head?_cons, Option.some.injEq]
    have hdot : Masked.mark ≠ '.' := by decide
    have hopen : Masked.mark ≠ '(' := by decide
    have hcomma : Masked.mark ≠ ',' := by decide
    simp [hdot, hopen, hcomma]

theorem blank_reverse_render {done : List Part} (h : ∀ p ∈ done, p.isSpace = true) :
    ∀ c ∈ (render done).reverse, isBlank c = true :=
  fun c hc => blank_render_iff.2 h c (List.mem_reverse.1 hc)

/-- Behind the sign a match is named by its place alone, or what makes it a name is there behind the
placeholder too. -/
theorem CommentBetween.places (h : CommentBetween before before') (done rs : List Part) (x : Text)
    (m : RuleMatch) (hbare : isBareMatch ⟨(render done).reverse ++ before, x, render rs, m⟩ = true) :
    NamedAt before ⟨(render done).reverse ++ before, x, render rs, m⟩ ∨
      isNamePlace ((render done).reverse ++ before) (render rs) =
        isNamePlace ((render (done.map Part.later)).reverse ++ before') (render (rs.map Part.later)) := by
  by_cases hsolid : ∃ p ∈ done, p.isSpace = false
  · exact .inr (isNamePlace_congr (sameEnd_of_solid h.word hsolid) (head?_trimStart_later rs))
  · have hspace : ∀ p ∈ done, p.isSpace = true := by simpa using hsolid
    have hblanks := blank_reverse_render hspace
    have hblanks' : ∀ c ∈ (render (done.map Part.later)).reverse, isBlank c = true :=
      blank_reverse_render (by simpa using hspace)
    by_cases hdot : (Text.trimStart (render rs)).head? = some '.'
    · refine .inr ?_
      rw [(h.namePlace_iff hblanks hblanks' (render rs)).1]
      rw [head?_trimStart_later] at hdot
      exact ((h.namePlace_iff hblanks hblanks' (render (rs.map Part.later))).2.2 hdot).symm
    · exact .inl ⟨hbare, ⟨_, rfl, hblanks⟩, hdot⟩

theorem PartChange.Within.mono {u : PartChange} {ps qs : List Part} (h : u.Within ps)
    (hsub : numbers ps ⊆ numbers qs) : u.Within qs :=
  ⟨⟨h.found.1, List.Subset.trans h.found.2 hsub⟩, h.written.1, List.Subset.trans h.written.2 hsub⟩

theorem changesOf_append (cs ds : List (Cut RuleMatch)) :
    changesOf (cs ++ ds) = changesOf cs ++ changesOf ds := by
  simp [changesOf]

theorem changesOf_found (m : Match RuleMatch) (cs : List (Cut RuleMatch)) :
    changesOf (.found m :: cs) = (change? m).toList ++ changesOf cs := by
  cases hm : change? m <;> simp [changesOf, Cut.match?, hm]

theorem mem_changesOf {c : TypeChange} {cs : List (Cut RuleMatch)} :
    c ∈ changesOf cs ↔ ∃ m, Cut.found m ∈ cs ∧ change? m = some c := by
  rw [changesOf, List.mem_filterMap]
  exact exists_congr fun m => and_congr_left fun _ => Cut.mem_filterMap_match?

/-- A change says what was found. -/
theorem found_of_change {m : Match RuleMatch} {c : TypeChange} (h : change? m = some c) : c.found = m.text := by
  rw [change?_eq] at h
  split at h
  · cases h
  · rw [← Option.some.inj h]

theorem changesOf_copied (t : Text) (cs : List (Cut RuleMatch)) :
    changesOf (t.map .copied ++ cs) = changesOf cs := by
  induction t with
  | nil => rfl
  | cons c t ih => exact ih

theorem flatMap_copied (t : Text) : (t.map Cut.copied).flatMap convertedPiece = t :=
  Cut.flatMap_copied (fun _ => rfl) t

theorem ConvertsAlike.append {ps qs : List Part} {cs cs' ds ds' : List (Cut RuleMatch)} {ws vs : List Part}
    {us ts : List PartChange} (h : ConvertsAlike ps cs cs' ws us) (h' : ConvertsAlike qs ds ds' vs ts) :
    ConvertsAlike (ps ++ qs) (cs ++ ds) (cs' ++ ds') (ws ++ vs) (us ++ ts) := by
  have hleft : numbers ps ⊆ numbers (ps ++ qs) := by simp
  have hright : numbers qs ⊆ numbers (ps ++ qs) := by simp
  constructor
  · exact sound_append.2 ⟨h.sound, h'.sound⟩
  · rw [numbers_append]
    exact List.append_subset.2 ⟨List.Subset.trans h.placeholders hleft, List.Subset.trans h'.placeholders hright⟩
  · rw [List.flatMap_append, h.text, h'.text, render_append]
  · rw [List.flatMap_append, h.text', h'.text', List.map_append, render_append]
  · rw [changesOf_append, h.changes, h'.changes, List.map_append]
  · rw [changesOf_append, h.changes', h'.changes', List.map_append]
  · intro u hu
    rcases List.mem_append.1 hu with hu | hu
    · exact (h.within u hu).mono hleft
    · exact (h'.within u hu).mono hright

/-- What is copied is converted to itself. -/
theorem convertsAlike_kept {p : Part} (hp : p ≠ .code Masked.mark) :
    ConvertsAlike [p] (p.text.map .copied) (p.later.text.map .copied) [p] [] := by
  have hchanges (t : Text) : changesOf (t.map .copied) = [] := by
    rw [← List.append_nil (t.map _), changesOf_copied]
    rfl
  constructor
  · simpa [Sound, eq_comm] using hp
  · exact List.Subset.refl _
  · simpa using flatMap_copied p.text
  · simpa using flatMap_copied p.later.text
  · exact hchanges p.text
  · exact hchanges p.later.text
  · simp

/-- A match in the same place is converted to the same text. -/
theorem convertsAlike_found (ht : types.IsSteady) {qs : List Part} {m m' : RuleMatch}
    (h : types.SameMatch qs m m') (hqs : Sound qs) {b b' a a' : Text}
    (hplace : isBareMatch ⟨b, render qs, a, m⟩ = true → isNamePlace b a = isNamePlace b' a') :
    ∃ ws us, ConvertsAlike qs [.found ⟨b, render qs, a, m⟩]
      [.found ⟨b', render (qs.map Part.later), a', m'⟩] ws us := by
  have hsingle (n : Match RuleMatch) : [Cut.found n].flatMap convertedPiece =
      ((change? n).map TypeChange.written).getD n.text ∧ changesOf [.found n] = (change? n).toList := by
    refine ⟨by simp [convertedPiece], ?_⟩
    rw [changesOf_found]
    exact List.append_nil _
  rcases change_later ht h hqs hplace with ⟨hnone, hnone'⟩ | ⟨u, hu, hsome, hsome'⟩
  · refine ⟨qs, [], hqs, List.Subset.refl _, ?_, ?_, ?_, ?_, by simp⟩
    · rw [(hsingle _).1, hnone]
      rfl
    · rw [(hsingle _).1, hnone']
      rfl
    · rw [(hsingle _).2, hnone]
      rfl
    · rw [(hsingle _).2, hnone']
      rfl
  · refine ⟨u.written, [u], hu.written.1, hu.written.2, ?_, ?_, ?_, ?_, by simpa using hu⟩
    · rw [(hsingle _).1, hsome]
      rfl
    · rw [(hsingle _).1, hsome']
      rfl
    · rw [(hsingle _).2, hsome]
      rfl
    · rw [(hsingle _).2, hsome']
      rfl

/-- Unless the first thing behind the sign is named by its place alone, the same is converted behind the
placeholder. -/
theorem changes_later (ht : types.IsSteady) (h : CommentBetween before before') {done ps : List Part}
    {cs cs' : List (Cut RuleMatch)} (hcuts : SameCuts types.SameMatch before before' done ps cs cs')
    (hps : Sound ps) (hnamed : ∀ m, Cut.found m ∈ cs → ¬ NamedAt before m) :
    ∃ ws us, ConvertsAlike ps cs cs' ws us := by
  induction hcuts with
  | nil done => exact ⟨[], [], List.not_mem_nil, by simp, rfl, rfl, rfl, rfl, by simp⟩
  | kept p hcuts ih =>
    obtain ⟨hp, hps⟩ := sound_cons.1 hps
    obtain ⟨ws, us, halike⟩ := ih hps fun m hm => hnamed m (List.mem_append_right _ hm)
    exact ⟨_, _, (convertsAlike_kept hp).append halike⟩
  | @found done qs rs m m' cs cs' hm hcuts ih =>
    obtain ⟨hqs, hrs⟩ := sound_append.1 hps
    obtain ⟨ws, us, halike⟩ := ih hrs fun m hm => hnamed m (List.mem_cons_of_mem _ hm)
    have hplace (hbare : isBareMatch ⟨(render done).reverse ++ before, render qs, render rs, m⟩ = true) :=
      (h.places done rs (render qs) m hbare).resolve_left (hnamed _ List.mem_cons_self)
    obtain ⟨vs, ts, hfound⟩ := convertsAlike_found ht hm hqs hplace
    exact ⟨_, _, hfound.append halike⟩

/-- What a match becomes behind the placeholder is a change if it was one, and what was named by its
place alone becomes one. -/
theorem CommentBetween.isSome_later (h : CommentBetween before before') (done rs : List Part)
    {qs : List Part} {m m' : RuleMatch} (hm : types.SameMatch qs m m') :
    let n : Match RuleMatch := ⟨(render done).reverse ++ before, render qs, render rs, m⟩
    let n' : Match RuleMatch := ⟨(render (done.map Part.later)).reverse ++ before',
      render (qs.map Part.later), render (rs.map Part.later), m'⟩
    ((change? n).isSome = true → (change? n').isSome = true) ∧
      (NamedAt before n → change? n = none ∧ (change? n').isSome = true) := by
  intro n n'
  have hbare : isBareMatch n' = isBareMatch n := isBareMatch_later hm _ _ _ _ _ _
  have hsome (n : Match RuleMatch) : (change? n).isSome = true ↔
      ¬ (isBareMatch n = true ∧ isNamePlace n.before n.after = true) := by
    rw [change?_eq, ← Bool.and_eq_true]
    split
    · next hname => simp [hname]
    · next hname => simp [hname]
  have hspaces (hdone : ∀ p ∈ done, p.isSpace = true) :=
    have hdone' : ∀ p ∈ done.map Part.later, p.isSpace = true := by simpa using hdone
    h.namePlace_iff (blank_reverse_render hdone) (blank_reverse_render hdone')
  constructor
  · rw [hsome, hsome, hbare]
    refine fun hn hn' => hn ⟨hn'.1, ?_⟩
    by_cases hsolid : ∃ p ∈ done, p.isSpace = false
    · exact (isNamePlace_congr (sameEnd_of_solid h.word hsolid) (head?_trimStart_later rs)).trans hn'.2
    · exact (hspaces (by simpa using hsolid) _).1
  · intro hnamed
    obtain ⟨blanks, hbefore, hblanks⟩ := hnamed.first
    obtain rfl := List.append_cancel_right hbefore
    have hdone : ∀ p ∈ done, p.isSpace = true :=
      blank_render_iff.1 fun c hc => hblanks c (List.mem_reverse.2 hc)
    have hplace : isNamePlace n.before n.after = true := (hspaces hdone _).1
    constructor
    · rw [← Option.not_isSome_iff_eq_none, hsome, Decidable.not_not]
      exact ⟨hnamed.bare, hplace⟩
    · rw [hsome]
      rintro ⟨-, hplace'⟩
      have hdot := (hspaces hdone (render (rs.map Part.later))).2.1 hplace'
      rw [← head?_trimStart_later] at hdot
      exact hnamed.follows hdot

/-- If the first thing behind the sign is named by its place alone, more changes are made behind the
placeholder. -/
theorem length_changes_lt (h : CommentBetween before before') {done ps : List Part}
    {cs cs' : List (Cut RuleMatch)} (hcuts : SameCuts types.SameMatch before before' done ps cs cs') :
    (changesOf cs).length ≤ (changesOf cs').length ∧
      ((∃ m, Cut.found m ∈ cs ∧ NamedAt before m) → (changesOf cs).length < (changesOf cs').length) := by
  induction hcuts with
  | nil done => exact ⟨Nat.le_refl _, by simp⟩
  | kept p hcuts ih =>
    rw [changesOf_copied, changesOf_copied]
    refine ih.imp_right fun ih => ?_
    rintro ⟨m, hm, hnamed⟩
    refine ih ⟨m, (List.mem_append.1 hm).resolve_left fun hm => ?_, hnamed⟩
    obtain ⟨c, -, hc⟩ := List.mem_map.1 hm
    cases hc
  | @found done qs rs m m' cs cs' hm hcuts ih =>
    obtain ⟨hkeeps, hgains⟩ := h.isSome_later done rs hm
    rw [changesOf_found, changesOf_found, List.length_append, List.length_append]
    obtain ⟨hle, hlt⟩ := ih
    have hone : ∀ o o' : Option TypeChange, (o.isSome = true → o'.isSome = true) →
        o.toList.length ≤ o'.toList.length := by
      intro o o' ho
      cases o with
      | none => exact Nat.zero_le _
      | some u =>
        obtain ⟨v, rfl⟩ := Option.isSome_iff_exists.1 (ho rfl)
        exact Nat.le_refl _
    have hfirst := hone _ _ hkeeps
    refine ⟨by omega, ?_⟩
    rintro ⟨n, hn, hnamed⟩
    rcases List.mem_cons.1 hn with heq | hn
    · cases heq
      obtain ⟨hnone, hsome⟩ := hgains hnamed
      obtain ⟨v, hv⟩ := Option.isSome_iff_exists.1 hsome
      rw [hnone, hv]
      simp only [Option.toList_none, Option.toList_some, List.length_nil, List.length_singleton]
      omega
    · have := hlt ⟨n, hn, hnamed⟩
      omega

end

end TypeTable

end DialectBridge
