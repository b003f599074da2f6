import DialectBridge.Proofs.Text.Trim
import DialectBridge.Proofs.Types.SpacedSizes

/-!
# Types that stand alone

A type that stands alone, in any letter case and with whitespace around its signs, is taken as a whole by the first
rule for its word that accepts its size (`exists_rule_of_list`).
-/

namespace DialectBridge

open Text

/-- The text with whitespace around it, perhaps none. -/
def IsSpaced (core t : Text) : Prop :=
  ∃ g g', IsGap g ∧ IsGap g' ∧ t = g ++ core ++ g'

/-- What can stand behind the word of a type: nothing, or a list in parentheses. -/
inductive IsArguments : Text → Prop
  | none : IsArguments []
  | list {g z : Text} (hg : IsGap g) (hopen : '(' ∉ z) (hclose : ')' ∉ z) : IsArguments (listText g z)

theorem IsArguments.head?_any {a : Text} (h : IsArguments a) : a.head?.any isWordCharacter = false := by
  cases h with
  | none => rfl
  | list hg => exact head?_listText hg _

theorem IsArguments.head?_trimStart {a : Text} (h : IsArguments a) :
    (trimStart a).head?.any isWordCharacter = false := by
  cases h with
  | none => rfl
  | @list g z hg =>
    have htrim : trimStart (listText g z) = '(' :: (z ++ [')']) :=
      dropWhile_run hg (show isBlank '(' = false by decide)
    rw [htrim]
    exact (by decide +kernel : isWordCharacter '(' = false)

namespace TypeRule

open Pattern

variable {r : TypeRule} {w a : Text}

/-- Arguments behind the word are taken as a whole. -/
theorem end_of_anyArguments (ha : IsArguments a) {s t : Site} (hs : s.after = a) (h : Reaches anyArguments s t) :
    t.after = [] := by
  obtain ⟨b, after, captures⟩ := s
  subst hs
  cases ha with
  | none =>
    obtain ⟨x, hx, -⟩ := closing_anyArguments h
    simp at hx
  | list hg _ hclose => rw [end_of_closing closing_anyArguments hg hclose h]

/-- A rule of several words finds none behind the first one. -/
theorem tryRule_words (hshape : r.word ≠ [] ∧ r.Shape) (hmulti : r.isMultiWord = true)
    (hw : ∀ c ∈ w, isWordCharacter c = true) (ha : IsArguments a) : TypeTable.tryRule [] (w ++ a) r = none := by
  obtain ⟨hspelled, hrest, hform, hsource⟩ := words_of_isMultiWord hshape.2 hmulti
  rw [TypeTable.tryRule, Pattern.matcher, run_of_not_reaches]
  · rfl
  intro t h
  have hfold : fold ((w ++ a).takeWhile isWordCharacter) = fold r.word := (reaches_word_of_shape hshape.1 hshape.2 h).2
  rw [takeWhile_run hw ha.head?_any] at hfold
  rw [pattern_words hspelled hform hsource] at h
  obtain ⟨s₁, ⟨-, rfl⟩, s₂, htext, s₃, ⟨-, rfl⟩, s₄, harguments, s₅, hspace, s₆, hwords, -⟩ := h
  -- the rule takes the word, so what is left are the arguments or nothing
  obtain ⟨w', hw', -, hfold'⟩ := reaches_text htext
  have hlength : w'.length = w.length := by
    have := congrArg List.length (hfold'.trans hfold.symm)
    simpa [fold] using this
  obtain ⟨rfl, hafter⟩ := List.append_inj hw' hlength.symm
  -- there, whitespace and another word are missing
  obtain ⟨u, ⟨d, rest, hd, hblank, rfl⟩, blanks, rest', hblanks, hall, rfl⟩ := hspace
  obtain ⟨c, tail, htail⟩ := List.exists_cons_of_ne_nil hrest
  have hc : isBare c = true := by
    have := head?_of_spelled hspelled hrest
    simpa [htail] using this
  have hparts : sourceParts false r.otherWords = letter c :: sourceParts false tail := by
    rw [htail, sourceParts_bare hc]
  rw [sourcePattern, hparts] at hwords
  obtain ⟨v, ⟨e, rest'', he, hsame, -⟩, -⟩ := hwords
  have hword : isWordCharacter e = true := wordCharacter_of_sameLetter hc hsame
  rcases harguments with ⟨u, hany, rfl⟩ | rfl
  · have hend := end_of_anyArguments ha hafter.symm hany
    simp [hend] at hd
  · have htrim : trimStart a = e :: rest'' := by
      have hae : a = (d :: blanks) ++ e :: rest'' := by
        simp only at hblanks he
        rw [hafter, hd, hblanks, he]
        rfl
      have hsolid : isBlank e = false := by
        rw [← Bool.not_eq_true]
        intro hblank
        simp [not_wordCharacter_of_blank hblank] at hword
      rw [trimStart, hae]
      exact dropWhile_run (List.forall_mem_cons.2 ⟨hblank, hall⟩) hsolid
    have := ha.head?_trimStart
    simp [htrim, hword] at this

/-- Where nothing stands behind the word, a rule that needs no arguments takes the word. -/
theorem tryRule_word (hshape : r.word ≠ [] ∧ r.Shape) (hone : r.isMultiWord = false)
    (hbare : r.sourceHasArguments = false) (hform : r.argumentsOptional = true) (hw : fold w = fold r.word) :
    TypeTable.tryRule [] (w ++ []) r = .some (w ++ [], ⟨r, none⟩) := by
  have hrun : run r.middle ⟨w.reverse, [], []⟩ .some = .some ⟨w.reverse, [], []⟩ := by
    have hnone (next : Site → Option Site) : run anyArguments ⟨w.reverse, [], []⟩ next = none :=
      run_paren_none (by simp [trimStart]) _
    have hoptional : run (optional (capture 1 anyArguments)) ⟨w.reverse, [], []⟩ .some =
        .some ⟨w.reverse, [], []⟩ := by
      show (run anyArguments _ _ <|> run empty _ _) = _
      rw [hnone]
      rfl
    rw [middle, if_neg (by simp [hbare]), argumentsPattern_of_optional hbare hform]
    exact hoptional
  exact tryRule_of_run hshape hone hw rfl hrun

theorem needs_no_arguments (hshape : r.Shape) (h : r.Accepts w []) :
    r.sourceHasArguments = false ∧ r.argumentsOptional = true := by
  obtain ⟨t, ht⟩ := h
  have hnot {q : Pattern} (hq : Closing q) {s u : Site} (hs : s.after = []) : ¬ Reaches q s u := fun h => by
    obtain ⟨x, hx, -⟩ := hq h
    simp [hs] at hx
  cases hbare : r.sourceHasArguments with
  | true =>
    obtain ⟨y, hy, hsource⟩ := source_of_arguments hshape hbare
    rw [middle_of_arguments hbare hsource] at ht
    exact absurd ht (hnot (sizePattern_spec hy).1 rfl)
  | false =>
    rw [middle, if_neg (by simp [hbare])] at ht
    rcases argumentsPattern_cases hbare with ⟨hoptional, -⟩ | ⟨-, -, hpattern⟩ | ⟨-, -, hpattern⟩
    · exact ⟨rfl, hoptional⟩
    · rw [hpattern] at ht
      obtain ⟨u, hu, -⟩ := ht
      exact absurd hu (hnot closing_scaleArguments rfl)
    · rw [hpattern] at ht
      obtain ⟨u, hu, -⟩ := ht
      exact absurd hu (hnot closing_anyArguments rfl)

end TypeRule

namespace TypeTable

variable {types : TypeTable} {r : TypeRule} {w a g z : Text}

/-! ## The rule that decides -/

/-- At a place where a rule matches, the table takes this rule or one that is tried before it. -/
theorem exists_first_rule {before after : Text} {rules : List TypeRule} (hr : r ∈ rules)
    (h : (tryRule before after r).isSome = true) :
    ∃ s ∈ rules, (s = r ∨ s ∈ rules.takeWhile (· != r)) ∧ (tryRule before after s).isSome = true ∧
      rules.findSome? (tryRule before after) = tryRule before after s := by
  induction rules with
  | nil => cases hr
  | cons u rules ih =>
    rw [List.findSome?_cons]
    cases hu : tryRule before after u with
    | some found =>
      refine ⟨u, List.mem_cons_self, ?_, by rw [hu]; rfl, hu.symm⟩
      by_cases heq : u = r
      · exact .inl heq
      · exact .inr (by rw [List.takeWhile_cons_of_pos (by simpa using heq)]; exact List.mem_cons_self)
    | none =>
      have hne : u ≠ r := by
        rintro rfl
        rw [hu] at h
        cases h
      obtain ⟨s, hs, hplace, hsome, hfirst⟩ := ih ((List.mem_cons.1 hr).resolve_left hne.symm)
      refine ⟨s, List.mem_cons_of_mem u hs, hplace.imp_right fun hbefore => ?_, hsome, hfirst⟩
      rw [List.takeWhile_cons_of_pos (by simpa using hne)]
      exact List.mem_cons_of_mem u hbefore

/-- Where a type of one word stands alone, only rules for this word match. -/
theorem accepts_of_tryRule (ht : types.IsOrderly) (hr : r ∈ types.rules) {s : TypeRule} (hs : s ∈ types.rules)
    (hw : fold w = fold r.word) (ha : IsArguments a) (h : (tryRule [] (w ++ a) s).isSome = true) :
    s.word = r.word ∧ s.isMultiWord = false ∧ s.Accepts w a := by
  have hshape := ht.shape hs
  have hword := wordCharacter_of_fold r.bare_word hw
  have hfold : s.word = r.word := by
    refine Decidable.byContradiction fun hne => ?_
    rw [tryRule, TypeRule.matcher_none_of_word hshape (.inr fun hfold => hne ?_)] at h
    · cases h
    · rw [takeWhile_run hword ha.head?_any, hw] at hfold
      exact (ht.words r hr s hs hfold).symm
  have hone : s.isMultiWord = false := by
    rw [← Bool.not_eq_true]
    intro hmulti
    rw [TypeRule.tryRule_words hshape hmulti hword ha] at h
    cases h
  refine ⟨hfold, hone, Classical.byContradiction fun hnot => ?_⟩
  rw [TypeRule.tryRule_of_not_accepts hshape hone (hfold ▸ hw) ha.head?_any hnot] at h
  cases h

/-- What a rule writes for a list. -/
def writtenFor (s : TypeRule) (arguments : Text) : Text :=
  RuleMatch.written ⟨s, if s.sourceHasArguments then none else some arguments⟩

/-- A match of the whole text is written for it. -/
theorem convertType_of_matcher (ht : types.IsOrderly) {t : Text} (hne : t ≠ []) {m : RuleMatch}
    (h : types.matcher [] t = some (t, m)) {declared : Text} (htrim : declared.trim = t) :
    types.convertType? declared = some m.written := by
  have hnil : types.matcher t.reverse [] = none :=
    matcher_none_of_word ht (.inr fun s hs hfold => (ht.shape hs).1 (List.map_eq_nil_iff.1 hfold.symm))
  have hcut : cut types.matcher t = [.found ⟨[], t, [], m⟩] := by
    have hsome : Cut.pieces types.matcher 0 true [] (t ++ []) = _ := Cut.pieces_some (by rwa [List.append_nil]) hne
    rw [List.append_nil, List.append_nil, Cut.pieces_nil hnil] at hsome
    exact hsome
  have hchange : change? ⟨[], t, [], m⟩ = some ⟨t, m.written⟩ := by
    rw [change?, if_neg (by simp [show isNamePlace [] [] = false by decide +kernel])]
  rw [convertType?, htrim]
  simp [convertText, replaceMatches, allMatches, hcut, Cut.match?, hchange]

theorem trim_spaced {t x : Text} (hx : IsSpaced t x) (hfirst : t.head?.any isWordCharacter = true)
    (hlast : t.getLast?.any isBlank = false) : x.trim = t := by
  obtain ⟨g, g', hg, hg', rfl⟩ := hx
  have hhead : (t ++ g').head?.any isBlank = false := by
    cases t with
    | nil => cases hfirst
    | cons c t =>
      refine Bool.eq_false_iff.2 fun hblank => ?_
      have hc : isWordCharacter c = true := hfirst
      rw [not_wordCharacter_of_blank hblank] at hc
      cases hc
  have hstart : trimStart (g ++ t ++ g') = t ++ g' := by
    rw [List.append_assoc]
    exact dropWhile_run hg hhead
  rw [trim, hstart, trimEnd_append_blank t hg']
  exact trimEnd_eq_self.2 hlast

theorem head?_word (hne : r.word ≠ []) (hw : fold w = fold r.word) (a : Text) :
    (w ++ a).head?.any isWordCharacter = true := by
  cases w with
  | nil => exact absurd (List.map_eq_nil_iff.1 hw.symm) hne
  | cons c w => exact wordCharacter_of_fold r.bare_word hw c List.mem_cons_self

/-- A type with a list is written by the first rule for its word that accepts the list. -/
theorem exists_rule_of_list (ht : types.IsOrderly) (hr : r ∈ types.rules) (hone : r.isMultiWord = false)
    (hw : fold w = fold r.word) {x back : Text} (hx : IsSpaced w x) (hback : IsGap back) (hopen : '(' ∉ z)
    (hclose : ')' ∉ z) (h : ∀ g, IsGap g → r.Accepts w (listText g z)) :
    ∃ s ∈ types.rules, (s = r ∨ s ∈ types.rules.takeWhile (· != r)) ∧ s.word = r.word ∧ s.isMultiWord = false ∧
      ∃ g, IsGap g ∧ s.Accepts w (listText g z) ∧
        types.convertType? (x ++ "(" ++ z ++ ")" ++ back) = some (writtenFor s (listText g z)) := by
  obtain ⟨front, g, hfront, hg, rfl⟩ := hx
  have hshape := ht.shape hr
  have hown := TypeRule.tryRule_of_accepts hshape hone hw hg hopen hclose (h g hg)
  have hsome : (tryRule [] (w ++ listText g z) r).isSome = true := by rw [hown]; rfl
  obtain ⟨s, hs, hplace, hsome', hfirst⟩ := exists_first_rule hr hsome
  obtain ⟨hword, hone', haccepts⟩ := accepts_of_tryRule ht hr hs hw (.list hg hopen hclose) hsome'
  rw [← matcher_eq, TypeRule.tryRule_of_accepts (ht.shape hs) hone' (hword ▸ hw) hg hopen hclose haccepts] at hfirst
  have hhead := head?_word hshape.1 hw (listText g z)
  have hlast : (w ++ listText g z).getLast?.any isBlank = false := by
    rw [listText_eq, ← List.append_assoc, List.getLast?_concat]
    exact (by decide : isBlank ')' = false)
  refine ⟨s, hs, hplace, hword, hone', g, hg, haccepts, ?_⟩
  refine convertType_of_matcher ht ?_ hfirst (trim_spaced ⟨front, back, hfront, hback, ?_⟩ hhead hlast)
  · intro hnil
    rw [hnil] at hhead
    cases hhead
  · simp [listText]

/-- A type without a list is written by the first rule for its word that needs none. -/
theorem exists_rule_of_word (ht : types.IsOrderly) (hr : r ∈ types.rules) (hone : r.isMultiWord = false)
    (hbare : r.sourceHasArguments = false) (hform : r.argumentsOptional = true)
    (hw : fold w = fold r.word) {x : Text} (hx : IsSpaced w x) :
    ∃ s ∈ types.rules, s.word = r.word ∧ s.isMultiWord = false ∧ s.sourceHasArguments = false ∧
      s.argumentsOptional = true ∧ types.convertType? x = some s.target := by
  have hshape := ht.shape hr
  have hown := TypeRule.tryRule_word hshape hone hbare hform hw
  have hsome : (tryRule [] (w ++ []) r).isSome = true := by rw [hown]; rfl
  obtain ⟨s, hs, -, hsome', hfirst⟩ := exists_first_rule hr hsome
  obtain ⟨hword, hone', haccepts⟩ := accepts_of_tryRule ht hr hs hw .none hsome'
  obtain ⟨hbare', hform'⟩ := TypeRule.needs_no_arguments (ht.shape hs).2 haccepts
  rw [← matcher_eq, TypeRule.tryRule_word (ht.shape hs) hone' hbare' hform' (hword ▸ hw), List.append_nil] at hfirst
  have hhead := head?_word hshape.1 hw []
  rw [List.append_nil] at hhead
  have hne : w ≠ [] := by
    rintro rfl
    cases hhead
  have hlast : w.getLast?.any isBlank = false := by
    rw [List.getLast?_eq_some_getLast hne]
    refine Bool.eq_false_iff.2 fun hblank => ?_
    have hc := wordCharacter_of_fold r.bare_word hw _ (List.getLast_mem hne)
    rw [not_wordCharacter_of_blank hblank] at hc
    cases hc
  exact ⟨s, hs, hword, hone', hbare', hform', convertType_of_matcher ht hne hfirst (trim_spaced hx hhead hlast)⟩

end TypeTable

end DialectBridge
