import DialectBridge.Proofs.Types.FilledTypes

/-!
# Sizes with whitespace

A type may be declared in any letter case, with whitespace around the parentheses of its size and within them. A rule
that holds a size accepts this size and no other, whatever the whitespace (`packed_of_reaches_size`), and a rule that
accepts the size behind its word takes all of it (`tryRule_of_accepts`).
-/

namespace DialectBridge

/-- Whitespace, perhaps none. -/
def IsGap (t : Text) : Prop :=
  ∀ c ∈ t, isBlank c = true

/-- ASCII digits, perhaps none. -/
def IsDigits (t : Text) : Prop :=
  ∀ c ∈ t, c.isDigit = true

instance (t : Text) : Decidable (IsGap t) :=
  decidable_of_iff (t.all isBlank = true) List.all_eq_true

instance (t : Text) : Decidable (IsDigits t) :=
  decidable_of_iff (t.all Char.isDigit = true) List.all_eq_true

namespace Text

/-- The text without whitespace. -/
def packed (t : Text) : Text :=
  t.filter fun c => !isBlank c

@[simp] theorem packed_nil : packed [] = [] := rfl

@[simp] theorem packed_append (s t : Text) : packed (s ++ t) = packed s ++ packed t :=
  List.filter_append s t

theorem packed_cons {c : Char} (hc : isBlank c = false) (t : Text) : packed (c :: t) = c :: packed t :=
  List.filter_cons_of_pos (by simp [hc])

theorem packed_blank {c : Char} (hc : isBlank c = true) (t : Text) : packed (c :: t) = packed t :=
  List.filter_cons_of_neg (by simp [hc])

theorem packed_of_gap {t : Text} (h : IsGap t) : packed t = [] :=
  List.filter_eq_nil_iff.2 fun c hc => by simp [h c hc]

theorem packed_of_solid {t : Text} (h : ∀ c ∈ t, isBlank c = false) : packed t = t :=
  List.filter_eq_self.2 fun c hc => by simp [h c hc]

end Text

open Text

theorem IsGap.notMem {t : Text} (h : IsGap t) {c : Char} (hc : isBlank c = false) : c ∉ t := fun hmem => by
  rw [h c hmem] at hc
  cases hc

theorem IsDigits.notMem {t : Text} (h : IsDigits t) {c : Char} (hc : c.isDigit = false) : c ∉ t := fun hmem => by
  rw [h c hmem] at hc
  cases hc

theorem IsDigits.packed {t : Text} (h : IsDigits t) : packed t = t :=
  packed_of_solid fun c hc => not_blank_of_digit (h c hc)

/-- A list in parentheses, behind whitespace. -/
def listText (g z : Text) : Text :=
  g ++ '(' :: (z ++ [')'])

theorem packed_listText {g : Text} (hg : IsGap g) (z : Text) : packed (listText g z) = '(' :: (packed z ++ [')']) := by
  have hopen : isBlank '(' = false := by decide
  rw [listText, packed_append, packed_of_gap hg, packed_cons hopen, packed_append]
  rfl

theorem listText_eq (g z : Text) : listText g z = (g ++ '(' :: z) ++ [')'] := by
  simp [listText]

theorem notMem_listText {g z : Text} (hg : IsGap g) (hz : ')' ∉ z) : ')' ∉ g ++ '(' :: z := by
  simp [hg.notMem (c := ')') (by decide), hz]

theorem head?_listText {g : Text} (hg : IsGap g) (z : Text) : (listText g z).head?.any isWordCharacter = false := by
  cases g with
  | nil => exact (by decide +kernel : isWordCharacter '(' = false)
  | cons c g => exact not_wordCharacter_of_blank (hg c List.mem_cons_self)

/-- The characters of a size have no variants. -/
theorem eq_of_sameLetter_size {c d : Char} (hc : isSizeCharacter c = true) (h : sameLetter c d = true) : d = c := by
  have hmem : c ∈ ',' :: TypeRule.asciiDigits := by
    rcases sizeCharacter_cases hc with hdigit | rfl
    · exact List.mem_cons_of_mem _ (TypeRule.isDigit_mem hdigit)
    · exact List.mem_cons_self
  have hascii : c.toNat < 128 := by
    rcases sizeCharacter_cases hc with hdigit | rfl
    · exact toNat_lt_of_digit hdigit
    · decide
  rcases sameLetter_ascii hascii h with ⟨hd, hlower⟩ | hfold
  · have hall : (',' :: TypeRule.asciiDigits).all (fun c => c.toLower != d.toLower || d == c) = true :=
      forall_ascii (P := fun d => (',' :: TypeRule.asciiDigits).all (fun c => c.toLower != d.toLower || d == c) = true)
        (by decide) hd
    simpa [hlower] using List.all_eq_true.1 hall c hmem
  · have hnone : ((',' :: TypeRule.asciiDigits).all fun c => foldsToAscii.all fun d => !sameLetter c d) = true := by
      decide +kernel
    simpa [h] using List.all_eq_true.1 (List.all_eq_true.1 hnone c hmem) d hfold

namespace TypeRule

open Pattern

/-! ## Sizes that a rule holds -/

theorem reaches_spaced {c : Char} (hc : c = '(' ∨ c = ',') {s t : Site} (h : Reaches (spaced c) s t) :
    ∃ taken, s.after = taken ++ t.after ∧ packed taken = [c] := by
  obtain ⟨u, ⟨g, r, hg, hblank, rfl⟩, v, ⟨d, r', hr, hd, rfl⟩, w, ⟨g', r'', hg', hblank', rfl⟩, rfl⟩ := h
  obtain rfl : d = c := by
    rcases hc with rfl | rfl
    · exact eq_leftParen hd
    · exact eq_of_sameLetter_size rfl hd
  have hsolid : isBlank d = false := by rcases hc with rfl | rfl <;> decide
  obtain rfl : r = d :: r' := hr
  obtain rfl : r' = g' ++ r'' := hg'
  refine ⟨g ++ d :: g', by simp [hg], ?_⟩
  rw [packed_append, packed_of_gap hblank, packed_cons hsolid, packed_of_gap hblank']
  rfl

/-- A size in a source accepts the same size alone, up to whitespace. -/
theorem reaches_sourceParts_size {y : Text} (hy : ∀ c ∈ y, isSizeCharacter c = true) {s t : Site}
    (h : Reaches (sequence (sourceParts false (y ++ [')']))) s t) :
    ∃ taken, s.after = taken ++ t.after ∧ packed taken = y ++ [')'] := by
  induction y generalizing s with
  | nil =>
    obtain ⟨u, ⟨v, ⟨g, r, hg, hblank, rfl⟩, d, r', hr, hd, rfl⟩, rfl⟩ := h
    obtain rfl := eq_rightParen hd
    obtain rfl : r = ')' :: r' := hr
    refine ⟨g ++ [')'], by rw [hg]; simp, ?_⟩
    rw [packed_append, packed_of_gap hblank]
    rfl
  | cons c y ih =>
    obtain ⟨hc, hy⟩ := List.forall_mem_cons.1 hy
    have hsolid := not_blank_of_size hc
    rw [List.cons_append, sourceParts, if_neg (by simp [hsolid])] at h
    obtain ⟨u, hpart, hrest⟩ := h
    obtain ⟨taken, htaken, hpacked⟩ := ih hy hrest
    have hfirst : ∃ front, s.after = front ++ u.after ∧ packed front = [c] := by
      by_cases hsign : c = '(' ∨ c = ','
      · simp only [if_pos hsign] at hpart
        exact reaches_spaced hsign hpart
      · have hclose : c ≠ ')' := by
          rintro rfl
          exact absurd hc (by decide)
        simp only [if_neg hsign, if_neg hclose] at hpart
        obtain ⟨d, rest, hafter, hd, rfl⟩ := hpart
        obtain rfl := eq_of_sameLetter_size hc hd
        exact ⟨[d], hafter, packed_cons hsolid []⟩
    obtain ⟨front, hfront, hpacked'⟩ := hfirst
    exact ⟨front ++ taken, by rw [hfront, htaken, List.append_assoc], by rw [packed_append, hpacked', hpacked]; rfl⟩

variable {b g z : Text} {captures : List (Nat × Text)}

theorem packed_of_reaches_size {y : Text} (hy : ∀ c ∈ y, isSizeCharacter c = true) (hg : IsGap g) (hz : ')' ∉ z)
    {t : Site} (h : Reaches (sizePattern y) ⟨b, listText g z, captures⟩ t) : packed z = y := by
  obtain ⟨x, hx, hnot, -⟩ := (sizePattern_spec hy).1 h
  simp only [listText_eq] at hx
  -- the way goes up to the one closing parenthesis
  obtain ⟨-, hend⟩ := append_paren_inj hx (notMem_listText hg hz) hnot
  obtain ⟨u, hopen, hrest⟩ := h
  obtain ⟨front, hfront, hpacked⟩ := reaches_spaced (.inl rfl) hopen
  obtain ⟨taken, htaken, hpacked'⟩ := reaches_sourceParts_size hy hrest
  rw [← hend, List.append_nil] at htaken
  have hall := packed_listText hg z
  rw [show listText g z = front ++ u.after from hfront, htaken, packed_append, hpacked, hpacked'] at hall
  exact (List.append_cancel_right (List.cons.inj hall).2).symm

/-- A number in a source accepts itself, with any whitespace around it. -/
theorem reaches_size_of_digits {n g₁ g₂ : Text} (hn : IsDigits n) (hg : IsGap g) (hg₁ : IsGap g₁) (hg₂ : IsGap g₂) :
    ∃ t, Reaches (sizePattern n) ⟨b, listText g (g₁ ++ n ++ g₂), captures⟩ t := by
  have hparts : sourceParts false (n ++ [')']) = n.map letter ++ [seq gap (letter ')')] :=
    sourceParts_word (fun c hc => bare_of_digit (hn c hc)) [')']
  have hafter : listText g (g₁ ++ n ++ g₂) = g ++ '(' :: (g₁ ++ (n ++ (g₂ ++ [')']))) := by simp [listText]
  have hend {b : Text} : Reaches (seq gap (letter ')')) ⟨b, g₂ ++ [')'], captures⟩
      ⟨')' :: (g₂.reverse ++ b), [], captures⟩ :=
    ⟨_, ⟨g₂, [')'], rfl, hg₂, rfl⟩, ')', [], rfl, by decide, rfl⟩
  rw [sizePattern, hparts, hafter]
  exact ⟨_, _, ⟨_, ⟨g, _, rfl, hg, rfl⟩, _, ⟨'(', _, rfl, by decide, rfl⟩, _, ⟨g₁, _, rfl, hg₁, rfl⟩, rfl⟩,
    reaches_sequence_of_append (reaches_text_of_fold rfl _ (g₂ ++ [')']) captures) ⟨_, hend, rfl⟩⟩

/-- A precision and a scale are accepted with any whitespace around them. -/
theorem reaches_scale_of_digits {p s g₁ g₂ g₃ g₄ : Text} (hp : IsDigits p) (hs : IsDigits s) (hpne : p ≠ [])
    (hsne : s ≠ []) (hg : IsGap g) (hg₁ : IsGap g₁) (hg₂ : IsGap g₂) (hg₃ : IsGap g₃) (hg₄ : IsGap g₄) :
    ∃ t, Reaches scaleArguments ⟨b, listText g (g₁ ++ p ++ g₂ ++ ',' :: (g₃ ++ s ++ g₄)), captures⟩ t := by
  have hdigits {n : Text} (hn : IsDigits n) (hne : n ≠ []) (b rest : Text) :
      Reaches digits ⟨b, n ++ rest, captures⟩ ⟨n.reverse ++ b, rest, captures⟩ := by
    obtain ⟨d, n, rfl⟩ := List.exists_cons_of_ne_nil hne
    have hword : ∀ c ∈ d :: n, isWordDigit c = true := fun c hc => wordDigit_of_digit (hn c hc)
    refine ⟨_, ⟨d, n ++ rest, rfl, hword d List.mem_cons_self, rfl⟩, n, rest, rfl,
      fun c hc => hword c (List.mem_cons_of_mem d hc), ?_⟩
    simp
  have hafter : listText g (g₁ ++ p ++ g₂ ++ ',' :: (g₃ ++ s ++ g₄)) =
      g ++ '(' :: (g₁ ++ (p ++ (g₂ ++ ',' :: (g₃ ++ (s ++ (g₄ ++ [')'])))))) := by simp [listText]
  rw [hafter]
  exact ⟨_, _, ⟨g, _, rfl, hg, rfl⟩, _, ⟨'(', _, rfl, by decide, rfl⟩, _, ⟨g₁, _, rfl, hg₁, rfl⟩, _,
    hdigits hp hpne _ _, _, ⟨g₂, _, rfl, hg₂, rfl⟩, _, ⟨',', _, rfl, by decide, rfl⟩, _, ⟨g₃, _, rfl, hg₃, rfl⟩, _,
    hdigits hs hsne _ _, _, ⟨g₄, _, rfl, hg₄, rfl⟩, _, ⟨')', [], rfl, by decide, rfl⟩, rfl⟩

/-- A precision and a scale are told apart by a comma. -/
theorem mem_comma_of_reaches_scale {s t : Site} (h : Reaches scaleArguments s t) : ',' ∈ s.after := by
  obtain ⟨u, ⟨g, r, hg, -, rfl⟩, v, ⟨d, r', hr, -, rfl⟩, w, ⟨g₁, r₁, hg₁, -, rfl⟩, x, hdigits, y, ⟨g₂, r₂, hg₂, -, rfl⟩, z,
    ⟨c, r₃, hr₃, hc, -⟩, -⟩ := h
  obtain rfl := eq_of_sameLetter_size rfl hc
  obtain ⟨p, hp, -⟩ := hdigits.split
  simp only at hr hg₁ hp hg₂ hr₃
  simp [hg, hr, hg₁, hp, hg₂, hr₃]

/-! ## A type that stands alone -/

section

variable {r : TypeRule} {w a : Text}

theorem run_word_edge (hne : w ≠ []) (hw : ∀ c ∈ w, isWordCharacter c = true)
    (ha : a.head?.any isWordCharacter = false) {next : Site → Option Site} :
    run edge ⟨w.reverse, a, []⟩ next = next ⟨w.reverse, a, []⟩ := by
  have hlast : w.getLast?.any isWordCharacter = true := by
    rw [List.getLast?_eq_some_getLast hne]
    exact hw _ (List.getLast_mem hne)
  exact if_pos (by simp [Site.isEdge, hlast, ha])

/-- A rule of one word takes its word, in any case, and goes on with its arguments. -/
theorem run_alone (hshape : r.word ≠ [] ∧ r.Shape) (hone : r.isMultiWord = false) (hw : fold w = fold r.word)
    (ha : a.head?.any isWordCharacter = false) (next : Site → Option Site) :
    run r.pattern ⟨[], w ++ a, []⟩ next = run r.middle ⟨w.reverse, a, []⟩ next := by
  have hword := wordCharacter_of_fold r.bare_word hw
  have hne : w ≠ [] := by
    rintro rfl
    exact hshape.1 (List.map_eq_nil_iff.1 hw.symm)
  have hstart {next : Site → Option Site} : run edge ⟨[], w ++ a, []⟩ next = next ⟨[], w ++ a, []⟩ := by
    obtain ⟨c, u, rfl⟩ := List.exists_cons_of_ne_nil hne
    exact if_pos (by simp [Site.isEdge, hword c List.mem_cons_self])
  have hback : r.back = empty := by rw [back, if_neg (by simp [hone])]
  have hlead {next : Site → Option Site} : run r.lead ⟨[], w ++ a, []⟩ next = next ⟨w.reverse, a, []⟩ := by
    cases hbare : r.sourceHasArguments with
    | true =>
      rw [lead, if_pos hbare, run_sequence_cons, hstart, run_sequence_cons, run_text hw, List.append_nil]
      rfl
    | false =>
      have hsource : sourcePattern r.source = sequence (r.word.map letter ++ [edge]) := by
        have hparts := sourceParts_word r.bare_word []
        rw [List.append_nil] at hparts
        rw [source_eq_word hshape.2 hone hbare, sourcePattern_of_bare (List.getLast?_eq_some_getLast hshape.1)
          (r.bare_word _ (List.getLast_mem hshape.1)), hparts]
        simp [sourceParts]
      rw [lead, if_neg (by simp [hbare]), front, if_neg (by simp [hone]), hsource, run_sequence_cons, hstart,
        run_sequence_cons, run_sequence_append, ← Pattern.text, run_text hw, run_sequence_cons, List.append_nil,
        run_word_edge hne hword ha]
      rfl
  rw [run_pattern hshape.2, hlead, hback]
  rfl

/-- Behind its word, the rule finds the arguments that it looks for. -/
def Accepts (r : TypeRule) (w a : Text) : Prop :=
  ∃ t, Reaches r.middle ⟨w.reverse, a, []⟩ t

theorem tryRule_of_not_accepts (hshape : r.word ≠ [] ∧ r.Shape) (hone : r.isMultiWord = false)
    (hw : fold w = fold r.word) (ha : a.head?.any isWordCharacter = false) (h : ¬ r.Accepts w a) :
    TypeTable.tryRule [] (w ++ a) r = none := by
  rw [TypeTable.tryRule, Pattern.matcher, run_alone hshape hone hw ha, run_of_not_reaches fun t ht => h ⟨t, ht⟩]
  rfl

/-- What a rule finds is told by its way through the arguments, if that leads to the end. -/
theorem tryRule_of_run (hshape : r.word ≠ [] ∧ r.Shape) (hone : r.isMultiWord = false) (hw : fold w = fold r.word)
    (ha : a.head?.any isWordCharacter = false) {cs : List (Nat × Text)} {u : Text}
    (h : run r.middle ⟨w.reverse, a, []⟩ .some = .some ⟨u, [], cs⟩) :
    TypeTable.tryRule [] (w ++ a) r = .some (w ++ a, ⟨r, (captured 1 cs).filter fun t => !t.isEmpty⟩) := by
  have htext : Site.textUpTo ⟨[], w ++ a, []⟩ ⟨u, [], cs⟩ = w ++ a := textUpTo_eq (by simp)
  rw [TypeTable.tryRule, Pattern.matcher, run_alone hshape hone hw ha, h, Option.map_some, Option.map_some, htext]

end

/-! ## A word with a list -/

section

variable {r : TypeRule} {w : Text}

/-- Arguments that end at the first closing parenthesis take the list. -/
theorem end_of_closing {q : Pattern} (hq : Closing q) (hg : IsGap g) (hz : ')' ∉ z) {t : Site}
    (h : Reaches q ⟨b, listText g z, captures⟩ t) : t = ⟨(listText g z).reverse ++ b, [], captures⟩ := by
  obtain ⟨x, hx, hnot, ht⟩ := hq h
  simp only [listText_eq] at hx
  obtain ⟨rfl, hend⟩ := append_paren_inj hx (notMem_listText hg hz) hnot
  rw [ht, ← hend, listText_eq]

theorem run_capture_list {q : Pattern} (hq : Closing q) (hg : IsGap g) (hz : ')' ∉ z) {t : Site}
    (h : Reaches q ⟨b, listText g z, []⟩ t) : run (capture 1 q) ⟨b, listText g z, []⟩ .some =
      .some ⟨(listText g z).reverse ++ b, [], [(1, listText g z)]⟩ := by
  obtain rfl := end_of_closing hq hg hz h
  have htext : Site.textUpTo ⟨b, listText g z, []⟩ ⟨(listText g z).reverse ++ b, [], []⟩ = listText g z :=
    textUpTo_eq (by simp)
  rw [run, hq.run_eq h, htext]

theorem reaches_list (hg : IsGap g) (hopen : '(' ∉ z) (hclose : ')' ∉ z) :
    ∃ t, Reaches anyArguments ⟨b, listText g z, captures⟩ t := by
  have hplace : Site.after ⟨b, listText g z, captures⟩ = g ++ '(' :: (z ++ ')' :: []) := rfl
  obtain ⟨t, ht, -⟩ := reaches_anyArguments_of_eq hplace hg hopen hclose
  exact ⟨t, ht⟩

/-- A rule that accepts a list takes all of it. -/
theorem tryRule_of_accepts (hshape : r.word ≠ [] ∧ r.Shape) (hone : r.isMultiWord = false) (hw : fold w = fold r.word)
    (hg : IsGap g) (hopen : '(' ∉ z) (hclose : ')' ∉ z) (h : r.Accepts w (listText g z)) :
    TypeTable.tryRule [] (w ++ listText g z) r = .some (w ++ listText g z,
      ⟨r, if r.sourceHasArguments then none else .some (listText g z)⟩) := by
  have ha := head?_listText hg z
  obtain ⟨t, ht⟩ := h
  cases hbare : r.sourceHasArguments with
  | true =>
    obtain ⟨y, hy, hsource⟩ := source_of_arguments hshape.2 hbare
    rw [middle_of_arguments hbare hsource] at ht
    obtain ⟨hclosing, -, -⟩ := sizePattern_spec hy
    have hrun : run r.middle ⟨w.reverse, listText g z, []⟩ .some =
        .some ⟨(listText g z).reverse ++ w.reverse, [], []⟩ := by
      obtain rfl := end_of_closing hclosing hg hclose ht
      rw [middle_of_arguments hbare hsource, hclosing.run_eq ht]
    exact tryRule_of_run hshape hone hw ha hrun
  | false =>
    have hrun : run r.middle ⟨w.reverse, listText g z, []⟩ .some =
        .some ⟨(listText g z).reverse ++ w.reverse, [], [(1, listText g z)]⟩ := by
      obtain ⟨u, hany⟩ : ∃ u, Reaches anyArguments ⟨w.reverse, listText g z, []⟩ u := reaches_list hg hopen hclose
      have hrunAny := run_capture_list closing_anyArguments hg hclose hany
      rw [middle, if_neg (by simp [hbare])] at ht ⊢
      rcases argumentsPattern_cases hbare with ⟨-, hpattern⟩ | ⟨-, -, hpattern⟩ | ⟨-, -, hpattern⟩ <;>
        rw [hpattern] at ht ⊢
      · exact run_optional hrunAny
      · obtain ⟨v, hv, -⟩ := ht
        exact run_capture_list closing_scaleArguments hg hclose hv
      · exact hrunAny
    rw [tryRule_of_run hshape hone hw ha hrun]
    have hne : listText g z ≠ [] := by simp [listText]
    simp [captured, hne]

/-- A rule with a size of its own accepts this size alone. -/
theorem source_of_accepts (hshape : r.Shape) (hbare : r.sourceHasArguments = true) (hg : IsGap g) (hz : ')' ∉ z)
    (h : r.Accepts w (listText g z)) : r.source = r.word ++ '(' :: (packed z ++ [')']) ∧
      ∀ c ∈ packed z, isSizeCharacter c = true := by
  obtain ⟨y, hy, hsource⟩ := source_of_arguments hshape hbare
  obtain ⟨t, ht⟩ := h
  rw [middle_of_arguments hbare hsource] at ht
  obtain rfl := packed_of_reaches_size hy hg hz ht
  exact ⟨hsource, hy⟩

/-- A rule without a size of its own accepts any list, unless it asks for a precision and a scale. -/
theorem accepts_list (hbare : r.sourceHasArguments = false) (hform : r.form.needsScale = false) (hg : IsGap g) (hopen : '(' ∉ z)
    (hclose : ')' ∉ z) : r.Accepts w (listText g z) := by
  obtain ⟨t, ht⟩ : ∃ t, Reaches anyArguments ⟨w.reverse, listText g z, []⟩ t := reaches_list hg hopen hclose
  rw [Accepts, middle, if_neg (by simp [hbare])]
  rcases argumentsPattern_cases hbare with ⟨-, hpattern⟩ | ⟨-, hscale, -⟩ | ⟨-, -, hpattern⟩
  · rw [hpattern]
    exact ⟨_, .inl ⟨t, ht, rfl⟩⟩
  · simp [hform] at hscale
  · rw [hpattern]
    exact ⟨_, t, ht, rfl⟩

theorem accepts_own_size {n g₁ g₂ : Text} (hsource : r.source = r.word ++ '(' :: (n ++ [')']))
    (hn : IsDigits n) (hg : IsGap g) (hg₁ : IsGap g₁) (hg₂ : IsGap g₂) :
    r.Accepts w (listText g (g₁ ++ n ++ g₂)) := by
  have hbare : r.sourceHasArguments = true := by simp [sourceHasArguments, hsource]
  rw [Accepts, middle_of_arguments hbare hsource]
  exact reaches_size_of_digits hn hg hg₁ hg₂

theorem accepts_scaled {p s g₁ g₂ g₃ g₄ : Text} (hbare : r.sourceHasArguments = false) (hform : r.form.needsScale = true)
    (hp : IsDigits p) (hs : IsDigits s) (hpne : p ≠ []) (hsne : s ≠ []) (hg : IsGap g) (hg₁ : IsGap g₁)
    (hg₂ : IsGap g₂) (hg₃ : IsGap g₃) (hg₄ : IsGap g₄) :
    r.Accepts w (listText g (g₁ ++ p ++ g₂ ++ ',' :: (g₃ ++ s ++ g₄))) := by
  rw [Accepts, middle, if_neg (by simp [hbare]), argumentsPattern, if_neg (by simp [hbare]), if_pos hform]
  obtain ⟨t, ht⟩ := reaches_scale_of_digits hp hs hpne hsne hg hg₁ hg₂ hg₃ hg₄
  exact ⟨_, t, ht, rfl⟩

theorem mem_comma_of_accepts {a : Text} (hbare : r.sourceHasArguments = false) (hform : r.form.needsScale = true)
    (h : r.Accepts w a) : ',' ∈ a := by
  obtain ⟨t, ht⟩ := h
  rw [middle, if_neg (by simp [hbare]), argumentsPattern, if_neg (by simp [hbare]), if_pos hform] at ht
  obtain ⟨u, hu, -⟩ := ht
  exact mem_comma_of_reaches_scale hu

end

end TypeRule

end DialectBridge
