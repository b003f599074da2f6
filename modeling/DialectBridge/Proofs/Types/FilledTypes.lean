import DialectBridge.Proofs.Types.Arguments
import DialectBridge.Proofs.Types.NamePlaces

/-!
# Types in filled texts

A type rule looks for words, blanks and the parentheses around its arguments. So it does not see what stands in the
place of the placeholders, as long as that starts with a stop and holds no parenthesis, and it finds the same types
with the same arguments (`matcher_respectsFilling`).
-/

namespace DialectBridge

open Masked

namespace TypeRule

open Pattern

/-! ## Arguments -/

/-- Arguments in a masked text are made of whole parts. -/
theorem arguments_parts {ps : List Part} {s t : Site} (hs : s.after = render ps) (h : Reaches anyArguments s t) :
    ∃ qs as bs, ps = qs ++ .code '(' :: (as ++ .code ')' :: bs) ∧ (∀ p ∈ qs, p.isSpace = true) ∧
      '(' ∉ render as ∧ ')' ∉ render as ∧ t.after = render bs := by
  obtain ⟨g, y, htext, hg, hopen, hclose⟩ := reaches_anyArguments h
  rw [hs] at htext
  obtain ⟨qs, rs, rfl, rfl, hrs⟩ := render_eq_append_cons (by decide) (by decide) htext
  obtain ⟨as, bs, rfl, rfl, hbs⟩ := render_eq_append_cons (by decide) (by decide) hrs.symm
  exact ⟨qs, as, bs, rfl, blank_render_iff.1 hg, hopen, hclose, hbs⟩

variable {stops : List Char} {f : Nat → Text} {C : List (Nat × Text) → List (Nat × Text) → Prop}
  {Q : Site → Site → Prop} {far : Site → Prop} {s s' : Site} {next next' : Site → Option Site}

/-- Neither around its arguments nor in a size of its own the rule takes one of these characters. -/
def keepsOff (stops : List Char) (r : TypeRule) : Bool :=
  stops.all fun c => r.lead.avoids c && r.back.avoids c && scaleArguments.avoids c &&
    (!r.middle.captureFree || r.middle.avoids c)

theorem keepsOff_iff {r : TypeRule} : r.keepsOff stops = true ↔
    ∀ c ∈ stops, ((r.lead.avoids c = true ∧ r.back.avoids c = true) ∧ scaleArguments.avoids c = true) ∧
      (r.middle.captureFree = true → r.middle.avoids c = true) := by
  have himp (a b : Bool) : (a = false ∨ b = true) ↔ (a = true → b = true) := by cases a <;> simp
  simp only [keepsOff, List.all_eq_true, Bool.and_eq_true, Bool.or_eq_true, Bool.not_eq_true', himp]

/-- What a continuation is told about arguments: they are the same, but for what is filled in. -/
def PassesFilled (stops : List Char) (f : Nat → Text) (C : List (Nat × Text) → List (Nat × Text) → Prop)
    (s s' t t' : Site) : Prop :=
  Refilled stops f C t t' ∧ ∃ as, Fills stops f as ∧ s.textUpTo t = render as ∧ s'.textUpTo t' = spell f as

/-- Arguments that stand in a text are found there. -/
theorem exists_reaches_arguments {s : Site} {g y rest : Text} (h : s.after = g ++ '(' :: (y ++ ')' :: rest))
    (hg : ∀ c ∈ g, isBlank c = true) (hopen : '(' ∉ y) (hclose : ')' ∉ y) :
    ∃ t, Reaches anyArguments s t ∧ t.after = rest ∧ s.textUpTo t = g ++ '(' :: (y ++ [')']) := by
  obtain ⟨t, ht, hafter⟩ := reaches_anyArguments_of_eq h hg hopen hclose
  refine ⟨t, ht, hafter, textUpTo_eq ?_⟩
  rw [hafter, h]
  simp

theorem run_anyArguments_filled (hstops : AreStops stops) (h : Refilled stops f C s s')
    (hnext : ∀ {t t'}, PassesFilled stops f C s s' t t' → Agree Q far (next t) (next' t')) :
    Agree Q far (run anyArguments s next) (run anyArguments s' next') := by
  obtain ⟨-, hcaptured, ps, hps, hs, hs'⟩ := h
  -- parentheses are parts of their own, so there are arguments on both sides or on none
  by_cases hparts : ∃ qs as bs, ps = qs ++ .code '(' :: (as ++ .code ')' :: bs) ∧
      (∀ p ∈ qs, p.isSpace = true) ∧ '(' ∉ render as ∧ ')' ∉ render as
  · obtain ⟨qs, as, bs, rfl, hqs, hopen, hclose⟩ := hparts
    have hwhole : qs ++ .code '(' :: (as ++ .code ')' :: bs) = qs ++ .code '(' :: (as ++ [.code ')']) ++ bs := by simp
    have hargs : Fills stops f (qs ++ .code '(' :: (as ++ [.code ')'])) := (hwhole ▸ hps).left
    have hbs : Fills stops f bs := (hwhole ▸ hps).right
    have has : Fills stops f as := hargs.right.tail.left
    have hplace : s.after = render qs ++ '(' :: (render as ++ ')' :: render bs) := by simp [hs, Part.text]
    have hplace' : s'.after = spell f qs ++ '(' :: (spell f as ++ ')' :: spell f bs) := by simp [hs']
    obtain ⟨t, ht, hafter, htext⟩ := exists_reaches_arguments hplace (blank_render_iff.2 hqs) hopen hclose
    obtain ⟨t', ht', hafter', htext'⟩ := exists_reaches_arguments hplace' ((hargs.left.blank_iff hstops).2 hqs)
      (mt (has.mem_paren (.inl rfl)).1 hopen) (mt (has.mem_paren (.inr rfl)).1 hclose)
    obtain ⟨x, -, -, hsite⟩ := closing_anyArguments ht
    obtain ⟨x', -, -, hsite'⟩ := closing_anyArguments ht'
    rw [closing_anyArguments.run_eq ht, closing_anyArguments.run_eq ht']
    refine hnext ⟨⟨?_, ?_, bs, hbs, hafter, hafter'⟩, _, hargs, ?_, ?_⟩
    · rw [hsite, hsite']
      simp
    · rw [hsite, hsite']
      exact hcaptured
    · rw [htext]
      simp [Part.text]
    · rw [htext']
      simp
  · have hnot {t : Site} : ¬ Reaches anyArguments s t := fun h => by
      obtain ⟨qs, as, bs, hsplit, hqs, hopen, hclose, -⟩ := arguments_parts hs h
      exact hparts ⟨qs, as, bs, hsplit, hqs, hopen, hclose⟩
    have hnot' {t : Site} : ¬ Reaches anyArguments s' t := fun h => by
      obtain ⟨g, y, htext, hg, hopen, hclose⟩ := reaches_anyArguments h
      rw [hs'] at htext
      obtain ⟨qs, rs, rfl, rfl, hrs⟩ := spell_eq_append_cons (fun n hn => (hps.parens n hn).1) htext
      obtain ⟨as, bs, rfl, rfl, -⟩ :=
        spell_eq_append_cons (fun n hn => (hps.right.tail.parens n hn).2) hrs.symm
      have has : Fills stops f as := hps.right.tail.left
      refine hparts ⟨qs, as, bs, rfl, (hps.left.blank_iff hstops).1 hg, ?_, ?_⟩
      · exact mt (has.mem_paren (.inl rfl)).2 hopen
      · exact mt (has.mem_paren (.inr rfl)).2 hclose
    rw [run_of_not_reaches fun t => hnot, run_of_not_reaches fun t => hnot']
    exact .none

theorem run_scaleArguments_filled (hstops : AreStops stops) (havoids : ∀ c ∈ stops, scaleArguments.avoids c = true)
    (h : Refilled stops f C s s')
    (hnext : ∀ {t t'}, PassesFilled stops f C s s' t t' → Agree Q far (next t) (next' t')) :
    Agree Q far (run scaleArguments s next) (run scaleArguments s' next') := by
  have hR := (inStep_refilled (f := f) (C := C) hstops).tracked s s'
  refine run_inStep hR havoids rfl ⟨h, [], rfl, rfl, by simp⟩ ?_
  rintro t t' ⟨ht, x, hx, hx', hmark⟩
  have hmark : mark ∉ x := fun hmem => hmark _ hmem hstops.mark
  refine hnext ⟨ht, x.map .code, Fills.of_code hmark, ?_, ?_⟩
  · rw [textUpTo_eq hx, render_map_code]
  · rw [textUpTo_eq hx', spell_map_code]

/-- Nothing was captured. -/
def NoCaptures (cs cs' : List (Nat × Text)) : Prop :=
  cs = [] ∧ cs' = []

/-- Nothing was captured, or the same arguments but for what is filled in. -/
inductive FilledCaptures (stops : List Char) (f : Nat → Text) : List (Nat × Text) → List (Nat × Text) → Prop
  | none : FilledCaptures stops f [] []
  | arguments {as : List Part} (has : Fills stops f as) :
      FilledCaptures stops f [(1, render as)] [(1, spell f as)]

/-- A rule passes the same arguments in filled texts. -/
theorem run_middle_filled (hstops : AreStops stops) {q : Pattern} (hq : IsMiddle q)
    (hoff : ∀ c ∈ stops, scaleArguments.avoids c = true ∧ (q.captureFree = true → q.avoids c = true))
    (h : Refilled stops f NoCaptures s s')
    (hnext : ∀ {t t'}, Refilled stops f (FilledCaptures stops f) t t' → Agree Q far (next t) (next' t')) :
    Agree Q far (run q s next) (run q s' next') := by
  have hskip {t t' : Site} (h : Refilled stops f NoCaptures t t') : Refilled stops f (FilledCaptures stops f) t t' := by
    obtain ⟨hedge, ⟨hnone, hnone'⟩, hafter⟩ := h
    refine ⟨hedge, ?_, hafter⟩
    rw [hnone, hnone']
    exact .none
  have hcapture {t t' : Site} (ht : PassesFilled stops f NoCaptures s s' t t') :
      Agree Q far (next ⟨t.before, t.after, (1, s.textUpTo t) :: t.captured⟩)
        (next' ⟨t'.before, t'.after, (1, s'.textUpTo t') :: t'.captured⟩) := by
    obtain ⟨⟨hedge, ⟨hnone, hnone'⟩, hafter⟩, as, has, htext, htext'⟩ := ht
    refine hnext ⟨hedge, ?_, hafter⟩
    show FilledCaptures stops f ((1, s.textUpTo t) :: t.captured) ((1, s'.textUpTo t') :: t'.captured)
    rw [hnone, hnone', htext, htext']
    exact .arguments has
  cases hq with
  | size hy =>
    obtain ⟨-, -, hfree⟩ := sizePattern_spec hy
    exact run_inStep (inStep_refilled hstops) (fun c hc => (hoff c hc).2 hfree) hfree h fun ht => hnext (hskip ht)
  | scale => exact run_scaleArguments_filled hstops (fun c hc => (hoff c hc).1) h hcapture
  | any => exact run_anyArguments_filled hstops h hcapture
  | optional => exact (run_anyArguments_filled hstops h hcapture).orElse (hnext (hskip h))

/-- A rule leads to the same places in filled texts. -/
theorem run_filled (hstops : AreStops stops) {r : TypeRule} (hshape : r.Shape) (hsteady : r.isSteady = true)
    (hoff : r.keepsOff stops = true) (h : Refilled stops f NoCaptures s s') :
    Agree (Refilled stops f (FilledCaptures stops f)) (fun _ => False) (run r.pattern s .some)
      (run r.pattern s' .some) := by
  obtain ⟨-, hlead, hback⟩ := isSteady_iff.1 hsteady
  have hoff := keepsOff_iff.1 hoff
  rw [run_pattern hshape, run_pattern hshape]
  refine run_inStep (inStep_refilled hstops) (fun c hc => (hoff c hc).1.1.1) hlead h fun ht => ?_
  refine run_middle_filled hstops (isMiddle hshape) (fun c hc => ⟨(hoff c hc).1.2, (hoff c hc).2⟩) ht fun hu => ?_
  exact run_inStep (inStep_refilled hstops) (fun c hc => (hoff c hc).1.1.2) hback hu .some

end TypeRule

namespace TypeTable

open TypeRule

variable {stops : List Char} {f : Nat → Text}

/-! ## Rules and tables -/

/-- A table whose rules have shapes, are regular, and take parentheses, commas and marks only in the
place of arguments. -/
structure IsSteady (types : TypeTable) : Prop where
  shape : ∀ r ∈ types.rules, r.word ≠ [] ∧ r.Shape
  regular : types.IsRegular
  steady : ∀ r ∈ types.rules, r.isSteady = true
  shows : ∀ r ∈ types.rules, r.showsArguments = true

theorem isSteady_of_eq {types : TypeTable} (h : types = oracleTypes ∨ types = mysqlTypes) :
    types.IsSteady := by
  obtain ⟨hregular, hshows⟩ := isRegular_of_eq h
  rcases h with rfl | rfl
  · exact ⟨fun r hr => oracle_orderly.shape hr, hregular, oracle_steady, hshows⟩
  · exact ⟨fun r hr => mysql_orderly.shape hr, hregular, mysql_steady, hshows⟩

/-- No type starts with a blank. -/
theorem rule_blank {r : TypeRule} (hshape : r.word ≠ [] ∧ r.Shape) {c : Char} (hc : isBlank c = true)
    (before after : Text) : r.pattern.matcher before (c :: after) = none := by
  refine TypeRule.matcher_none_of_word hshape (.inr fun hfold => ?_)
  have hstop : isWordCharacter c = false := not_wordCharacter_of_blank hc
  rw [List.takeWhile_cons_of_neg (by simp [hstop])] at hfold
  exact hshape.1 (List.map_eq_nil_iff.1 hfold.symm)

theorem matcher_blank {types : TypeTable} (ht : types.IsSteady) {c : Char} (hc : isBlank c = true)
    (before after : Text) : types.matcher before (c :: after) = none := by
  rw [matcher_eq]
  refine List.findSome?_eq_none_iff.2 fun r hr => ?_
  rw [tryRule, rule_blank (ht.shape r hr) hc]
  rfl

/-- A match starts with a character of a word. -/
theorem solid_of_match {r : TypeRule} (hshape : r.word ≠ [] ∧ r.Shape) {before : Text} {qs rs : List Part}
    (hne : qs ≠ []) {captures : List (Nat × Text)}
    (h : r.pattern.matcher before (render (qs ++ rs)) = some (render qs, captures)) :
    ∃ p ∈ qs, p.isSpace = false := by
  obtain ⟨p, qs, rfl⟩ := List.exists_cons_of_ne_nil hne
  refine ⟨p, List.mem_cons_self, ?_⟩
  cases p with
  | held n => rfl
  | code c =>
    rw [Part.isSpace, Bool.eq_false_iff]
    intro hblank
    rw [List.cons_append, render_cons] at h
    exact absurd ((rule_blank hshape hblank before _).symm.trans h) (by simp)

/-- The same match, but for what is filled into its arguments. A match without arguments holds no parenthesis, and
what stands in arguments is closed by one. -/
structure FilledMatch (stops : List Char) (f : Nat → Text) (types : TypeTable) (qs : List Part)
    (m m' : RuleMatch) : Prop where
  mem : m.rule ∈ types.rules
  rule : m'.rule = m.rule
  solid : ∃ p ∈ qs, p.isSpace = false
  arguments : (m.arguments = none ∧ m'.arguments = none) ∨ ∃ as, Fills stops f as ∧ numbers as = numbers qs ∧
    m.arguments = some (render as) ∧ m'.arguments = some (spell f as)
  bare : m.arguments = none → m.rule.sourceHasArguments = false → '(' ∉ render qs
  closed : ∀ xs n ys, qs = xs ++ .held n :: ys → .code ')' ∈ ys

/-- What stands in the arguments of a match is closed by a parenthesis. -/
theorem closed_of_match {r : TypeRule} (hr : r.isRegular = true) {before : Text} {qs rs : List Part}
    {captures : List (Nat × Text)}
    (h : r.pattern.matcher before (render (qs ++ rs)) = some (render qs, captures)) {xs ys : List Part} {n : Nat}
    (hqs : qs = xs ++ .held n :: ys) : .code ')' ∈ ys := by
  simp only [isRegular, Bool.and_eq_true, Bool.not_eq_true'] at hr
  obtain ⟨⟨⟨⟨⟨⟨hfront, -⟩, hback⟩, -⟩, -⟩, -⟩, -⟩ := hr
  obtain ⟨t, hreach, htaken, -, -⟩ := Pattern.matcher_reaches h
  obtain ⟨u, v, hu, hv, ht⟩ := reaches_pattern hreach
  obtain ⟨g, hg, -, hgmark⟩ := hu.avoids hfront
  obtain ⟨b, hb, -, hbmark⟩ := ht.avoids hback
  -- the taken text is that of words, perhaps arguments, and words
  have hwords : ∃ x, render qs = g ++ (x ++ b) ∧ (x = [] ∨ ∃ y, x = y ++ [')']) := by
    rcases reaches_arguments hv with rfl | ⟨y, hy, -⟩
    · refine ⟨[], List.append_cancel_right (htaken.symm.trans ?_), .inl rfl⟩
      rw [List.nil_append, List.append_assoc, ← hb]
      exact hg
    · refine ⟨y ++ [')'], List.append_cancel_right (htaken.symm.trans ?_), .inr ⟨y, rfl⟩⟩
      rw [show g ++ (y ++ [')'] ++ b) ++ t.after = g ++ (y ++ ')' :: (b ++ t.after)) by simp, ← hb, ← hy]
      exact hg
  obtain ⟨x, htext, hx⟩ := hwords
  obtain ⟨zs, hzs, hxb⟩ := render_eq_append hgmark htext
  have hheld {zs : List Part} (hmark : mark ∉ render zs) : .held n ∉ zs := fun hn => by
    refine hmark (List.mem_flatMap.2 ⟨_, hn, ?_⟩)
    simp [Part.text, placeholder]
  have hcode (t : Text) : .held n ∉ t.map Part.code := by simp
  have hn : .held n ∈ zs := by
    have hmem : .held n ∈ g.map Part.code ++ zs := by rw [← hzs, hqs]; simp
    exact (List.mem_append.1 hmem).resolve_left (hcode g)
  rcases hx with rfl | ⟨y, rfl⟩
  · rw [List.nil_append] at hxb
    exact absurd hn (hheld (hxb ▸ hbmark))
  · obtain ⟨as, ws, rfl, -, hws⟩ := render_eq_append_cons (c := ')') (x := y) (y := b) (by decide) (by decide)
      (by simpa using hxb.symm)
    have hlast : .held n ∉ ws := hheld (hws ▸ hbmark)
    have hsplit : (g.map Part.code ++ as) ++ .code ')' :: ws = xs ++ .held n :: ys := by
      rw [← hqs, hzs, List.append_assoc]
    rcases List.append_eq_append_iff.1 hsplit with ⟨zs, -, hzs⟩ | ⟨zs, -, hzs⟩
    · -- behind the parenthesis there is no placeholder
      have hmem : .held n ∈ Part.code ')' :: ws := by rw [hzs]; simp
      simp [hlast] at hmem
    · cases zs with
      | nil => cases hzs
      | cons p zs =>
        obtain ⟨rfl, rfl⟩ := List.cons.inj hzs
        simp

/-- A rule of the table finds the same matches in filled texts. -/
theorem rule_filled {types : TypeTable} (ht : types.IsSteady) (hstops : AreStops stops) {r : TypeRule}
    (hr : r ∈ types.rules) (hoff : r.keepsOff stops = true) {before before' : Text} {ps : List Part}
    (hplace : before.head?.any isWordCharacter = before'.head?.any isWordCharacter ∨
      (render ps).head?.any isWordCharacter = false) (hps : Fills stops f ps) :
    (tryRule before (render ps) r = none ∧ tryRule before' (spell f ps) r = none) ∨
    ∃ qs rs m m', ps = qs ++ rs ∧ qs ≠ [] ∧ tryRule before (render ps) r = some (render qs, m) ∧
      tryRule before' (spell f ps) r = some (spell f qs, m') ∧ types.FilledMatch stops f qs m m' := by
  have hshape := ht.shape r hr
  cases hword : (render ps).head?.any isWordCharacter with
  | false =>
    -- types start with words
    have hnone {before after : Text} (h : after.head?.any isWordCharacter = false) : tryRule before after r = none := by
      rw [tryRule, TypeRule.matcher_none_of_word hshape (.inr fun hfold => hshape.1 ?_)]
      · rfl
      · have hrun : after.takeWhile isWordCharacter = [] := by
          cases after with
          | nil => rfl
          | cons c after => exact List.takeWhile_cons_of_neg (by simpa using h)
        rw [hrun] at hfold
        exact List.map_eq_nil_iff.1 hfold.symm
    exact .inl ⟨hnone hword, hnone ((hps.any_head? hstops hstops.word).symm.trans hword)⟩
  | true =>
    have hedge := hplace.resolve_right (by simp [hword])
    have hparts {taken : Text} {captures : List (Nat × Text)}
        (h : r.pattern.matcher before (render ps) = some (taken, captures)) :=
      TypeRule.match_parts (ht.regular r hr) hps.sound h
    have htakes {taken : Text} {captures : List (Nat × Text)}
        (h : r.pattern.matcher before (render ps) = some (taken, captures)) :
        taken ≠ [] ∧ ∃ qs rs, ps = qs ++ rs ∧ taken = render qs := by
      obtain ⟨hne, qs, rs, hsplit, htaken, -⟩ := hparts h
      exact ⟨hne, qs, rs, hsplit, htaken⟩
    rcases Pattern.matcher_refilled (C := FilledCaptures stops f) hps
        (run_filled hstops hshape.2 (ht.steady r hr) hoff ⟨hedge, ⟨rfl, rfl⟩, ps, hps, rfl, rfl⟩) htakes with
      ⟨hnone, hnone'⟩ | ⟨qs, rs, v, v', rfl, hne, hmatch, hmatch', hcaptures⟩
    · exact .inl ⟨by rw [tryRule, hnone]; rfl, by rw [tryRule, hnone']; rfl⟩
    · have hsolid := solid_of_match hshape hne hmatch
      have hclosed (xs : List Part) (n : Nat) (ys : List Part) (hqs : qs = xs ++ .held n :: ys) : .code ')' ∈ ys :=
        closed_of_match (ht.regular r hr) hmatch hqs
      rw [tryRule, tryRule, hmatch, hmatch']
      cases hcaptures with
      | none =>
        have hbare (hsource : r.sourceHasArguments = false) : '(' ∉ render qs := by
          rw [TypeRule.mem_paren_iff (ht.regular r hr) (ht.shows r hr) hmatch]
          simp [hsource]
        exact .inr ⟨qs, rs, _, _, rfl, hne, rfl, rfl, hr, rfl, hsolid, .inl ⟨rfl, rfl⟩, fun _ => hbare, hclosed⟩
      | @arguments as has =>
        obtain ⟨-, qs', rs', hqs', htaken, hcases⟩ := hparts hmatch
        obtain rfl : qs = qs' := by
          refine render_inj hps.left.sound ?_ htaken
          have hsound := hps.sound
          rw [hqs'] at hsound
          exact (sound_append.1 hsound).1
        rcases hcases with ⟨hnil, -⟩ | ⟨as', has', hsound, hsame, hnumbers⟩
        · cases hnil
        · have htext : render as = render as' := by simpa using hsame
          obtain rfl := render_inj has.sound hsound htext
          have hargs : render as ≠ [] ∧ spell f as ≠ [] := by
            obtain ⟨p, as, rfl⟩ := List.exists_cons_of_ne_nil has'
            cases p with
            | code c => exact ⟨List.cons_ne_nil _ _, List.cons_ne_nil _ _⟩
            | held n =>
              obtain ⟨c, -, t, hn⟩ := has.starts n List.mem_cons_self
              exact ⟨List.cons_ne_nil _ _, by simp [hn]⟩
          have hfilter {t : Text} (h : t ≠ []) : (captured 1 [(1, t)]).filter (fun t => !t.isEmpty) = some t := by
            simp [captured, h]
          exact .inr ⟨qs, rs, _, _, rfl, hne, rfl, rfl, hr, rfl, hsolid,
            .inr ⟨as, has, hnumbers, hfilter hargs.1, hfilter hargs.2⟩,
            fun hnone => absurd ((hfilter hargs.1).symm.trans hnone) (by simp), hclosed⟩

/-- The table finds the same matches in filled texts. -/
theorem matcher_respectsFilling {types : TypeTable} (ht : types.IsSteady) (hstops : AreStops stops)
    (hoff : ∀ r ∈ types.rules, r.keepsOff stops = true) :
    RespectsFilling stops f types.matcher (types.FilledMatch stops f) where
  nil := (matcher_respects ht.regular).nil
  start := (matcher_respects ht.regular).start
  filled {before before' ps} hplace hps := by
    rw [matcher_eq, matcher_eq]
    have hrules (rules : List TypeRule) (hsub : ∀ r ∈ rules, r ∈ types.rules) :
        (rules.findSome? (tryRule before (render ps)) = none ∧
          rules.findSome? (tryRule before' (spell f ps)) = none) ∨
        ∃ qs rs m m', ps = qs ++ rs ∧ qs ≠ [] ∧
          rules.findSome? (tryRule before (render ps)) = some (render qs, m) ∧
          rules.findSome? (tryRule before' (spell f ps)) = some (spell f qs, m') ∧
          types.FilledMatch stops f qs m m' := by
      induction rules with
      | nil => exact .inl ⟨rfl, rfl⟩
      | cons r rules ih =>
        obtain ⟨hr, hsub⟩ := List.forall_mem_cons.1 hsub
        rw [List.findSome?_cons, List.findSome?_cons]
        rcases rule_filled ht hstops hr (hoff r hr) hplace hps with
          ⟨hnone, hnone'⟩ | ⟨qs, rs, m, m', hparts, hne, hsome, hsome', hm⟩
        · rw [hnone, hnone']
          exact ih hsub
        · rw [hsome, hsome']
          exact .inr ⟨qs, rs, m, m', hparts, hne, rfl, rfl, hm⟩
    exact hrules types.rules fun _ h => h

end TypeTable

end DialectBridge
