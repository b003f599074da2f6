import DialectBridge.Proofs.Types.Renumbering
import DialectBridge.Types.MySql
import DialectBridge.Types.Oracle

/-!
# What a type rule matches

A type is written with its arguments behind its first word. The words hold no mark, so the
placeholders in a match stand in the arguments, and these end in a parenthesis. So a match is made of
whole parts of a masked text.
-/

namespace DialectBridge

open Masked

theorem eq_rightParen {c : Char} (h : sameLetter ')' c = true) : c = ')' := by
  rcases sameLetter_ascii (by decide) h with ⟨hascii, hlower⟩ | hmem
  · exact forall_ascii (P := fun c => ')'.toLower = c.toLower → c = ')') (by decide) hascii hlower
  · revert h
    simp only [foldsToAscii, List.mem_cons, List.not_mem_nil, or_false] at hmem
    rcases hmem with rfl | rfl <;> decide

namespace TypeRule

open Pattern

/-- The pattern of a rule up to its arguments. -/
def front (r : TypeRule) : Pattern :=
  if r.isMultiWord && !r.sourceHasArguments then
    sequence [edge, text (r.source.takeWhile fun c => !isBlank c), edge]
  else sequence [edge, sourcePattern r.source]

/-- The pattern of a rule behind its arguments. -/
def back (r : TypeRule) : Pattern :=
  if r.isMultiWord && !r.sourceHasArguments then
    sequence [space, sourcePattern (Text.trimStart (r.source.dropWhile fun c => !isBlank c))]
  else empty

theorem reaches_pattern {r : TypeRule} {s t : Site} (h : Reaches r.pattern s t) :
    ∃ u v, Reaches r.front s u ∧ Reaches r.argumentsPattern u v ∧ Reaches r.back v t := by
  unfold pattern at h
  unfold front back
  by_cases hmulti : (r.isMultiWord && !r.sourceHasArguments) = true
  · rw [if_pos hmulti] at h
    rw [if_pos hmulti, if_pos hmulti]
    obtain ⟨u, hfront, v, hargs, hback⟩ := reaches_sequence_append [edge, text _, edge] h
    exact ⟨u, v, hfront, hargs, hback⟩
  · rw [if_neg hmulti] at h
    rw [if_neg hmulti, if_neg hmulti]
    obtain ⟨u, hfront, v, hargs, hback⟩ := reaches_sequence_append [edge, sourcePattern _] h
    exact ⟨u, v, hfront, hargs, hback⟩

/-- Arguments in parentheses end in one. -/
theorem reaches_closing {ps : List Pattern} {s t : Site}
    (h : Reaches (sequence (ps ++ [letter ')'])) s t) : ∃ x, s.after = x ++ ')' :: t.after := by
  obtain ⟨u, hps, v, ⟨d, rest, hafter, hd, rfl⟩, rfl⟩ := reaches_sequence_append ps h
  obtain ⟨x, hx, -⟩ := hps.split
  obtain rfl := eq_rightParen hd
  exact ⟨x, by rw [hx, hafter]⟩

/-- The arguments of a type are captured under the number 1, or there are none. -/
theorem reaches_arguments {r : TypeRule} {s t : Site} (h : Reaches r.argumentsPattern s t) :
    t = s ∨ ∃ x, s.after = x ++ ')' :: t.after ∧ t.captured = (1, x ++ [')']) :: s.captured := by
  have hcapture (ps : List Pattern) {t : Site}
      (hfree : (sequence (ps ++ [letter ')'])).captureFree = true)
      (h : Reaches (.capture 1 (sequence (ps ++ [letter ')']))) s t) :
      ∃ x, s.after = x ++ ')' :: t.after ∧ t.captured = (1, x ++ [')']) :: s.captured := by
    obtain ⟨u, hu, rfl⟩ := h
    obtain ⟨x, hx⟩ := reaches_closing hu
    have htext : s.textUpTo u = x ++ [')'] := textUpTo_eq (by rw [hx]; simp)
    exact ⟨x, hx, by rw [htext, hu.captured hfree]⟩
  unfold argumentsPattern at h
  split at h
  · exact .inl h
  split at h
  · exact .inr (hcapture [gap, letter '(', gap, digits, gap, letter ',', gap, digits, gap] rfl h)
  split at h
  · exact .inr (hcapture [gap, letter '(', many _] rfl h)
  · rcases h with h | h
    · exact .inr (hcapture [gap, letter '(', many _] rfl h)
    · exact .inl h

/-! ## Regular rules -/

/-- The digits of ASCII. -/
def asciiDigits : List Char :=
  ['0', '1', '2', '3', '4', '5', '6', '7', '8', '9']

/-- The rule writes no mark and takes none outside the arguments, captures only these, and does not
match nothing nor from within a placeholder. -/
def isRegular (r : TypeRule) : Bool :=
  r.front.avoids mark && r.front.captureFree && r.back.avoids mark && r.back.captureFree &&
    !r.pattern.nullable && (mark :: asciiDigits).all (fun c => !r.pattern.startsWith c) &&
    !r.target.contains mark

theorem oracle_regular : ∀ r ∈ oracleTypes.rules, r.isRegular = true := by
  decide +kernel

theorem mysql_regular : ∀ r ∈ mysqlTypes.rules, r.isRegular = true := by
  decide +kernel

/-- A match of a regular rule is made of whole parts, and its placeholders are those of the captured
arguments. -/
theorem match_splits {r : TypeRule} (hr : r.isRegular = true) {before taken : Text} {ps : List Part}
    {captures : List (Nat × Text)} (h : r.pattern.matcher before (render ps) = some (taken, captures)) :
    taken ≠ [] ∧ ∃ qs rs, ps = qs ++ rs ∧ taken = render qs ∧
      ((captures = [] ∧ numbers qs = []) ∨
        ∃ as, as ≠ [] ∧ (Sound ps → Sound as) ∧ captures = [(1, render as)] ∧ numbers as = numbers qs) := by
  simp only [isRegular, Bool.and_eq_true, Bool.not_eq_true'] at hr
  obtain ⟨⟨⟨⟨⟨⟨hfront, hfrontFree⟩, hback⟩, hbackFree⟩, hnull⟩, -⟩, -⟩ := hr
  obtain ⟨t, hreach, htaken, -, hcaptured⟩ := Pattern.matcher_reaches h
  obtain ⟨u, v, hu, hv, ht⟩ := reaches_pattern hreach
  obtain ⟨f, hf, -, hfmark⟩ := hu.avoids hfront
  obtain ⟨b, hb, -, hbmark⟩ := ht.avoids hback
  have hne : taken ≠ [] := by
    obtain ⟨c, rest, rfl, -⟩ := Pattern.matcher_start hnull h
    exact List.cons_ne_nil c rest
  refine ⟨hne, ?_⟩
  obtain ⟨rs, rfl, hrs⟩ := render_eq_append hfmark hf
  have hcaptured : captures = v.captured := by rw [← hcaptured, ht.captured hbackFree]
  have hufree : u.captured = [] := hu.captured hfrontFree
  rcases reaches_arguments hv with rfl | ⟨x, hx, hxcaptured⟩
  · -- no arguments
    rw [hrs] at hb
    obtain ⟨rest, rfl, hrest⟩ := render_eq_append hbmark hb
    refine ⟨f.map .code ++ b.map .code, rest, by simp, ?_, .inl ⟨by rw [hcaptured, hufree], ?_⟩⟩
    · rw [hrest] at htaken
      exact List.append_cancel_right (htaken.symm.trans (by simp))
    · simp [numbers_map_code]
  · -- the arguments end in a parenthesis, which is a part of its own
    rw [hrs] at hx
    obtain ⟨as, rest, rfl, rfl, hrest⟩ := render_eq_append_cons (by decide) (by decide) hx
    rw [hrest] at hb
    obtain ⟨rest', rfl, hrest'⟩ := render_eq_append hbmark hb
    refine ⟨f.map .code ++ (as ++ .code ')' :: b.map .code), rest', by simp, ?_,
      .inr ⟨as ++ [.code ')'], by simp, ?_, ?_, ?_⟩⟩
    · rw [hrest'] at htaken
      exact List.append_cancel_right (htaken.symm.trans (by simp))
    · intro hps
      exact sound_append.2 ⟨(sound_append.1 (sound_append.1 hps).2).1, sound_cons.2 ⟨by decide, List.not_mem_nil⟩⟩
    · rw [hcaptured, hxcaptured, hufree]
      simp [Part.text]
    · simp
      rfl

/-- Where no code is the mark, the captured arguments are parts of a masked text as well. -/
theorem match_parts {r : TypeRule} (hr : r.isRegular = true) {before taken : Text} {ps : List Part}
    {captures : List (Nat × Text)} (hps : Sound ps)
    (h : r.pattern.matcher before (render ps) = some (taken, captures)) :
    taken ≠ [] ∧ ∃ qs rs, ps = qs ++ rs ∧ taken = render qs ∧
      ((captures = [] ∧ numbers qs = []) ∨
        ∃ as, as ≠ [] ∧ Sound as ∧ captures = [(1, render as)] ∧ numbers as = numbers qs) := by
  obtain ⟨hne, qs, rs, hqs, htaken, hcases⟩ := match_splits hr h
  refine ⟨hne, qs, rs, hqs, htaken, hcases.imp_right ?_⟩
  rintro ⟨as, has, hsound, hcaptures⟩
  exact ⟨as, has, hsound hps, hcaptures⟩

theorem isDigit_mem {c : Char} (h : c.isDigit = true) : c ∈ asciiDigits :=
  forall_ascii (P := fun c => c.isDigit = true → c ∈ asciiDigits) (by decide) (toNat_lt_of_digit h) h

/-- A regular rule does not match from within a placeholder. -/
theorem match_start {r : TypeRule} (hr : r.isRegular = true) {before after : Text} {c : Char}
    {found : Text × List (Nat × Text)} (h : r.pattern.matcher before (c :: after) = some found) :
    c ≠ mark ∧ c.isDigit = false := by
  simp only [isRegular, Bool.and_eq_true, Bool.not_eq_true', List.all_eq_true] at hr
  obtain ⟨⟨⟨-, hnull⟩, hstarts⟩, -⟩ := hr
  obtain ⟨d, rest, htaken, hstart⟩ := Pattern.matcher_start hnull (show _ = some (found.1, found.2) from h)
  obtain ⟨tail, htail⟩ := Pattern.matcher_takesPrefix _ h
  rw [htaken] at htail
  obtain ⟨rfl, -⟩ := List.cons.inj htail
  have hd : d ∉ mark :: asciiDigits := fun hmem => by
    rw [hstarts d hmem] at hstart
    cases hstart
  rw [List.mem_cons, not_or] at hd
  exact ⟨hd.1, Bool.eq_false_iff.2 fun hdigit => hd.2 (isDigit_mem hdigit)⟩

end TypeRule

namespace TypeTable

/-- Every rule of the table is regular. -/
def IsRegular (types : TypeTable) : Prop :=
  ∀ r ∈ types.rules, r.isRegular = true

/-- A match of a table is a match of one of its rules. -/
theorem matcher_rule {types : TypeTable} {before after taken : Text} {m : RuleMatch}
    (h : types.matcher before after = some (taken, m)) :
    m.rule ∈ types.rules ∧ ∃ captures, m.rule.pattern.matcher before after = some (taken, captures) ∧
      m.arguments = (captured 1 captures).filter fun t => !t.isEmpty := by
  obtain ⟨r, hr, hmatch⟩ := List.exists_of_findSome?_eq_some h
  obtain ⟨⟨taken', captures⟩, hrule, heq⟩ := Option.map_eq_some_iff.1 hmatch
  cases heq
  exact ⟨hr, captures, hrule, rfl⟩

theorem matcher_takesPrefix (types : TypeTable) : types.matcher.TakesPrefix := by
  intro before after taken value h
  obtain ⟨-, captures, hmatch, -⟩ := matcher_rule h
  exact Pattern.matcher_takesPrefix _ hmatch

/-- A match of a regular table is made of whole parts, and its placeholders are those of its
arguments. -/
theorem matcher_parts {types : TypeTable} (ht : types.IsRegular) {before taken : Text}
    {ps : List Part} {m : RuleMatch} (hps : Sound ps)
    (h : types.matcher before (render ps) = some (taken, m)) :
    taken ≠ [] ∧ ∃ qs rs, ps = qs ++ rs ∧ taken = render qs ∧
      ((m.arguments = none ∧ numbers qs = []) ∨
        ∃ as, Sound as ∧ m.arguments = some (render as) ∧ numbers as = numbers qs) := by
  obtain ⟨hr, captures, hmatch, harguments⟩ := matcher_rule h
  obtain ⟨hne, qs, rs, rfl, rfl, hcases⟩ := TypeRule.match_parts (ht _ hr) hps hmatch
  refine ⟨hne, qs, rs, rfl, rfl, ?_⟩
  rcases hcases with ⟨rfl, hnumbers⟩ | ⟨as, has, hsound, rfl, hnumbers⟩
  · exact .inl ⟨harguments, hnumbers⟩
  · refine .inr ⟨as, hsound, ?_, hnumbers⟩
    have hrender : (render as).isEmpty = false := by
      obtain ⟨p, ps, rfl⟩ := List.exists_cons_of_ne_nil has
      cases p <;> rfl
    simp [harguments, captured, hrender]

/-- A match is made of whole parts, also where code is the mark. -/
theorem matcher_splits {types : TypeTable} (ht : types.IsRegular) {before taken : Text} {ps : List Part}
    {m : RuleMatch} (h : types.matcher before (render ps) = some (taken, m)) :
    taken ≠ [] ∧ ∃ qs rs, ps = qs ++ rs ∧ taken = render qs := by
  obtain ⟨hr, captures, hmatch, -⟩ := matcher_rule h
  obtain ⟨hne, qs, rs, hqs, htaken, -⟩ := TypeRule.match_splits (ht _ hr) hmatch
  exact ⟨hne, qs, rs, hqs, htaken⟩

theorem matcher_respects {types : TypeTable} (ht : types.IsRegular) : Respects types.matcher where
  nil before := by
    cases h : types.matcher before [] with
    | none => rfl
    | some found =>
      have h : types.matcher before (render []) = some (found.1, found.2) := h
      obtain ⟨hne, qs, rs, hqs, htaken⟩ := matcher_splits ht h
      obtain ⟨rfl, -⟩ := List.append_eq_nil_iff.1 hqs.symm
      exact absurd htaken hne
  start h := by
    obtain ⟨hr, captures, hmatch, -⟩ := matcher_rule h
    exact TypeRule.match_start (ht _ hr) hmatch
  parts _ h := matcher_splits ht h

/-- A script that is code as a whole needs no mask. -/
theorem convertScript_of_unmasked (types : TypeTable) {t : Text} (h : Segment.shielded (segments t) = []) :
    types.convertScript t = types.convertText t := by
  rw [convertScript, ofScript_of_code h]
  simp only [restore_nil]
  exact congrArg _ (List.map_id _)

/-! ## Sizes -/

theorem filter_blank_text (p : Part) :
    p.text.filter (fun c => !isBlank c) = if p.isSpace then [] else p.text := by
  cases p with
  | code c => cases hc : isBlank c <;> simp [Part.text, Part.isSpace, hc]
  | held n =>
    refine List.filter_eq_self.2 fun c hc => ?_
    rcases mem_placeholder hc with rfl | hdigit
    · decide
    · simp [not_blank_of_digit hdigit]

theorem render_filter_blank (ps : List Part) :
    (render ps).filter (fun c => !isBlank c) = render (ps.filter fun p => !p.isSpace) := by
  induction ps with
  | nil => rfl
  | cons p ps ih =>
    rw [render_cons, List.filter_append, filter_blank_text, ih, List.filter_cons]
    cases hp : p.isSpace <;> simp

theorem numbers_filter_space (ps : List Part) : numbers (ps.filter fun p => !p.isSpace) = numbers ps := by
  induction ps with
  | nil => rfl
  | cons p ps ih =>
    cases p with
    | code c => cases hc : isBlank c <;> simpa [Part.isSpace, hc] using ih
    | held n => simpa [numbers, Part.isSpace, Part.number?] using ih

variable {stops : List Char} {f : Nat → Text}

theorem lengthUnit_none {c : Char} (hc : isBlank c = false) (before after : Text) :
    lengthUnit.matcher before (c :: after) = none := by
  cases h : lengthUnit.matcher before (c :: after) with
  | none => rfl
  | some found =>
    obtain ⟨d, rest, htaken, hd⟩ := Pattern.matcher_start (by decide) h
    have hprefix := Pattern.matcher_takesPrefix _ h
    rw [htaken] at hprefix
    obtain rfl : d = c := (List.cons_prefix_cons.1 hprefix).1
    have hblank : isBlank d = true := by
      simpa [lengthUnit, Pattern.sequence, Pattern.space, Pattern.some, Pattern.startsWith,
        Pattern.nullable] using hd
    rw [hc] at hblank
    cases hblank

theorem lengthUnit_nil (before : Text) : lengthUnit.matcher before [] = none := by
  cases h : lengthUnit.matcher before [] with
  | none => rfl
  | some found =>
    obtain ⟨c, rest, htaken, -⟩ := Pattern.matcher_start (by decide) h
    have hprefix := Pattern.matcher_takesPrefix _ h
    rw [htaken] at hprefix
    cases List.prefix_nil.1 hprefix

/-- The unit of a length starts with a blank and holds no stop. -/
theorem lengthUnit_respectsFilling (hstops : AreStops stops) (havoids : ∀ c ∈ stops, lengthUnit.avoids c = true) :
    RespectsFilling stops f lengthUnit.matcher fun qs _ _ => numbers qs = [] where
  nil := lengthUnit_nil
  start {before after c found} h := by
    have hblank : isBlank c = true := by
      rw [← Bool.not_eq_false]
      intro hblank
      rw [lengthUnit_none hblank] at h
      cases h
    refine ⟨?_, Bool.eq_false_iff.2 fun hdigit => ?_⟩
    · rintro rfl
      exact absurd hblank (by decide)
    · rw [not_blank_of_digit hdigit] at hblank
      cases hblank
  filled {before before' ps} _ hps := by
    have hmark {taken : Text} {v : List (Nat × Text)} (h : lengthUnit.matcher before (render ps) = some (taken, v)) :
        mark ∉ taken := Pattern.matcher_avoids (havoids mark hstops.mark) h
    cases ps with
    | nil => exact .inl ⟨lengthUnit_nil _, lengthUnit_nil _⟩
    | cons p ps =>
      cases p with
      | held n =>
        obtain ⟨c, hc, t, ht⟩ := hps.starts n List.mem_cons_self
        refine .inl ⟨lengthUnit_none (hstops.blank mark hstops.mark) _ _, ?_⟩
        rw [spell_cons, Part.spelled_held, ht]
        exact lengthUnit_none (hstops.blank c hc) _ _
      | code c =>
        cases hblank : isBlank c with
        | false => exact .inl ⟨lengthUnit_none hblank _ _, lengthUnit_none hblank _ _⟩
        | true =>
          -- behind the first blank both sides show the same
          let behind : Pattern := .sequence [.gap, .either (.text "CHAR") (.text "BYTE"), .gap, .letter ')']
          have hfirst (before after : Text) : Pattern.run lengthUnit ⟨before, c :: after, []⟩ .some =
              Pattern.run behind ⟨c :: before, after, []⟩ .some := by
            change Pattern.passOne isBlank ⟨before, c :: after, []⟩ (fun t => Pattern.run behind t .some) = _
            rw [Pattern.passOne]
            exact if_pos hblank
          have hbehind : ∀ d ∈ stops, behind.avoids d = true := by
            intro d hd
            have := havoids d hd
            simp only [lengthUnit, Pattern.sequence, List.foldr, Pattern.space, Pattern.some, Pattern.avoids,
              Bool.and_eq_true] at this
            simp only [behind, Pattern.sequence, List.foldr, Pattern.gap, Pattern.avoids, Bool.and_eq_true]
            exact ⟨this.1.2, this.2⟩
          have hagree : Pattern.Agree (Pattern.Refilled stops f fun _ _ => True) (fun _ => False)
              (Pattern.run lengthUnit ⟨before, render (.code c :: ps), []⟩ .some)
              (Pattern.run lengthUnit ⟨before', spell f (.code c :: ps), []⟩ .some) := by
            refine (hfirst before (render ps)).symm ▸ (hfirst before' (spell f ps)).symm ▸ ?_
            exact Pattern.run_inStep (Pattern.inStep_refilled hstops) hbehind rfl
              ⟨rfl, trivial, ps, hps.tail, rfl, rfl⟩ .some
          refine (Pattern.matcher_refilled hps hagree fun {taken captures} h => ?_).imp_right ?_
          · obtain ⟨d, rest, htaken, -⟩ := Pattern.matcher_start (by decide) h
            obtain ⟨rest', hrest⟩ := Pattern.matcher_takesPrefix _ h
            obtain ⟨rs, hparts, -⟩ := render_eq_append (hmark h) hrest.symm
            exact ⟨by simp [htaken], _, rs, hparts, (render_map_code taken).symm⟩
          · rintro ⟨qs, rs, v, v', hparts, hne, hmatch, hmatch', -⟩
            refine ⟨qs, rs, v, v', hparts, hne, hmatch, hmatch', ?_⟩
            rw [eq_map_code (hmark hmatch), numbers_map_code]

/-- Normalising a size commutes with filling its placeholders with texts without blanks. -/
theorem carriedSize_filled (hstops : AreStops stops) (havoids : ∀ c ∈ stops, lengthUnit.avoids c = true)
    {ps : List Part} (h : Fills stops f ps) (hblank : ∀ n, .held n ∈ ps → ∀ c ∈ f n, isBlank c = false) :
    ∃ ws, Sound ws ∧ numbers ws = numbers ps ∧ carriedSize (render ps) = render ws ∧
      carriedSize (spell f ps) = spell f ws := by
  have hquiet (n : Nat) (hn : .held n ∈ ps) : Quiet stops lengthUnit.matcher (f n) := by
    intro x y before rest hu hy _
    obtain ⟨c, y, rfl⟩ := List.exists_cons_of_ne_nil hy
    exact lengthUnit_none (hblank n hn c (by simp [hu])) _ _
  obtain ⟨vs, hvs, hnumbers, hreplace, hreplace'⟩ :=
    replaceFirst_filled hstops (lengthUnit_respectsFilling hstops havoids) id (w := [')']) (by decide) h hquiet
  have hfilter (vs : List Part) (hvs : ∀ n, .held n ∈ vs → ∀ c ∈ f n, isBlank c = false) :
      (spell f vs).filter (fun c => !isBlank c) = spell f (vs.filter fun p => !p.isSpace) := by
    induction vs with
    | nil => rfl
    | cons p vs ih =>
      rw [spell_cons, List.filter_append, ih fun n hn => hvs n (List.mem_cons_of_mem p hn), List.filter_cons]
      cases p with
      | code c => cases hc : isBlank c <;> simp [Part.isSpace, hc]
      | held n =>
        have hall : (f n).filter (fun c => !isBlank c) = f n :=
          List.filter_eq_self.2 fun c hc => by simp [hvs n List.mem_cons_self c hc]
        simp [Part.isSpace, hall]
  refine ⟨vs.filter fun p => !p.isSpace, fun hmem => hvs (List.mem_filter.1 hmem).1, ?_, ?_, ?_⟩
  · rw [numbers_filter_space, hnumbers]
  · rw [carriedSize, hreplace, render_filter_blank]
  · rw [carriedSize, hreplace']
    refine hfilter vs fun n hn => hblank n ?_
    rw [← mem_numbers, ← hnumbers, mem_numbers]
    exact hn

/-- Normalising a size keeps its placeholders, whatever their numbers. -/
theorem carriedSize_later {ps : List Part} (h : Sound ps) :
    ∃ ws, Sound ws ∧ numbers ws = numbers ps ∧ carriedSize (render ps) = render ws ∧
      carriedSize (render (ps.map Part.later)) = render (ws.map Part.later) := by
  have havoids : lengthUnit.avoids mark = true := by decide
  obtain ⟨ws, hws, hnumbers, hcarried, hcarried'⟩ :=
    carriedSize_filled areStops_mark (List.forall_mem_singleton.2 havoids) (fills_later.2 h) fun n _ c hc =>
      blank_laterPlaceholder hc
  rw [spell_later, spell_later] at hcarried'
  exact ⟨ws, hws, hnumbers, hcarried, hcarried'⟩

end TypeTable

end DialectBridge
