import DialectBridge.Proofs.Idiom.Absence
import DialectBridge.Proofs.Types.Unmasked

/-!
# Replacing whole words

A type and an idiom are found where a word stands as a whole, as far as patterns tell words: by letters, digits and the
underscore. Of the other characters in identifiers, `$` and `#` among them, the patterns see none, so a match may lie in
a longer identifier exactly where one of these stands next to it (`matches_stand_whole`).
-/

namespace DialectBridge

open Pattern

/-- The taken text starts where no word goes on, and if it ends in a word, it ends where no word goes on. What stands
before it is written with the nearest character first. -/
structure StandsWhole (before taken after : Text) : Prop where
  starts : before.head?.any isWordCharacter = false
  ends : taken.getLast?.any isWordCharacter = true → after.head?.any isWordCharacter = false

/-- Of the characters of identifiers, patterns overlook this one. -/
def isOverlooked (c : Char) : Bool :=
  isIdentifierCharacter c && !isWordCharacter c

/-- The taken text starts or ends within a longer identifier. -/
def LiesWithin (before taken after : Text) : Prop :=
  before.head?.any isIdentifierCharacter = true ∨
    taken.getLast?.any isWordCharacter = true ∧ after.head?.any isIdentifierCharacter = true

/-- In ASCII, patterns overlook the dollar and the number sign. -/
theorem isOverlooked_iff_of_ascii {c : Char} (h : c.toNat < 128) : isOverlooked c = true ↔ c = '$' ∨ c = '#' := by
  rw [isOverlooked, wordCharacter_of_ascii h]
  exact forall_ascii (P := fun c => (isIdentifierCharacter c && !isBare c) = true ↔ c = '$' ∨ c = '#')
    (by decide +kernel) h

/-- A text that stands whole lies within a longer identifier exactly if an overlooked character stands next to it. -/
theorem StandsWhole.liesWithin_iff {before taken after : Text} (h : StandsWhole before taken after) :
    LiesWithin before taken after ↔ before.head?.any isOverlooked = true ∨
      taken.getLast?.any isWordCharacter = true ∧ after.head?.any isOverlooked = true := by
  have hsame {t : Text} (ht : t.head?.any isWordCharacter = false) :
      t.head?.any isIdentifierCharacter = t.head?.any isOverlooked := by
    cases t with
    | nil => rfl
    | cons c t =>
      have hc : isWordCharacter c = false := ht
      simp [isOverlooked, hc]
  rw [LiesWithin, hsame h.starts]
  exact or_congr_right (and_congr_right fun htaken => by rw [hsame (h.ends htaken)])

namespace Pattern

/-! ## Patterns that end where a word ends -/

/-- Where the pattern leads behind a word character, none follows. -/
def Finishes (p : Pattern) : Prop :=
  ∀ ⦃s t⦄, Reaches p s t → t.before.head?.any isWordCharacter = true → t.after.head?.any isWordCharacter = false

theorem finishes_edge : Finishes edge := by
  rintro s t ⟨hedge, rfl⟩ hbefore
  simpa [Site.isEdge, hbefore] using hedge

/-- Behind a sign no word goes on. -/
theorem finishes_sign {c : Char} (hc : ∀ d, sameLetter c d = true → isWordCharacter d = false) : Finishes (letter c) := by
  rintro s t ⟨d, rest, -, hd, rfl⟩ hbefore
  have : isWordCharacter d = true := hbefore
  simp [hc d hd] at this

theorem Finishes.last {q : Pattern} (hq : Finishes q) (ps : List Pattern) : Finishes (sequence (ps ++ [q])) := by
  intro s t h
  obtain ⟨u, -, v, hv, rfl⟩ := reaches_sequence_append ps h
  exact hq hv

theorem finishes_paren {c : Char} (hc : c = '(' ∨ c = ')') : Finishes (letter c) := by
  refine finishes_sign fun d hd => ?_
  rcases hc with rfl | rfl
  · rw [eq_leftParen hd]
    decide +kernel
  · rw [eq_rightParen hd]
    decide +kernel

/-- A match of a pattern that starts and ends where a word does stands whole. -/
theorem standsWhole_of_match {p : Pattern} (hfinish : Finishes p)
    (hstart : ∀ ⦃s t⦄, Reaches p s t → s.before.head?.any isWordCharacter = false) {before taken after : Text}
    {captures : List (Nat × Text)} (h : p.matcher before (taken ++ after) = .some (taken, captures)) :
    StandsWhole before taken after := by
  obtain ⟨t, hreach, hafter, hbefore, -⟩ := matcher_reaches h
  obtain rfl : after = t.after := List.append_cancel_left hafter
  refine ⟨hstart hreach, fun htaken => hfinish hreach ?_⟩
  cases taken using List.reverseRecOn with
  | nil => cases htaken
  | append_singleton taken c =>
    rw [List.getLast?_concat] at htaken
    simpa [hbefore] using htaken

/-- A word with an edge on its left and a pattern behind it that closes the word and ends where a word ends. -/
theorem standsWhole_of_word {w : Text} (hw : IsBareWord w) {q : Pattern} (hq : Closes q)
    (hfinish : Finishes (seq edge (seq (text w) q))) {before taken after : Text} {captures : List (Nat × Text)}
    (h : (seq edge (seq (text w) q)).matcher before (taken ++ after) = .some (taken, captures)) :
    StandsWhole before taken after ∧ taken.head?.any isWordCharacter = true := by
  obtain ⟨c, w, rfl⟩ := List.exists_cons_of_ne_nil hw.ne_nil
  have hstart {s t : Site} (hreach : Reaches (seq edge (seq (text (c :: w)) q)) s t) :
      s.before.head?.any isWordCharacter = false := by
    obtain ⟨u, ⟨-, rfl⟩, hbefore, -⟩ := reaches_word opens_edge hq hw.ne_nil hw.bare hreach
    exact hbefore
  refine ⟨standsWhole_of_match hfinish (fun s t => hstart) h, ?_⟩
  obtain ⟨d, rest, rfl, hd⟩ := matcher_start rfl h
  have hsame : sameLetter c d = true := by
    simpa [Pattern.startsWith, Pattern.nullable, Pattern.text, Pattern.sequence] using hd
  exact wordCharacter_of_sameLetter (hw.bare c List.mem_cons_self) hsame

end Pattern

namespace TypeRule

/-- A type ends in a parenthesis or where a word ends. -/
theorem finishes_pattern {r : TypeRule} (hne : r.word ≠ []) (hshape : r.Shape) : Finishes r.pattern := by
  have hclosing {q : Pattern} (hq : Closing q) : Finishes q := by
    intro s t h hbefore
    obtain ⟨x, -, -, ht⟩ := hq h
    have hlast : t.before = ')' :: (x.reverse ++ s.before) := by simpa using congrArg Site.before ht
    have hparen : isWordCharacter ')' = true := by simpa [hlast] using hbefore
    exact absurd hparen (by decide +kernel)
  intro s t h hbefore
  cases hshape with
  | word hsource =>
    rw [pattern_word hne hsource] at h
    obtain ⟨u, -, v, hword, w, harguments, rfl⟩ := h
    rcases reaches_arguments harguments with rfl | ⟨x, hx, -⟩
    · exact finishes_edge.last _ hword hbefore
    · obtain ⟨y, hy, htaken⟩ := harguments.split
      obtain rfl : y = x ++ [')'] := by
        refine List.append_cancel_right (hy.symm.trans ?_)
        rw [hx]
        simp
      have hparen : isWordCharacter ')' = true := by simpa [htaken] using hbefore
      exact absurd hparen (by decide +kernel)
  | sized hy hsource =>
    rw [pattern_sized hy hsource] at h
    obtain ⟨u, -, v, hparts, _, rfl, rfl⟩ := h
    obtain ⟨w, -, hsize⟩ := reaches_sequence_append (r.word.map letter) hparts
    exact hclosing (sizePattern_spec hy).1 hsize hbefore
  | @words rest hrest hrne hform hsource =>
    rw [pattern_words hrest hform hsource,
      sourcePattern_of_bare (List.getLast?_eq_some_getLast hrne) (getLast_of_spelled (spelled_cons hrest).1 hrne)] at h
    have hlast : Finishes (sequence (sourceParts false rest ++ [edge])) := finishes_edge.last _
    exact hlast.last [edge, text r.word, edge, optional (capture 1 anyArguments), space] h hbefore

end TypeRule

/-! ## Idioms -/

/-- The idioms that are options of a table's storage; they take the whitespace before them along. -/
def storageOptions : List Text :=
  ["tablespace", "pctfree", "pctused", "initrans", "maxtrans"]

/-- Functions and types are words with an edge on their left that end at an edge or in a parenthesis. -/
theorem standsWhole_of_idiom {r : IdiomRule} (hr : r ∈ oracleIdioms) (hname : r.name ∉ storageOptions)
    {before taken after : Text} {captures : List (Nat × Text)}
    (h : r.pattern.matcher before (taken ++ after) = some (taken, captures)) :
    StandsWhole before taken after ∧ taken.head?.any isWordCharacter = true := by
  have hwhole {w : Text} (hw : w ∈ oracleWords) {q : Pattern} (hq : Closes q)
      (hfinish : Finishes (seq edge (seq (text w) q)))
      (h : (seq edge (seq (text w) q)).matcher before (taken ++ after) = some (taken, captures)) :
      StandsWhole before taken after ∧ taken.head?.any isWordCharacter = true :=
    standsWhole_of_word (oracleWords_bare w hw) hq hfinish h
  have hword {w : Text} (hw : w ∈ oracleWords)
      (h : (sequence [edge, text w, edge]).matcher before (taken ++ after) = some (taken, captures)) :=
    hwhole hw (closes_edge.seq empty) (finishes_edge.last [edge, text w]) h
  have hcall {w : Text} (hw : w ∈ oracleWords) (ps : List Pattern)
      (h : (sequence ([edge, text w, gap, letter '('] ++ ps ++ [letter ')'])).matcher before (taken ++ after) =
        some (taken, captures)) : StandsWhole before taken after ∧ taken.head?.any isWordCharacter = true := by
    have hfinish := (finishes_paren (.inr rfl)).last ([edge, text w, gap, letter '('] ++ ps)
    exact hwhole hw (closes_paren (sequence (ps ++ [letter ')']))) hfinish h
  simp only [oracleIdioms, List.mem_cons, List.not_mem_nil, or_false] at hr
  rcases hr with rfl | rfl | rfl | rfl | rfl | rfl | rfl | rfl | rfl | rfl | rfl | rfl | rfl | rfl
  · exact hword (w := "SYSDATE") (by decide +kernel) h
  · exact hword (w := "SYSTIMESTAMP") (by decide +kernel) h
  · exact hwhole (w := "NVL") (by decide +kernel) (closes_paren _)
      ((finishes_paren (.inl rfl)).last [edge, text "NVL", gap]) h
  · exact absurd (by decide) hname
  · exact absurd (by decide) hname
  · exact absurd (by decide) hname
  · exact absurd (by decide) hname
  · exact absurd (by decide) hname
  · exact hword (w := "VARCHAR2") (by decide +kernel) h
  · exact hcall (w := "NUMBER") (by decide +kernel) [gap, text "10", gap] h
  · exact hcall (w := "NUMBER") (by decide +kernel) [gap, text "19", gap] h
  · exact hcall (w := "NUMBER") (by decide +kernel) [gap, text "1", gap] h
  · exact hcall (w := "NUMBER") (by decide +kernel) [gap, capture 1 digits, gap, letter ',', gap, capture 2 digits, gap] h
  · exact hword (w := "NUMBER") (by decide +kernel) h

/-! ## Between shielded pieces -/

namespace Segment

open Masked

variable {t : Text} {xs ys : List Segment} {p s : Segment}

/-- Merging pieces leaves a shielded one as it is. -/
theorem exists_piece_of_merge {zs : List Segment} (h : merge zs = p :: ys) (hp : p.kind ≠ .code) :
    ∃ as bs, zs = as ++ p :: bs ∧ textOf bs = textOf ys := by
  induction zs with
  | nil => cases h
  | cons q zs ih =>
    rw [merge_cons] at h
    by_cases hq : q.text = []
    · rw [push_of_empty hq] at h
      obtain ⟨as, bs, rfl, hbs⟩ := ih h
      exact ⟨q :: as, bs, rfl, hbs⟩
    · by_cases hj : Joins q (merge zs)
      · obtain ⟨f, b, more, rfl, hmore⟩ := joins_cases hj
        rw [hmore, push_code] at h
        exact absurd (congrArg kind (List.cons.inj h).1).symm hp
      · rw [push_apart hq hj] at h
        obtain ⟨rfl, rfl⟩ := List.cons.inj h
        exact ⟨[], zs, rfl, (textOf_merge zs).symm⟩

/-- A shielded segment starts with a stop, and it ends apart from what follows. -/
theorem shielded_segment_ends (h : segments t = xs ++ p :: ys) (hp : p.kind ≠ .code) :
    (∃ c ∈ shieldStops, ∃ u, p.text = c :: u) ∧ EndsApart shieldStops p.text (textOf ys) := by
  rw [← merge_cells] at h
  obtain ⟨us, zs, hcells, -, hzs⟩ := merge_split h
  obtain ⟨as, bs, rfl, hbs⟩ := exists_piece_of_merge hzs hp
  rw [← List.append_assoc] at hcells
  obtain ⟨⟨c, hc, u, hu, -⟩, hapart⟩ := shielded_ends hcells hp
  exact ⟨⟨c, hc, u, hu⟩, hbs ▸ hapart⟩

/-- In front of a segment of code no word goes on, unless the segment starts with a line. -/
theorem notWord_before_code (h : segments t = xs ++ s :: ys) (hs : s.kind = .code) :
    (textOf xs).getLast?.any isWordCharacter = false ∨ s.text.head? = some '\n' := by
  cases xs using List.reverseRecOn with
  | nil => exact .inl rfl
  | append_singleton xs p =>
    rw [List.append_assoc] at h
    have hmerge := h
    rw [← merge_cells] at hmerge
    obtain ⟨-, zs, -, -, hzs⟩ := merge_split hmerge
    have hp : p.kind ≠ .code := fun hp => merge_code_apart hzs hp hs
    have hne {q : Segment} (hq : q ∈ p :: s :: ys) : q.text ≠ [] := by
      have hmem : q ∈ merge zs := by rw [hzs]; exact hq
      exact mem_merge_text_ne_nil hmem
    obtain ⟨-, hapart⟩ := shielded_segment_ends h hp
    have hlast : (textOf (xs ++ [p])).getLast? = p.text.getLast? := by
      rw [textOf_append, textOf_cons, textOf_nil, List.append_nil]
      exact Text.getLast?_append_right _ (hne List.mem_cons_self)
    rw [hlast]
    rcases hapart with ⟨c, hc, hstop⟩ | hline
    · rw [Option.mem_def.1 hc]
      exact .inl (areStops_shieldStops.word c hstop)
    · obtain ⟨c, u, hu⟩ := List.exists_cons_of_ne_nil (hne (List.mem_cons_of_mem p List.mem_cons_self))
      rw [hu, hline c (by simp [hu])]
      exact .inr rfl

/-- Behind a segment of code no word goes on. -/
theorem notWord_after_code (h : segments t = xs ++ s :: ys) (hs : s.kind = .code) :
    (textOf ys).head?.any isWordCharacter = false := by
  cases ys with
  | nil => rfl
  | cons q ys =>
    have hmerge := h
    rw [← merge_cells] at hmerge
    obtain ⟨-, zs, -, -, hzs⟩ := merge_split hmerge
    have hq : q.kind ≠ .code := merge_code_apart hzs hs
    have hsplit : segments t = (xs ++ [s]) ++ q :: ys := by simpa using h
    obtain ⟨⟨c, hc, u, hu⟩, -⟩ := shielded_segment_ends hsplit hq
    rw [textOf_cons, hu]
    exact areStops_shieldStops.word c hc

/-- What stands whole in a segment of code stands whole in the script. -/
theorem standsWhole_of_code (h : segments t = xs ++ s :: ys) (hs : s.kind = .code) {before taken after : Text}
    (htext : before.reverse ++ (taken ++ after) = s.text) (hstart : taken.head?.any isWordCharacter = true)
    (hwhole : StandsWhole before taken after) :
    StandsWhole (before ++ (textOf xs).reverse) taken (after ++ textOf ys) where
  starts := by
    cases before with
    | cons c before => exact hwhole.starts
    | nil =>
      rw [List.nil_append, List.head?_reverse]
      refine (notWord_before_code h hs).resolve_right fun hline => ?_
      cases taken with
      | nil => cases hstart
      | cons c taken =>
        rw [← htext] at hline
        obtain rfl : c = '\n' := Option.some.inj hline
        have hword : isWordCharacter '\n' = true := hstart
        exact absurd hword (by decide +kernel)
  ends htaken := by
    cases after with
    | cons c after => exact hwhole.ends htaken
    | nil => exact notWord_after_code h hs

end Segment

/-! ## Every match -/

/-- A type that a table finds stands whole. -/
theorem TypeTable.standsWhole_of_mem {types : TypeTable} (htypes : types = oracleTypes ∨ types = mysqlTypes) {t : Text}
    {m : Match TypeTable.RuleMatch} (hm : m ∈ allMatches types.matcher t) : StandsWhole m.before m.text m.after := by
  have hfound : Cut.found m ∈ cut types.matcher t := Cut.mem_filterMap_match?.1 hm
  obtain ⟨hmatch, -⟩ := Cut.matcher_of_found types.matcher_takesPrefix hfound
  obtain ⟨hr, captures, hrule, -⟩ := TypeTable.matcher_rule hmatch
  obtain ⟨hne, hshape⟩ := (TypeTable.isSteady_of_eq htypes).shape _ hr
  exact standsWhole_of_match (TypeRule.finishes_pattern hne hshape)
    (fun _ _ hreach => (TypeRule.reaches_word_of_shape hne hshape hreach).1) hrule

/-- Every type that a table finds in a text, and every function and type that an idiom finds in the code of the text,
stands whole, as patterns tell words. So it lies within a longer identifier exactly if a character that patterns
overlook stands next to it, and the only such characters of ASCII are `$` and `#`. -/
theorem matches_stand_whole {types : TypeTable} (htypes : types = oracleTypes ∨ types = mysqlTypes) (t : Text) :
    (∀ m ∈ allMatches types.matcher t,
      StandsWhole m.before m.text m.after ∧
        (LiesWithin m.before m.text m.after ↔ m.before.head?.any isOverlooked = true ∨
          m.text.getLast?.any isWordCharacter = true ∧ m.after.head?.any isOverlooked = true)) ∧
    (∀ r ∈ oracleIdioms, r.name ∉ storageOptions → ∀ {xs ys : List Segment} {s : Segment},
      segments t = xs ++ s :: ys → s.kind = .code → ∀ m ∈ allMatches r.pattern.matcher s.text,
        let before := m.before ++ (Segment.textOf xs).reverse
        let after := m.after ++ Segment.textOf ys
        StandsWhole before m.text after ∧
          (LiesWithin before m.text after ↔ before.head?.any isOverlooked = true ∨
            m.text.getLast?.any isWordCharacter = true ∧ after.head?.any isOverlooked = true)) ∧
    ∀ {c : Char}, c.toNat < 128 → (isOverlooked c = true ↔ c = '$' ∨ c = '#') := by
  refine ⟨fun m hm => ?_, fun r hr hname xs ys s hsplit hcode m hm => ?_, isOverlooked_iff_of_ascii⟩
  · have hwhole := TypeTable.standsWhole_of_mem htypes hm
    exact ⟨hwhole, hwhole.liesWithin_iff⟩
  · obtain ⟨hmatch, htext⟩ := Cut.matcher_of_found r.pattern.matcher_takesPrefix (Cut.mem_filterMap_match?.1 hm)
    obtain ⟨hwhole, hstart⟩ := standsWhole_of_idiom hr hname hmatch
    have hwhole := Segment.standsWhole_of_code hsplit hcode htext hstart hwhole
    exact ⟨hwhole, hwhole.liesWithin_iff⟩

/-- The types of two columns and the value of a default stand whole. -/
theorem matches_stand_whole_columns :
    (allMatches oracleTypes.matcher "id NUMBER(10), made DATE").length = 2 ∧
      (∀ m ∈ allMatches oracleTypes.matcher "id NUMBER(10), made DATE", StandsWhole m.before m.text m.after) ∧
      ∃ r ∈ oracleIdioms, ∃ m ∈ allMatches r.pattern.matcher "DEFAULT sysdate, ",
        StandsWhole m.before m.text (m.after ++ "'x'") := by
  have hsplit : segments "DEFAULT sysdate, 'x'" = [] ++ ⟨.code, "DEFAULT sysdate, "⟩ :: [⟨.literal, "'x'"⟩] := by
    decide +kernel
  have hr : IdiomRule.word "sysdate" "SYSDATE" "CURRENT_DATE" ∈ oracleIdioms := List.mem_cons_self
  have hname : (IdiomRule.word "sysdate" "SYSDATE" "CURRENT_DATE").name ∉ storageOptions := by decide
  have htypes : oracleTypes = oracleTypes ∨ oracleTypes = mysqlTypes := .inl rfl
  refine ⟨by decide +kernel, fun m hm => ((matches_stand_whole htypes _).1 m hm).1, _, hr, ?_⟩
  have hfound : hasMatch (IdiomRule.word "sysdate" "SYSDATE" "CURRENT_DATE").pattern.matcher "DEFAULT sysdate, " = true := by
    decide +kernel
  obtain ⟨m, hm⟩ := exists_found_of_hasMatch hfound
  have hm := Cut.mem_filterMap_match?.2 hm
  have hwhole := ((matches_stand_whole htypes _).2.1 _ hr hname hsplit rfl m hm).1
  exact ⟨m, hm, by simpa using hwhole⟩

/-- The type in the name `v$date` and the function in the name `sys#sysdate` are replaced, although both names go on in
front of them. -/
theorem matches_within_name :
    (∃ m ∈ allMatches oracleTypes.matcher "a v$date b",
      TypeTable.change? m = some ⟨"date", "TIMESTAMP"⟩ ∧ LiesWithin m.before m.text m.after) ∧
    oracleTypes.convertText "a v$date b" = ⟨"a v$TIMESTAMP b", [⟨"date", "TIMESTAMP"⟩]⟩ ∧
    replaceOracleIdioms "a sys#sysdate b" = ⟨"a sys#CURRENT_DATE b", ["sysdate"]⟩ := by
  refine ⟨?_, by decide +kernel, by decide +kernel⟩
  have hany : ((allMatches oracleTypes.matcher "a v$date b").any fun m =>
      TypeTable.change? m == some ⟨"date", "TIMESTAMP"⟩ && m.before.head?.any isIdentifierCharacter) = true := by
    decide +kernel
  obtain ⟨m, hm, hchange⟩ := List.any_eq_true.1 hany
  simp only [Bool.and_eq_true, beq_iff_eq] at hchange
  exact ⟨m, hm, hchange.1, .inl hchange.2⟩

end DialectBridge
