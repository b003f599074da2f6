import DialectBridge.Proofs.Idiom.Protection
import DialectBridge.Proofs.Idiom.Renewed
import DialectBridge.Proofs.Pattern.Replaced

/-!
# Replacing idioms again

A function or a type of Oracle does not come back when its place is taken by new words, and no other idiom comes up
there. What is taken out without a substitute, a `STORAGE` clause or an option, may bring words together that are an
idiom only then. So the replacement of idioms, applied to what it has written, changes something exactly if a removal
has left a clause or an idiom (`replaceOracleIdioms_again`).
-/

namespace DialectBridge

open Pattern

/-! ## What rules write -/

namespace IdiomRule

/-- What a rule makes of a piece of code. -/
def written (r : IdiomRule) : Cut (List (Nat × Text)) → Text
  | .copied c => [c]
  | .found m => r.replacement.flatMap (TemplatePart.fill m.value)

theorem replace_eq (r : IdiomRule) (code : Text) : r.replace code = (cut r.pattern.matcher code).flatMap r.written := by
  refine congrArg (List.flatMap · _) (funext fun piece => ?_)
  cases piece <;> rfl

/-- A rule for a function or a type writes a new word for each match. -/
def Renewing (r : IdiomRule) : Prop :=
  ∀ ⦃before taken after captures⦄, r.pattern.matcher before (taken ++ after) = some (taken, captures) →
    ∃ word signs, r.replacement.flatMap (TemplatePart.fill captures) = word ++ signs ∧
      Renews before taken after word signs

/-- A rule for an option writes nothing. -/
def Removing (r : IdiomRule) : Prop :=
  ∀ captures, r.replacement.flatMap (TemplatePart.fill captures) = []

end IdiomRule

/-- A match of a whole word ends in the word. -/
theorem last_of_word {w before taken after : Text} {captures : List (Nat × Text)} (hw : w ∈ oracleWords)
    (h : (sequence [edge, text w, edge]).matcher before (taken ++ after) = some (taken, captures)) :
    taken.getLast?.any isWordCharacter = true := by
  have hbare := oracleWords_bare w hw
  obtain ⟨t, ⟨_, ⟨-, rfl⟩, u, htext, _, ⟨-, rfl⟩, rfl⟩, hafter, -⟩ := matcher_reaches h
  obtain ⟨v, hv, -, hfold⟩ := reaches_text htext
  obtain rfl : taken = v := List.append_cancel_right (hafter.symm.trans hv)
  have hne : taken ≠ [] := by
    rintro rfl
    exact hbare.ne_nil (List.map_eq_nil_iff.1 hfold.symm)
  exact Text.getLast?_any_append [] hne (Text.wordCharacter_of_fold hbare.bare hfold)

/-- A match that ends in a parenthesis does not end in a word. -/
theorem last_of_paren (ps : List Pattern) {c : Char} (hc : c = '(' ∨ c = ')') {before taken after : Text}
    {captures : List (Nat × Text)} (hstart : taken ≠ [])
    (h : (sequence (ps ++ [letter c])).matcher before (taken ++ after) = some (taken, captures)) :
    taken.getLast?.any isWordCharacter = false := by
  obtain ⟨t, hreach, -, hbefore, -⟩ := matcher_reaches h
  obtain ⟨u, -, _, ⟨d, rest, -, hd, rfl⟩, rfl⟩ := reaches_sequence_append ps hreach
  have hword : isWordCharacter d = false := by
    rcases hc with rfl | rfl
    · rw [eq_leftParen hd]
      decide +kernel
    · rw [eq_rightParen hd]
      decide +kernel
  have hlast : taken.getLast? = some d := by
    have hhead := congrArg List.head? hbefore
    rw [List.head?_append, List.head?_reverse, List.getLast?_eq_some_getLast hstart] at hhead
    rw [List.getLast?_eq_some_getLast hstart]
    exact hhead.symm
  rw [hlast]
  exact hword

/-- A precision and a scale are digits. -/
theorem captured_digits {before taken after : Text} {captures : List (Nat × Text)}
    (h : IdiomRule.numberDecimal.pattern.matcher before (taken ++ after) = some (taken, captures)) (n : Nat) :
    ∀ c ∈ (captured n captures).getD [], isWordDigit c = true := by
  obtain ⟨t, hreach, -, -, rfl⟩ := matcher_reaches h
  intro c hc
  refine Bool.of_not_eq_false fun hdigit => ?_
  have hnever : IdiomRule.numberDecimal.pattern.neverCaptures c = true := by
    have hcapture (n : Nat) : (capture n digits).neverCaptures c = true := by
      simp [neverCaptures, avoids, digits, Pattern.some, hdigit]
    refine neverCaptures_sequence ?_
    simp only [List.forall_mem_cons]
    exact ⟨rfl, rfl, rfl, rfl, rfl, hcapture 1, rfl, rfl, rfl, hcapture 2, rfl, rfl, List.forall_mem_nil _⟩
  have hentry := hreach.neverCaptures hnever (List.forall_mem_nil _)
  rw [captured] at hc
  cases hfind : t.captured.find? fun entry => entry.1 == n with
  | none => simp [hfind] at hc
  | some entry =>
    rw [hfind] at hc
    exact hentry entry (List.mem_of_find?_eq_some hfind) hc

/-- The functions and types are replaced by new words. -/
theorem IdiomRule.renewing_of_mem {r : IdiomRule} (hr : r ∈ oracleIdioms) (hname : r.name ∉ storageOptions) : r.Renewing := by
  intro before taken after captures h
  obtain ⟨hwhole, hstart⟩ := standsWhole_of_idiom hr hname h
  have hne : taken ≠ [] := by
    rintro rfl
    cases hstart
  have hword (w : Text) (hmem : w ∈ newWords) (hlast : w = "VARCHAR" → taken.getLast?.any isWordCharacter = true) :
      ∃ word signs, [TemplatePart.text w].flatMap (TemplatePart.fill captures) = word ++ signs ∧
        Renews before taken after word signs :=
    ⟨w, [], rfl, hwhole, hstart, hmem, List.forall_mem_nil _, fun _ => rfl, hlast⟩
  -- behind signs the match has to end in a sign, too
  have hcall {word signs : Text} (hmem : word ∈ newWords) (hvarchar : word ≠ "VARCHAR")
      (hbehind : ∀ c ∈ signs, isWordDigit c = true ∨ c ∈ ['(', ')', ','])
      (hlast : taken.getLast?.any isWordCharacter = false) : Renews before taken after word signs :=
    ⟨hwhole, hstart, hmem, hbehind, fun hword => absurd (hlast.symm.trans hword) Bool.false_ne_true, fun heq => absurd heq hvarchar⟩
  simp only [oracleIdioms, List.mem_cons, List.not_mem_nil, or_false] at hr
  rcases hr with rfl | rfl | rfl | rfl | rfl | rfl | rfl | rfl | rfl | rfl | rfl | rfl | rfl | rfl
  · exact hword "CURRENT_DATE" (by decide +kernel) fun heq => absurd heq (by decide +kernel)
  · exact hword "CURRENT_TIMESTAMP" (by decide +kernel) fun heq => absurd heq (by decide +kernel)
  · exact ⟨"COALESCE", "(", rfl, hcall (by decide +kernel) (by decide +kernel) (List.forall_mem_singleton.2 (.inr (by decide)))
      (last_of_paren [edge, text "NVL", gap] (.inl rfl) hne h)⟩
  · exact absurd (by decide) hname
  · exact absurd (by decide) hname
  · exact absurd (by decide) hname
  · exact absurd (by decide) hname
  · exact absurd (by decide) hname
  · exact hword "VARCHAR" (by decide +kernel) fun _ => last_of_word (w := "VARCHAR2") (by decide +kernel) h
  · exact hword "INTEGER" (by decide +kernel) fun heq => absurd heq (by decide +kernel)
  · exact hword "BIGINT" (by decide +kernel) fun heq => absurd heq (by decide +kernel)
  · exact hword "BOOLEAN" (by decide +kernel) fun heq => absurd heq (by decide +kernel)
  · refine ⟨"DECIMAL", '(' :: ((captured 1 captures).getD [] ++ ',' :: ((captured 2 captures).getD [] ++ [')'])), rfl,
      hcall (by decide +kernel) (by decide +kernel) (fun c hc => ?_) ?_⟩
    · simp only [List.mem_cons, List.mem_append, List.not_mem_nil, or_false] at hc
      rcases hc with rfl | hc | rfl | hc | rfl
      · exact .inr (by decide)
      · exact .inl (captured_digits h 1 c hc)
      · exact .inr (by decide)
      · exact .inl (captured_digits h 2 c hc)
      · exact .inr (by decide)
    · exact last_of_paren [edge, text "NUMBER", gap, letter '(', gap, capture 1 digits, gap, letter ',', gap,
        capture 2 digits, gap] (.inr rfl) hne h
  · exact hword "NUMERIC" (by decide +kernel) fun heq => absurd heq (by decide +kernel)

/-- The options are taken out. -/
theorem IdiomRule.removing_of_mem {r : IdiomRule} (hr : r ∈ oracleIdioms) (hname : r.name ∈ storageOptions) : r.Removing := by
  have hreplacement : ∀ r ∈ oracleIdioms, r.name ∈ storageOptions → r.replacement = [.text []] := by decide +kernel
  intro captures
  rw [hreplacement r hr hname]
  rfl

namespace IdiomRule.Renewing

variable {r : IdiomRule} (hr : r.Renewing) {p : Pattern}
include hr

/-- Where a search starts, a rule renews the text that follows, for each pattern that matches only where the rule does. -/
theorem renewed_pieces {before before' after : Text} {fresh : Bool} (hnull : r.pattern.nullable = false)
    (hp : ∀ front back, after = front ++ back → r.pattern.matcher (front.reverse ++ before) back = none →
      p.matcher (front.reverse ++ before) back = none) :
    Renewed p before after before' ((Cut.pieces r.pattern.matcher 0 fresh before after).flatMap r.written) := by
  induction hn : after.length using Nat.strongRecOn generalizing before before' after fresh with
  | ind n ih =>
    cases after with
    | nil =>
      rw [Cut.pieces_nil (matcher_nil hnull before)]
      exact .nil before before'
    | cons c after =>
      cases hmatch : r.pattern.matcher before (c :: after) with
      | none =>
        rw [Cut.pieces_none hmatch, List.flatMap_cons]
        refine .copied (hp [] _ rfl hmatch) (ih after.length (by simp [← hn]) (fun front back heq => ?_) rfl)
        simpa using hp (c :: front) back (by rw [heq, List.cons_append])
      | some out =>
        obtain ⟨taken, captures⟩ := out
        obtain ⟨d, taken, rfl, -⟩ := matcher_start hnull hmatch
        obtain ⟨rest, hrest⟩ := r.pattern.matcher_takesPrefix hmatch
        rw [← hrest] at hmatch hp hn ⊢
        obtain ⟨word, signs, hwritten, hrenews⟩ := hr hmatch
        rw [Cut.pieces_some hmatch (List.cons_ne_nil d taken), List.flatMap_cons]
        show Renewed p before _ before' (r.replacement.flatMap (TemplatePart.fill captures) ++ _)
        rw [hwritten]
        have hshort : rest.length < n := by
          rw [← hn, List.length_append, List.length_cons]
          omega
        refine .found hrenews (ih rest.length hshort (fun front back heq => ?_) rfl)
        simpa using hp (d :: taken ++ front) back (by rw [heq, List.append_assoc])

/-- A rule renews a piece of code, for itself and for each pattern without a match in it. -/
theorem renewed_replace (hnull : r.pattern.nullable = false) (hp : p.nullable = false) {code : Text}
    (h : p = r.pattern ∨ hasMatch p.matcher code = false) : Renewed p [] code [] (r.replace code) := by
  rw [r.replace_eq]
  refine hr.renewed_pieces hnull fun front back heq hnone => ?_
  rw [List.append_nil] at hnone ⊢
  rcases h with rfl | h
  · exact hnone
  · exact matcher_of_hasMatch hp (heq ▸ h)

end IdiomRule.Renewing

/-! ## Silent idioms -/

/-- The pattern matches nowhere in the code of the script. -/
def Silent (p : Pattern) (script : Text) : Prop :=
  ∀ s ∈ segments script, s.kind = .code → hasMatch p.matcher s.text = false

/-- A silent rule changes nothing. -/
theorem Silent.changeCode_eq {r : IdiomRule} {script : Text} (h : Silent r.pattern script) :
    changeCode r.replace script = script := by
  have hsame (s : Segment) (hs : s ∈ segments script) : Segment.recode r.replace s = s := by
    by_cases hcode : s.kind = .code
    · rw [Segment.recode, if_pos hcode, IdiomRule.replace,
        replaceMatches_of_hasMatch r.pattern.matcher_takesPrefix _ (h s hs hcode), ← hcode]
    · exact Segment.recode_of_ne hcode
  rw [Segment.changeCode_eq_textOf, List.map_congr_left hsame, List.map_id', segments_text]

/-- A rule that writes new words silences its own idiom and keeps the silence of each other one, if the text is cut into
the pieces that it was put together from. -/
theorem IdiomRule.Renewing.silent {r : IdiomRule} {p : Pattern} {script : Text} (hr : r.Renewing) (hshape : IdiomShape r.pattern) (hp : IdiomShape p)
    (hfaithful : segments (changeCode r.replace script) = Segment.recoded r.replace script)
    (h : p = r.pattern ∨ Silent p script) : Silent p (changeCode r.replace script) := by
  have hnil (code : Text) : r.replace code = [] ↔ code = [] :=
    (hr.renewed_replace hshape.nullable hshape.nullable (.inl rfl)).eq_nil_iff
  intro s hs hcode
  rw [hfaithful, Segment.recoded_eq_map hnil] at hs
  obtain ⟨q, hq, rfl⟩ := List.mem_map.1 hs
  rw [Segment.kind_recode] at hcode
  rw [Segment.recode, if_pos hcode]
  exact (hr.renewed_replace hshape.nullable hp.nullable (h.imp_right fun h => h q hq hcode)).hasMatch_eq_false hp

theorem flatMap_sublist {α : Type} {f g : α → Text} (h : ∀ x, List.Sublist (f x) (g x)) (xs : List α) :
    List.Sublist (xs.flatMap f) (xs.flatMap g) := by
  induction xs with
  | nil => exact List.Sublist.refl []
  | cons x xs ih => exact (h x).append ih

/-- Where only parts of texts are taken out and all of them together stay the same, each stays the same. -/
theorem eq_of_flatMap_eq {α : Type} {f g : α → Text} (h : ∀ x, List.Sublist (f x) (g x)) {xs : List α}
    (heq : xs.flatMap f = xs.flatMap g) : ∀ x ∈ xs, f x = g x := by
  induction xs with
  | nil => exact List.forall_mem_nil _
  | cons x xs ih =>
    rw [List.flatMap_cons, List.flatMap_cons] at heq
    have hlength := congrArg List.length heq
    rw [List.length_append, List.length_append] at hlength
    have hx := (h x).length_le
    have hxs := (flatMap_sublist h xs).length_le
    have hfirst : f x = g x := (h x).eq_of_length (by omega)
    rw [hfirst] at heq
    exact List.forall_mem_cons.2 ⟨hfirst, ih (List.append_cancel_left heq)⟩

namespace IdiomRule.Removing

variable {r : IdiomRule} (hr : r.Removing) {script : Text}
include hr

theorem written_sublist (piece : Cut (List (Nat × Text))) : List.Sublist (r.written piece) piece.text := by
  cases piece with
  | copied c => exact List.Sublist.refl [c]
  | found m =>
    show List.Sublist (r.replacement.flatMap (TemplatePart.fill m.value)) m.text
    rw [hr]
    exact List.nil_sublist m.text

theorem recode_sublist (s : Segment) : List.Sublist (Segment.recode r.replace s).text s.text := by
  unfold Segment.recode
  split
  · have hsub := flatMap_sublist hr.written_sublist (cut r.pattern.matcher s.text)
    rwa [textOf_cut r.pattern.matcher_takesPrefix, ← r.replace_eq] at hsub
  · exact List.Sublist.refl s.text

/-- Where a rule takes nothing out it has no match. -/
theorem hasMatch_of_replace_eq (hnull : r.pattern.nullable = false) {code : Text} (h : r.replace code = code) :
    hasMatch r.pattern.matcher code = false := by
  refine Bool.eq_false_iff.2 fun hmatch => ?_
  obtain ⟨m, hm⟩ := exists_found_of_hasMatch hmatch
  have hpieces : (cut r.pattern.matcher code).flatMap r.written = (cut r.pattern.matcher code).flatMap Cut.text := by
    rw [textOf_cut r.pattern.matcher_takesPrefix, ← r.replace_eq, h]
  have hempty : r.written (.found m) = m.text := eq_of_flatMap_eq hr.written_sublist hpieces _ hm
  obtain ⟨c, rest, htext, -⟩ := matcher_start hnull (Cut.matcher_of_found r.pattern.matcher_takesPrefix hm).1
  rw [htext] at hempty
  exact List.cons_ne_nil c rest (hempty.symm.trans (hr m.value))

/-- A rule that takes its matches out is silent where it changes nothing. -/
theorem silent_of_eq (hnull : r.pattern.nullable = false) (h : changeCode r.replace script = script) :
    Silent r.pattern script := by
  intro s hs hcode
  have hsegments : (segments script).flatMap (fun s => (Segment.recode r.replace s).text) =
      (segments script).flatMap Segment.text := by
    rw [Segment.changeCode_eq_textOf, Segment.textOf, List.flatMap_map] at h
    exact h.trans (segments_text script).symm
  have hkept := eq_of_flatMap_eq hr.recode_sublist hsegments s hs
  rw [Segment.recode, if_pos hcode] at hkept
  exact hr.hasMatch_of_replace_eq hnull hkept

end IdiomRule.Removing

/-! ## Applying the rules -/

/-- Where the rules for options change nothing and every text is cut into the pieces that it was put together from, the
rules silence their idioms and keep the silence of all others. -/
theorem silent_applyRules {rules : List IdiomRule} (hrules : ∀ rule ∈ rules, rule ∈ oracleIdioms) {r : Replaced}
    (hfaithful : ∀ s ∈ IdiomStage.ofRules r.text rules, s.Faithful)
    (hoptions : ∀ rule ∈ rules, rule.name ∈ storageOptions → rule.name ∉ (r.applyRules rules).applied)
    {rule : IdiomRule} (hrule : rule ∈ oracleIdioms) (h : rule ∈ rules ∨ Silent rule.pattern r.text) :
    Silent rule.pattern (r.applyRules rules).text := by
  induction rules generalizing r with
  | nil => exact h.resolve_left List.not_mem_nil
  | cons first rules ih =>
    obtain ⟨hfirst, hrest⟩ := List.forall_mem_cons.1 hrules
    rw [IdiomStage.ofRules, List.forall_mem_cons] at hfaithful
    have hstep : (r.step first.name (changeCode first.replace)).text = changeCode first.replace r.text :=
      Replaced.step_text r first.name _
    rw [Replaced.applyRules_cons]
    refine ih hrest (by rw [hstep]; exact hfaithful.2) (fun rule hmem => hoptions rule (List.mem_cons_of_mem _ hmem)) ?_
    rw [hstep, or_iff_not_imp_left]
    intro hnot
    have hbefore : rule.pattern = first.pattern ∨ Silent rule.pattern r.text :=
      h.imp_left fun hmem => congrArg IdiomRule.pattern ((List.mem_cons.1 hmem).resolve_right hnot)
    by_cases hname : first.name ∈ storageOptions
    · have heq := Replaced.eq_of_notMem_applyRules (hoptions first List.mem_cons_self hname)
      rw [heq]
      rcases hbefore with hsame | hsilent
      · rw [hsame]
        exact (IdiomRule.removing_of_mem hfirst hname).silent_of_eq (IdiomShape.of_mem hfirst).nullable heq
      · exact hsilent
    · exact (IdiomRule.renewing_of_mem hfirst hname).silent (IdiomShape.of_mem hfirst) (IdiomShape.of_mem hrule)
        hfaithful.1 hbefore

/-- The stages of the later rules are stages of all rules. -/
theorem faithful_of_append {rules rules' : List IdiomRule} {r : Replaced}
    (h : ∀ s ∈ IdiomStage.ofRules r.text (rules ++ rules'), s.Faithful) :
    ∀ s ∈ IdiomStage.ofRules (r.applyRules rules).text rules', s.Faithful := by
  induction rules generalizing r with
  | nil => exact h
  | cons first rules ih =>
    rw [List.cons_append, IdiomStage.ofRules, List.forall_mem_cons] at h
    rw [Replaced.applyRules_cons]
    refine ih ?_
    rw [Replaced.step_text]
    exact h.2

/-- The idioms that are types. -/
def typeIdioms : List Text :=
  ["varchar2", "number_10", "number_19", "number_1", "number_decimal", "number"]

/-- Replaces the idioms of what is left when the clauses are gone. -/
theorem replaceOracleIdioms_eq (script : Text) :
    replaceOracleIdioms script = (Replaced.step ⟨script, []⟩ "storage" (removeClause "STORAGE")).applyRules oracleIdioms :=
  rfl

section

variable {script : Text} (hfaithful : ∀ s ∈ IdiomStage.all script, s.Faithful)
include hfaithful

theorem faithful_rules : ∀ s ∈ IdiomStage.ofRules (Replaced.step ⟨script, []⟩ "storage" (removeClause "STORAGE")).text oracleIdioms,
    s.Faithful := by
  rw [Replaced.step_text]
  exact fun s hs => hfaithful s (List.mem_cons_of_mem _ hs)

/-- All types are replaced, since no rule behind them takes anything out. -/
theorem silent_types {r : IdiomRule} (hr : r ∈ oracleIdioms) (hname : r.name ∈ typeIdioms) :
    Silent r.pattern (replaceOracleIdioms script).text := by
  -- the types stand behind the options
  have hsplit : oracleIdioms.take 8 ++ oracleIdioms.drop 8 = oracleIdioms := List.take_append_drop 8 oracleIdioms
  have hfront : ∀ r ∈ oracleIdioms.take 8, r.name ∉ typeIdioms := by decide +kernel
  have hback : ∀ r ∈ oracleIdioms.drop 8, r.name ∉ storageOptions := by decide +kernel
  have hstages := faithful_rules hfaithful
  rw [← hsplit] at hstages
  have hmem : r ∈ oracleIdioms.drop 8 :=
    (List.mem_append.1 (hsplit.symm ▸ hr)).resolve_left fun hmem => hfront r hmem hname
  rw [replaceOracleIdioms_eq, ← hsplit, Replaced.applyRules_append]
  exact silent_applyRules (fun rule => List.mem_of_mem_drop) (faithful_of_append hstages)
    (fun rule hrule hoption => absurd hoption (hback rule hrule)) hr (.inl hmem)

end

/-- Replacing idioms again changes nothing exactly if no removal has left a clause, a function or an option: types never
come again. Where no option was taken out, only a clause may be left. This is so as long as each stage is cut into the
pieces that it was put together from. -/
theorem replaceOracleIdioms_again {script : Text} (hfaithful : ∀ s ∈ IdiomStage.all script, s.Faithful) :
    let out := (replaceOracleIdioms script).text
    (replaceOracleIdioms out = ⟨out, []⟩ ↔
      removeClause "STORAGE" out = out ∧ ∀ r ∈ oracleIdioms, r.name ∉ typeIdioms → changeCode r.replace out = out) ∧
    ((∀ name ∈ storageOptions, name ∉ (replaceOracleIdioms script).applied) →
      (replaceOracleIdioms out = ⟨out, []⟩ ↔ removeClause "STORAGE" out = out)) := by
  intro out
  refine ⟨?_, fun hoptions => ?_⟩
  · rw [replaceOracleIdioms_eq_self_iff]
    refine and_congr_right fun _ => ⟨fun h r hr _ => h r hr, fun h r hr => ?_⟩
    by_cases hname : r.name ∈ typeIdioms
    · exact (silent_types hfaithful hr hname).changeCode_eq
    · exact h r hr hname
  · rw [replaceOracleIdioms_eq_self_iff]
    refine and_iff_left fun r hr => Silent.changeCode_eq ?_
    exact silent_applyRules (fun _ => id) (faithful_rules hfaithful) (fun rule _ => hoptions rule.name) hr (.inl hr)

/-- Else a function may come up that was no code before: directly behind a new word `5e-` is no number any more, so its
dash opens a comment, and what was a literal is none. -/
example : replaceOracleIdioms "NUMBER(10)5e--\x27\n SYSDATE \x27" = ⟨"INTEGER5e--\x27\n SYSDATE \x27", ["number_10"]⟩ ∧
    replaceOracleIdioms "INTEGER5e--\x27\n SYSDATE \x27" = ⟨"INTEGER5e--\x27\n CURRENT_DATE \x27", ["sysdate"]⟩ := by
  decide +kernel

/-- A type and a function, both of which are replaced at once. -/
theorem replaceOracleIdioms_again_date :
    let script : Text := "a NUMBER, SYSDATE"
    let out : Text := "a NUMERIC, CURRENT_DATE"
    (∀ s ∈ IdiomStage.all script, s.Faithful) ∧ (replaceOracleIdioms script).text = out ∧
      replaceOracleIdioms out = ⟨out, []⟩ := by
  intro script out
  have hfaithful : ∀ s ∈ IdiomStage.all script, s.Faithful := by
    show ∀ s ∈ IdiomStage.all script, segments s.text = s.pieces
    decide +kernel
  have hfirst : replaceOracleIdioms script = ⟨out, ["sysdate", "number"]⟩ := by decide +kernel
  have hagain := (replaceOracleIdioms_again hfaithful).2
  rw [hfirst] at hagain ⊢
  exact ⟨hfaithful, rfl, (hagain (by decide)).2 (by decide +kernel)⟩

/-- The word of a clause is brought together with a group when the option between them goes. -/
theorem replaceOracleIdioms_leaves_clause :
    replaceOracleIdioms "a STORAGE TABLESPACE x (1) b" = ⟨"a STORAGE (1) b", ["tablespace"]⟩ ∧
    replaceOracleIdioms "a STORAGE (1) b" = ⟨"a b", ["storage"]⟩ ∧
    ¬ ∀ script : Text, replaceOracleIdioms (replaceOracleIdioms script).text = ⟨(replaceOracleIdioms script).text, []⟩ := by
  have hfirst : replaceOracleIdioms "a STORAGE TABLESPACE x (1) b" = ⟨"a STORAGE (1) b", ["tablespace"]⟩ := by decide +kernel
  have hagain : replaceOracleIdioms "a STORAGE (1) b" = ⟨"a b", ["storage"]⟩ := by decide +kernel
  refine ⟨hfirst, hagain, fun h => ?_⟩
  have hsame := h "a STORAGE TABLESPACE x (1) b"
  rw [hfirst, hagain] at hsame
  exact absurd hsame (by decide)

end DialectBridge
