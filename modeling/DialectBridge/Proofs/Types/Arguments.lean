import DialectBridge.Proofs.Pattern.InStep
import DialectBridge.Proofs.Types.Declared
import DialectBridge.Proofs.Types.RuleMatch

/-!
# Where the arguments of a type stand

A rule looks for words, then for arguments in parentheses, and then for further words. The words hold no
parenthesis, no comma and no mark, and the arguments end at the first closing parenthesis, so a rule has
one way through its arguments at most (`Closing.run_eq`).
-/

namespace DialectBridge

open Masked

namespace Pattern

/-! ## Patterns that end at the first closing parenthesis -/

/-- Every way through the pattern goes up to the first closing parenthesis. -/
def Closing (q : Pattern) : Prop :=
  ∀ ⦃s t⦄, Reaches q s t → ∃ x, s.after = x ++ ')' :: t.after ∧ ')' ∉ x ∧
    t = ⟨(x ++ [')']).reverse ++ s.before, t.after, s.captured⟩

theorem closing_letter : Closing (letter ')') := by
  rintro s t ⟨d, rest, hafter, hd, rfl⟩
  obtain rfl := eq_rightParen hd
  exact ⟨[], hafter, List.not_mem_nil, rfl⟩

theorem Closing.seq {p q : Pattern} (hq : Closing q) (hp : p.avoids ')' = true)
    (hfree : p.captureFree = true) : Closing (seq p q) := by
  rintro s t ⟨u, hfirst, hsecond⟩
  obtain ⟨x, hx, hbefore, hnot⟩ := hfirst.avoids hp
  obtain ⟨y, hy, hnot', ht⟩ := hq hsecond
  refine ⟨x ++ y, by rw [hx, hy, List.append_assoc], by simp [hnot, hnot'], ?_⟩
  rw [ht, hbefore, hfirst.captured hfree]
  simp

theorem Closing.sequence (ps : List Pattern) {q : Pattern} (hq : Closing (sequence [q]))
    (hps : ∀ p ∈ ps, p.avoids ')' = true ∧ p.captureFree = true) : Closing (sequence (ps ++ [q])) := by
  induction ps with
  | nil => exact hq
  | cons p ps ih =>
    obtain ⟨hp, hps⟩ := List.forall_mem_cons.1 hps
    exact (ih hps).seq hp.1 hp.2

theorem closing_end : Closing (sequence [letter ')']) := by
  rintro s t ⟨u, hu, rfl⟩
  exact closing_letter hu

/-- The first parenthesis of a text is at one place. -/
theorem append_paren_inj {x y r s : Text} (h : x ++ ')' :: r = y ++ ')' :: s) (hx : ')' ∉ x)
    (hy : ')' ∉ y) : x = y ∧ r = s := by
  have hrun {x : Text} (hx : ')' ∉ x) (r : Text) : (x ++ ')' :: r).takeWhile (· != ')') = x := by
    refine Text.takeWhile_run (fun c hc => ?_) rfl
    have : c ≠ ')' := fun h => hx (h ▸ hc)
    simpa using this
  obtain rfl : x = y := by rw [← hrun hx r, h, hrun hy s]
  exact ⟨rfl, by simpa using h⟩

theorem Closing.eq {q : Pattern} (hq : Closing q) {s t u : Site} (ht : Reaches q s t)
    (hu : Reaches q s u) : u = t := by
  obtain ⟨x, hx, hnot, ht⟩ := hq ht
  obtain ⟨y, hy, hnot', hu⟩ := hq hu
  obtain ⟨rfl, hafter⟩ := append_paren_inj (hx.symm.trans hy) hnot hnot'
  rw [ht, hu, hafter]

/-- Such a pattern is run by finding its way. -/
theorem Closing.run_eq {q : Pattern} (hq : Closing q) {s t : Site} (h : Reaches q s t)
    (next : Site → Option Site) : run q s next = next t :=
  run_of_reaches h fun _ hu => hq.eq h hu

end Pattern

namespace TypeRule

open Pattern

/-! ## Arguments -/

theorem closing_anyArguments : Closing anyArguments :=
  Closing.sequence [gap, letter '(', many fun c => c != '(' && c != ')'] closing_end (by decide)

theorem closing_scaleArguments : Closing scaleArguments :=
  Closing.sequence [gap, letter '(', gap, digits, gap, letter ',', gap, digits, gap] closing_end
    (by decide +kernel)

/-- Arguments go from a parenthesis to the next one. -/
theorem reaches_anyArguments {s t : Site} (h : Reaches anyArguments s t) :
    ∃ g y, s.after = g ++ '(' :: (y ++ ')' :: t.after) ∧ (∀ c ∈ g, isBlank c = true) ∧ '(' ∉ y ∧ ')' ∉ y := by
  obtain ⟨u, ⟨g, r, hg, hblank, rfl⟩, v, ⟨d, r', hr, hd, rfl⟩, w, ⟨y, r'', hy, hparen, rfl⟩, x,
    ⟨e, rest, he, hclose, rfl⟩, rfl⟩ := h
  obtain rfl := eq_leftParen hd
  obtain rfl := eq_rightParen hclose
  obtain rfl : r = '(' :: r' := hr
  obtain rfl : r' = y ++ r'' := hy
  obtain rfl : r'' = ')' :: rest := he
  refine ⟨g, y, hg, hblank, ?_, ?_⟩
  · exact fun hc => by simpa using hparen _ hc
  · exact fun hc => by simpa using hparen _ hc

theorem reaches_anyArguments_of_eq {s : Site} {g y rest : Text} (h : s.after = g ++ '(' :: (y ++ ')' :: rest))
    (hg : ∀ c ∈ g, isBlank c = true) (hopen : '(' ∉ y) (hclose : ')' ∉ y) :
    ∃ t, Reaches anyArguments s t ∧ t.after = rest := by
  have hy : ∀ c ∈ y, (c != '(' && c != ')') = true := fun c hc => by
    have h₁ : c ≠ '(' := fun h => hopen (h ▸ hc)
    have h₂ : c ≠ ')' := fun h => hclose (h ▸ hc)
    simp [h₁, h₂]
  exact ⟨_, ⟨_, ⟨g, _, h, hg, rfl⟩, _, ⟨'(', _, rfl, by decide, rfl⟩, _, ⟨y, _, rfl, hy, rfl⟩, _,
    ⟨')', rest, rfl, by decide, rfl⟩, rfl⟩, rfl⟩

/-! ## Sizes in a source -/

theorem sameLetter_comm (c d : Char) : sameLetter c d = sameLetter d c := by
  rw [sameLetter, sameLetter, Bool.eq_iff_iff, beq_iff_eq, beq_iff_eq, eq_comm]

/-- The size of a source is passed character by character, up to its closing parenthesis. -/
theorem sourceParts_size {y : Text} (hy : ∀ c ∈ y, isSizeCharacter c = true) :
    ∃ ps, sourceParts false (y ++ [')']) = ps ++ [seq gap (letter ')')] ∧
      ∀ p ∈ ps, p.avoids ')' = true ∧ p.avoids mark = true ∧ p.captureFree = true := by
  induction y with
  | nil => exact ⟨[], rfl, by simp⟩
  | cons c y ih =>
    obtain ⟨hc, hy⟩ := List.forall_mem_cons.1 hy
    obtain ⟨ps, hps, hall⟩ := ih hy
    have hclose : sameLetter c ')' = false := by
      rw [sameLetter_eq (.inl hc) (.inr rfl), beq_eq_false_iff_ne]
      rintro rfl
      exact absurd hc (by decide)
    have hmark : sameLetter c mark = false := by
      rw [sameLetter_comm, Bool.eq_false_iff]
      intro h
      obtain rfl := eq_mark h
      exact absurd hc (by decide)
    refine ⟨(if c = '(' ∨ c = ',' then spaced c else letter c) :: ps, ?_, ?_⟩
    · have hright : c ≠ ')' := by
        rintro rfl
        exact absurd hc (by decide)
      rw [List.cons_append, sourceParts, if_neg (by simp [not_blank_of_size hc]), hps]
      simp only [if_neg hright]
      rfl
    · refine List.forall_mem_cons.2 ⟨?_, hall⟩
      split
      · have hgap : gap.avoids ')' = true ∧ gap.avoids mark = true := by decide
        simp [spaced, Pattern.sequence, avoids, captureFree, hclose, hmark, hgap]
        rfl
      · simp [avoids, captureFree, hclose, hmark]

/-- A size as the source of a rule has it. -/
def sizePattern (y : Text) : Pattern :=
  sequence (spaced '(' :: sourceParts false (y ++ [')']))

theorem sizePattern_spec {y : Text} (hy : ∀ c ∈ y, isSizeCharacter c = true) :
    Closing (sizePattern y) ∧ (sizePattern y).avoids mark = true ∧ (sizePattern y).captureFree = true := by
  obtain ⟨ps, hps, hall⟩ := sourceParts_size hy
  have hopen : (spaced '(').avoids ')' = true ∧ (spaced '(').avoids mark = true ∧ (spaced '(').captureFree = true := by
    decide
  have hend : Closing (sequence [seq gap (letter ')')]) := by
    rintro s t ⟨u, hu, rfl⟩
    exact closing_letter.seq (p := gap) (by decide) rfl hu
  have hall : ∀ p ∈ spaced '(' :: ps, p.avoids ')' = true ∧ p.avoids mark = true ∧ p.captureFree = true :=
    List.forall_mem_cons.2 ⟨hopen, hall⟩
  have hpattern : sizePattern y = sequence ((spaced '(' :: ps) ++ [seq gap (letter ')')]) := by
    rw [sizePattern, hps]
    rfl
  rw [hpattern]
  refine ⟨hend.sequence _ fun p hp => ⟨(hall p hp).1, (hall p hp).2.2⟩, ?_⟩
  generalize spaced '(' :: ps = qs at hall
  induction qs with
  | nil => decide
  | cons q qs ih =>
    obtain ⟨hq, hqs⟩ := List.forall_mem_cons.1 hall
    obtain ⟨hmark, hfree⟩ := ih hqs
    exact ⟨Bool.and_eq_true_iff.2 ⟨hq.2.1, hmark⟩, Bool.and_eq_true_iff.2 ⟨hq.2.2, hfree⟩⟩

/-! ## The parts of a rule -/

/-- The pattern of a rule up to the place of its arguments. -/
def lead (r : TypeRule) : Pattern :=
  if r.sourceHasArguments then sequence [edge, text r.word] else r.front

/-- The arguments that a rule looks for: those in its source, or those that it takes over or drops. -/
def middle (r : TypeRule) : Pattern :=
  if r.sourceHasArguments then sequence (sourceParts false (r.source.dropWhile isBare))
  else r.argumentsPattern

/-- The patterns that stand in the place of arguments. -/
inductive IsMiddle : Pattern → Prop
  | size {y : Text} (hy : ∀ c ∈ y, isSizeCharacter c = true) : IsMiddle (sizePattern y)
  | scale : IsMiddle (capture 1 scaleArguments)
  | any : IsMiddle (capture 1 anyArguments)
  | optional : IsMiddle (optional (capture 1 anyArguments))

/-- Around the arguments the rule takes neither parentheses nor commas nor marks, and captures nothing. -/
def isSteady (r : TypeRule) : Bool :=
  ['(', ',', mark].all (fun c => r.lead.avoids c && r.back.avoids c) && r.lead.captureFree && r.back.captureFree

theorem oracle_steady : ∀ r ∈ oracleTypes.rules, r.isSteady = true := by
  decide +kernel

theorem mysql_steady : ∀ r ∈ mysqlTypes.rules, r.isSteady = true := by
  decide +kernel

theorem isSteady_iff {r : TypeRule} : r.isSteady = true ↔
    (∀ c ∈ ['(', ',', mark], r.lead.avoids c = true ∧ r.back.avoids c = true) ∧
      r.lead.captureFree = true ∧ r.back.captureFree = true := by
  simp [isSteady, and_assoc]

section

variable {r : TypeRule}

/-- A source that holds its arguments is a word with a size. -/
theorem source_of_arguments (hshape : r.Shape) (h : r.sourceHasArguments = true) :
    ∃ y, (∀ c ∈ y, isSizeCharacter c = true) ∧ r.source = r.word ++ '(' :: (y ++ [')']) := by
  rw [sourceHasArguments, List.contains_iff_mem] at h
  cases hshape with
  | word hsource =>
    rw [hsource] at h
    exact absurd (r.bare_word _ h) (by decide)
  | sized hy hsource => exact ⟨_, hy, hsource⟩
  | words hrest hne hform hsource =>
    rw [hsource, List.mem_append] at h
    rcases h with h | h
    · exact absurd (r.bare_word _ h) (by decide)
    · exact absurd (mem_spelled hrest h) (by decide)

theorem middle_of_arguments (h : r.sourceHasArguments = true) {y : Text}
    (hsource : r.source = r.word ++ '(' :: (y ++ [')'])) : r.middle = sizePattern y := by
  have hdrop : r.source.dropWhile isBare = '(' :: (y ++ [')']) := by
    rw [hsource]
    exact Text.dropWhile_run r.bare_word rfl
  rw [middle, if_pos h, hdrop, sizePattern, sourceParts, if_neg (by decide)]
  rfl

theorem isMiddle (hshape : r.Shape) : IsMiddle r.middle := by
  cases h : r.sourceHasArguments with
  | true =>
    obtain ⟨y, hy, hsource⟩ := source_of_arguments hshape h
    rw [middle_of_arguments h hsource]
    exact .size hy
  | false =>
    rw [middle, if_neg (by simp [h])]
    rcases argumentsPattern_cases h with ⟨-, hpattern⟩ | ⟨-, -, hpattern⟩ | ⟨-, -, hpattern⟩ <;> rw [hpattern]
    · exact .optional
    · exact .scale
    · exact .any

/-- A rule is run part by part. -/
theorem run_pattern (hshape : r.Shape) (s : Site) (next : Site → Option Site) :
    run r.pattern s next = run r.lead s fun t => run r.middle t fun u => run r.back u next := by
  cases h : r.sourceHasArguments with
  | true =>
    obtain ⟨y, hy, hsource⟩ := source_of_arguments hshape h
    rw [pattern_sized hy hsource, middle_of_arguments h hsource, lead, back, if_pos h, if_neg (by simp [h])]
    show run edge s (fun t => run (sequence (r.word.map letter ++ spaced '(' :: _)) t next) =
      run edge s fun t => run (text r.word) t fun u => run (sizePattern y) u next
    refine congrArg (run edge s) (funext fun t => ?_)
    exact run_sequence_append _ _ t
  | false =>
    rw [lead, middle, if_neg (by simp [h]), if_neg (by simp [h]), pattern, front, back]
    split
    · rfl
    · rfl

end

end TypeRule

end DialectBridge
