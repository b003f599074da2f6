import DialectBridge.Proofs.Types.RuleRun
import DialectBridge.Types.MySql
import DialectBridge.Types.Oracle

/-!
# Declared types

The types that a table maps one by one: the sources of its rules, and a source of one word with a length
or with a precision and a scale. The table matches such a type as a whole, in the same way wherever it
stands between a name and the end of its column (`Declares.exists_match`).
-/

namespace DialectBridge

namespace TypeRule

open Pattern

/-- The words of the source behind the first one. -/
def otherWords (r : TypeRule) : Text :=
  (r.source.dropWhile isBare).drop 1

/-- The rule does not match the source of `s`: it starts with another word, or it is for several words
that diverge from those of `s`. -/
def avoidsSource (s r : TypeRule) : Bool :=
  r.word != s.word || (r.isMultiWord && diverges r.otherWords s.otherWords)

/-- No rule that is tried before `r` matches its source. -/
def comesFirst (r : TypeRule) : List TypeRule → Bool
  | [] => false
  | s :: rules => s == r || (r.avoidsSource s && comesFirst r rules)

theorem source_eq (r : TypeRule) : r.source = r.word ++ r.source.dropWhile isBare :=
  (List.takeWhile_append_dropWhile (p := isBare)).symm

/-- The shape of a source of several words. -/
theorem words_of_isMultiWord {r : TypeRule} (hshape : r.Shape) (h : r.isMultiWord = true) :
    spelled (' ' :: r.otherWords) = true ∧ r.otherWords ≠ [] ∧ r.argumentsOptional = true ∧
      r.source = r.word ++ ' ' :: r.otherWords := by
  have hblank : ∃ c ∈ r.source, isBlank c = true := List.any_eq_true.1 h
  obtain ⟨c, hc, hc'⟩ := hblank
  cases hshape with
  | word hsource =>
    rw [hsource] at hc
    rw [not_blank_of_bare (r.bare_word c hc)] at hc'
    cases hc'
  | sized hy hsource =>
    rw [hsource] at hc
    simp only [List.mem_append, List.mem_cons, List.not_mem_nil, or_false] at hc
    rcases hc with hc | rfl | hc | rfl
    · rw [not_blank_of_bare (r.bare_word c hc)] at hc'
      cases hc'
    · exact absurd hc' (by decide)
    · rw [not_blank_of_size (hy c hc)] at hc'
      cases hc'
    · exact absurd hc' (by decide)
  | @words rest hrest hne hform hsource =>
    have hrest' : r.otherWords = rest := by
      have heq := r.source_eq.symm.trans hsource
      rw [List.append_cancel_left_eq] at heq
      rw [otherWords, heq]
      rfl
    rw [hrest']
    exact ⟨hrest, hne, hform, hsource⟩

/-- A rule of one word without a size of its own is its word. -/
theorem source_eq_word {r : TypeRule} (hshape : r.Shape) (hone : r.isMultiWord = false) (hbare : r.sourceHasArguments = false) :
    r.source = r.word := by
  cases hshape with
  | word h => exact h
  | sized _ h => simp [sourceHasArguments, h] at hbare
  | words _ _ _ h => simp [isMultiWord, h, show isBlank ' ' = true by decide] at hone

/-- Where another word stands, or the middle of a word, a rule does not match. -/
theorem matcher_none_of_word {r : TypeRule} (hr : r.word ≠ [] ∧ r.Shape) {before after : Text}
    (h : before.head?.any isWordCharacter = true ∨
      Text.fold (after.takeWhile isWordCharacter) ≠ Text.fold r.word) :
    r.pattern.matcher before after = none := by
  rw [Option.eq_none_iff_forall_ne_some]
  rintro ⟨taken, captures⟩ hmatch
  obtain ⟨t, hreach, -⟩ := matcher_reaches hmatch
  obtain ⟨hbefore, hfold⟩ := reaches_word_of_shape hr.1 hr.2 hreach
  rcases h with h | h
  · rw [h] at hbefore
    cases hbefore
  · exact h hfold

theorem takeWhile_word (r : TypeRule) {tail : Text} (h : tail.head?.any isWordCharacter = false) :
    (r.word ++ tail).takeWhile isWordCharacter = r.word :=
  Text.takeWhile_run (fun c hc => wordCharacter_of_bare (r.bare_word c hc)) h

/-- A rule that avoids the source of a rule for several words finds nothing there. -/
theorem matcher_of_avoidsSource {r s : TypeRule} (hs : s.word ≠ [] ∧ s.Shape) (hr : r.Shape)
    (hmulti : r.isMultiWord = true) (hwords : Text.fold r.word = Text.fold s.word → r.word = s.word)
    (h : r.avoidsSource s = true) {before stop : Text}
    (hbefore : before.head?.any isWordCharacter = false) :
    s.pattern.matcher before (r.source ++ stop) = none := by
  obtain ⟨hspelled, hne, -, hsource⟩ := words_of_isMultiWord hr hmulti
  by_cases heq : s.word = r.word
  · simp only [avoidsSource, heq, bne_self_eq_false, Bool.false_or, Bool.and_eq_true] at h
    obtain ⟨hspelled', hne', hform', hsource'⟩ := words_of_isMultiWord hs.2 h.1
    rw [hsource, ← heq]
    exact matcher_diverging hs.1 hspelled' hne' hform' hsource' hspelled hne h.2 hbefore
  · refine matcher_none_of_word hs (.inr fun hfold => heq ?_)
    have hblank : (' ' :: (r.otherWords ++ stop)).head?.any isWordCharacter = false :=
      not_wordCharacter_of_blank (c := ' ') (by decide)
    rw [hsource, List.append_assoc, List.cons_append, takeWhile_word r hblank] at hfold
    exact (hwords hfold).symm

end TypeRule

namespace TypeTable

open Pattern

/-- The types that a script can declare for the table to map. -/
inductive Declares (types : TypeTable) : Text → Prop
  /-- The source of a rule that requires no arguments. -/
  | source {r : TypeRule} (hr : r ∈ types.rules) (h : r.requiresArguments = false) : Declares types r.source
  /-- A source of one word with a length. -/
  | length {r : TypeRule} (hr : r ∈ types.rules) (h : r.requiresArguments = false)
      (hone : r.isMultiWord = false) (hbare : r.sourceHasArguments = false) {n : Text}
      (hn : ∀ d ∈ n, d.isDigit = true) : Declares types (r.source ++ "(" ++ n ++ ")")
  /-- A source of one word with a precision and a scale. -/
  | scale {r : TypeRule} (hr : r ∈ types.rules) (h : r.requiresArguments = false)
      (hone : r.isMultiWord = false) (hbare : r.sourceHasArguments = false) {p s : Text}
      (hp : ∀ d ∈ p, d.isDigit = true) (hs : ∀ d ∈ s, d.isDigit = true) :
      Declares types (r.source ++ "(" ++ p ++ "," ++ s ++ ")")

/-- The rules of the table have shapes, their first words are not told apart by case alone, and rules
for several words are tried before those that match a part of them. -/
structure IsOrderly (types : TypeTable) : Prop where
  shaped : ∀ r ∈ types.rules, r.isShaped = true
  words : ∀ r ∈ types.rules, ∀ s ∈ types.rules, Text.fold r.word = Text.fold s.word → r.word = s.word
  order : ∀ r ∈ types.rules, r.isMultiWord = true → r.comesFirst types.rules = true

theorem mem_insert {r s : TypeRule} {rules : List TypeRule} :
    s ∈ r.insert rules ↔ s = r ∨ s ∈ rules := by
  induction rules with
  | nil => simp [TypeRule.insert]
  | cons u rules ih =>
    rw [TypeRule.insert]
    split
    · rw [List.mem_cons, ih, List.mem_cons]
      exact or_left_comm
    · exact List.mem_cons

/-- The order of the rules changes nothing about which there are. -/
theorem mem_ofRules {r : TypeRule} {rules : List TypeRule} : r ∈ (ofRules rules).rules ↔ r ∈ rules := by
  show r ∈ rules.foldr TypeRule.insert [] ↔ r ∈ rules
  induction rules with
  | nil => rfl
  | cons s rules ih => rw [List.foldr_cons, mem_insert, ih, List.mem_cons]

theorem forall_mem_ofRules {p : TypeRule → Prop} {rules : List TypeRule} (h : ∀ r ∈ rules, p r) :
    ∀ r ∈ (ofRules rules).rules, p r :=
  fun r hr => h r (mem_ofRules.1 hr)

theorem oracle_orderly : oracleTypes.IsOrderly where
  shaped := forall_mem_ofRules (by decide +kernel)
  words := forall_mem_ofRules fun r hr => forall_mem_ofRules <| by
    revert r
    decide +kernel
  order := by decide +kernel

theorem mysql_orderly : mysqlTypes.IsOrderly where
  shaped := forall_mem_ofRules (by decide +kernel)
  words := forall_mem_ofRules fun r hr => forall_mem_ofRules <| by
    revert r
    decide +kernel
  order := by decide +kernel

/-! ## Matching a declared type -/

section

variable {types : TypeTable} {before after stop : Text}

theorem IsOrderly.shape (ht : types.IsOrderly) {r : TypeRule} (hr : r ∈ types.rules) :
    r.word ≠ [] ∧ r.Shape :=
  TypeRule.shape_of_isShaped (ht.shaped r hr)

theorem IsOrderly.optional (ht : types.IsOrderly) {r : TypeRule} (hr : r ∈ types.rules)
    (h : r.requiresArguments = false) : r.argumentsOptional = true :=
  TypeRule.optional_of_isShaped (ht.shaped r hr) h

/-- In the middle of a word, and at a word that starts no source, the table finds nothing. -/
theorem matcher_none_of_word (ht : types.IsOrderly)
    (h : before.head?.any isWordCharacter = true ∨ ∀ r ∈ types.rules,
      Text.fold (after.takeWhile isWordCharacter) ≠ Text.fold r.word) :
    types.matcher before after = none := by
  refine List.findSome?_eq_none_iff.2 fun r hr => ?_
  rw [TypeRule.matcher_none_of_word (ht.shape hr) (h.imp_right fun h => h r hr)]
  rfl

/-- What a rule finds at a place. -/
def tryRule (before after : Text) (r : TypeRule) : Option (Text × RuleMatch) :=
  (r.pattern.matcher before after).map fun found =>
    (found.1, ⟨r, (captured 1 found.2).filter fun t => !t.isEmpty⟩)

theorem matcher_eq (types : TypeTable) (before after : Text) :
    types.matcher before after = types.rules.findSome? (tryRule before after) := rfl

/-- The table matches a type of several words by its own rule. -/
theorem matcher_words (ht : types.IsOrderly) {r : TypeRule} (hr : r ∈ types.rules)
    (hmulti : r.isMultiWord = true) (hbefore : before.head?.any isWordCharacter = false)
    (hstop : EndsType stop) : types.matcher before (r.source ++ stop) = some (r.source, ⟨r, none⟩) := by
  obtain ⟨hspelled, hne, hform, hsource⟩ := TypeRule.words_of_isMultiWord (ht.shape hr).2 hmulti
  have hown := TypeRule.matcher_words (ht.shape hr).1 hspelled hne hform hsource hbefore hstop
  have hfirst := ht.order r hr hmulti
  have hfind : ∀ rules : List TypeRule, (∀ s ∈ rules, s ∈ types.rules) → r.comesFirst rules = true →
      rules.findSome? (tryRule before (r.source ++ stop)) = some (r.source, ⟨r, none⟩) := by
    intro rules hsub hfirst
    induction rules with
    | nil => cases hfirst
    | cons s rules ih =>
      rw [List.findSome?_cons, tryRule]
      by_cases hs : s = r
      · subst hs
        rw [hown]
        rfl
      · have hmem := hsub s List.mem_cons_self
        simp only [TypeRule.comesFirst, Bool.or_eq_true, beq_iff_eq, Bool.and_eq_true] at hfirst
        obtain ⟨havoid, hrest⟩ := hfirst.resolve_left hs
        rw [TypeRule.matcher_of_avoidsSource (ht.shape hmem) (ht.shape hr).2 hmulti
          (ht.words r hr s hmem) havoid hbefore]
        exact ih (fun u hu => hsub u (List.mem_cons_of_mem _ hu)) hrest
  rw [matcher_eq]
  exact hfind types.rules (fun s hs => hs) hfirst

/-- The arguments that a match finds under the number 1. -/
theorem filter_captured {size : Text} {cs : List (Nat × Text)} (h : cs = [] ∨ cs = [(1, size)]) :
    ((captured 1 cs).filter fun t => !t.isEmpty) = none ∨
      ((captured 1 cs).filter fun t => !t.isEmpty) = some size := by
  rcases h with rfl | rfl
  · exact .inl rfl
  · cases size with
    | nil => exact .inl rfl
    | cons c size => exact .inr rfl

/-- What can follow the first word of the source for the rules with this first word to decide by its size. -/
def EndsBefore (types : TypeTable) (r : TypeRule) (stop : Text) : Prop :=
  ∀ s ∈ types.rules, s.word = r.word → s.EndsBefore stop

theorem endsBefore_of_endsType (h : EndsType stop) (types : TypeTable) (r : TypeRule) : types.EndsBefore r stop :=
  fun s _ _ => TypeRule.endsBefore_of_endsType h s

/-- Every rule settles a word with a size: by its first word, or by the size. -/
theorem exists_settled (ht : types.IsOrderly) {r s : TypeRule} (hr : r ∈ types.rules)
    (hs : s ∈ types.rules) {size : Text} (hsize : IsSize size) :
    ∃ out : Option (List (Nat × Text)), (∀ cs ∈ out, cs = [] ∨ cs = [(1, size)]) ∧
      ∀ ⦃before stop⦄, before.head?.any isWordCharacter = false → stop.head?.any isWordCharacter = false →
        (s.word = r.word → s.EndsBefore stop) →
        s.pattern.matcher before (r.word ++ (size ++ stop)) = out.map fun cs => (r.word ++ size, cs) := by
  obtain ⟨hne, hshape⟩ := ht.shape hs
  by_cases hword : s.word = r.word
  · rw [← hword]
    obtain ⟨out, hout⟩ : ∃ out, TypeRule.Settles s size out := by
      cases hshape with
      | word h => exact (TypeRule.settles_word hne h hsize).imp fun _ => And.left
      | sized hx h => exact (TypeRule.settles_sized hne hx h hsize).imp fun _ => And.left
      | words hrest _ hform h => exact ⟨none, TypeRule.settles_words hne hrest hform h hsize⟩
    exact ⟨out, hout.captures, fun before stop hbefore _ hends => hout.matcher hbefore (hends rfl)⟩
  · refine ⟨none, by simp, fun before stop hbefore hstop _ => ?_⟩
    refine TypeRule.matcher_none_of_word ⟨hne, hshape⟩ (.inr fun hfold => hword ?_)
    rw [TypeRule.takeWhile_word r (TypeRule.head?_size hsize hstop)] at hfold
    exact (ht.words r hr s hs hfold).symm

/-- The table matches a word with a size in the same way wherever it stands. -/
theorem matcher_word (ht : types.IsOrderly) {r : TypeRule} (hr : r ∈ types.rules) {size : Text}
    (hsize : IsSize size) : ∃ out : Option RuleMatch,
      (∀ m ∈ out, m.rule ∈ types.rules ∧ (m.arguments = none ∨ m.arguments = some size)) ∧
      ∀ ⦃before stop⦄, before.head?.any isWordCharacter = false → types.EndsBefore r stop →
        types.matcher before (r.word ++ (size ++ stop)) = out.map fun m => (r.word ++ size, m) := by
  have hfind : ∀ rules : List TypeRule, (∀ s ∈ rules, s ∈ types.rules) → ∃ out : Option RuleMatch,
      (∀ m ∈ out, m.rule ∈ types.rules ∧ (m.arguments = none ∨ m.arguments = some size)) ∧
      ∀ ⦃before stop⦄, before.head?.any isWordCharacter = false → types.EndsBefore r stop →
        rules.findSome? (tryRule before (r.word ++ (size ++ stop))) = out.map fun m => (r.word ++ size, m) := by
    intro rules hsub
    induction rules with
    | nil => exact ⟨none, by simp, fun _ _ _ _ => rfl⟩
    | cons s rules ih =>
      have hmem := hsub s List.mem_cons_self
      obtain ⟨own, hown, hmatch⟩ := exists_settled ht hr hmem hsize
      cases own with
      | none =>
        obtain ⟨out, hout, hrest⟩ := ih fun u hu => hsub u (List.mem_cons_of_mem _ hu)
        refine ⟨out, hout, fun before stop hbefore hstop => ?_⟩
        rw [List.findSome?_cons, tryRule, hmatch hbefore (hstop r hr rfl).word (hstop s hmem)]
        exact hrest hbefore hstop
      | some cs =>
        refine ⟨some ⟨s, (captured 1 cs).filter fun t => !t.isEmpty⟩, ?_, ?_⟩
        · rintro m hm
          obtain rfl := Option.some.inj hm
          exact ⟨hmem, filter_captured (hown cs rfl)⟩
        · intro before stop hbefore hstop
          rw [List.findSome?_cons, tryRule, hmatch hbefore (hstop r hr rfl).word (hstop s hmem)]
          rfl
  exact hfind types.rules fun s hs => hs

/-- A source of one word without arguments is its first word. -/
theorem source_of_one_word (ht : types.IsOrderly) {r : TypeRule} (hr : r ∈ types.rules)
    (hone : r.isMultiWord = false) (hbare : r.sourceHasArguments = false) : r.source = r.word :=
  TypeRule.source_eq_word (ht.shape hr).2 hone hbare

/-- A declared type has several words, or it is the first word of a source with a size that the rule
accepts. -/
theorem Declares.cases_word (ht : types.IsOrderly) {t : Text} (h : types.Declares t) :
    (∃ r ∈ types.rules, r.isMultiWord = true ∧ t = r.source) ∨
      ∃ r ∈ types.rules, ∃ size, IsSize size ∧ t = r.word ++ size ∧
        ∃ out, r.Settles size out ∧ out.isSome = true := by
  have hword {r : TypeRule} (hr : r ∈ types.rules) (hform : r.requiresArguments = false)
      (hsource : r.source = r.word) {size : Text} (hsize : IsSize size) :
      ∃ out, r.Settles size out ∧ out.isSome = true :=
    (TypeRule.settles_word (ht.shape hr).1 hsource hsize).imp fun _ h => ⟨h.1, h.2 (ht.optional hr hform)⟩
  cases h with
  | @source r hr hform =>
    cases hshape : (ht.shape hr).2 with
    | word hsource =>
      exact .inr ⟨r, hr, [], .none, by rw [List.append_nil, ← hsource], hword hr hform hsource .none⟩
    | @sized y hy hsource =>
      refine .inr ⟨r, hr, _, .some hy, hsource, ?_⟩
      exact (TypeRule.settles_sized (ht.shape hr).1 hy hsource (.some hy)).imp fun _ h => ⟨h.1, h.2.2 hsource⟩
    | words _ _ _ hsource =>
      refine .inl ⟨r, hr, ?_, rfl⟩
      simp [TypeRule.isMultiWord, hsource, show isBlank ' ' = true by decide]
  | @length r hr hform hone hbare n hn =>
    have hsource := source_of_one_word ht hr hone hbare
    have hy : ∀ c ∈ n, isSizeCharacter c = true := fun c hc => by simp [isSizeCharacter, hn c hc]
    exact .inr ⟨r, hr, '(' :: (n ++ [')']), .some hy, by simp [← hsource], hword hr hform hsource (.some hy)⟩
  | @scale r hr hform hone hbare p s hp hs =>
    have hsource := source_of_one_word ht hr hone hbare
    have hy : ∀ c ∈ p ++ ',' :: s, isSizeCharacter c = true := by
      intro c hc
      rcases List.mem_append.1 hc with hc | hc
      · simp [isSizeCharacter, hp c hc]
      · rcases List.mem_cons.1 hc with rfl | hc
        · rfl
        · simp [isSizeCharacter, hs c hc]
    exact .inr ⟨r, hr, '(' :: (p ++ ',' :: s ++ [')']), .some hy, by simp [← hsource],
      hword hr hform hsource (.some hy)⟩

/-- A declared type is matched as a whole, in the same way wherever it stands. -/
theorem Declares.exists_match (ht : types.IsOrderly) {t : Text} (h : types.Declares t) :
    ∃ m : RuleMatch, m.rule ∈ types.rules ∧
      (m.arguments = none ∨ ∃ size, IsSize size ∧ m.arguments = some size) ∧
      ∀ ⦃before stop⦄, before.head?.any isWordCharacter = false → EndsType stop →
        types.matcher before (t ++ stop) = some (t, m) := by
  rcases h.cases_word ht with ⟨r, hr, hmulti, rfl⟩ | ⟨r, hr, size, hsize, rfl, own, hown, hsome⟩
  · exact ⟨⟨r, none⟩, hr, .inl rfl, fun before stop => matcher_words ht hr hmulti⟩
  · obtain ⟨out, hout, hmatch⟩ := matcher_word ht hr hsize
    cases out with
    | none =>
      -- the rule of the word itself accepts the size
      have hend : EndsType [] := by simp [EndsType]
      have hnone := @hmatch [] [] rfl (endsBefore_of_endsType hend types r)
      have hrule := @hown.matcher [] [] rfl (TypeRule.endsBefore_of_endsType hend r)
      obtain ⟨cs, rfl⟩ := Option.isSome_iff_exists.1 hsome
      have := List.findSome?_eq_none_iff.1 hnone r hr
      rw [hrule] at this
      cases this
    | some m =>
      obtain ⟨hm, harguments⟩ := hout m rfl
      refine ⟨m, hm, harguments.imp_right fun h => ⟨size, hsize, h⟩, fun before stop hbefore hstop => ?_⟩
      rw [List.append_assoc]
      exact hmatch hbefore (endsBefore_of_endsType hstop types r)

end

end TypeTable

end DialectBridge
