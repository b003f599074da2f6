import DialectBridge.Proofs.Types.Columns
import DialectBridge.Proofs.Types.RuleMatch

/-!
# The types of columns that sequences feed

A sequence can feed a column of the type `NUMBER` with any precision but one: `NUMBER(1)` is a truth value. Such a
column is written `id NUMBER(10) DEFAULT orders_seq.NEXTVAL`. Its type is converted in its place, to a numeric type
with a precision or without one, and the default value stays (`convertsColumn_fed`).
-/

namespace DialectBridge

namespace SerialColumn

open TypeTable Pattern

/-! ## Declarations -/

/-- The text is a precision in parentheses, perhaps with a scale, or there is none. -/
inductive IsPrecision : Text → Prop
  | none : IsPrecision []
  | length {n : Text} (hne : n ≠ []) (hn : ∀ d ∈ n, d.isDigit = true) : IsPrecision ('(' :: (n ++ [')']))
  | scale {p s : Text} (hpne : p ≠ []) (hp : ∀ d ∈ p, d.isDigit = true) (hsne : s ≠ [])
      (hs : ∀ d ∈ s, d.isDigit = true) : IsPrecision ('(' :: (p ++ ',' :: (s ++ [')'])))

/-- The type is one of the numbers that a sequence can feed. -/
def IsFedType (type : Text) : Prop :=
  ∃ size, IsPrecision size ∧ size ≠ "(1)" ∧ type = "NUMBER" ++ size

/-- The name of a sequence, bare or in a schema. -/
inductive IsSequenceName : Text → Prop
  | bare {w : Text} (free : oracleTypes.IsFreeName w) : IsSequenceName w
  | qualified {q w : Text} (schema : oracleTypes.IsFreeName q) (free : oracleTypes.IsFreeName w) :
      IsSequenceName (q ++ '.' :: w)

/-- The default value of a column that the sequence feeds, as it stands behind the type. -/
def feed (sequence : Text) : Text :=
  ' ' :: (Keyword.default.text ++ ' ' :: (sequence ++ '.' :: "NEXTVAL".toList))

/-! ## Conversion -/

theorem IsPrecision.isSize {size : Text} (h : IsPrecision size) : IsSize size := by
  cases h with
  | none => exact .none
  | length _ hn => exact .some fun c hc => by simp [isSizeCharacter, hn c hc]
  | @scale p s _ hp _ hs =>
    have hy : ∀ c ∈ p ++ ',' :: s, isSizeCharacter c = true := by
      intro c hc
      rcases List.mem_append.1 hc with hc | hc
      · simp [isSizeCharacter, hp c hc]
      · rcases List.mem_cons.1 hc with rfl | hc
        · rfl
        · simp [isSizeCharacter, hs c hc]
    simpa using IsSize.some hy

/-- The rule for `NUMBER`. -/
def numberRule : TypeRule :=
  ⟨"NUMBER", "NUMERIC", .sized⟩

theorem numberRule_mem : numberRule ∈ oracleTypes.rules :=
  mem_ofRules.2 (by decide +kernel)

/-- The rule is for one word, and perhaps a size. -/
theorem numberRule_shape : numberRule.word = "NUMBER".toList ∧ numberRule.isMultiWord = false ∧
    numberRule.sourceHasArguments = false := by decide +kernel

theorem numberRule_word : numberRule.word = "NUMBER".toList :=
  numberRule_shape.1

/-- The types are declared, so some rule matches each of them. -/
theorem declares_number {size : Text} (h : IsPrecision size) : oracleTypes.Declares (numberRule.word ++ size) := by
  obtain ⟨hword, hone, hbare⟩ := numberRule_shape
  rw [hword]
  cases h with
  | none =>
    rw [List.append_nil]
    exact .source numberRule_mem rfl
  | length _ hn =>
    have hdeclares := Declares.length numberRule_mem rfl hone hbare hn
    rw [List.append_assoc, List.append_assoc] at hdeclares
    exact hdeclares
  | scale _ hp _ hs =>
    have hdeclares := Declares.scale numberRule_mem rfl hone hbare hp hs
    rw [List.append_assoc, List.append_assoc, List.append_assoc, List.append_assoc] at hdeclares
    exact hdeclares

/-- The words of the numeric types that the rules for `NUMBER` write. -/
def writtenWords : List Text :=
  ["NUMERIC", "DECIMAL", "INTEGER", "BIGINT"]

/-- The text is a numeric type that the rules write. -/
def IsWritten (type : Text) : Prop :=
  ∃ word ∈ writtenWords, ∃ size, IsPrecision size ∧ type = word ++ size

theorem isWritten_of_mem {word : Text} (h : word ∈ writtenWords) : IsWritten word :=
  ⟨word, h, [], .none, (List.append_nil word).symm⟩

/-- The rules for `NUMBER` are for one word, and but for the one of truth values they write numeric types. -/
theorem rules_number : ∀ r ∈ oracleTypes.rules, r.word = numberRule.word → r.isMultiWord = false ∧
    (r.source ≠ "NUMBER(1)".toList → r.target ∈ writtenWords ∨ r.keepsSize = false ∧
      (r.target = "DECIMAL(10,2)".toList ∨ r.target = "DECIMAL(19,2)".toList)) :=
  forall_mem_ofRules (by decide +kernel)

/-- What a rule for `NUMBER` writes, but for the one of truth values. -/
theorem isWritten_rule {r : TypeRule} (hr : r ∈ oracleTypes.rules) (hword : r.word = numberRule.word)
    (hne : r.source ≠ "NUMBER(1)".toList) : IsWritten r.target ∧ (r.keepsSize = true → r.target ∈ writtenWords) := by
  rcases (rules_number r hr hword).2 hne with hmem | ⟨hkeeps, htarget⟩
  · exact ⟨isWritten_of_mem hmem, fun _ => hmem⟩
  · have hscale {n : Text} (hne : n ≠ []) (hn : ∀ d ∈ n, d.isDigit = true) :
        IsWritten ("DECIMAL" ++ '(' :: (n ++ ',' :: ("2" ++ [')']))) :=
      ⟨"DECIMAL", by decide, _, .scale hne hn (by decide) (List.all_eq_true.1 (by decide)), rfl⟩
    refine ⟨?_, fun h => by rw [hkeeps] at h; cases h⟩
    rcases htarget with h | h <;> rw [h]
    · exact @hscale "10" (by decide) (List.all_eq_true.1 (by decide))
    · exact @hscale "19" (by decide) (List.all_eq_true.1 (by decide))

theorem isWritten_match {m : RuleMatch} {size : Text} (hsize : IsPrecision size)
    (hrule : IsWritten m.rule.target ∧ (m.rule.keepsSize = true → m.rule.target ∈ writtenWords))
    (harguments : m.arguments = none ∨ m.arguments = some size) : IsWritten m.written := by
  rcases harguments with hnone | hsome
  · simpa only [RuleMatch.written, hnone] using hrule.1
  · simp only [RuleMatch.written, hsome, carriedSize_of_isSize hsize.isSize]
    split
    · next hkeeps => exact ⟨_, hrule.2 hkeeps, size, hsize, rfl⟩
    · exact hrule.1

/-- A rule that matches a number is one for `NUMBER`, and it is the one of truth values only at `NUMBER(1)`. -/
theorem rule_of_match {size : Text} (hsize : IsPrecision size) {taken : Text} {m : RuleMatch}
    (h : oracleTypes.matcher [] (numberRule.word ++ (size ++ [])) = some (taken, m)) :
    m.rule ∈ oracleTypes.rules ∧ m.rule.word = numberRule.word ∧
      (m.rule.source = "NUMBER(1)".toList → size = "(1)".toList) := by
  obtain ⟨r, hr, hmatch⟩ := List.exists_of_findSome?_eq_some h
  obtain ⟨found, hfound, heq⟩ := Option.map_eq_some_iff.1 hmatch
  obtain rfl : r = m.rule := congrArg (fun p => p.2.rule) heq
  have hword : m.rule.word = numberRule.word := by
    by_contra hne
    have hnone : m.rule.pattern.matcher [] (numberRule.word ++ (size ++ [])) = none := by
      refine TypeRule.matcher_none_of_word (oracle_orderly.shape hr) (.inr fun hfold => hne ?_)
      rw [TypeRule.takeWhile_word _ (TypeRule.head?_size hsize.isSize rfl)] at hfold
      exact (oracle_orderly.words _ numberRule_mem _ hr hfold).symm
    rw [hnone] at hfound
    cases hfound
  refine ⟨hr, hword, fun hsource => ?_⟩
  have hone : m.rule.source = m.rule.word ++ '(' :: ("1" ++ [')']) := by
    rw [hsource, hword, numberRule_word]
    rfl
  obtain ⟨out, hsettles, hsome⟩ :=
    TypeRule.settles_sized (oracle_orderly.shape hr).1 (List.all_eq_true.1 (by decide)) hone hsize.isSize
  have hrun := @hsettles.matcher [] [] rfl ⟨rfl, by decide, fun _ => rfl⟩
  rw [hword, hfound] at hrun
  have hout : out.isSome = true := by
    cases out with
    | none => cases hrun
    | some _ => rfl
  exact (List.append_cancel_left (hone.symm.trans (hsome.1 hout))).symm

/-- A number is matched as a whole in front of a default value too, and what is written for it is numeric. -/
theorem exists_match {size : Text} (hsize : IsPrecision size) (hne : size ≠ "(1)".toList) :
    ∃ m : RuleMatch, IsWritten m.written ∧
      ∀ ⦃before stop⦄, before.head?.any isWordCharacter = false → oracleTypes.EndsBefore numberRule stop →
        oracleTypes.matcher before (numberRule.word ++ (size ++ stop)) = some (numberRule.word ++ size, m) := by
  obtain ⟨out, hout, hmatch⟩ := matcher_word oracle_orderly numberRule_mem hsize.isSize
  have hend : EndsType [] := by simp [EndsType]
  have hfound := @hmatch [] [] rfl (endsBefore_of_endsType hend _ _)
  obtain ⟨m, hm⟩ : ∃ m, out = .some m := by
    -- the types are declared, so some rule matches
    obtain ⟨m, -, -, halone⟩ := (declares_number hsize).exists_match oracle_orderly
    have hdeclared := @halone [] [] rfl hend
    rw [List.append_assoc, hfound] at hdeclared
    obtain ⟨m, hm, -⟩ := Option.map_eq_some_iff.1 hdeclared
    exact ⟨m, hm⟩
  subst hm
  obtain ⟨hrule, hword, hone⟩ := rule_of_match hsize hfound
  have hwritten := isWritten_rule hrule hword (mt hone hne)
  exact ⟨m, isWritten_match hsize hwritten (hout m rfl).2, hmatch⟩

/-! ## The column -/

theorem head?_trimStart_feed (sequence stop : Text) :
    (Text.trimStart (feed sequence ++ stop)).head? = .some 'D' := by
  rw [feed, List.cons_append, Text.trimStart, List.dropWhile_cons_of_pos (by decide)]
  rfl

/-- No rule for `NUMBER` looks for a word behind it. -/
theorem endsBefore_feed (sequence stop : Text) : oracleTypes.EndsBefore numberRule (feed sequence ++ stop) := by
  intro r hr hword
  refine ⟨not_wordCharacter_of_blank (c := ' ') (by decide), by simp [head?_trimStart_feed], fun hmulti => ?_⟩
  rw [(rules_number r hr hword).1] at hmulti
  cases hmulti

/-- The words of a default value are no types. -/
theorem rewritten_feed {sequence : Text} (hsequence : IsSequenceName sequence) {stop : Text} (hstop : EndsType stop)
    (fresh : Bool) (before : Text) : oracleTypes.rewritten fresh before (feed sequence ++ stop) =
      feed sequence ++ oracleTypes.rewritten true ((feed sequence).reverse ++ before) stop := by
  have ht := oracle_orderly
  have hsign : isWordCharacter ' ' = false ∧ isWordCharacter '.' = false :=
    ⟨not_wordCharacter_of_blank (by decide), Item.not_wordCharacter_of_sign (by simp)⟩
  have hword {w rest before : Text} {fresh : Bool} (hw : IsBareWord w) (hrest : rest.head?.any isWordCharacter = false)
      (hfold : ∀ r ∈ oracleTypes.rules, Text.fold w ≠ Text.fold r.word) :
      oracleTypes.rewritten fresh before (w ++ rest) = w ++ oracleTypes.rewritten true (w.reverse ++ before) rest :=
    rewritten_word ht hw.ne_nil hw.bare hrest hfold
  have hfree {w : Text} (h : oracleTypes.IsFreeName w) : ∀ r ∈ oracleTypes.rules, Text.fold w ≠ Text.fold r.word :=
    fun r hr => h.fold_ne hr (ht.shape hr).1
  have hnextval : ∀ r ∈ oracleTypes.rules, Text.fold "NEXTVAL" ≠ Text.fold r.word :=
    forall_mem_ofRules (by decide +kernel)
  have hblank (rest : Text) : (' ' :: rest).head?.any isWordCharacter = false := hsign.1
  have hdot (rest : Text) : ('.' :: rest).head?.any isWordCharacter = false := hsign.2
  have hname (rest : Text) (fresh : Bool) (before : Text) :
      oracleTypes.rewritten fresh before (sequence ++ '.' :: rest) =
        sequence ++ '.' :: oracleTypes.rewritten true ('.' :: (sequence.reverse ++ before)) rest := by
    cases hsequence with
    | bare h => rw [hword h.toIsBareWord (hdot rest) (hfree h), rewritten_sign ht hsign.2]
    | qualified hq hw =>
      rw [List.append_assoc, List.cons_append, hword hq.toIsBareWord (hdot _) (hfree hq), rewritten_sign ht hsign.2,
        hword hw.toIsBareWord (hdot rest) (hfree hw), rewritten_sign ht hsign.2]
      simp
  have hshape : feed sequence ++ stop =
      ' ' :: (Keyword.default.text ++ ' ' :: (sequence ++ '.' :: ("NEXTVAL".toList ++ stop))) := by simp [feed]
  rw [hshape, rewritten_sign ht hsign.1, hword Keyword.default.isBareWord_text (hblank _)
    fun r hr => oracle_spelled.word_ne_keyword hr .default, rewritten_sign ht hsign.1, hname,
    hword (by decide) hstop.head?_wordCharacter hnextval]
  simp [feed]

/-- In front of the end of a column it does not matter whether a match ends there. -/
theorem rewritten_stop {stop : Text} (hstop : EndsType stop) (fresh : Bool) (before : Text) :
    oracleTypes.rewritten fresh before stop = oracleTypes.rewritten true before stop := by
  cases stop with
  | nil => rw [rewritten_nil oracle_orderly, rewritten_nil oracle_orderly]
  | cons c stop =>
    have hc : isWordCharacter c = false := hstop.head?_wordCharacter
    rw [rewritten_sign oracle_orderly hc, rewritten_sign oracle_orderly hc]

/-- A column that a sequence feeds is converted in its type alone. -/
theorem convertsColumn_fed {name type sequence : Text} (hname : oracleTypes.IsFreeName name) (htype : IsFedType type)
    (hsequence : IsSequenceName sequence) : ∃ type', IsWritten type' ∧
      oracleTypes.ConvertsColumn (name, type ++ feed sequence) (name, type' ++ feed sequence) := by
  obtain ⟨size, hsize, hne, rfl⟩ := htype
  obtain ⟨m, hwritten, hmatch⟩ := exists_match hsize hne
  refine ⟨m.written, hwritten, hname, rfl, fun fresh before stop hbefore hstop => ?_⟩
  have hplace : isNamePlace (' ' :: (name.reverse ++ before)) (feed sequence ++ stop) = false :=
    not_namePlace hname hbefore (by simp [head?_trimStart_feed])
  have hblank : (' ' :: (name.reverse ++ before)).head?.any isWordCharacter = false :=
    not_wordCharacter_of_blank (c := ' ') (by decide)
  have hfound := hmatch hblank (endsBefore_feed sequence stop)
  rw [← List.append_assoc] at hfound
  have htaken : numberRule.word ++ size ≠ [] := by simp [numberRule_word]
  have hchange : TypeTable.change? ⟨' ' :: (name.reverse ++ before), numberRule.word ++ size, feed sequence ++ stop, m⟩ =
      .some ⟨numberRule.word ++ size, m.written⟩ := by
    rw [TypeTable.change?, if_neg (by simp [hplace])]
  have hrewritten : oracleTypes.rewritten fresh (' ' :: (name.reverse ++ before))
      (numberRule.word ++ size ++ (feed sequence ++ stop)) = m.written ++ (feed sequence ++ oracleTypes.rewritten false
        ((feed sequence).reverse ++ ((numberRule.word ++ size).reverse ++ ' ' :: (name.reverse ++ before))) stop) := by
    rw [rewritten, Cut.pieces_some hfound htaken, List.flatMap_cons, replaced, hchange, ← rewritten,
      rewritten_feed hsequence hstop, rewritten_stop hstop false]
    rfl
  simpa [numberRule_word] using hrewritten

end SerialColumn

end DialectBridge
