import DialectBridge.Proofs.Pattern.Word
import DialectBridge.Proofs.Types.RuleMatch

/-!
# Names that look like types

Behind an opening parenthesis, a comma, a point or a keyword that introduces a name, a word is a name
(`ExpectsName`). A match there is left alone exactly if no arguments belong to it, that is, if no
parenthesis stands in the matched text (`change?_isSome_iff_of_expectsName`). With a parenthesis it is taken for a
type all the same (`convertText_takes_definition`).
-/

namespace DialectBridge

/-! ## Places of names -/

/-- Behind this text a name is expected: blanks apart, it ends in `(`, `,` or `.`, or in one of the
keywords that introduce a name. -/
inductive ExpectsName : Text → Prop where
  | sign {c : Char} (hc : c = '(' ∨ c = ',' ∨ c = '.') (front : Text) {blanks : Text}
      (hblanks : ∀ b ∈ blanks, isBlank b = true) : ExpectsName (front ++ c :: blanks)
  | keyword {word : Text} (hword : ∃ k ∈ nameIntroducers, k.same word = true) {front : Text}
      (hfront : front.getLast?.any (fun c => isAlphanumeric c || c == '_') = false) {blanks : Text}
      (hblanks : ∀ b ∈ blanks, isBlank b = true) : ExpectsName (front ++ (word ++ blanks))

/-- A character whose lower case is bare is bare. -/
theorem bare_of_toLower {c : Char} (h : isBare c.toLower = true) : isBare c = true := by
  by_cases hascii : c.toNat < 128
  · exact forall_ascii (P := fun c => isBare c.toLower = true → isBare c = true) (by decide) hascii h
  · -- lower case changes ASCII letters only
    have hsame : c.toLower = c := by
      refine dif_neg fun hupper => hascii ?_
      exact Nat.lt_of_le_of_lt (UInt32.le_iff_toNat_le.1 hupper.2) (by decide)
    rwa [hsame] at h

/-- What spells a keyword up to case is a run of bare characters. -/
theorem bare_of_introducer {k word : Text} (hk : k ∈ nameIntroducers) (hsame : k.same word = true) :
    word ≠ [] ∧ ∀ c ∈ word, isBare c = true := by
  have hkeywords : ∀ k ∈ nameIntroducers, k ≠ [] ∧ (k.all fun c => isBare c.toLower) = true := by decide
  obtain ⟨hne, hbare⟩ := hkeywords k hk
  have hlower : k.lower = word.lower := Text.same_iff.1 hsame
  constructor
  · rintro rfl
    exact hne (List.map_eq_nil_iff.1 hlower)
  · intro c hc
    have hmem : c.toLower ∈ k.lower := by
      rw [hlower]
      exact List.mem_map.2 ⟨c, hc, rfl⟩
    obtain ⟨d, hd, hdc⟩ := List.mem_map.1 hmem
    refine bare_of_toLower ?_
    rw [← hdc]
    exact List.all_eq_true.1 hbare d hd

/-- Where a name is expected, every word is in the place of a name. -/
theorem isNamePlace_of_expectsName {before : Text} (h : ExpectsName before.reverse) (after : Text) :
    isNamePlace before after = true := by
  generalize hfront : before.reverse = whole at h
  obtain rfl : before = whole.reverse := by rw [← hfront, List.reverse_reverse]
  cases h with
  | @sign c hc front blanks hblanks =>
    have hblank : isBlank c = false := by rcases hc with rfl | rfl | rfl <;> decide
    have htrim : Text.trimStart (front ++ c :: blanks).reverse = c :: front.reverse := by
      rw [List.reverse_append, List.reverse_cons, List.append_assoc, Text.trimStart]
      exact Text.dropWhile_run (fun b hb => hblanks b (List.mem_reverse.1 hb)) (by simpa using hblank)
    unfold isNamePlace
    simp only [htrim, List.head?_cons, Option.some.injEq]
    rcases hc with rfl | rfl | rfl <;> simp
  | @keyword word hword front hfront blanks hblanks =>
    obtain ⟨k, hk, hsame⟩ := hword
    obtain ⟨hne, hbare⟩ := bare_of_introducer hk hsame
    have hrun : ∀ c ∈ word.reverse, (isAlphanumeric c || c == '_') = true :=
      fun c hc => nameCharacter_of_bare (hbare c (List.mem_reverse.1 hc))
    have hstop : front.reverse.head?.any (fun c => isAlphanumeric c || c == '_') = false := by
      rwa [List.head?_reverse]
    have hhead : (word.reverse ++ front.reverse).head?.any isBlank = false := by
      obtain ⟨c, t, ht⟩ := List.exists_cons_of_ne_nil (List.reverse_ne_nil_iff.2 hne)
      have hc : c ∈ word := List.mem_reverse.1 (ht ▸ List.mem_cons_self)
      simpa [ht] using not_blank_of_bare (hbare c hc)
    have htrim : Text.trimStart (front ++ (word ++ blanks)).reverse = word.reverse ++ front.reverse := by
      rw [List.reverse_append, List.reverse_append, List.append_assoc, Text.trimStart]
      exact Text.dropWhile_run (fun b hb => hblanks b (List.mem_reverse.1 hb)) hhead
    have hlast : wordBefore (word.reverse ++ front.reverse) = word := by
      rw [wordBefore, Text.takeWhile_run hrun hstop, List.reverse_reverse]
    have hany : nameIntroducers.any (fun k => k.same word) = true :=
      List.any_eq_true.2 ⟨k, hk, hsame⟩
    unfold isNamePlace
    simp only [htrim, hlast, hany]
    split
    · rfl
    · split
      · rfl
      · rw [if_neg (by simpa using hne)]

/-! ## Parentheses in a match -/

namespace Pattern

/-- Every way through the pattern takes an opening parenthesis. -/
def opensParen : Pattern → Bool
  | empty | one _ | many _ | edge | lineEnd => false
  | letter c => c == '('
  | seq first second => opensParen first || opensParen second
  | either first second => opensParen first && opensParen second
  | capture _ p => opensParen p

theorem Reaches.opensParen {p : Pattern} {s t : Site} (h : Reaches p s t) (hp : p.opensParen = true) :
    ∃ taken, s.after = taken ++ t.after ∧ '(' ∈ taken := by
  induction p generalizing s t with
  | empty | one _ | many _ | edge | lineEnd => cases hp
  | letter c =>
    obtain ⟨d, rest, hafter, hd, rfl⟩ := h
    obtain rfl : c = '(' := beq_iff_eq.1 hp
    obtain rfl := eq_leftParen hd
    exact ⟨['('], hafter, List.mem_singleton_self _⟩
  | seq first second ihFirst ihSecond =>
    obtain ⟨u, hfirst, hsecond⟩ := h
    obtain ⟨taken₁, hafter₁, -⟩ := hfirst.split
    obtain ⟨taken₂, hafter₂, -⟩ := hsecond.split
    refine ⟨taken₁ ++ taken₂, by rw [hafter₁, hafter₂, List.append_assoc], ?_⟩
    rcases Bool.or_eq_true_iff.1 hp with hp | hp
    · obtain ⟨taken, hafter, hmem⟩ := ihFirst hfirst hp
      obtain rfl := List.append_cancel_right (hafter₁.symm.trans hafter)
      exact List.mem_append_left _ hmem
    · obtain ⟨taken, hafter, hmem⟩ := ihSecond hsecond hp
      obtain rfl := List.append_cancel_right (hafter₂.symm.trans hafter)
      exact List.mem_append_right _ hmem
  | either first second ihFirst ihSecond =>
    obtain ⟨hfirst, hsecond⟩ := Bool.and_eq_true_iff.1 hp
    exact h.elim (ihFirst · hfirst) (ihSecond · hsecond)
  | capture n p ih =>
    obtain ⟨u, hu, rfl⟩ := h
    have hopen := ih hu hp
    exact hopen

end Pattern

namespace TypeRule

open Pattern

/-- Around its arguments the rule takes a parenthesis exactly if its source has one. -/
def showsArguments (r : TypeRule) : Bool :=
  if r.sourceHasArguments then r.front.opensParen else r.front.avoids '(' && r.back.avoids '('

theorem oracle_showsArguments : ∀ r ∈ oracleTypes.rules, r.showsArguments = true := by
  decide +kernel

theorem mysql_showsArguments : ∀ r ∈ mysqlTypes.rules, r.showsArguments = true := by
  decide +kernel

/-- Arguments start with a parenthesis, wherever they are asked for. -/
theorem reaches_opening {r : TypeRule} {s t : Site} (h : Reaches r.argumentsPattern s t) :
    t = s ∨ ∃ x, s.after = x ++ t.after ∧ '(' ∈ x := by
  unfold argumentsPattern at h
  split at h
  · exact .inl h
  split at h
  · exact .inr (h.opensParen rfl)
  split at h
  · exact .inr (h.opensParen rfl)
  · rcases h with h | h
    · exact .inr (h.opensParen rfl)
    · exact .inl h

/-- A match has arguments, its own or those of the source, exactly if a parenthesis stands in it. -/
theorem mem_paren_iff {r : TypeRule} (hr : r.isRegular = true) (hshow : r.showsArguments = true)
    {before after taken : Text} {captures : List (Nat × Text)}
    (h : r.pattern.matcher before after = some (taken, captures)) :
    '(' ∈ taken ↔ r.sourceHasArguments = true ∨ captures ≠ [] := by
  simp only [isRegular, Bool.and_eq_true] at hr
  obtain ⟨⟨⟨⟨⟨⟨-, hfrontFree⟩, -⟩, hbackFree⟩, -⟩, -⟩, -⟩ := hr
  obtain ⟨t, hreach, htaken, -, rfl⟩ := matcher_reaches h
  obtain ⟨u, v, hu, hv, ht⟩ := reaches_pattern hreach
  rw [ht.captured hbackFree]
  cases hsource : r.sourceHasArguments with
  | true =>
    rw [showsArguments, if_pos hsource] at hshow
    obtain ⟨f, hf, hmem⟩ := hu.opensParen hshow
    obtain ⟨x, hx, -⟩ := hv.split
    obtain ⟨b, hb, -⟩ := ht.split
    have hparts : taken = f ++ (x ++ b) := by
      refine List.append_cancel_right (htaken.symm.trans ?_)
      rw [List.append_assoc, List.append_assoc, ← hb, ← hx]
      exact hf
    simp [hparts, hmem]
  | false =>
    rw [showsArguments, if_neg (by simp [hsource]), Bool.and_eq_true] at hshow
    obtain ⟨f, hf, -, hfront⟩ := hu.avoids hshow.1
    obtain ⟨b, hb, -, hback⟩ := ht.avoids hshow.2
    have hufree : u.captured = [] := hu.captured hfrontFree
    rcases reaches_opening hv with rfl | ⟨x, hx, hopen⟩
    · -- without arguments neither part has a parenthesis
      have hparts : taken = f ++ b := by
        refine List.append_cancel_right (htaken.symm.trans ?_)
        rw [List.append_assoc, ← hb]
        exact hf
      simp [hparts, hfront, hback, hufree]
    · have hparts : taken = f ++ (x ++ b) := by
        refine List.append_cancel_right (htaken.symm.trans ?_)
        rw [List.append_assoc, List.append_assoc, ← hb, ← hx]
        exact hf
      have hcaptured : v.captured ≠ [] := by
        rcases reaches_arguments hv with rfl | ⟨y, -, hy⟩
        · -- arguments take a character, so the two sites differ
          have hnil : x = [] := List.append_cancel_right (show x ++ v.after = [] ++ v.after from hx.symm)
          rw [hnil] at hopen
          cases hopen
        · simp [hy]
      simp [hparts, hopen, hcaptured]

end TypeRule

namespace TypeTable

theorem isRegular_of_eq {types : TypeTable} (h : types = oracleTypes ∨ types = mysqlTypes) :
    types.IsRegular ∧ ∀ r ∈ types.rules, r.showsArguments = true := by
  rcases h with rfl | rfl
  · exact ⟨TypeRule.oracle_regular, TypeRule.oracle_showsArguments⟩
  · exact ⟨TypeRule.mysql_regular, TypeRule.mysql_showsArguments⟩

/-- A match is a bare type exactly if no parenthesis stands in it. -/
theorem arguments_isNone_iff {types : TypeTable} (ht : types = oracleTypes ∨ types = mysqlTypes)
    {before after taken : Text} {m : RuleMatch} (h : types.matcher before after = some (taken, m)) :
    (m.arguments.isNone && !m.rule.sourceHasArguments) = true ↔ '(' ∉ taken := by
  obtain ⟨hregular, hshow⟩ := isRegular_of_eq ht
  obtain ⟨hr, captures, hmatch, harguments⟩ := matcher_rule h
  rw [TypeRule.mem_paren_iff (hregular _ hr) (hshow _ hr) hmatch]
  -- what a rule captures are its arguments, and these are not empty
  have hcaptures : m.arguments.isNone = true ↔ captures = [] := by
    obtain ⟨t, hreach, -, -, rfl⟩ := Pattern.matcher_reaches hmatch
    obtain ⟨u, v, hu, hv, hback⟩ := TypeRule.reaches_pattern hreach
    have hfree := hregular _ hr
    simp only [TypeRule.isRegular, Bool.and_eq_true] at hfree
    obtain ⟨⟨⟨⟨⟨⟨-, hfrontFree⟩, -⟩, hbackFree⟩, -⟩, -⟩, -⟩ := hfree
    have hufree : u.captured = [] := hu.captured hfrontFree
    rw [hback.captured hbackFree] at harguments ⊢
    rcases TypeRule.reaches_arguments hv with rfl | ⟨x, -, hx⟩
    · simp [harguments, hufree, captured]
    · simp [harguments, hx, captured]
  simp only [Bool.and_eq_true, Bool.not_eq_true', hcaptures, not_or, ne_eq, Decidable.not_not,
    Bool.not_eq_true]
  exact And.comm

/-- What a piece of a text becomes when the types in it are replaced. -/
def convertedPiece : Cut RuleMatch → Text
  | .copied c => [c]
  | .found m => ((change? m).map TypeChange.written).getD m.text

theorem text_convertText (types : TypeTable) (t : Text) :
    (types.convertText t).text = (cut types.matcher t).flatMap convertedPiece := by
  refine congrArg (fun f => (cut types.matcher t).flatMap f) (funext fun piece => ?_)
  cases piece <;> rfl

/-- Where a name is expected, a match is recorded as a change exactly if a parenthesis stands in it.
Without one, the matched text is copied, and what stands around it is converted on its own. -/
theorem change?_isSome_iff_of_expectsName {types : TypeTable} (ht : types = oracleTypes ∨ types = mysqlTypes) {t : Text}
    {front back : List (Cut RuleMatch)} {m : Match RuleMatch}
    (hcut : cut types.matcher t = front ++ .found m :: back) (hname : ExpectsName m.before.reverse) :
    m.before.reverse ++ m.text ++ m.after = t ∧ ((change? m).isSome = true ↔ '(' ∈ m.text) ∧
      ('(' ∉ m.text → (types.convertText t).text =
        front.flatMap convertedPiece ++ m.text ++ back.flatMap convertedPiece) := by
  have hmem : Cut.found m ∈ cut types.matcher t := by simp [hcut]
  have hprefix : types.matcher.TakesPrefix := by
    intro before after taken value h
    obtain ⟨-, captures, hmatch, -⟩ := matcher_rule h
    exact Pattern.matcher_takesPrefix _ hmatch
  obtain ⟨hmatch, htext⟩ := Cut.matcher_of_found hprefix hmem
  have hbare := arguments_isNone_iff ht hmatch
  have hplace := isNamePlace_of_expectsName hname m.after
  have hchange : change? m = none ↔ '(' ∉ m.text := by
    rw [← hbare, change?, hplace, Bool.and_true]
    split
    · next h => exact iff_of_true rfl h
    · next h => exact iff_of_false (Option.some_ne_none _) h
  refine ⟨by simpa using htext, ?_, fun hparen => ?_⟩
  · rw [← Decidable.not_iff_not, ← hchange, Option.not_isSome_iff_eq_none]
  · rw [text_convertText, hcut, List.flatMap_append, List.flatMap_cons, convertedPiece, hchange.2 hparen,
      List.append_assoc]
    rfl

deriving instance DecidableEq for RuleMatch, Match, Cut

/-- The match at the name of a column that is named like its type. -/
def dateColumn : Match RuleMatch :=
  ⟨['('], "date", " DATE)", ⟨⟨"DATE", "TIMESTAMP", .fixed⟩, none⟩⟩

theorem convertText_keeps_column_date :
    cut oracleTypes.matcher "(date DATE)" =
        [.copied '('] ++ .found dateColumn :: (cut oracleTypes.matcher "(date DATE)").drop 2 ∧
      ExpectsName dateColumn.before.reverse ∧ '(' ∉ dateColumn.text ∧
        (oracleTypes.convertText "(date DATE)").text =
          [.copied '('].flatMap convertedPiece ++ dateColumn.text ++
            ((cut oracleTypes.matcher "(date DATE)").drop 2).flatMap convertedPiece := by
  have hcut : cut oracleTypes.matcher "(date DATE)" =
      [.copied '('] ++ .found dateColumn :: (cut oracleTypes.matcher "(date DATE)").drop 2 := by
    decide +kernel
  have hname : ExpectsName dateColumn.before.reverse := .sign (.inl rfl) [] (by simp)
  have hparen : '(' ∉ dateColumn.text := by decide
  exact ⟨hcut, hname, hparen, (change?_isSome_iff_of_expectsName (.inl rfl) hcut hname).2.2 hparen⟩

/-- The column list of a table that is named like a type is taken for the arguments of the type, and
the whole definition goes. -/
theorem convertText_takes_definition :
    ExpectsName "CREATE TABLE " ∧ oracleTypes.convertText "CREATE TABLE date (id INT)" =
      ⟨"CREATE TABLE TIMESTAMP", [⟨"date (id INT)", "TIMESTAMP"⟩]⟩ := by
  have hname : ExpectsName ("CREATE ".toList ++ ("TABLE".toList ++ " ".toList)) :=
    .keyword ⟨"TABLE", by decide, by decide⟩ (by decide +kernel) (List.all_eq_true.1 (by decide))
  exact ⟨hname, by decide +kernel⟩

end TypeTable

end DialectBridge
