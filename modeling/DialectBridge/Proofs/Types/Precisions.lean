import DialectBridge.Proofs.Types.CarriedSizes
import DialectBridge.Proofs.Types.SpacedTypes

/-!
# Types by their precision

`NUMBER` of Oracle maps by its precision, and other types carry their length over, whatever the case and the whitespace
(`convertType_by_size`). A size that has a rule of its own is tried before the rule for any size of the word.
-/

namespace DialectBridge

open Text

namespace TypeTable

variable {types : TypeTable} {r : TypeRule} {w z : Text}

/-! ## Types with sizes -/

/-- Rules that are tried before one for any size of a word, and before one for a single size. -/
structure IsGraded (types : TypeTable) : Prop where
  sized : ∀ r ∈ types.rules, r.isMultiWord = false → r.sourceHasArguments = false → r.carriesSize = true →
    r.form.needsScale = false → r.keepsSize = true ∧ ∀ s ∈ types.rules.takeWhile (· != r), s.word = r.word →
      s.isMultiWord = false → s.sourceHasArguments = false → s.form.needsScale = true
  own : ∀ r ∈ types.rules, r.sourceHasArguments = true → ∀ s ∈ types.rules.takeWhile (· != r), s.word = r.word →
    s.isMultiWord = false → s.sourceHasArguments = true ∧ s.source ≠ r.source

theorem isGraded_of_eq (h : types = oracleTypes ∨ types = mysqlTypes) : types.IsGraded := by
  rcases h with rfl | rfl
  · exact ⟨by decide +kernel, by decide +kernel⟩
  · exact ⟨by decide +kernel, by decide +kernel⟩

/-- Whitespace and digits hold no other character. -/
theorem notMem_spaced {n y : Text} (hn : IsDigits n) (hy : IsSpaced n y) {c : Char} (hc : c.isDigit = false)
    (hblank : isBlank c = false) : c ∉ y := by
  obtain ⟨g, g', hg, hg', rfl⟩ := hy
  simp [hg.notMem hblank, hn.notMem hc, hg'.notMem hblank]

theorem packed_spaced {n y : Text} (hn : packed n = n) (hy : IsSpaced n y) : packed y = n := by
  obtain ⟨g, g', hg, hg', rfl⟩ := hy
  simp [packed_of_gap hg, packed_of_gap hg', hn]

/-- A size that has a rule of its own is replaced by the target of this rule. -/
theorem convertType_own (ht : types.IsOrderly) (hgraded : types.IsGraded) (hr : r ∈ types.rules) {n y x back : Text}
    (hsource : r.source = r.word ++ "(" ++ n ++ ")") (hn : IsDigits n) (hw : fold w = fold r.word)
    (hx : IsSpaced w x) (hy : IsSpaced n y) (hback : IsGap back) :
    types.convertType? (x ++ "(" ++ y ++ ")" ++ back) = some r.target := by
  have hbare : r.sourceHasArguments = true := by simp [TypeRule.sourceHasArguments, hsource]
  have hsource' : r.source = r.word ++ '(' :: (n ++ [')']) := by simpa using hsource
  have hone : r.isMultiWord = false := by
    rw [← Bool.not_eq_true]
    intro hmulti
    obtain ⟨hspelled, -, -, hwords⟩ := TypeRule.words_of_isMultiWord (ht.shape hr).2 hmulti
    have := List.append_cancel_left (hsource'.symm.trans hwords)
    simp at this
  have haccepts (g : Text) (hg : IsGap g) : r.Accepts w (listText g y) := by
    obtain ⟨g₁, g₂, hg₁, hg₂, rfl⟩ := hy
    exact TypeRule.accepts_own_size hsource' hn hg hg₁ hg₂
  have hopen : '(' ∉ y := notMem_spaced hn hy rfl rfl
  have hclose : ')' ∉ y := notMem_spaced hn hy rfl rfl
  obtain ⟨s, hs, hplace, hword, hone', g, hg, haccepts', hconvert⟩ :=
    exists_rule_of_list ht hr hone hw hx hback hopen hclose haccepts
  rcases hplace with rfl | hbefore
  · rw [hconvert, writtenFor, hbare]
    rfl
  · obtain ⟨hbare', hne⟩ := hgraded.own r hr hbare s hbefore hword hone'
    have hsame := (TypeRule.source_of_accepts (ht.shape hs).2 hbare' hg hclose haccepts').1
    rw [packed_spaced hn.packed hy, hword, ← hsource'] at hsame
    exact absurd hsame hne

theorem size_of_spaced {n y : Text} (hn : IsDigits n) (hy : IsSpaced n y) :
    ∀ c ∈ y, isSizeCharacter c = true ∨ isBlank c = true := by
  obtain ⟨g, g', hg, hg', rfl⟩ := hy
  intro c hc
  simp only [List.mem_append, or_assoc] at hc
  rcases hc with hc | hc | hc
  · exact .inr (hg c hc)
  · exact .inl (by simp [isSizeCharacter, hn c hc])
  · exact .inr (hg' c hc)

section

variable (ht : types.IsOrderly) (hgraded : types.IsGraded) (hr : r ∈ types.rules)
  (hone : r.isMultiWord = false) (hbare : r.sourceHasArguments = false) (hsize : r.carriesSize = true)
  (hform : r.form.needsScale = false) (hw : fold w = fold r.word)
include ht hgraded hr hone hbare hsize hform hw

/-- Any other size is carried over by the rule for the word. -/
theorem convertType_sized {x back : Text} (hx : IsSpaced w x) (hback : IsGap back)
    (hopen : '(' ∉ z) (hclose : ')' ∉ z) (hcomma : ',' ∉ z)
    (hown : (∀ c ∈ packed z, isSizeCharacter c = true) →
      ∀ s ∈ types.rules, s.source ≠ r.word ++ '(' :: (packed z ++ [')'])) :
    ∃ g, IsGap g ∧
      types.convertType? (x ++ "(" ++ z ++ ")" ++ back) = some (r.target ++ carriedSize (listText g z)) := by
  obtain ⟨hkeeps, hearlier⟩ := hgraded.sized r hr hone hbare hsize hform
  obtain ⟨s, hs, hplace, hword, hone', g, hg, haccepts, hconvert⟩ := exists_rule_of_list ht hr hone hw hx hback hopen
    hclose fun g hg => TypeRule.accepts_list hbare hform hg hopen hclose
  refine ⟨g, hg, ?_⟩
  rcases hplace with rfl | hbefore
  · rw [hconvert]
    simp [writtenFor, RuleMatch.written, hbare, hkeeps]
  · cases hbare' : s.sourceHasArguments with
    | true =>
      obtain ⟨hsource, hdigits⟩ := TypeRule.source_of_accepts (ht.shape hs).2 hbare' hg hclose haccepts
      rw [hword] at hsource
      exact absurd hsource (hown hdigits s hs)
    | false =>
      have hscaled := hearlier s hbefore hword hone' hbare'
      have hmem := TypeRule.mem_comma_of_accepts hbare' hscaled haccepts
      simp [listText, hg.notMem (c := ',') (by decide), hcomma] at hmem

/-- Digits that have no rule of their own are carried over by the rule for the word. -/
theorem convertType_digits {n x y back : Text} (hn : IsDigits n)
    (hown : ∀ s ∈ types.rules, s.source ≠ r.word ++ "(" ++ n ++ ")") (hx : IsSpaced w x) (hy : IsSpaced n y)
    (hback : IsGap back) :
    types.convertType? (x ++ "(" ++ y ++ ")" ++ back) = some (r.target ++ "(" ++ n ++ ")") := by
  have hpacked := packed_spaced hn.packed hy
  have hother : ∀ s ∈ types.rules, s.source ≠ r.word ++ '(' :: (packed y ++ [')']) := by simpa [hpacked] using hown
  obtain ⟨g, hg, hconvert⟩ := convertType_sized ht hgraded hr hone hbare hsize hform hw hx hback
    (notMem_spaced hn hy rfl rfl) (notMem_spaced hn hy rfl rfl) (notMem_spaced hn hy rfl rfl) fun _ => hother
  rw [hconvert, carriedSize_listText hg (size_of_spaced hn hy), hpacked]
  simp

/-- Digits with a unit are carried over without it. -/
theorem convertType_unit {n u v x y back : Text} {c : Char} (hn : IsDigits n) (hx : IsSpaced w x) (hy : IsSpaced n y)
    (hc : isBlank c = true) (hu : IsLengthUnit u) (hv : IsSpaced u v) (hback : IsGap back) :
    types.convertType? (x ++ "(" ++ y ++ [c] ++ v ++ ")" ++ back) = some (r.target ++ "(" ++ n ++ ")") := by
  obtain ⟨g₁, g₂, hg₁, hg₂, rfl⟩ := hv
  have hpacked := packed_spaced hn.packed hy
  have hsign {d : Char} (hdigit : d.isDigit = false) (hblank : isBlank d = false)
      (hword : isWordCharacter d = false) : d ∉ y ++ c :: (g₁ ++ u ++ g₂) := by
    have hne : d ≠ c := by
      rintro rfl
      simp [hc] at hblank
    simp [notMem_spaced hn hy hdigit hblank, hne, hg₁.notMem hblank, hu.notMem hword, hg₂.notMem hblank]
  -- a size with a unit has no rule of its own
  have hletter : ¬ ∀ d ∈ packed (y ++ c :: (g₁ ++ u ++ g₂)), isSizeCharacter d = true := fun hall => by
    obtain ⟨d, hd, hsize⟩ := hu.exists_not_size
    have hmem : d ∈ packed (y ++ c :: (g₁ ++ u ++ g₂)) := by
      simp [packed_blank hc, packed_of_gap hg₁, packed_of_gap hg₂, hu.packed, hd]
    simp [hall d hmem] at hsize
  obtain ⟨g, hg, hconvert⟩ := convertType_sized ht hgraded hr hone hbare hsize hform hw hx hback
    (hsign rfl rfl (by decide +kernel)) (hsign rfl rfl (by decide +kernel)) (hsign rfl rfl (by decide +kernel))
    fun hall => absurd hall hletter
  have htext : x ++ "(" ++ y ++ [c] ++ (g₁ ++ u ++ g₂) ++ ")" ++ back =
      x ++ "(" ++ (y ++ c :: (g₁ ++ u ++ g₂)) ++ ")" ++ back := by simp
  rw [htext, hconvert, carriedSize_of_unit hg (notMem_spaced hn hy rfl rfl) hc hg₁ hu hg₂, hpacked]
  simp

end

/-! ## Numbers -/

/-- The type of a number with a precision alone. -/
def precisionTarget (n : Text) : Text :=
  if n = "10" then "INTEGER"
  else if n = "19" then "BIGINT"
  else if n = "1" then "BOOLEAN"
  else if n = "38" then "NUMERIC"
  else "NUMERIC(" ++ n ++ ")"

section

variable {n p q y x back : Text}

theorem convertType_number (hw : fold w = fold "NUMBER") (hx : IsSpaced w x) :
    oracleTypes.convertType? x = some ("NUMERIC" : Text) := by
  have hr : (⟨"NUMBER", "NUMERIC", .sized⟩ : TypeRule) ∈ oracleTypes.rules := mem_ofRules.2 (by decide +kernel)
  have htargets : ∀ s ∈ oracleTypes.rules, s.word = "NUMBER" → s.isMultiWord = false → s.sourceHasArguments = false →
      s.argumentsOptional = true → s.target = "NUMERIC" := forall_mem_ofRules (by decide +kernel)
  obtain ⟨s, hs, hword, hone, hbare, hform, hconvert⟩ :=
    exists_rule_of_word oracle_orderly hr (by decide) (by decide) (by decide) hw hx
  rw [hconvert, htargets s hs hword hone hbare hform]

/-- No other precision has a rule of its own. -/
theorem source_ne_number (hn : IsDigits n) (h₁₀ : n ≠ "10") (h₁₉ : n ≠ "19") (h₁ : n ≠ "1") (h₃₈ : n ≠ "38") :
    ∀ s ∈ oracleTypes.rules, s.source ≠ "NUMBER" ++ "(" ++ n ++ ")" := by
  intro s hs hsource
  have hsizes : ∀ s ∈ oracleTypes.rules, s.source.take 7 = "NUMBER(" →
      (s.source.drop 7).dropLast ∈ (["10", "19", "1", "38"] : List Text) ∨ ',' ∈ s.source :=
    forall_mem_ofRules (by decide +kernel)
  have hdrop : (s.source.drop 7).dropLast = n := by
    rw [hsource]
    exact List.dropLast_concat
  rcases hsizes s hs (by rw [hsource]; rfl) with hmem | hmem
  · rw [hdrop] at hmem
    simp only [List.mem_cons, List.not_mem_nil, or_false] at hmem
    rcases hmem with h | h | h | h
    · exact h₁₀ h
    · exact h₁₉ h
    · exact h₁ h
    · exact h₃₈ h
  · simp [hsource, hn.notMem (c := ',') (by decide)] at hmem

theorem convertType_precision (hw : fold w = fold "NUMBER") (hx : IsSpaced w x) (hn : IsDigits n) (hy : IsSpaced n y)
    (hback : IsGap back) : oracleTypes.convertType? (x ++ "(" ++ y ++ ")" ++ back) = some (precisionTarget n) := by
  have hgraded := isGraded_of_eq (.inl rfl)
  have hown (source : Text) {target : Text} (hr : ⟨source, target, .fixed⟩ ∈ oracleTypes.rules)
      (hsource : source = "NUMBER" ++ "(" ++ n ++ ")") (hword : TypeRule.word ⟨source, target, .fixed⟩ = "NUMBER") :
      oracleTypes.convertType? (x ++ "(" ++ y ++ ")" ++ back) = some target :=
    convertType_own oracle_orderly hgraded hr (by rw [hword]; exact hsource) hn (by rw [hword]; exact hw) hx hy hback
  unfold precisionTarget
  split
  · next h => exact hown "NUMBER(10)" (mem_ofRules.2 (by decide +kernel)) (by rw [h]; rfl) (by decide)
  split
  · next h => exact hown "NUMBER(19)" (mem_ofRules.2 (by decide +kernel)) (by rw [h]; rfl) (by decide)
  split
  · next h => exact hown "NUMBER(1)" (mem_ofRules.2 (by decide +kernel)) (by rw [h]; rfl) (by decide)
  split
  · next h => exact hown "NUMBER(38)" (mem_ofRules.2 (by decide +kernel)) (by rw [h]; rfl) (by decide)
  · next h₁₀ h₁₉ h₁ h₃₈ =>
    have hr : (⟨"NUMBER", "NUMERIC", .sized⟩ : TypeRule) ∈ oracleTypes.rules := mem_ofRules.2 (by decide +kernel)
    rw [convertType_digits oracle_orderly hgraded hr (by decide) (by decide) (by decide) (by decide) hw hn
      (source_ne_number hn h₁₀ h₁₉ h₁ h₃₈) hx hy hback]
    simp

theorem convertType_scale (hw : fold w = fold "NUMBER") (hx : IsSpaced w x) (hp : IsDigits p) (hq : IsDigits q)
    (hpne : p ≠ []) (hqne : q ≠ []) (hy : IsSpaced p y) (hz : IsSpaced q z) (hback : IsGap back) :
    oracleTypes.convertType? (x ++ "(" ++ y ++ "," ++ z ++ ")" ++ back) =
      some ("DECIMAL(" ++ p ++ "," ++ q ++ ")") := by
  have hr : (⟨"NUMBER", "DECIMAL", .scaled⟩ : TypeRule) ∈ oracleTypes.rules := mem_ofRules.2 (by decide +kernel)
  have hearlier : ∀ s ∈ oracleTypes.rules.takeWhile (· != ⟨"NUMBER", "DECIMAL", .scaled⟩), s.word = "NUMBER" →
      s.isMultiWord = false → s.sourceHasArguments = true := by decide +kernel
  -- a precision with a scale that has a rule of its own stays as it is as well
  have htargets : ∀ s ∈ oracleTypes.rules, s.word = "NUMBER" → ',' ∈ s.source →
      s.target = "DECIMAL" ++ s.source.drop 6 := forall_mem_ofRules (by decide +kernel)
  have hpackedY := packed_spaced hp.packed hy
  have hpackedZ := packed_spaced hq.packed hz
  have hpacked : packed (y ++ ',' :: z) = p ++ ',' :: q := by
    rw [packed_append, packed_cons (by decide), hpackedY, hpackedZ]
  have hopen : '(' ∉ y ++ ',' :: z := by
    simp [notMem_spaced hp hy (c := '(') rfl rfl, notMem_spaced hq hz (c := '(') rfl rfl]
  have hclose : ')' ∉ y ++ ',' :: z := by
    simp [notMem_spaced hp hy (c := ')') rfl rfl, notMem_spaced hq hz (c := ')') rfl rfl]
  have haccepts (g : Text) (hg : IsGap g) :
      TypeRule.Accepts ⟨"NUMBER", "DECIMAL", .scaled⟩ w (listText g (y ++ ',' :: z)) := by
    obtain ⟨g₁, g₂, hg₁, hg₂, rfl⟩ := hy
    obtain ⟨g₃, g₄, hg₃, hg₄, rfl⟩ := hz
    exact TypeRule.accepts_scaled (by decide) rfl hp hq hpne hqne hg hg₁ hg₂ hg₃ hg₄
  obtain ⟨s, hs, hplace, hword, hone, g, hg, haccepts', hconvert⟩ :=
    exists_rule_of_list oracle_orderly hr (by decide) hw hx hback hopen hclose haccepts
  have htext : x ++ "(" ++ y ++ "," ++ z ++ ")" ++ back = x ++ "(" ++ (y ++ ',' :: z) ++ ")" ++ back := by simp
  rw [htext, hconvert]
  rcases hplace with rfl | hbefore
  · have hsize : ∀ c ∈ y ++ ',' :: z, isSizeCharacter c = true ∨ isBlank c = true := by
      intro c hc
      simp only [List.mem_append, List.mem_cons] at hc
      rcases hc with hc | rfl | hc
      · exact size_of_spaced hp hy c hc
      · exact .inl rfl
      · exact size_of_spaced hq hz c hc
    show some ("DECIMAL" ++ carriedSize (listText g (y ++ ',' :: z))) = _
    rw [carriedSize_listText hg hsize, hpacked]
    simp
  · have hbare := hearlier s hbefore hword hone
    have hsource := (TypeRule.source_of_accepts (oracle_orderly.shape hs).2 hbare hg hclose haccepts').1
    rw [hword, hpacked] at hsource
    have htarget := htargets s hs hword (by rw [hsource]; simp)
    have hwritten : writtenFor s (listText g (y ++ ',' :: z)) = s.target := by
      rw [writtenFor, hbare]
      rfl
    have hdrop : s.source.drop 6 = '(' :: (p ++ ',' :: q ++ [')']) := by
      rw [hsource]
      rfl
    rw [hwritten, htarget, hdrop]
    simp

end

/-! ## Lengths -/

section

variable {n y x back : Text}

/-- No rule but those that keep a precision and a scale asks for them. -/
theorem needsScale_of_ne (h : types = oracleTypes ∨ types = mysqlTypes) :
    ∀ r ∈ types.rules, r.form ≠ .scaled → r.form.needsScale = false := by
  rcases h with rfl | rfl
  · exact forall_mem_ofRules (by decide +kernel)
  · exact forall_mem_ofRules (by decide +kernel)

/-- A length is carried over by the rule for the word, with a unit or without. -/
theorem convertType_length (htypes : types = oracleTypes ∨ types = mysqlTypes) (hr : r ∈ types.rules)
    (hone : r.isMultiWord = false) (hbare : r.sourceHasArguments = false) (hsize : r.carriesSize = true)
    (hform : r.form ≠ .scaled) (hn : IsDigits n) (hown : ∀ s ∈ types.rules, s.source ≠ r.source ++ "(" ++ n ++ ")")
    (hw : fold w = fold r.source) (hx : IsSpaced w x) (hy : IsSpaced n y) (hback : IsGap back) :
    types.convertType? (x ++ "(" ++ y ++ ")" ++ back) = some (r.target ++ "(" ++ n ++ ")") ∧
      ∀ {c : Char} {u v : Text}, isBlank c = true → IsLengthUnit u → IsSpaced u v →
        types.convertType? (x ++ "(" ++ y ++ [c] ++ v ++ ")" ++ back) = some (r.target ++ "(" ++ n ++ ")") := by
  have ht : types.IsOrderly := by
    rcases htypes with rfl | rfl
    · exact oracle_orderly
    · exact mysql_orderly
  have hgraded := isGraded_of_eq htypes
  have hscale : r.form.needsScale = false := needsScale_of_ne htypes r hr hform
  have hsource := source_of_one_word ht hr hone hbare
  rw [hsource] at hown hw
  exact ⟨convertType_digits ht hgraded hr hone hbare hsize hscale hw hn hown hx hy hback, fun hc hu hv =>
    convertType_unit ht hgraded hr hone hbare hsize hscale hw hn hx hy hc hu hv hback⟩

end

/-- `NUMBER` maps by its precision, and a rule for a word with any size carries the size over, in any letter case and
with any whitespace around the signs. -/
theorem convertType_by_size :
    (∀ {w x back : Text}, fold w = fold "NUMBER" → IsSpaced w x → IsGap back →
      oracleTypes.convertType? x = some ("NUMERIC" : Text) ∧
      (∀ {n y : Text}, IsDigits n → IsSpaced n y →
        oracleTypes.convertType? (x ++ "(" ++ y ++ ")" ++ back) = some (precisionTarget n)) ∧
      ∀ {p q y z : Text}, IsDigits p → IsDigits q → p ≠ [] → q ≠ [] → IsSpaced p y → IsSpaced q z →
        oracleTypes.convertType? (x ++ "(" ++ y ++ "," ++ z ++ ")" ++ back) =
          some ("DECIMAL(" ++ p ++ "," ++ q ++ ")")) ∧
    ∀ {types : TypeTable} {r : TypeRule}, types = oracleTypes ∨ types = mysqlTypes → r ∈ types.rules →
      r.isMultiWord = false → r.sourceHasArguments = false → r.carriesSize = true → r.form ≠ .scaled →
      ∀ {n w x y back : Text}, IsDigits n → (∀ s ∈ types.rules, s.source ≠ r.source ++ "(" ++ n ++ ")") →
        fold w = fold r.source → IsSpaced w x → IsSpaced n y → IsGap back →
        types.convertType? (x ++ "(" ++ y ++ ")" ++ back) = some (r.target ++ "(" ++ n ++ ")") ∧
          ∀ {c : Char} {u v : Text}, isBlank c = true → IsLengthUnit u → IsSpaced u v →
            types.convertType? (x ++ "(" ++ y ++ [c] ++ v ++ ")" ++ back) = some (r.target ++ "(" ++ n ++ ")") := by
  constructor
  · intro w x back hw hx hback
    exact ⟨convertType_number hw hx, fun hn hy => convertType_precision hw hx hn hy hback,
      fun hp hq hpne hqne hy hz => convertType_scale hw hx hp hq hpne hqne hy hz hback⟩
  · intro types r htypes hr hone hbare hsize hform n w x y back hn hown hw hx hy hback
    exact convertType_length htypes hr hone hbare hsize hform hn hown hw hx hy hback

/-- A precision of `NUMBER` and a length with a unit, in mixed case and with whitespace. -/
theorem convertType_by_size_spaced :
    oracleTypes.convertType? "Number ( 10 )" = some ("INTEGER" : Text) ∧
      oracleTypes.convertType? "number( 12 , 3)" = some ("DECIMAL(12,3)" : Text) ∧
      oracleTypes.convertType? "varchar2 (10 Char )" = some ("VARCHAR(10)" : Text) := by
  have hgap : IsGap " " := by decide
  have hnil : IsGap [] := by simp [IsGap]
  have hnumber := convertType_by_size.1 (w := "Number") (x := "Number ") (by decide +kernel)
    ⟨[], " ", hnil, hgap, rfl⟩ hnil
  have hnumber' := convertType_by_size.1 (w := "number") (x := "number") (by decide +kernel)
    ⟨[], [], hnil, hnil, rfl⟩ hnil
  have hlength := convertType_by_size.2 (r := ⟨"VARCHAR2", "VARCHAR", .sized⟩) (.inl rfl)
    (mem_ofRules.2 (by decide +kernel)) (by decide) (by decide) (by decide) (by decide)
    (n := "10") (w := "varchar2") (x := "varchar2 ") (y := "10") (by decide) (forall_mem_ofRules (by decide +kernel))
    (by decide +kernel) ⟨[], " ", hnil, hgap, rfl⟩ ⟨[], [], hnil, hnil, rfl⟩ hnil
  refine ⟨hnumber.2.1 (n := "10") (y := " 10 ") (by decide) ⟨" ", " ", hgap, hgap, rfl⟩, ?_, ?_⟩
  · exact hnumber'.2.2 (p := "12") (q := "3") (y := " 12 ") (z := " 3") (by decide) (by decide) (by decide) (by decide)
      ⟨" ", " ", hgap, hgap, rfl⟩ ⟨" ", [], hgap, hnil, rfl⟩
  · exact hlength.2 (c := ' ') (u := "Char") (v := "Char ") (by decide) (.inl (by decide +kernel))
      ⟨[], " ", hnil, hgap, rfl⟩

end TypeTable

end DialectBridge
