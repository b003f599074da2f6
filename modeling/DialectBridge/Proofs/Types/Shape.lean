import DialectBridge.Proofs.Pattern.Word
import DialectBridge.Types.Table

/-!
# The shapes of type rules

The source of a type rule is a word, a word with a size, or several words. In each shape the rule looks
for its first word as a whole (`reaches_word_of_shape`).
-/

namespace DialectBridge

/-! ## Sizes -/

/-- A digit or a comma. -/
def isSizeCharacter (c : Char) : Bool :=
  c.isDigit || c == ','

/-- The text is a size in parentheses, or there is none. -/
inductive IsSize : Text → Prop
  | none : IsSize []
  | some {y : Text} (hy : ∀ c ∈ y, isSizeCharacter c = true) : IsSize ('(' :: (y ++ [')']))

/-- Whether a text is a size in parentheses or empty. -/
def isSize : Text → Bool
  | [] => true
  | c :: t => c == '(' && t.getLast? == .some ')' && t.dropLast.all isSizeCharacter

theorem isSize_iff {t : Text} : isSize t = true ↔ IsSize t := by
  constructor
  · intro h
    cases t with
    | nil => exact .none
    | cons c t =>
      simp only [isSize, Bool.and_eq_true, beq_iff_eq, List.all_eq_true] at h
      obtain ⟨⟨rfl, hlast⟩, hy⟩ := h
      obtain ⟨y, rfl⟩ := List.getLast?_eq_some_iff.1 hlast
      rw [List.dropLast_concat] at hy
      exact .some hy
  · intro h
    cases h with
    | none => rfl
    | some hy => simpa [isSize] using hy

instance (t : Text) : Decidable (IsSize t) :=
  decidable_of_iff _ isSize_iff

/-- What follows a type: a comma, a closing parenthesis or nothing. -/
def EndsType (stop : Text) : Prop :=
  ∀ c ∈ stop.head?, c = ',' ∨ c = ')'

theorem sizeCharacter_cases {c : Char} (h : isSizeCharacter c = true) : c.isDigit = true ∨ c = ',' := by
  simpa [isSizeCharacter] using h

theorem not_blank_of_size {c : Char} (h : isSizeCharacter c = true) : isBlank c = false := by
  rcases sizeCharacter_cases h with hd | rfl
  · exact not_blank_of_digit hd
  · decide

theorem EndsType.head?_any {stop : Text} (h : EndsType stop) {p : Char → Bool} (hcomma : p ',' = false)
    (hparen : p ')' = false) : stop.head?.any p = false := by
  cases stop with
  | nil => rfl
  | cons c stop => obtain rfl | rfl := h c rfl <;> assumption

/-- A word ends where a type ends. -/
theorem EndsType.head?_wordCharacter {stop : Text} (h : EndsType stop) : stop.head?.any isWordCharacter = false :=
  h.head?_any (by decide +kernel) (by decide +kernel)

/-- Behind whitespace, too, only a comma or a parenthesis follows. -/
theorem EndsType.head?_ne {stop : Text} (h : EndsType stop) {c : Char} (hcomma : c ≠ ',') (hparen : c ≠ ')') :
    (Text.trimStart stop).head? ≠ some c := by
  have htrim : Text.trimStart stop = stop := by
    cases stop with
    | nil => rfl
    | cons d stop =>
      refine List.dropWhile_cons_of_neg ?_
      obtain rfl | rfl := h d rfl <;> decide
  rw [htrim]
  intro hc
  rcases h c hc with rfl | rfl <;> contradiction

/-- ASCII characters that are no letters are equal up to case only if they are equal. -/
theorem sameLetter_eq {c d : Char} (hc : isSizeCharacter c = true ∨ c = ')')
    (hd : isSizeCharacter d = true ∨ d = ')') : sameLetter c d = (c == d) := by
  have hascii {e : Char} (he : isSizeCharacter e = true ∨ e = ')') : e.toNat < 128 := by
    rcases he with he | rfl
    · rcases sizeCharacter_cases he with he | rfl
      · exact toNat_lt_of_digit he
      · decide
    · decide
  have hfold {e : Char} (he : isSizeCharacter e = true ∨ e = ')') : foldCase e = e := by
    rw [foldCase_of_ascii (hascii he)]
    exact forall_ascii (P := fun e => (isSizeCharacter e = true ∨ e = ')') → e.toLower = e) (by decide)
      (hascii he) he
  rw [sameLetter, hfold hc, hfold hd]

namespace TypeRule

open Pattern

/-! ## Arguments -/

/-- The arguments of a type may be missing. -/
def argumentsOptional (r : TypeRule) : Bool :=
  !r.requiresArguments && !r.form.needsScale

/-- What a rule without a size of its own wants for arguments. -/
theorem argumentsPattern_cases {r : TypeRule} (hbare : r.sourceHasArguments = false) :
    (r.argumentsOptional = true ∧ r.argumentsPattern = optional (capture 1 anyArguments)) ∨
    (r.argumentsOptional = false ∧ r.form.needsScale = true ∧ r.argumentsPattern = capture 1 scaleArguments) ∨
    (r.argumentsOptional = false ∧ r.form.needsScale = false ∧ r.argumentsPattern = capture 1 anyArguments) := by
  rw [argumentsPattern, if_neg (by simp [hbare]), argumentsOptional]
  cases r.form.needsScale <;> cases r.requiresArguments <;> simp

theorem argumentsPattern_of_optional {r : TypeRule} (hbare : r.sourceHasArguments = false)
    (h : r.argumentsOptional = true) : r.argumentsPattern = optional (capture 1 anyArguments) := by
  rcases argumentsPattern_cases hbare with ⟨-, hpattern⟩ | ⟨hneeds, -⟩ | ⟨hneeds, -⟩
  · exact hpattern
  · simp [hneeds] at h
  · simp [hneeds] at h

/-! ## Shapes -/

/-- The first word of the source. -/
def word (r : TypeRule) : Text :=
  r.source.takeWhile isBare

/-- Bare words with a single blank before each. -/
def spelled : Text → Bool
  | [] => true
  | [c] => isBare c
  | c :: d :: t => (isBare c || (c == ' ' && isBare d)) && spelled (d :: t)

/-- How the source of a rule goes on behind its first word. -/
inductive Shape (r : TypeRule) : Prop
  | word (h : r.source = r.word)
  | sized {y : Text} (hy : ∀ c ∈ y, isSizeCharacter c = true)
      (h : r.source = r.word ++ '(' :: (y ++ [')']))
  | words {rest : Text} (hrest : spelled (' ' :: rest) = true) (hne : rest ≠ [])
      (hform : r.argumentsOptional = true) (h : r.source = r.word ++ ' ' :: rest)

/-- The source of the rule has one of the shapes, and a precision with a scale is wanted only where arguments are
required. -/
def isShaped (r : TypeRule) : Bool :=
  !r.word.isEmpty && (!r.form.needsScale || r.requiresArguments) &&
    match r.source.dropWhile isBare with
    | [] => true
    | c :: t =>
      if c = '(' then isSize (c :: t)
      else c == ' ' && spelled (' ' :: t) && !t.isEmpty && !r.requiresArguments

theorem optional_of_isShaped {r : TypeRule} (h : r.isShaped = true) (hform : r.requiresArguments = false) :
    r.argumentsOptional = true := by
  simp only [isShaped, hform, Bool.or_false, Bool.and_eq_true] at h
  simpa [argumentsOptional, hform] using h.1.2

theorem shape_of_isShaped {r : TypeRule} (h : r.isShaped = true) : r.word ≠ [] ∧ r.Shape := by
  have hsource : r.source = r.word ++ r.source.dropWhile isBare :=
    (List.takeWhile_append_dropWhile (p := isBare)).symm
  have hoptional := optional_of_isShaped h
  simp only [isShaped, Bool.and_eq_true, Bool.not_eq_true', List.isEmpty_eq_false_iff] at h
  refine ⟨h.1.1, ?_⟩
  cases hrest : r.source.dropWhile isBare with
  | nil => exact .word (by rwa [hrest, List.append_nil] at hsource)
  | cons c t =>
    rw [hrest] at h hsource
    by_cases hc : c = '('
    · subst hc
      have hsize : IsSize ('(' :: t) := isSize_iff.1 h.2
      obtain ⟨y, hy, rfl⟩ : ∃ y : Text, (∀ c ∈ y, isSizeCharacter c = true) ∧ t = y ++ [')'] := by
        cases hsize with
        | @some y hy => exact ⟨y, hy, rfl⟩
      exact .sized hy hsource
    · simp only [if_neg hc, Bool.and_eq_true, beq_iff_eq, Bool.not_eq_true',
        List.isEmpty_eq_false_iff] at h
      obtain ⟨-, ⟨⟨rfl, hspelled⟩, hne⟩, hform⟩ := h
      exact .words hspelled hne (hoptional hform) hsource

theorem bare_word (r : TypeRule) : ∀ c ∈ r.word, isBare c = true :=
  Text.forall_mem_takeWhile isBare r.source

theorem mem_spelled {t : Text} (h : spelled t = true) {c : Char} (hc : c ∈ t) :
    isBare c = true ∨ c = ' ' := by
  fun_induction spelled t with
  | case1 => cases hc
  | case2 d =>
    obtain rfl := List.mem_singleton.1 hc
    exact .inl h
  | case3 d e t ih =>
    simp only [Bool.and_eq_true, Bool.or_eq_true, beq_iff_eq] at h
    rcases List.mem_cons.1 hc with rfl | hc
    · exact h.1.imp_right And.left
    · exact ih h.2 hc

/-! ## The pattern of each shape -/

theorem sourceParts_bare {c : Char} (hc : isBare c = true) (inSpace : Bool) (t : Text) :
    sourceParts inSpace (c :: t) = letter c :: sourceParts false t := by
  have hsign : ¬(c = '(' ∨ c = ',') := by
    rintro (rfl | rfl) <;> exact absurd hc (by decide)
  have hclose : c ≠ ')' := by
    rintro rfl
    exact absurd hc (by decide)
  rw [sourceParts, if_neg (by simp [not_blank_of_bare hc])]
  simp only [if_neg hsign, if_neg hclose]

theorem sourceParts_word {w : Text} (hw : ∀ c ∈ w, isBare c = true) (t : Text) :
    sourceParts false (w ++ t) = w.map letter ++ sourceParts false t := by
  induction w with
  | nil => rfl
  | cons c w ih =>
    rw [List.cons_append, sourceParts_bare (hw c List.mem_cons_self),
      ih fun d hd => hw d (List.mem_cons_of_mem _ hd)]
    rfl

theorem sourcePattern_of_bare {s : Text} {c : Char} (hlast : s.getLast? = .some c) (hc : isBare c = true) :
    sourcePattern s = sequence (sourceParts false s ++ [edge]) := by
  rw [sourcePattern, hlast]
  simp only [Option.any_some, nameCharacter_of_bare hc, if_true]

theorem pattern_word {r : TypeRule} (hne : r.word ≠ []) (h : r.source = r.word) :
    r.pattern = sequence [edge, sequence (r.word.map letter ++ [edge]), r.argumentsPattern] := by
  have hmulti : r.isMultiWord = false := by
    rw [isMultiWord, h, List.any_eq_false]
    exact fun c hc => by simp [not_blank_of_bare (r.bare_word c hc)]
  have hparts := sourceParts_word r.bare_word []
  rw [List.append_nil] at hparts
  have hsource : sourcePattern r.source = sequence (r.word.map letter ++ [edge]) := by
    rw [h, sourcePattern_of_bare (List.getLast?_eq_some_getLast hne) (r.bare_word _ (List.getLast_mem hne)),
      hparts]
    simp [sourceParts]
  rw [pattern, hmulti, hsource]
  rfl

theorem pattern_sized {r : TypeRule} {y : Text} (hy : ∀ c ∈ y, isSizeCharacter c = true)
    (h : r.source = r.word ++ '(' :: (y ++ [')'])) :
    r.pattern = sequence [edge,
      sequence (r.word.map letter ++ spaced '(' :: sourceParts false (y ++ [')'])), empty] := by
  have hmulti : r.isMultiWord = false := by
    rw [isMultiWord, h, List.any_eq_false]
    intro c hc
    simp only [List.mem_append, List.mem_cons, List.not_mem_nil, or_false] at hc
    rcases hc with hc | rfl | hc | rfl
    · simp [not_blank_of_bare (r.bare_word c hc)]
    · decide
    · simp [not_blank_of_size (hy c hc)]
    · decide
  have harguments : r.sourceHasArguments = true := by
    rw [sourceHasArguments, h]
    simp
  have hlast : r.source.getLast? = .some ')' := by
    rw [h, ← List.cons_append, ← List.append_assoc, List.getLast?_concat]
  have hend : (')' : Char) ≠ '_' ∧ isAlphanumeric ')' = false := by decide +kernel
  have hsource : sourcePattern r.source =
      sequence (r.word.map letter ++ spaced '(' :: sourceParts false (y ++ [')'])) := by
    rw [sourcePattern, hlast]
    simp only [Option.any_some, hend.2, Bool.false_or, beq_iff_eq, if_neg hend.1, List.append_nil]
    rw [h, sourceParts_word r.bare_word, sourceParts, if_neg (by decide)]
    rfl
  rw [pattern, hmulti, hsource, argumentsPattern, if_pos harguments]
  rfl

theorem pattern_words {r : TypeRule} {rest : Text} (hrest : spelled (' ' :: rest) = true)
    (hform : r.argumentsOptional = true) (h : r.source = r.word ++ ' ' :: rest) :
    r.pattern = sequence [edge, text r.word, edge, optional (capture 1 anyArguments), space,
      sourcePattern rest] := by
  have hmulti : r.isMultiWord = true := by
    rw [isMultiWord, h, List.any_append, List.any_cons]
    simp [show isBlank ' ' = true by decide]
  have harguments : r.sourceHasArguments = false := by
    rw [sourceHasArguments, h, Bool.eq_false_iff, ne_eq, List.contains_iff_mem, List.mem_append]
    rintro (hc | hc)
    · exact absurd (r.bare_word _ hc) (by decide)
    · exact absurd (mem_spelled hrest hc) (by decide)
  have hword : ∀ c ∈ r.word, (!isBlank c) = true := fun c hc => by
    simp [not_blank_of_bare (r.bare_word c hc)]
  have hstop : (' ' :: rest).head?.any (fun c => !isBlank c) = false := by
    simp [show isBlank ' ' = true by decide]
  have htrim : Text.trimStart (' ' :: rest) = rest := by
    cases rest with
    | nil => rfl
    | cons d t =>
      have hd : isBare d = true := by
        simp only [spelled, Bool.and_eq_true, Bool.or_eq_true, beq_self_eq_true, true_and] at hrest
        exact hrest.1.elim (fun hc => absurd hc (by decide)) id
      rw [Text.trimStart, List.dropWhile_cons_of_pos (by decide),
        List.dropWhile_cons_of_neg (by simp [not_blank_of_bare hd])]
  rw [pattern, if_pos (by simp [hmulti, harguments])]
  simp only [argumentsPattern_of_optional harguments hform]
  rw [h, Text.takeWhile_run hword hstop, Text.dropWhile_run hword hstop, htrim]

/-! ## The first word -/

/-- A rule matches only where its first word stands as a whole. -/
theorem reaches_word_of_shape {r : TypeRule} (hne : r.word ≠ []) (hshape : r.Shape) {s t : Site}
    (h : Reaches r.pattern s t) :
    s.before.head?.any isWordCharacter = false ∧
      Text.fold (s.after.takeWhile isWordCharacter) = Text.fold r.word := by
  have hfind {q : Pattern} {t : Site} (hq : Closes q)
      (h : Reaches (seq edge (seq (text r.word) q)) s t) :
      s.before.head?.any isWordCharacter = false ∧
        Text.fold (s.after.takeWhile isWordCharacter) = Text.fold r.word := by
    obtain ⟨u, ⟨-, rfl⟩, hu⟩ := reaches_word opens_edge hq hne r.bare_word h
    exact hu
  cases hshape with
  | word hsource =>
    rw [pattern_word hne hsource] at h
    obtain ⟨u, hedge, v, hparts, -⟩ := h
    obtain ⟨w, htext, hclose⟩ := reaches_sequence_append (r.word.map letter) hparts
    exact hfind (closes_edge.seq empty) ⟨u, hedge, w, htext, hclose⟩
  | sized hy hsource =>
    rw [pattern_sized hy hsource] at h
    obtain ⟨u, hedge, v, hparts, -⟩ := h
    obtain ⟨w, htext, hclose⟩ := reaches_sequence_append (r.word.map letter) hparts
    exact hfind ((closes_paren _).seq _) ⟨u, hedge, w, htext, hclose⟩
  | words hrest _ hform hsource =>
    rw [pattern_words hrest hform hsource] at h
    obtain ⟨u, hedge, v, htext, hclose⟩ := h
    exact hfind (closes_edge.seq _) ⟨u, hedge, v, htext, hclose⟩

end TypeRule

end DialectBridge
