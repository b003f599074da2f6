import DialectBridge.Proofs.Pattern.Cutting
import DialectBridge.Proofs.Pattern.Reach
import DialectBridge.Proofs.Pattern.Run
import DialectBridge.Proofs.Text.Bare

/-!
# Patterns of whole words

Most patterns look for a word with an edge or a gap on either side of it. Such a pattern matches only
in a text that holds the word, up to case, as one of its runs of word characters. So a text that lacks
the word is left alone (`replaceMatches_of_demands`).
-/

namespace DialectBridge

/-- One of the words of the text is this one, up to case. -/
def Text.HoldsWord (t word : Text) : Prop :=
  ∃ w ∈ Text.runs isWordCharacter t, Text.fold w = Text.fold word

/-! ## Texts without a match -/

section

variable {α : Type} {matcher : Matcher α} {t : Text}

theorem exists_found_of_hasMatch (h : hasMatch matcher t = true) : ∃ m, Cut.found m ∈ cut matcher t := by
  have hne : allMatches matcher t ≠ [] := by simpa [hasMatch] using h
  obtain ⟨m, hm⟩ := List.exists_mem_of_ne_nil _ hne
  obtain ⟨piece, hpiece, hmatch⟩ := List.mem_filterMap.1 hm
  cases piece with
  | copied c => cases hmatch
  | found m => exact ⟨m, hpiece⟩

/-- If every match is replaced by its own text, nothing changes. -/
theorem replaceMatches_eq_self (hm : matcher.TakesPrefix) {f : Match α → Text}
    (h : ∀ m ∈ allMatches matcher t, f m = m.text) : replaceMatches matcher f t = t := by
  refine Eq.trans ?_ (textOf_cut hm t)
  rw [replaceMatches, List.flatMap_def, List.flatMap_def]
  refine congrArg List.flatten (List.map_congr_left fun piece hpiece => ?_)
  cases piece with
  | copied c => rfl
  | found m => exact h m (List.mem_filterMap.2 ⟨.found m, hpiece, rfl⟩)

theorem replaceMatches_of_hasMatch (hm : matcher.TakesPrefix) (f : Match α → Text)
    (h : hasMatch matcher t = false) : replaceMatches matcher f t = t := by
  refine replaceMatches_eq_self hm fun m hmem => ?_
  simp only [hasMatch, Bool.not_eq_false', List.isEmpty_iff] at h
  rw [h] at hmem
  cases hmem

theorem replaceFirst_of_hasMatch (s : Text) (h : hasMatch matcher t = false) :
    replaceFirst matcher s t = t := by
  unfold replaceFirst
  split
  · next m hfind =>
    have hmem : m ∈ allMatches matcher t :=
      List.mem_filterMap.2 ⟨.found m, List.mem_of_find?_eq_some hfind, rfl⟩
    simp only [hasMatch, Bool.not_eq_false', List.isEmpty_iff] at h
    rw [h] at hmem
    cases hmem
  · rfl

/-- A matcher that finds something at a place of the text finds a match in it. -/
theorem exists_found_of_match {taken rest : Text} {value : α} (hne : taken ≠ [])
    (front : Text) (fresh : Bool) (before : Text)
    (h : matcher (front.reverse ++ before) (taken ++ rest) = some (taken, value)) :
    ∃ m, Cut.found m ∈ Cut.pieces matcher 0 fresh before (front ++ (taken ++ rest)) := by
  induction front generalizing fresh before with
  | nil =>
    have h : matcher before (taken ++ rest) = some (taken, value) := h
    rw [List.nil_append, Cut.pieces_some h hne]
    exact ⟨_, List.mem_cons_self⟩
  | cons c front ih =>
    have hrest := ih true (c :: before) (by simpa using h)
    rw [List.cons_append, Cut.pieces]
    split
    · exact hrest.imp fun m hm => List.mem_cons_of_mem _ hm
    · obtain ⟨m, hm⟩ := hrest
      refine ⟨m, ?_⟩
      simp only
      split
      · exact List.mem_cons_of_mem _ (List.mem_cons_of_mem _ hm)
      · exact List.mem_cons_of_mem _ hm
    · exact ⟨_, List.mem_cons_self⟩

/-- The first match is replaced. -/
theorem exists_replaceFirst (h : ∃ m, Cut.found m ∈ cut matcher t)
    (s : Text) : ∃ m, Cut.found m ∈ cut matcher t ∧ replaceFirst matcher s t = m.before.reverse ++ s ++ m.after := by
  obtain ⟨m, hm⟩ := h
  have hsome : ((cut matcher t).find? fun piece => piece.match?.isSome).isSome = true :=
    List.find?_isSome.2 ⟨_, hm, rfl⟩
  obtain ⟨piece, hpiece⟩ := Option.isSome_iff_exists.1 hsome
  cases piece with
  | copied c => simpa [Cut.match?] using List.find?_some hpiece
  | found m' =>
    refine ⟨m', List.mem_of_find?_eq_some hpiece, ?_⟩
    rw [replaceFirst, hpiece]

end

namespace Pattern

/-! ## The text around a site -/

/-- The whole text around a site. -/
def Site.text (s : Site) : Text :=
  s.before.reverse ++ s.after

theorem Reaches.text_eq {p : Pattern} {s t : Site} (h : Reaches p s t) : t.text = s.text := by
  obtain ⟨taken, hafter, hbefore⟩ := h.split
  simp [Site.text, hafter, hbefore]

/-- A word in a pattern takes a text that equals it up to case. -/
theorem reaches_text {word : Text} {s t : Site} (h : Reaches (text word) s t) :
    ∃ w, s.after = w ++ t.after ∧ t.before = w.reverse ++ s.before ∧ Text.fold w = Text.fold word := by
  induction word generalizing s with
  | nil =>
    obtain rfl : t = s := h
    exact ⟨[], rfl, rfl, rfl⟩
  | cons c word ih =>
    obtain ⟨u, ⟨d, rest, hafter, hd, rfl⟩, hrest⟩ := h
    obtain ⟨w, hw, hbefore, hfold⟩ := ih hrest
    have hcd : foldCase d = foldCase c := (beq_iff_eq.1 hd).symm
    refine ⟨d :: w, ?_, ?_, ?_⟩
    · rw [hafter, List.cons_append, ← hw]
    · rw [hbefore]
      simp
    · rw [Text.fold_cons, Text.fold_cons, hcd, hfold]

theorem reaches_sequence_of_append {ps qs : List Pattern} {s t u : Site} (h : Reaches (sequence ps) s t)
    (h' : Reaches (sequence qs) t u) : Reaches (sequence (ps ++ qs)) s u := by
  induction ps generalizing s with
  | nil =>
    obtain rfl : t = s := h
    exact h'
  | cons p ps ih =>
    obtain ⟨v, hp, hps⟩ := h
    exact ⟨v, hp, ih hps⟩

/-- A text that equals the word up to case is taken. -/
theorem reaches_text_of_fold {word w : Text} (h : Text.fold w = Text.fold word) (b rest : Text)
    (captures : List (Nat × Text)) :
    Reaches (text word) ⟨b, w ++ rest, captures⟩ ⟨w.reverse ++ b, rest, captures⟩ := by
  have hrun : run (text word) ⟨b, w ++ rest, captures⟩ .some = .some ⟨w.reverse ++ b, rest, captures⟩ := run_text h
  obtain ⟨t, ht, heq⟩ := run_reaches hrun
  obtain rfl := Option.some.inj heq
  exact ht

/-- At least one character of a class is taken. -/
theorem reaches_some_iff {p : Char → Bool} {s t : Site} :
    Reaches (Pattern.some p) s t ↔
      ∃ c taken rest, s.after = c :: taken ++ rest ∧ (∀ d ∈ c :: taken, p d = true) ∧
        t = ⟨(c :: taken).reverse ++ s.before, rest, s.captured⟩ := by
  constructor
  · rintro ⟨u, ⟨c, more, hafter, hc, rfl⟩, taken, rest, rfl, htaken, rfl⟩
    exact ⟨c, taken, rest, hafter, List.forall_mem_cons.2 ⟨hc, htaken⟩, by simp⟩
  · rintro ⟨c, taken, rest, hafter, hall, rfl⟩
    obtain ⟨hc, htaken⟩ := List.forall_mem_cons.1 hall
    exact ⟨_, ⟨c, taken ++ rest, hafter, hc, rfl⟩, taken, rest, rfl, htaken, by simp⟩

/-- If the pattern leads on, it is not left out. -/
theorem run_optional {p : Pattern} {s out : Site} {next : Site → Option Site} (h : run p s next = .some out) :
    run (optional p) s next = .some out := by
  show (run p s next <|> run empty s next) = _
  rw [h]
  rfl

/-! ## What opens and what closes a word -/

/-- Where a word character follows the pattern, none stands before it. -/
def Opens (p : Pattern) : Prop :=
  ∀ ⦃s t⦄, Reaches p s t → t.after.head?.any isWordCharacter = true →
    t.before.head?.any isWordCharacter = false

/-- Where a word character stands before the pattern, none follows. -/
def Closes (p : Pattern) : Prop :=
  ∀ ⦃s t⦄, Reaches p s t → s.before.head?.any isWordCharacter = true →
    s.after.head?.any isWordCharacter = false

theorem opens_edge : Opens edge := by
  rintro s t ⟨hedge, rfl⟩ hafter
  simpa [Site.isEdge, hafter] using hedge

theorem closes_edge : Closes edge := by
  rintro s t ⟨hedge, rfl⟩ hbefore
  simpa [Site.isEdge, hbefore] using hedge

/-- Whitespace ends in a blank. -/
theorem opens_space : Opens space := by
  rintro s t ⟨u, ⟨d, rest, -, hd, rfl⟩, run, rest', -, hrun, rfl⟩ -
  have hlast : ∀ c ∈ d :: run, isWordCharacter c = false := by
    intro c hc
    rcases List.mem_cons.1 hc with rfl | hc
    · exact not_wordCharacter_of_blank hd
    · exact not_wordCharacter_of_blank (hrun c hc)
  rw [← List.singleton_append, ← List.append_assoc, ← List.reverse_cons]
  cases hrev : (d :: run).reverse with
  | nil => simp at hrev
  | cons c cs =>
    have hc : c ∈ d :: run := List.mem_reverse.1 (hrev ▸ List.mem_cons_self)
    simpa using hlast c hc

theorem closes_space : Closes space := by
  rintro s t ⟨u, ⟨d, rest, hafter, hd, -⟩, -⟩ -
  simpa [hafter] using not_wordCharacter_of_blank hd

theorem eq_leftParen {c : Char} (h : sameLetter '(' c = true) : c = '(' :=
  eq_of_sameLetter (by decide) h

/-- A parenthesis ends a word, with a gap before it or without one. -/
theorem closes_paren (p : Pattern) : Closes (seq gap (seq (letter '(') p)) := by
  rintro s t ⟨u, ⟨run, rest, hafter, hrun, rfl⟩, v, ⟨d, rest', hrest, hd, -⟩, -⟩ -
  rw [hafter]
  cases run with
  | nil =>
    obtain rfl := eq_leftParen hd
    obtain rfl : rest = '(' :: rest' := hrest
    show isWordCharacter '(' = false
    decide +kernel
  | cons c run => simpa using not_wordCharacter_of_blank (hrun c List.mem_cons_self)

theorem Closes.seq {p : Pattern} (h : Closes p) (q : Pattern) : Closes (seq p q) := by
  rintro s t ⟨u, hp, -⟩
  exact h hp

/-! ## Finding a word -/

section

variable {p q : Pattern} {word : Text} {s t : Site}

/-- Between a pattern that opens a word and one that closes it, a word stands as a whole. -/
theorem reaches_whole_word (hp : Opens p) (hq : Closes q) (hne : word ≠ [])
    (hword : ∀ c ∈ word, isBare c = true) (h : Reaches (seq p (seq (text word) q)) s t) :
    ∃ u v w, Reaches p s u ∧ Reaches q v t ∧ u.after = w ++ v.after ∧ Text.fold w = Text.fold word ∧
      u.before.head?.any isWordCharacter = false ∧ v.after.head?.any isWordCharacter = false := by
  obtain ⟨u, hopen, v, htext, hclose⟩ := h
  obtain ⟨w, hafter, hbefore, hfold⟩ := reaches_text htext
  have hw : ∀ c ∈ w, isWordCharacter c = true := Text.wordCharacter_of_fold hword hfold
  have hwne : w ≠ [] := by
    rintro rfl
    exact hne (List.map_eq_nil_iff.1 hfold.symm)
  have hstart : u.after.head?.any isWordCharacter = true := by
    obtain ⟨c, w, rfl⟩ := List.exists_cons_of_ne_nil hwne
    simpa [hafter] using hw c List.mem_cons_self
  refine ⟨u, v, w, hopen, hclose, hafter, hfold, hp hopen hstart, hq hclose ?_⟩
  rw [hbefore]
  exact Text.head?_any_reverse_append hwne hw _

theorem reaches_word (hp : Opens p) (hq : Closes q) (hne : word ≠ [])
    (hword : ∀ c ∈ word, isBare c = true) (h : Reaches (seq p (seq (text word) q)) s t) :
    ∃ u, Reaches p s u ∧ u.before.head?.any isWordCharacter = false ∧
      Text.fold (u.after.takeWhile isWordCharacter) = Text.fold word := by
  obtain ⟨u, v, w, hopen, -, hafter, hfold, hbefore, hstop⟩ := reaches_whole_word hp hq hne hword h
  have hw : ∀ c ∈ w, isWordCharacter c = true := Text.wordCharacter_of_fold hword hfold
  exact ⟨u, hopen, hbefore, by rw [hafter, Text.takeWhile_run hw hstop, hfold]⟩

/-- Every way through the pattern needs the word in the text. -/
def Demands (p : Pattern) (word : Text) : Prop :=
  ∀ ⦃s t⦄, Reaches p s t → s.text.HoldsWord word

theorem demands_word (hp : Opens p) (hq : Closes q) (hne : word ≠ [])
    (hword : ∀ c ∈ word, isBare c = true) : Demands (seq p (seq (text word) q)) word := by
  intro s t h
  obtain ⟨u, hopen, hbefore, hfold⟩ := reaches_word hp hq hne hword h
  have hrun := Text.forall_mem_takeWhile isWordCharacter u.after
  have hrunne : u.after.takeWhile isWordCharacter ≠ [] := by
    intro hnil
    rw [hnil] at hfold
    exact hne (List.map_eq_nil_iff.1 hfold.symm)
  have hmem := Text.mem_runs (s := u.before.reverse) hrunne hrun (by simpa using hbefore)
    (Text.head?_any_dropWhile isWordCharacter u.after)
  rw [List.append_assoc, List.takeWhile_append_dropWhile] at hmem
  refine ⟨_, ?_, hfold⟩
  rw [← hopen.text_eq]
  exact hmem

theorem Demands.seq (h : Demands q word) (p : Pattern) : Demands (seq p q) word := by
  rintro s t ⟨u, hp, hq⟩
  rw [← hp.text_eq]
  exact h hq

/-- A text has no match if no way leads through the pattern in it. -/
theorem hasMatch_of_reaches {t : Text} (h : ∀ ⦃s u : Site⦄, s.text = t → ¬ Reaches p s u) :
    hasMatch p.matcher t = false := by
  rw [Bool.eq_false_iff]
  intro hmatch
  obtain ⟨m, hm⟩ := exists_found_of_hasMatch hmatch
  obtain ⟨hfound, htext⟩ := Cut.matcher_of_found p.matcher_takesPrefix hm
  obtain ⟨stop, hreach, -⟩ := matcher_reaches hfound
  exact h (s := ⟨m.before, m.text ++ m.after, []⟩) htext hreach

/-- A text that lacks a word that the pattern demands has no match. -/
theorem hasMatch_of_demands (h : Demands p word) {t : Text} (ht : ¬ t.HoldsWord word) :
    hasMatch p.matcher t = false :=
  hasMatch_of_reaches fun _ _ hs hreach => ht (hs ▸ h hreach)

/-- Where a text has no match, the pattern matches at none of its places. -/
theorem matcher_of_hasMatch (hnull : p.nullable = false) {front back : Text}
    (h : hasMatch p.matcher (front ++ back) = false) : p.matcher front.reverse back = none := by
  refine Option.eq_none_iff_forall_ne_some.2 fun ⟨taken, value⟩ hmatch => ?_
  obtain ⟨c, taken, rfl, -⟩ := matcher_start hnull hmatch
  obtain ⟨more, rfl⟩ := p.matcher_takesPrefix hmatch
  rw [← List.append_nil front.reverse] at hmatch
  obtain ⟨m, hm⟩ := exists_found_of_match (List.cons_ne_nil c taken) front true [] hmatch
  have hmem : m ∈ allMatches p.matcher (front ++ (c :: taken ++ more)) := Cut.mem_filterMap_match?.2 hm
  simp only [hasMatch, Bool.not_eq_false', List.isEmpty_iff] at h
  rw [h] at hmem
  cases hmem

/-- A text without the characters that can start a match has none. -/
theorem hasMatch_of_start (hnull : p.nullable = false) {t : Text}
    (ht : ∀ c ∈ t, p.startsWith c = false) : hasMatch p.matcher t = false := by
  refine hasMatch_of_reaches fun s u hs hreach => ?_
  rcases hreach.start with ⟨-, hempty⟩ | ⟨c, taken, hafter, hc⟩
  · rw [hnull] at hempty
    cases hempty
  · have hmem : c ∈ t := by
      rw [← hs, Site.text, hafter]
      simp
    rw [ht c hmem] at hc
    cases hc

end

end Pattern

end DialectBridge
