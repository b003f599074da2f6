import DialectBridge.Pattern.Search

/-!
# Cutting step by step

A text is cut place by place: where the matcher finds nothing a character is copied, and where it takes
a text the cutting goes on behind it.
-/

namespace DialectBridge

namespace Cut

variable {α : Type} {matcher : Matcher α} {before after taken rest : Text} {fresh : Bool} {value : α}

theorem pieces_nil (h : matcher before [] = none) : pieces matcher 0 fresh before [] = [] := by
  rw [pieces, h]

theorem pieces_none {c : Char} (h : matcher before (c :: after) = none) :
    pieces matcher 0 fresh before (c :: after) =
      copied c :: pieces matcher 0 true (c :: before) after := by
  rw [pieces, h]

/-- The characters of a match are skipped. -/
theorem pieces_skip (c : Char) (taken : Text) :
    pieces matcher (taken.length + 1) fresh before (c :: taken ++ rest) =
      pieces matcher 0 false (taken.reverse ++ c :: before) rest := by
  induction taken generalizing c fresh before with
  | nil => cases rest <;> rfl
  | cons d taken ih =>
    rw [List.cons_append, List.length_cons, pieces, ih]
    simp

theorem pieces_some (h : matcher before (taken ++ rest) = some (taken, value)) (hne : taken ≠ []) :
    pieces matcher 0 fresh before (taken ++ rest) =
      found ⟨before, taken, rest, value⟩ ::
        pieces matcher 0 false (taken.reverse ++ before) rest := by
  obtain ⟨c, taken, rfl⟩ := List.exists_cons_of_ne_nil hne
  rw [List.cons_append] at h ⊢
  rw [pieces, h]
  simp only [List.drop_left]
  cases taken with
  | nil => simp
  | cons d taken =>
    rw [List.cons_append, List.length_cons, ← List.cons_append, pieces_skip]
    simp

/-- If no match is empty, it makes no difference whether a match ends here. -/
theorem pieces_fresh (hm : matcher.TakesPrefix) (h : ∀ before after value, matcher before after ≠ some ([], value)) :
    pieces matcher 0 fresh before after = pieces matcher 0 true before after := by
  cases after with
  | nil =>
    have hnone : matcher before [] = none := by
      rw [Option.eq_none_iff_forall_ne_some]
      rintro ⟨taken, value⟩ hmatch
      obtain rfl := List.prefix_nil.1 (hm hmatch)
      exact h _ _ _ hmatch
    rw [pieces_nil hnone, pieces_nil hnone]
  | cons c after =>
    rw [pieces, pieces]
    split
    · rfl
    · next value hmatch => exact absurd hmatch (h _ _ _)
    · rfl

/-- A run is copied if no match starts at any of its characters. -/
theorem pieces_run {run : Text} (hne : run ≠ []) (h : ∀ front c back, run = front ++ c :: back →
    matcher (front.reverse ++ before) (c :: (back ++ rest)) = none) :
    pieces matcher 0 fresh before (run ++ rest) =
      run.map copied ++ pieces matcher 0 true (run.reverse ++ before) rest := by
  induction run generalizing fresh before with
  | nil => exact absurd rfl hne
  | cons c run ih =>
    have hfirst : matcher before (c :: (run ++ rest)) = none := h [] c run rfl
    rw [List.cons_append, pieces_none hfirst]
    cases run with
    | nil => rfl
    | cons d run =>
      rw [ih (List.cons_ne_nil d run) fun front e back heq => ?_]
      · simp
      · simpa using h (c :: front) e back (by rw [heq, List.cons_append])

/-- Characters at which no match starts are copied. -/
theorem pieces_copied {run : Text} (h : ∀ c ∈ run, ∀ before after, matcher before (c :: after) = none)
    (hne : run ≠ []) (rest : Text) :
    pieces matcher 0 fresh before (run ++ rest) =
      run.map copied ++ pieces matcher 0 true (run.reverse ++ before) rest :=
  pieces_run hne fun front c back heq => h c (by simp [heq]) _ _

/-- A word is copied if no match starts at it and none starts inside a word. -/
theorem pieces_word {w : Text} (hne : w ≠ []) (hw : ∀ c ∈ w, isWordCharacter c = true)
    (hstart : matcher before (w ++ rest) = none)
    (hinside : ∀ before after, before.head?.any isWordCharacter = true → after.head?.any isWordCharacter = true →
      matcher before after = none) :
    pieces matcher 0 fresh before (w ++ rest) = w.map copied ++ pieces matcher 0 true (w.reverse ++ before) rest := by
  refine pieces_run hne fun front c back heq => ?_
  cases hfront : front.reverse with
  | nil =>
    obtain rfl := List.reverse_eq_nil_iff.1 hfront
    rwa [heq] at hstart
  | cons d front' =>
    have hd : d ∈ front := List.mem_reverse.1 (hfront ▸ List.mem_cons_self)
    exact hinside _ _ (hw d (heq ▸ List.mem_append_left _ hd)) (hw c (by simp [heq]))

/-- Where the matcher finds something, the first piece is a match. -/
theorem exists_pieces_found (hm : matcher.TakesPrefix) (h : matcher before after = some (taken, value)) :
    ∃ rest later, after = taken ++ rest ∧
      pieces matcher 0 true before after = found ⟨before, taken, rest, value⟩ :: later := by
  obtain ⟨rest, rfl⟩ := hm h
  cases taken with
  | nil =>
    rw [List.nil_append] at h ⊢
    cases rest with
    | nil => exact ⟨[], [], rfl, by rw [pieces, h]; rfl⟩
    | cons c rest => exact ⟨c :: rest, _, rfl, by rw [pieces, h]; rfl⟩
  | cons c taken => exact ⟨rest, _, rfl, pieces_some h (List.cons_ne_nil c taken)⟩

/-- What is copied stays. -/
theorem flatMap_copied {f : Cut α → Text} (h : ∀ c, f (copied c) = [c]) (t : Text) : (t.map copied).flatMap f = t := by
  induction t with
  | nil => rfl
  | cons c t ih => rw [List.map_cons, List.flatMap_cons, h, ih]; rfl

/-- A piece that was found is a match of the matcher, somewhere in the text. -/
theorem exists_front_of_found (hm : matcher.TakesPrefix) {skip : Nat} {m : Match α}
    (h : found m ∈ pieces matcher skip fresh before after) :
    matcher m.before (m.text ++ m.after) = some (m.text, m.value) ∧
      ∃ front, m.before = front.reverse ++ before ∧ after = front ++ (m.text ++ m.after) := by
  have hshift {before : Text} {c : Char} {after : Text}
      (hm : matcher m.before (m.text ++ m.after) = some (m.text, m.value) ∧
        ∃ front, m.before = front.reverse ++ c :: before ∧ after = front ++ (m.text ++ m.after)) :
      matcher m.before (m.text ++ m.after) = some (m.text, m.value) ∧
        ∃ front, m.before = front.reverse ++ before ∧ c :: after = front ++ (m.text ++ m.after) := by
    obtain ⟨hmatch, front, hbefore, hafter⟩ := hm
    exact ⟨hmatch, c :: front, by simpa using hbefore, congrArg (c :: ·) hafter⟩
  fun_induction pieces matcher skip fresh before after with
  | case1 before taken value hmatch =>
    obtain rfl : m = ⟨before, [], [], value⟩ := by simpa using h
    obtain rfl := List.prefix_nil.1 (hm hmatch)
    exact ⟨hmatch, [], rfl, rfl⟩
  | case2 | case3 | case4 => cases h
  | case5 skip fresh before c after ih => exact hshift (ih h)
  | case6 fresh before c after _ ih =>
    rcases List.mem_cons.1 h with heq | h
    · cases heq
    · exact hshift (ih h)
  | case7 before c after value hmatch rest ih =>
    rcases List.mem_cons.1 h with heq | h
    · cases heq
      exact ⟨hmatch, [], rfl, rfl⟩
    · rcases List.mem_cons.1 h with heq | h
      · cases heq
      · exact hshift (ih h)
  | case8 fresh before c after value _ rest _ ih =>
    rcases List.mem_cons.1 h with heq | h
    · cases heq
    · exact hshift (ih h)
  | case9 fresh before c after d taken value hmatch ih =>
    rcases List.mem_cons.1 h with heq | h
    · cases heq
      obtain ⟨rest, hrest⟩ := hm hmatch
      obtain ⟨rfl, rfl⟩ := by simpa using hrest
      exact ⟨by simpa using hmatch, [], rfl, by simp⟩
    · exact hshift (ih h)

theorem matcher_of_found (hm : matcher.TakesPrefix) {skip : Nat} {m : Match α}
    (h : found m ∈ pieces matcher skip fresh before after) :
    matcher m.before (m.text ++ m.after) = some (m.text, m.value) ∧
      m.before.reverse ++ (m.text ++ m.after) = before.reverse ++ after := by
  obtain ⟨hmatch, front, hbefore, hafter⟩ := exists_front_of_found hm h
  exact ⟨hmatch, by simp [hbefore, hafter]⟩

theorem mem_filterMap_match? {m : Match α} {pieces : List (Cut α)} :
    m ∈ pieces.filterMap match? ↔ found m ∈ pieces := by
  constructor
  · intro hm
    obtain ⟨piece, hpiece, hmatch⟩ := List.mem_filterMap.1 hm
    cases piece with
    | copied c => cases hmatch
    | found n =>
      obtain rfl : n = m := Option.some.inj hmatch
      exact hpiece
  · exact fun hm => List.mem_filterMap.2 ⟨_, hm, rfl⟩

end Cut

/-- The first match stands at the first place where the matcher finds something. -/
theorem head?_allMatches {α : Type} {matcher : Matcher α} (hm : matcher.TakesPrefix) {front back taken : Text}
    {value : α} (hnone : ∀ x c y, front = x ++ c :: y → matcher x.reverse (c :: (y ++ back)) = none)
    (h : matcher front.reverse back = some (taken, value)) : ∃ rest, back = taken ++ rest ∧
      (allMatches matcher (front ++ back)).head? = some ⟨front.reverse, taken, rest, value⟩ := by
  obtain ⟨rest, later, hback, hfound⟩ := Cut.exists_pieces_found hm h
  refine ⟨rest, hback, ?_⟩
  have hcut : cut matcher (front ++ back) =
      front.map Cut.copied ++ Cut.found ⟨front.reverse, taken, rest, value⟩ :: later := by
    rw [← hfound]
    by_cases hfront : front = []
    · subst hfront
      rfl
    · rw [cut, Cut.pieces_run hfront (by simpa using hnone), List.append_nil]
  have hcopied : (front.map (Cut.copied (α := α))).filterMap Cut.match? = [] := by
    simp [List.filterMap_map, Cut.match?]
  rw [allMatches, hcut, List.filterMap_append, hcopied]
  rfl

end DialectBridge
