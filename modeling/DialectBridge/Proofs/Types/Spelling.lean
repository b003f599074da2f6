import DialectBridge.Proofs.Lexical.Plain
import DialectBridge.Proofs.Types.Declared

/-!
# The spelling of types

A type is written as words with single blanks between them, and perhaps a size. So a declared type and
the type in its place are plain texts.
-/

namespace DialectBridge

/-! ## The items of a size -/

namespace Item

/-- Puts a character of a size in front of items. A digit joins the number behind it. -/
def push (c : Char) : List Item → List Item
  | number ds :: is => if c.isDigit then number (c :: ds) :: is else sign c :: number ds :: is
  | is => if c.isDigit then number [c] :: is else sign c :: is

/-- The items of a size. -/
def ofSize (t : Text) : List Item :=
  t.foldr push []

/-- The item is a number or a sign. -/
def isSizePart : Item → Bool
  | number _ | sign _ => true
  | word _ | blank => false

theorem push_number (c : Char) (hc : c.isDigit = true) (ds : Text) (is : List Item) :
    push c (number ds :: is) = number (c :: ds) :: is :=
  if_pos hc

theorem push_digit {c : Char} (hc : c.isDigit = true) {is : List Item}
    (h : ∀ i ∈ is.head?, i.isRun = false) : push c is = number [c] :: is := by
  cases is with
  | nil => exact if_pos hc
  | cons i is =>
    cases i with
    | number ds => exact absurd (h _ rfl) (by simp [isRun])
    | word _ | sign _ | blank => exact if_pos hc

theorem push_sign {c : Char} (hc : c.isDigit = false) (is : List Item) : push c is = sign c :: is := by
  have hnot : ¬ c.isDigit = true := by simp [hc]
  cases is with
  | nil => exact if_neg hnot
  | cons i is => cases i <;> exact if_neg hnot

/-- A size has numbers and signs only. -/
theorem mem_ofSize {t : Text} {i : Item} (h : i ∈ ofSize t) : i.isSizePart = true := by
  induction t generalizing i with
  | nil => cases h
  | cons c t ih =>
    have hpush : i ∈ push c (ofSize t) := h
    cases hc : c.isDigit with
    | false =>
      rw [push_sign hc] at hpush
      rcases List.mem_cons.1 hpush with rfl | hpush
      · rfl
      · exact ih hpush
    | true =>
      cases hsize : ofSize t with
      | nil =>
        rw [hsize, push_digit hc (by simp)] at hpush
        obtain rfl := List.mem_singleton.1 hpush
        rfl
      | cons j js =>
        rw [hsize] at hpush ih
        cases j with
        | number ds =>
          rw [push_number c hc] at hpush
          rcases List.mem_cons.1 hpush with rfl | hpush
          · rfl
          · exact ih (List.mem_cons_of_mem _ hpush)
        | sign d =>
          rw [push_digit hc (by simp [isRun])] at hpush
          rcases List.mem_cons.1 hpush with rfl | hpush
          · rfl
          · exact ih hpush
        | word w => cases ih List.mem_cons_self
        | blank => cases ih List.mem_cons_self

theorem render_push (c : Char) (is : List Item) : render (push c is) = c :: render is := by
  unfold push
  split <;> split <;> rfl

theorem render_ofSize (t : Text) : render (ofSize t) = t := by
  induction t with
  | nil => rfl
  | cons c t ih => rw [ofSize, List.foldr_cons, render_push, ← ofSize, ih]

theorem plain_ofSize {t : Text}
    (h : ∀ c ∈ t, c.isDigit = true ∨ c = '(' ∨ c = ')' ∨ c = ',') : Plain (ofSize t) := by
  induction t with
  | nil => exact ⟨by simp [ofSize], .nil⟩
  | cons c t ih =>
    have ih := ih fun d hd => h d (List.mem_cons_of_mem _ hd)
    show Plain (push c (ofSize t))
    have hparts {i : Item} (hi : i ∈ ofSize t) := mem_ofSize hi
    cases hc : c.isDigit with
    | false =>
      have hsign : (sign c).IsSound :=
        ((h c List.mem_cons_self).resolve_left (by simp [hc])).imp_right (Or.imp_right .inl)
      rw [push_sign hc]
      exact ih.sign_cons hsign
    | true =>
      have hnumber : (number [c]).IsSound := ⟨List.cons_ne_nil _ _, by simpa using hc⟩
      cases hsize : ofSize t with
      | nil =>
        rw [push_digit hc (by simp)]
        exact ⟨by simpa using hnumber, .singleton _⟩
      | cons j js =>
        rw [hsize] at ih hparts
        cases j with
        | number ds =>
          obtain ⟨hsound, hmeets⟩ := ih.of_cons
          rw [push_number c hc]
          refine ih.tail.cons ⟨List.cons_ne_nil _ _, fun d hd => ?_⟩ fun i hi => ?_
          · rcases List.mem_cons.1 hd with rfl | hd
            · exact hc
            · exact hsound.2 d hd
          · simpa [Meets, isRun, isNumber] using hmeets i hi
        | sign d =>
          have hd : d ≠ '.' := by
            rintro rfl
            have hmem : '.' ∈ t := by
              rw [← render_ofSize t, hsize]
              simp [Item.text]
            exact absurd (h '.' (List.mem_cons_of_mem _ hmem)) (by decide)
          rw [push_digit hc (by simp [isRun])]
          refine ih.cons hnumber fun i hi => ?_
          obtain rfl : sign d = i := Option.some.inj hi
          simp [Meets, isRun, hd]
        | word w => cases hparts List.mem_cons_self
        | blank => cases hparts List.mem_cons_self

end Item

/-! ## Spellings -/

/-- A type as it is written. -/
structure Spelling where
  first : Text
  /-- The other words. -/
  others : List Text
  /-- The size in parentheses, or nothing. -/
  size : Text
  deriving DecidableEq, Repr

namespace Spelling

open Item

/-- The words of a type. -/
def words (s : Spelling) : List Text :=
  s.first :: s.others

/-- The text of a type. -/
def text (s : Spelling) : Text :=
  s.first ++ s.others.flatMap (' ' :: ·) ++ s.size

/-- The items of a type. -/
def items (s : Spelling) : List Item :=
  word s.first :: (s.others.flatMap fun w => [blank, word w]) ++ ofSize s.size

/-- The words are bare, and the size is one. -/
structure IsSound (s : Spelling) : Prop where
  words : ∀ w ∈ s.words, IsBareWord w
  size : IsSize s.size

instance (s : Spelling) : Decidable s.IsSound :=
  decidable_of_iff ((∀ w ∈ s.words, IsBareWord w) ∧ IsSize s.size)
    ⟨fun h => ⟨h.1, h.2⟩, fun h => ⟨h.words, h.size⟩⟩

/-- How a text is spelled, if it is a type. -/
def ofText (t : Text) : Spelling :=
  let words := Text.splitOn ' ' (t.takeWhile (· != '('))
  ⟨words.headD [], words.drop 1, t.dropWhile (· != '(')⟩

/-- The text is spelled as types are. -/
def Spells (t : Text) : Prop :=
  (ofText t).IsSound ∧ (ofText t).text = t

instance (t : Text) : Decidable (Spells t) := by
  unfold Spells; infer_instance

theorem render_items (s : Spelling) : render s.items = s.text := by
  have hothers (ws : List Text) :
      render (ws.flatMap fun w => [blank, word w]) = ws.flatMap (' ' :: ·) := by
    induction ws with
    | nil => rfl
    | cons w ws ih =>
      rw [List.flatMap_cons, render_append, ih]
      simp [Item.text]
  rw [items, text, render_append, render_cons, hothers, render_ofSize]
  rfl

/-- A size starts with a parenthesis. -/
theorem head?_ofSize {size : Text} (h : IsSize size) : ∀ i ∈ (ofSize size).head?, i = sign '(' := by
  cases h with
  | none => simp [ofSize]
  | some hy =>
    intro i hi
    rw [ofSize, List.foldr_cons, push_sign (by decide)] at hi
    exact (Option.some.inj hi).symm

theorem plain_ofIsSize {size : Text} (h : IsSize size) : Plain (ofSize size) := by
  refine plain_ofSize fun c hc => ?_
  cases h with
  | none => cases hc
  | some hy =>
    simp only [List.mem_cons, List.mem_append, List.not_mem_nil, or_false] at hc
    rcases hc with rfl | hc | rfl
    · simp
    · rcases sizeCharacter_cases (hy c hc) with hd | rfl
      · exact .inl hd
      · simp
    · simp

theorem plain_items {s : Spelling} (h : s.IsSound) : Plain s.items := by
  obtain ⟨first, others, size⟩ := s
  obtain ⟨hwords, hsize⟩ := h
  induction others generalizing first with
  | nil =>
    refine (plain_ofIsSize hsize).cons (hwords first List.mem_cons_self) fun i hi => ?_
    obtain rfl := head?_ofSize hsize i hi
    simp [Meets, isRun]
  | cons w others ih =>
    have hrest := ih w (fun v hv => hwords v (List.mem_cons_of_mem _ hv)) hsize
    exact hrest.word_cons (hwords first List.mem_cons_self) (by simp [items])

/-- A type does not end blank. -/
theorem getLast?_items (s : Spelling) : s.items.getLast? ≠ some blank := by
  obtain ⟨first, others, size⟩ := s
  cases hsize : ofSize size with
  | nil =>
    have hne : ∀ ws : List Text, ∀ w, (word w :: ws.flatMap fun w => [blank, word w]).getLast? ≠ some blank := by
      intro ws
      induction ws with
      | nil => simp
      | cons v ws ih =>
        intro w
        simpa using ih v
    simpa [items, hsize] using hne others first
  | cons i is =>
    intro hlast
    have hend : (ofSize size).getLast? = some blank := by
      rw [items, List.getLast?_append, hsize] at hlast
      rw [hsize]
      simpa using hlast
    cases mem_ofSize (List.mem_of_getLast? hend)

theorem IsSound.trim_text {s : Spelling} (h : s.IsSound) : s.text.trim = s.text := by
  rw [← render_items]
  exact trim_render (plain_items h) (by simp [items]) s.getLast?_items

theorem IsSound.text_ne_nil {s : Spelling} (h : s.IsSound) : s.text ≠ [] := by
  intro hnil
  rw [text, List.append_assoc, List.append_eq_nil_iff] at hnil
  exact (h.words s.first List.mem_cons_self).ne_nil hnil.1

end Spelling

/-! ## The spelling of declared types -/

namespace TypeTable

open Spelling

/-- The sources and targets of the rules are spelled as types are, and the words of the sources are no
keywords. A target that takes a size has none of its own. -/
structure IsSpelled (types : TypeTable) : Prop where
  source : ∀ r ∈ types.rules, Spells r.source ∧ (ofText r.source).first = r.word
  target : ∀ r ∈ types.rules, Spells r.target ∧ (r.keepsSize = true → (ofText r.target).size = [])
  keywords : ∀ r ∈ types.rules, ∀ w ∈ (ofText r.source).words, ∀ keyword ∈ Keyword.all,
    w.same keyword.text = false

theorem oracle_spelled : oracleTypes.IsSpelled where
  source := forall_mem_ofRules (by decide +kernel)
  target := forall_mem_ofRules (by decide +kernel)
  keywords := forall_mem_ofRules (by decide +kernel)

theorem mysql_spelled : mysqlTypes.IsSpelled where
  source := forall_mem_ofRules (by decide +kernel)
  target := forall_mem_ofRules (by decide +kernel)
  keywords := forall_mem_ofRules (by decide +kernel)

variable {types : TypeTable}

/-- A declared type is spelled with words of a source. -/
theorem Declares.exists_spelling (ht : types.IsOrderly) (hs : types.IsSpelled) {t : Text}
    (h : types.Declares t) : ∃ s : Spelling, s.IsSound ∧ s.text = t ∧
      ∃ r ∈ types.rules, s.first = (ofText r.source).first ∧ s.others ⊆ (ofText r.source).others := by
  rcases h.cases_word ht with ⟨r, hr, -, rfl⟩ | ⟨r, hr, size, hsize, rfl, -⟩
  · obtain ⟨⟨hsound, htext⟩, -⟩ := hs.source r hr
    exact ⟨_, hsound, htext, r, hr, rfl, List.Subset.refl _⟩
  · obtain ⟨⟨hsound, -⟩, hfirst⟩ := hs.source r hr
    have hmem : r.word ∈ (ofText r.source).words := hfirst ▸ List.mem_cons_self
    refine ⟨⟨r.word, [], size⟩, ⟨?_, hsize⟩, by simp [Spelling.text], r, hr, hfirst.symm, by simp⟩
    intro w hw
    obtain rfl := List.mem_singleton.1 hw
    exact hsound.words _ hmem

/-- No source starts with a keyword. -/
theorem IsSpelled.word_ne_keyword (hs : types.IsSpelled) {r : TypeRule} (hr : r ∈ types.rules)
    (keyword : Keyword) : Text.fold keyword.text ≠ Text.fold r.word := by
  intro hfold
  have hsame := (Text.fold_eq_iff keyword.isBareWord_text.ascii
    fun c hc => toNat_lt_of_bare (r.bare_word c hc)).1 hfold
  have hmem : r.word ∈ (ofText r.source).words := (hs.source r hr).2 ▸ List.mem_cons_self
  rw [Text.same_comm, hs.keywords r hr _ hmem keyword keyword.mem_all] at hsame
  cases hsame

/-- A target, with a size if it takes one, is spelled with the words of the target. -/
theorem IsSpelled.exists_spelling (hs : types.IsSpelled) {r : TypeRule} (hr : r ∈ types.rules) {u : Text}
    (h : u = r.target ∨ ∃ size, IsSize size ∧ r.keepsSize = true ∧ u = r.target ++ size) :
    ∃ s : Spelling, s.IsSound ∧ s.text = u ∧ ∃ r ∈ types.rules, s.words = (ofText r.target).words := by
  obtain ⟨⟨hsound, htext⟩, hkeeps⟩ := hs.target r hr
  rcases h with rfl | ⟨size, hsize, hkeep, rfl⟩
  · exact ⟨_, hsound, htext, r, hr, rfl⟩
  · refine ⟨{ ofText r.target with size }, ⟨hsound.words, hsize⟩, ?_, r, hr, rfl⟩
    rw [Spelling.text, hkeeps hkeep, List.append_nil] at htext
    rw [Spelling.text, htext]

end TypeTable

end DialectBridge
