import Mathlib.Data.List.Chain
import DialectBridge.Proofs.Lexical.Lexeme
import DialectBridge.Proofs.Lexical.Tiling
import DialectBridge.Proofs.Pattern.Word
import DialectBridge.Proofs.Text.Trim

/-!
# Plain texts

A plain text is made of bare words, digits, parentheses, commas, dots and single blanks. Its items are its
tokens (`scan_render`), its words and numbers are its runs of word characters (`runs_render`), and it
is code as a whole (`segments_render`).
-/

namespace DialectBridge

theorem Keyword.isBareWord_text (keyword : Keyword) : IsBareWord keyword.text := by
  cases keyword <;> decide

/-- A part of a plain text. -/
inductive Item where
  | word (text : Text)
  | number (digits : Text)
  /-- A parenthesis, a comma or a dot. -/
  | sign (c : Char)
  | blank
  deriving DecidableEq, Repr

namespace Item

/-- The text of an item. -/
def text : Item → Text
  | word w => w
  | number ds => ds
  | sign c => [c]
  | blank => " "

/-- The kind of token that an item is. -/
def kind : Item → TokenKind
  | word w => Scan.wordKind w
  | number ds => .number ds
  | sign c => if c = '(' then .leftParen else if c = ')' then .rightParen else if c = ',' then .comma else .dot
  | blank => .eof

/-- The item is a run of word characters. -/
def isRun : Item → Bool
  | word _ | number _ => true
  | sign _ | blank => false

/-- The item is a number. -/
def isNumber : Item → Bool
  | number _ => true
  | word _ | sign _ | blank => false

/-- The item is what its constructor says. -/
def IsSound : Item → Prop
  | word w => IsBareWord w
  | number ds => ds ≠ [] ∧ ∀ d ∈ ds, d.isDigit = true
  | sign c => c = '(' ∨ c = ')' ∨ c = ',' ∨ c = '.'
  | blank => True

/-- Two items can stand side by side: neither two runs nor two blanks do, nor a number and a dot. -/
def Meets (i j : Item) : Prop :=
  ¬(i.isRun = true ∧ j.isRun = true) ∧ ¬(i = blank ∧ j = blank) ∧ ¬(i.isNumber = true ∧ j = sign '.')

instance (i j : Item) : Decidable (i.Meets j) := by
  unfold Meets; infer_instance

/-- The text of items. -/
def render (is : List Item) : Text :=
  is.flatMap text

@[simp] theorem render_nil : render [] = [] := rfl

@[simp] theorem render_cons (i : Item) (is : List Item) : render (i :: is) = i.text ++ render is := rfl

@[simp] theorem render_append (is js : List Item) : render (is ++ js) = render is ++ render js := by
  simp [render]

/-- The items make up a plain text. -/
structure Plain (is : List Item) : Prop where
  sound : ∀ i ∈ is, i.IsSound
  chain : is.IsChain Meets

theorem Plain.tail {i : Item} {is : List Item} (h : Plain (i :: is)) : Plain is :=
  ⟨fun j hj => h.sound j (List.mem_cons_of_mem _ hj), h.chain.tail⟩

theorem Plain.cons {i : Item} {is : List Item} (h : Plain is) (hi : i.IsSound)
    (hmeets : ∀ j ∈ is.head?, i.Meets j) : Plain (i :: is) :=
  ⟨List.forall_mem_cons.2 ⟨hi, h.sound⟩, List.isChain_cons.2 ⟨hmeets, h.chain⟩⟩

theorem Plain.sign_cons {c : Char} {is : List Item} (h : Plain is) (hc : (sign c).IsSound) :
    Plain (sign c :: is) :=
  h.cons hc fun _ _ => ⟨by simp [isRun], by simp, by simp [isNumber]⟩

theorem Plain.blank_cons {is : List Item} (h : Plain is) (hhead : is.head? ≠ some blank) :
    Plain (blank :: is) :=
  h.cons trivial fun i hi => ⟨by simp [isRun], fun hblank => hhead (hblank.2 ▸ hi), by simp [isNumber]⟩

/-- A word and the blank behind it. -/
theorem Plain.word_cons {w : Text} {is : List Item} (h : Plain is) (hw : (word w).IsSound)
    (hhead : is.head? ≠ some blank) : Plain (word w :: blank :: is) :=
  (h.blank_cons hhead).cons hw fun i hi => by
    obtain rfl : blank = i := Option.some.inj hi
    exact ⟨by simp [isRun], by simp, by simp⟩

theorem Plain.append {is js : List Item} (his : Plain is) (hjs : Plain js)
    (hmeets : ∀ i ∈ is.getLast?, ∀ j ∈ js.head?, i.Meets j) : Plain (is ++ js) :=
  ⟨List.forall_mem_append.2 ⟨his.sound, hjs.sound⟩, List.isChain_append.2 ⟨his.chain, hjs.chain, hmeets⟩⟩

theorem Plain.of_cons {i : Item} {is : List Item} (h : Plain (i :: is)) :
    i.IsSound ∧ ∀ j ∈ is.head?, i.Meets j :=
  ⟨h.sound i List.mem_cons_self, (List.isChain_cons.1 h.chain).1⟩

/-- The tokens of items; the first one stands behind the gap `g`. -/
def lexemes (g : List Trivia) : List Item → List Token
  | [] => []
  | blank :: is => lexemes (g ++ [.blank " "]) is
  | i :: is => ⟨g, i.kind, i.text⟩ :: lexemes [] is

theorem lexemes_cons {i : Item} (h : i ≠ blank) (g : List Trivia) (is : List Item) :
    lexemes g (i :: is) = ⟨g, i.kind, i.text⟩ :: lexemes [] is := by
  cases i with
  | blank => exact absurd rfl h
  | word _ | number _ | sign _ => rfl

/-! ## Characters -/

/-- The characters of items are bare, signs and blanks. -/
theorem IsSound.mem_text {i : Item} (h : i.IsSound) {c : Char} (hc : c ∈ i.text) :
    isBare c = true ∨ c = '(' ∨ c = ')' ∨ c = ',' ∨ c = '.' ∨ c = ' ' := by
  cases i with
  | word w => exact .inl (h.bare c hc)
  | number ds => exact .inl (bare_of_digit (h.2 c hc))
  | sign d =>
    obtain rfl := List.mem_singleton.1 hc
    obtain rfl | rfl | rfl | rfl := h <;> simp
  | blank =>
    obtain rfl : c = ' ' := List.mem_singleton.1 hc
    simp

theorem mem_render {is : List Item} (h : ∀ i ∈ is, i.IsSound) {c : Char} (hc : c ∈ render is) :
    isBare c = true ∨ c = '(' ∨ c = ')' ∨ c = ',' ∨ c = '.' ∨ c = ' ' := by
  obtain ⟨i, hi, hc⟩ := List.mem_flatMap.1 hc
  exact (h i hi).mem_text hc

theorem IsSound.text_ne_nil {i : Item} (h : i.IsSound) : i.text ≠ [] := by
  cases i with
  | word w => exact IsBareWord.ne_nil h
  | number ds => exact h.1
  | sign c => exact List.cons_ne_nil _ _
  | blank => exact List.cons_ne_nil _ _

/-- A run is made of word characters. -/
theorem IsSound.run {i : Item} (h : i.IsSound) (hrun : i.isRun = true) :
    ∀ c ∈ i.text, isBare c = true := by
  cases i with
  | word w => exact h.bare
  | number ds => exact fun c hc => bare_of_digit (h.2 c hc)
  | sign c => cases hrun
  | blank => cases hrun

theorem not_wordCharacter_of_sign {c : Char} (h : c = '(' ∨ c = ')' ∨ c = ',' ∨ c = '.') :
    isWordCharacter c = false := by
  obtain rfl | rfl | rfl | rfl := h <;> decide +kernel

/-- Behind a run a sign follows, or a blank, or nothing, and behind a number no dot. -/
theorem head?_render {i : Item} {is : List Item} (h : Plain (i :: is)) (hi : i.isRun = true) {c : Char}
    (hc : c ∈ (render is).head?) : c ∈ ['(', ')', ',', '.', ' '] ∧ (i.isNumber = true → c ≠ '.') := by
  cases is with
  | nil => cases hc
  | cons j is =>
    have hmeets := (List.isChain_cons_cons.1 h.chain).1
    have hj : j.isRun ≠ true := fun hj => hmeets.1 ⟨hi, hj⟩
    have hsound := h.sound j (by simp)
    cases j with
    | word w => exact absurd rfl hj
    | number ds => exact absurd rfl hj
    | sign d =>
      obtain rfl : d = c := Option.some.inj hc
      refine ⟨?_, fun hnumber hdot => hmeets.2.2 ⟨hnumber, congrArg sign hdot⟩⟩
      obtain rfl | rfl | rfl | rfl := hsound <;> decide
    | blank =>
      obtain rfl : ' ' = c := Option.some.inj hc
      exact ⟨by decide, by simp⟩

/-- Behind a run no class goes on that has neither signs nor the blank. -/
theorem head?_any_render {i : Item} {is : List Item} (h : Plain (i :: is)) (hi : i.isRun = true)
    {p : Char → Bool} (hp : ['(', ')', ',', '.', ' '].any p = false) : (render is).head?.any p = false := by
  cases hhead : (render is).head? with
  | none => rfl
  | some c => exact Bool.eq_false_iff.2 (List.any_eq_false.1 hp c (head?_render h hi hhead).1)

/-- The runs of word characters of a plain text are its words and numbers. -/
theorem runs_render {is : List Item} (h : Plain is) :
    Text.runs isWordCharacter (render is) = (is.filter isRun).map text := by
  induction is with
  | nil => rfl
  | cons i is ih =>
    have hsound := h.sound i List.mem_cons_self
    rw [render_cons]
    cases hrun : i.isRun with
    | true =>
      rw [Text.runs_run hsound.text_ne_nil (fun c hc => wordCharacter_of_bare (hsound.run hrun c hc))
        (head?_any_render h hrun (by decide +kernel)), ih h.tail, List.filter_cons_of_pos hrun, List.map_cons]
    | false =>
      rw [List.filter_cons_of_neg (by simp [hrun]), ← ih h.tail]
      cases i with
      | word w => cases hrun
      | number ds => cases hrun
      | sign c => exact Text.runs_cons_of_not (not_wordCharacter_of_sign hsound) _
      | blank => exact Text.runs_cons_of_not (not_wordCharacter_of_blank (by decide)) _

theorem IsSound.not_blank {i : Item} (h : i.IsSound) (hi : i ≠ blank) {c : Char} (hc : c ∈ i.text) :
    isBlank c = false := by
  cases i with
  | word w => exact not_blank_of_bare (h.bare c hc)
  | number ds => exact not_blank_of_digit (h.2 c hc)
  | sign d =>
    obtain rfl := List.mem_singleton.1 hc
    obtain rfl | rfl | rfl | rfl := h <;> decide
  | blank => exact absurd rfl hi

/-- No whitespace stands around a plain text that neither starts nor ends with a blank. -/
theorem trim_render {is : List Item} (h : Plain is) (hhead : is.head? ≠ some blank)
    (hlast : is.getLast? ≠ some blank) : (render is).trim = render is := by
  rcases List.eq_nil_or_concat is with rfl | ⟨js, i, rfl⟩
  · rfl
  have hi : i.IsSound := h.sound i (by simp)
  have hend : (render (js.concat i)).getLast?.any isBlank = false := by
    rw [List.concat_eq_append, render_append, render_cons, render_nil, List.append_nil,
      Text.getLast?_append_right _ hi.text_ne_nil]
    cases hc : i.text.getLast? with
    | none => rfl
    | some c => exact hi.not_blank (by simpa using hlast) (List.mem_of_getLast? hc)
  cases hjs : js.concat i with
  | nil => rfl
  | cons j ks =>
    rw [hjs] at h hhead hend
    have hj := h.sound j List.mem_cons_self
    obtain ⟨c, t, hct⟩ := List.exists_cons_of_ne_nil hj.text_ne_nil
    have hc := hj.not_blank (by simpa using hhead) (hct ▸ List.mem_cons_self)
    have hstart : Text.trimStart (render (j :: ks)) = render (j :: ks) := by
      rw [render_cons, hct, List.cons_append]
      exact List.dropWhile_cons_of_neg (by simp [hc])
    rw [Text.trim, hstart, Text.trimEnd_eq_self.2 hend]

/-! ## Tokens -/

/-- Behind a number neither a fraction nor an exponent follows. -/
theorem number_render {c : Char} {ds : Text} {is : List Item} (h : Plain (number (c :: ds) :: is)) :
    Scan.number c (ds ++ render is) = (c :: ds, render is) := by
  have hds : ∀ d ∈ c :: ds, d.isDigit = true := (h.sound _ List.mem_cons_self).2
  have hfraction : Scan.startsFraction (render is) = false := by
    rw [Bool.eq_false_iff]
    intro hstart
    obtain ⟨d, u, hrender, -⟩ := Scan.startsFraction_iff.1 hstart
    have hdot := head?_render h rfl (by rw [hrender]; rfl : '.' ∈ (render is).head?)
    exact hdot.2 rfl rfl
  have hexponent : Scan.startsExponent (render is) = false := by
    rw [Bool.eq_false_iff]
    intro hstart
    obtain ⟨e, d, u, hrender, he, -⟩ := Scan.startsExponent_iff.1 hstart
    have hmem := (head?_render h rfl (by rw [hrender]; rfl : e ∈ (render is).head?)).1
    rcases he with rfl | rfl <;> exact absurd hmem (by decide)
  have := Scan.number_of_parts (f := []) (p := []) (s := render is) c
    (fun d hd => hds d (List.mem_cons_of_mem _ hd)) (head?_any_render h rfl (by decide))
    (Scan.fraction_of_not hfraction) (Scan.exponent_of_not hexponent)
  simpa using this

/-- An item that is no blank is read as one token. -/
theorem token_cons {i : Item} {is : List Item} (h : Plain (i :: is)) (hi : i ≠ blank) {c : Char}
    {t : Text} (hct : i.text = c :: t) :
    Scan.token c (t ++ render is) = (i.kind, i.text, render is) := by
  have hsound := h.sound i List.mem_cons_self
  cases i with
  | word w =>
    obtain rfl : w = c :: t := hct
    obtain ⟨hstart, hbare⟩ := hsound
    obtain ⟨hd, hletter⟩ := start_cases (by simpa using hstart)
    have hrun : ∀ d ∈ t, isIdentifierCharacter d = true :=
      fun d hd => identifier_of_bare (hbare d (List.mem_cons_of_mem _ hd))
    have hstop : (render is).head?.any isIdentifierCharacter = false :=
      head?_any_render h rfl (by decide +kernel)
    rw [Scan.token_of_letter hd hletter, Text.takeWhile_run hrun hstop, Text.dropWhile_run hrun hstop]
    rfl
  | number ds =>
    obtain rfl : ds = c :: t := hct
    rw [Scan.token_of_digit (hsound.2 c List.mem_cons_self), number_render h]
    rfl
  | sign d =>
    obtain ⟨rfl, rfl⟩ : d = c ∧ [] = t := by simpa [text] using hct
    obtain rfl | rfl | rfl | rfl := hsound <;> rfl
  | blank => exact absurd rfl hi

/-- An item that is no blank stands behind no gap. -/
theorem gap_cons {i : Item} {is : List Item} (h : Plain (i :: is)) (hi : i ≠ blank) :
    Scan.gap (render (i :: is)) = ([], render (i :: is)) := by
  have hsound := h.sound i List.mem_cons_self
  obtain ⟨c, t, hct⟩ := List.exists_cons_of_ne_nil hsound.text_ne_nil
  have hc : isBare c = true ∨ c = '(' ∨ c = ')' ∨ c = ',' ∨ c = '.' := by
    cases i with
    | word _ | number _ => exact .inl (hsound.run rfl c (hct ▸ List.mem_cons_self))
    | sign d =>
      obtain rfl : d = c := (List.cons.inj hct).1
      exact .inr hsound
    | blank => exact absurd rfl hi
  rw [render_cons, hct, List.cons_append]
  refine Scan.gap_of_none (Scan.trivia?_eq_none_iff.2 ⟨?_, ?_, ?_⟩)
  · rcases hc with hc | rfl | rfl | rfl | rfl
    · exact not_blank_of_bare hc
    all_goals decide
  · rintro ⟨rfl, -⟩
    exact absurd hc (by decide)
  · rintro ⟨rfl, -⟩
    exact absurd hc (by decide)

theorem scan_cons {i : Item} {is : List Item} (h : Plain (i :: is)) (hi : i ≠ blank) :
    scan (render (i :: is)) = ⟨[], i.kind, i.text⟩ :: scan (render is) := by
  obtain ⟨c, t, hct⟩ := List.exists_cons_of_ne_nil (h.sound i List.mem_cons_self).text_ne_nil
  have hgap := gap_cons h hi
  have htext : render (i :: is) = c :: (t ++ render is) := by simp [hct]
  rw [htext] at hgap ⊢
  rw [scan_of_gap_cons hgap, token_cons h hi hct]

/-- A blank goes into the gap of the item behind it. -/
theorem scan_blank_cons {i : Item} {is : List Item} (h : Plain (i :: is)) (hi : i ≠ blank) :
    scan (render (blank :: i :: is)) = ⟨[.blank " "], i.kind, i.text⟩ :: scan (render is) := by
  obtain ⟨c, t, hct⟩ := List.exists_cons_of_ne_nil (h.sound i List.mem_cons_self).text_ne_nil
  have hgap := gap_cons h hi
  have htext : render (i :: is) = c :: (t ++ render is) := by simp [hct]
  rw [htext] at hgap
  have hstop : isBlank c = false := by
    have hnone := Scan.trivia?_gap_snd (c :: (t ++ render is))
    rw [hgap] at hnone
    exact (Scan.trivia?_eq_none_iff.1 hnone).1
  have htrivia : Scan.trivia? (' ' :: c :: (t ++ render is)) = some (.blank " ", c :: (t ++ render is)) := by
    rw [Scan.trivia?_blank (by decide), List.takeWhile_cons_of_neg (by simp [hstop]),
      List.dropWhile_cons_of_neg (by simp [hstop])]
    rfl
  have hgap' := Scan.gap_of_trivia htrivia
  rw [hgap] at hgap'
  rw [render_cons, htext]
  exact (scan_of_gap_cons hgap').trans (by rw [token_cons h hi hct])

theorem getLast?_tail_ne {i : Item} {is : List Item} (h : (i :: is).getLast? ≠ some blank) :
    is.getLast? ≠ some blank := by
  cases is with
  | nil => simp
  | cons j is => simpa using h

/-- Plain texts are scanned item by item. -/
theorem scan_render {is : List Item} (h : Plain is) (hlast : is.getLast? ≠ some blank) :
    scan (render is) = lexemes [] is ++ [⟨[], .eof, []⟩] := by
  induction hlen : is.length using Nat.strongRecOn generalizing is with
  | ind n ih =>
    cases is with
    | nil => exact scan_of_gap_nil (Scan.gap_of_none rfl)
    | cons i is =>
      rw [List.length_cons] at hlen
      by_cases hi : i = blank
      · subst hi
        cases is with
        | nil => exact absurd rfl hlast
        | cons j is =>
          rw [List.length_cons] at hlen
          have hj : j ≠ blank := fun hj => (List.isChain_cons_cons.1 h.chain).1.2.1 ⟨rfl, hj⟩
          have hrest := ih is.length (by omega) h.tail.tail
            (getLast?_tail_ne (getLast?_tail_ne hlast)) rfl
          rw [scan_blank_cons h.tail hj, hrest, lexemes, lexemes_cons hj]
          rfl
      · have hrest := ih is.length (by omega) h.tail (getLast?_tail_ne hlast) rfl
        rw [scan_cons h hi, hrest, lexemes_cons hi]
        rfl

/-- The tokens of items are of the kinds of the items. -/
theorem exists_of_mem_lexemes {g : List Trivia} {is : List Item} {t : Token} (h : t ∈ lexemes g is) :
    ∃ i ∈ is, t.kind = i.kind := by
  induction is generalizing g with
  | nil => cases h
  | cons i is ih =>
    by_cases hi : i = blank
    · subst hi
      obtain ⟨j, hj, hkind⟩ := ih h
      exact ⟨j, List.mem_cons_of_mem _ hj, hkind⟩
    · rw [lexemes_cons hi] at h
      rcases List.mem_cons.1 h with rfl | h
      · exact ⟨i, List.mem_cons_self, rfl⟩
      · obtain ⟨j, hj, hkind⟩ := ih h
        exact ⟨j, List.mem_cons_of_mem _ hj, hkind⟩

/-- A bare word among the tokens of a plain text is one of the words of the text. -/
theorem holdsWord_of_isWord {is : List Item} (h : Plain is) (hlast : is.getLast? ≠ some blank)
    {word : Text} (hword : IsBareWord word) {t : Token} (ht : t ∈ scan (render is))
    (hsame : t.isWord word = true) : (render is).HoldsWord word := by
  rw [scan_render h hlast] at ht
  rcases List.mem_append.1 ht with ht | ht
  · obtain ⟨i, hi, hkind⟩ := exists_of_mem_lexemes ht
    have hsound := h.sound i hi
    rw [Token.isWord, hkind] at hsame
    cases i with
    | word w =>
      rcases Scan.wordKind_cases w with ⟨keyword, hw⟩ | hw
      · rw [kind, hw] at hsame
        cases hsame
      · rw [kind, hw] at hsame
        refine ⟨w, ?_, (Text.fold_eq_iff (IsBareWord.ascii hsound) hword.ascii).2 hsame⟩
        rw [runs_render h]
        exact List.mem_map.2 ⟨Item.word w, List.mem_filter.2 ⟨hi, rfl⟩, rfl⟩
    | number ds => cases hsame
    | sign c =>
      obtain rfl | rfl | rfl | rfl := hsound <;> simp [kind] at hsame
    | blank => cases hsame
  · obtain rfl := List.mem_singleton.1 ht
    cases hsame

/-! ## Segments -/

theorem kind_ofLexeme {i : Item} {t : Token} (h : t.kind = i.kind) : (Segment.ofLexeme t).kind = .code := by
  unfold Segment.ofLexeme
  rw [h]
  cases i with
  | word w =>
    obtain ⟨k, hk⟩ | hk := Scan.wordKind_cases w
    · rw [kind, hk]
    · rw [kind, hk]
  | number ds => rfl
  | sign c =>
    have hkind : (sign c).kind ∈ [TokenKind.leftParen, .rightParen, .comma, .dot] := by
      simp only [kind]
      split_ifs <;> simp
    simp only [List.mem_cons, List.not_mem_nil, or_false] at hkind
    obtain hk | hk | hk | hk := hkind <;> rw [hk]
  | blank => rfl

/-- The pieces of the tokens of items are code. -/
theorem isCode_lexemes {g : List Trivia} (hg : ∀ x ∈ g, (Segment.ofTrivia x).kind = .code)
    {is : List Item} {t : Token} (ht : t ∈ lexemes g is) : ∀ p ∈ Segment.cellsOf t, p.kind = .code := by
  induction is generalizing g with
  | nil => cases ht
  | cons i is ih =>
    by_cases hi : i = blank
    · subst hi
      refine ih (fun x hx => ?_) ht
      rcases List.mem_append.1 hx with hx | hx
      · exact hg x hx
      · obtain rfl := List.mem_singleton.1 hx
        rfl
    · rw [lexemes_cons hi] at ht
      rcases List.mem_cons.1 ht with rfl | ht
      · intro p hp
        rcases List.mem_append.1 hp with hp | hp
        · obtain ⟨x, hx, rfl⟩ := List.mem_map.1 hp
          exact hg x hx
        · split at hp
          · cases hp
          · obtain rfl := List.mem_singleton.1 hp
            exact kind_ofLexeme (i := i) rfl
      · exact ih (by simp) ht

end Item

/-- Pieces of code merge into one. -/
theorem Segment.merge_code {xs : List Segment} (h : ∀ p ∈ xs, p.kind = .code) (hne : textOf xs ≠ []) :
    merge xs = [⟨.code, textOf xs⟩] := by
  induction xs with
  | nil => exact absurd rfl hne
  | cons p xs ih =>
    have hp : p = ⟨.code, p.text⟩ := by
      have := h p List.mem_cons_self
      cases p
      simp_all
    rw [merge_cons, textOf_cons, hp]
    by_cases hrest : textOf xs = []
    · have hpne : p.text ≠ [] := by simpa [hrest] using hne
      rw [merge_eq_nil hrest, hrest, List.append_nil]
      exact push_apart hpne (not_joins_nil _)
    · rw [ih (fun q hq => h q (List.mem_cons_of_mem _ hq)) hrest, push_code]

namespace Item

/-- A plain text is code. -/
theorem segments_render {is : List Item} (h : Plain is) (hlast : is.getLast? ≠ some blank)
    (hne : is ≠ []) : segments (render is) = [⟨.code, render is⟩] := by
  obtain ⟨i, is', rfl⟩ := List.exists_cons_of_ne_nil hne
  have hcode : ∀ p ∈ Segment.cells (render (i :: is')), p.kind = .code := by
    intro p hp
    obtain ⟨t, ht, hp⟩ := List.mem_flatMap.1 hp
    rw [scan_render h hlast] at ht
    rcases List.mem_append.1 ht with ht | ht
    · exact isCode_lexemes (by simp) ht p hp
    · obtain rfl := List.mem_singleton.1 ht
      cases hp
  have htext : Segment.textOf (Segment.cells (render (i :: is'))) ≠ [] := by
    rw [Segment.textOf_cells, render_cons]
    simp [(h.sound i List.mem_cons_self).text_ne_nil]
  rw [← Segment.merge_cells, Segment.merge_code hcode htext, Segment.textOf_cells]

end Item

end DialectBridge
