import DialectBridge.Lexical.Segment
import DialectBridge.Proofs.Text.Run

/-!
# What a token depends on

Scanning looks ahead by two characters at most. So a token stays the same when the text behind it
changes, as long as that text looks no more like a part of the token than before (`Scan.Alike`). This
module states that for gaps, for every kind of token, and for the tokens of a text
(`scan_text_append`), together with the induction along which a text is scanned
(`scan_induction`).
-/

namespace DialectBridge

/-- The text of a run of trivia. -/
def Trivia.textOf (xs : List Trivia) : Text :=
  xs.flatMap text

@[simp] theorem Trivia.textOf_nil : textOf [] = [] := rfl

@[simp] theorem Trivia.textOf_cons (x : Trivia) (xs : List Trivia) :
    textOf (x :: xs) = x.text ++ textOf xs := by
  simp [textOf]

@[simp] theorem Trivia.textOf_append (xs ys : List Trivia) :
    textOf (xs ++ ys) = textOf xs ++ textOf ys := by
  simp [textOf]

namespace Scan

/-! ## Gaps -/

theorem blockBody_fst_head (t : Text) : (blockBody t).1.head? = t.head? := by
  fun_induction blockBody t <;> rfl

/-- The body of a block comment ends where it ends, whatever follows. -/
theorem blockBody_append {t : Text} (h : (blockBody t).2 ≠ []) (s : Text) :
    blockBody ((blockBody t).1 ++ s) = ((blockBody t).1, s) := by
  fun_induction blockBody t with
  | case1 t => rfl
  | case2 c t hend ih =>
    have hhead := blockBody_fst_head t
    cases hbody : (blockBody t).1 with
    | nil =>
      -- an empty body has an empty text, which leaves nothing
      cases t with
      | nil => exact absurd rfl h
      | cons d t => simp [hbody] at hhead
    | cons d body =>
      simp only [hbody, List.cons_append, List.head?_cons] at ih hhead ⊢
      rw [blockBody, ih h]
      intro t' hc ht
      cases t with
      | nil => cases hhead
      | cons e t =>
        cases hhead
        exact hend t hc (by simp_all)
  | case3 => exact absurd rfl h

/-- The body of a block comment is complete in itself. -/
theorem blockBody_self (t : Text) : blockBody (blockBody t).1 = ((blockBody t).1, []) := by
  fun_induction blockBody t with
  | case1 t => rfl
  | case2 c t hend ih =>
    have hhead := blockBody_fst_head t
    rw [blockBody, ih]
    intro t' hc ht
    rw [ht] at hhead
    cases t with
    | nil => cases hhead
    | cons e t =>
      cases hhead
      exact hend t hc rfl
  | case3 => rfl

theorem trivia?_blank {c : Char} (h : isBlank c = true) (t : Text) :
    trivia? (c :: t) = some (.blank (c :: t.takeWhile isBlank), t.dropWhile isBlank) := by
  unfold trivia?
  split
  · next heq => cases heq; exact absurd h (by decide)
  · next heq => cases heq; exact absurd h (by decide)
  · next heq => cases heq; rw [if_pos h]
  · next heq => cases heq

/-- How a piece of trivia comes about. -/
theorem trivia?_cases {t rest : Text} {x : Trivia} (h : trivia? t = some (x, rest)) :
    (∃ u, t = '-' :: '-' :: u ∧ x = .comment ('-' :: '-' :: u.takeWhile (· != '\n')) ∧
      rest = u.dropWhile (· != '\n')) ∨
    (∃ u, t = '/' :: '*' :: u ∧ x = .comment ('/' :: '*' :: (blockBody u).1) ∧
      rest = (blockBody u).2) ∨
    (∃ c u, t = c :: u ∧ isBlank c = true ∧ x = .blank (c :: u.takeWhile isBlank) ∧
      rest = u.dropWhile isBlank) := by
  unfold trivia? at h
  split at h
  · cases h
    exact .inl ⟨_, rfl, rfl, rfl⟩
  · cases h
    exact .inr (.inl ⟨_, rfl, rfl, rfl⟩)
  · split at h
    · next hblank =>
      cases h
      exact .inr (.inr ⟨_, _, rfl, hblank, rfl, rfl⟩)
    · cases h
  · cases h

/-- A run of whitespace is taken as a whole. -/
theorem blank_of_trivia? {t rest run : Text} (h : trivia? t = some (.blank run, rest)) :
    (∀ c ∈ run, isBlank c = true) ∧ rest.head?.any isBlank = false := by
  rcases trivia?_cases h with ⟨u, -, heq, -⟩ | ⟨u, -, heq, -⟩ | ⟨c, u, -, hc, heq, rfl⟩
  · cases heq
  · cases heq
  · cases heq
    exact ⟨List.forall_mem_cons.2 ⟨hc, Text.forall_mem_takeWhile isBlank u⟩, Text.head?_any_dropWhile isBlank u⟩

/-- A piece of trivia ends before a character, whatever comes after that one. -/
theorem trivia?_append {t r s : Text} {x : Trivia} (h : trivia? t = some (x, r)) (hne : r ≠ [])
    (hs : s.head? = r.head?) : trivia? (x.text ++ s) = some (x, s) := by
  rcases trivia?_cases h with ⟨u, -, rfl, rfl⟩ | ⟨u, -, rfl, rfl⟩ | ⟨d, u, -, hd, rfl, rfl⟩
  · have hstop := Text.head?_any_dropWhile (· != '\n') u
    rw [← hs] at hstop
    have hrun := Text.forall_mem_takeWhile (· != '\n') u
    simp only [Trivia.text, List.cons_append, trivia?]
    rw [Text.takeWhile_run hrun hstop, Text.dropWhile_run hrun hstop]
  · simp only [Trivia.text, List.cons_append, trivia?]
    rw [blockBody_append hne]
  · have hstop := Text.head?_any_dropWhile isBlank u
    rw [← hs] at hstop
    have hrun := Text.forall_mem_takeWhile isBlank u
    simp only [Trivia.text, List.cons_append]
    rw [trivia?_blank hd, Text.takeWhile_run hrun hstop, Text.dropWhile_run hrun hstop]

/-- A piece of trivia is complete in itself. -/
theorem trivia?_self {t rest : Text} {x : Trivia} (h : trivia? t = some (x, rest)) :
    trivia? x.text = some (x, []) := by
  rcases trivia?_cases h with ⟨u, -, rfl, -⟩ | ⟨u, -, rfl, -⟩ | ⟨d, u, -, hd, rfl, -⟩
  · have hrun := Text.forall_mem_takeWhile (· != '\n') u
    have htake := Text.takeWhile_all hrun
    have hdrop := Text.dropWhile_all hrun
    simp only [Trivia.text, trivia?]
    rw [htake, hdrop]
  · simp only [Trivia.text, trivia?]
    rw [blockBody_self]
  · have hrun := Text.forall_mem_takeWhile isBlank u
    have htake := Text.takeWhile_all hrun
    have hdrop := Text.dropWhile_all hrun
    simp only [Trivia.text]
    rw [trivia?_blank hd, htake, hdrop]

theorem gap_of_trivia {t rest : Text} {x : Trivia} (h : trivia? t = some (x, rest)) :
    gap t = (x :: (gap rest).1, (gap rest).2) := by
  rw [gap]
  split
  · next heq => cases h.symm.trans heq; rfl
  · next heq => cases h.symm.trans heq

/-- The pieces of a gap are read one by one. -/
theorem trivia?_of_mem_gap {t : Text} {x : Trivia} (h : x ∈ (gap t).1) :
    ∃ u rest, trivia? u = some (x, rest) := by
  fun_induction gap t with
  | case1 t y rest hy ih =>
    rcases List.mem_cons.1 h with rfl | h
    · exact ⟨_, _, hy⟩
    · exact ih h
  | case2 => cases h

theorem gap_of_none {t : Text} (h : trivia? t = none) : gap t = ([], t) := by
  rw [gap]
  split
  · next heq => cases h.symm.trans heq
  · rfl

/-- The first part of a gap is complete in itself. -/
theorem gap_first {t : Text} {g h : List Trivia} (hg : (gap t).1 = g ++ h) :
    gap (Trivia.textOf g) = (g, []) := by
  fun_induction gap t generalizing g with
  | case1 t x rest hx ih =>
    cases g with
    | nil => exact gap_of_none rfl
    | cons y g =>
      simp only [List.cons_append, List.cons.injEq] at hg
      obtain ⟨rfl, hg⟩ := hg
      have ih := ih hg
      have hrest : rest = Trivia.textOf g ++ (Trivia.textOf h ++ (gap rest).2) := by
        rw [← List.append_assoc, ← Trivia.textOf_append, ← hg]
        exact (gap_text rest).symm
      by_cases hnil : Trivia.textOf g = []
      · rw [hnil] at ih
        have hnone : gap [] = ([], []) := gap_of_none rfl
        rw [hnone] at ih
        cases ih
        rw [Trivia.textOf_cons, Trivia.textOf_nil, List.append_nil, gap_of_trivia (trivia?_self hx), hnone]
      · obtain ⟨c, s, hs⟩ := List.exists_cons_of_ne_nil hnil
        have happend : trivia? (x.text ++ Trivia.textOf g) = some (x, Trivia.textOf g) := by
          refine trivia?_append hx ?_ ?_ <;> rw [hrest, hs] <;> simp
        rw [Trivia.textOf_cons, gap_of_trivia happend, ih]
  | case2 t hnone =>
    obtain ⟨rfl, -⟩ := List.append_eq_nil_iff.1 hg.symm
    exact gap_of_none rfl

/-- The second part of a gap stays a gap when the first part goes. -/
theorem gap_rest {t : Text} {g h : List Trivia} (hg : (gap t).1 = g ++ h) :
    gap (Trivia.textOf h ++ (gap t).2) = (h, (gap t).2) := by
  fun_induction gap t generalizing g with
  | case1 t x rest hx ih =>
    cases g with
    | nil =>
      obtain rfl : x :: (gap rest).1 = h := hg
      have htext : Trivia.textOf (x :: (gap rest).1) ++ (gap rest).2 = t := by
        rw [Trivia.textOf_cons, List.append_assoc, ← trivia?_text hx]
        exact congrArg _ (gap_text rest)
      rw [htext, gap_of_trivia hx]
    | cons y g => exact ih (List.cons.inj hg).2
  | case2 t hnone =>
    obtain ⟨-, rfl⟩ := List.append_eq_nil_iff.1 hg.symm
    exact gap_of_none hnone

/-- The first part of a gap stays a gap when what follows it changes behind its first character. -/
theorem gap_append {t r s : Text} {c : Char} {g h : List Trivia} (hg : (gap t).1 = g ++ h)
    (hr : Trivia.textOf h ++ (gap t).2 = c :: r) :
    gap (Trivia.textOf g ++ c :: s) = (g ++ (gap (c :: s)).1, (gap (c :: s)).2) := by
  fun_induction gap t generalizing g with
  | case1 t x rest hx ih =>
    cases g with
    | nil => rfl
    | cons y g =>
      simp only [List.cons_append, List.cons.injEq] at hg hr
      obtain ⟨rfl, hg⟩ := hg
      have hrest : rest = Trivia.textOf g ++ c :: r := by
        rw [← hr, ← List.append_assoc, ← Trivia.textOf_append, ← hg]
        exact (gap_text rest).symm
      have happend : trivia? (x.text ++ (Trivia.textOf g ++ c :: s)) = some (x, Trivia.textOf g ++ c :: s) := by
        refine trivia?_append hx ?_ ?_
        · simp [hrest]
        · rw [hrest]
          cases Trivia.textOf g <;> rfl
      rw [Trivia.textOf_cons, List.append_assoc, gap_of_trivia happend, ih hg hr, List.cons_append]
  | case2 t hnone =>
    obtain ⟨rfl, -⟩ := List.append_eq_nil_iff.1 hg.symm
    rfl

/-- A piece of trivia in front of a token may stand in front of another one. -/
theorem trivia?_respell {t r s : Text} {c d : Char} {x : Trivia} (h : trivia? t = some (x, c :: r))
    (hc : trivia? (c :: r) = none) (hd : trivia? (d :: s) = none) : trivia? (x.text ++ d :: s) = some (x, d :: s) := by
  have hblank {e : Char} {u : Text} (he : trivia? (e :: u) = none) : isBlank e = false := by
    rw [Bool.eq_false_iff]
    intro hb
    rw [trivia?_blank hb] at he
    cases he
  rcases trivia?_cases h with ⟨u, -, rfl, hrest⟩ | ⟨u, -, rfl, hrest⟩ | ⟨e, u, -, he, rfl, -⟩
  · -- the character that ends a line comment is blank
    have hstop := Text.head?_any_dropWhile (· != '\n') u
    rw [← hrest] at hstop
    obtain rfl : c = '\n' := by simpa using hstop
    exact absurd (hblank hc) (by decide)
  · have hne : (blockBody u).2 ≠ [] := by simp [← hrest]
    simp only [Trivia.text, List.cons_append, trivia?]
    rw [blockBody_append hne]
  · have hrun := Text.forall_mem_takeWhile isBlank u
    have hstop : (d :: s).head?.any isBlank = false := hblank hd
    simp only [Trivia.text, List.cons_append]
    rw [trivia?_blank he, Text.takeWhile_run hrun hstop, Text.dropWhile_run hrun hstop]

/-- A gap in front of a token may stand in front of another one. -/
theorem gap_respell {t r s : Text} {c d : Char} {g : List Trivia} (h : gap t = (g, c :: r))
    (hd : trivia? (d :: s) = none) : gap (Trivia.textOf g ++ d :: s) = (g, d :: s) := by
  fun_induction gap t generalizing g with
  | case1 t x rest hx ih =>
    obtain ⟨rfl, hrest⟩ := Prod.mk.inj h
    have htail := ih (Prod.ext rfl hrest)
    have happend : trivia? (x.text ++ (Trivia.textOf (gap rest).1 ++ d :: s)) =
        some (x, Trivia.textOf (gap rest).1 ++ d :: s) := by
      have htext : Trivia.textOf (gap rest).1 ++ c :: r = rest := by
        rw [← hrest]
        exact gap_text rest
      have hnone := trivia?_gap_snd rest
      rw [hrest] at hnone
      cases hgap : Trivia.textOf (gap rest).1 with
      | nil =>
        rw [hgap] at htext
        rw [← htext] at hx
        exact trivia?_respell hx hnone hd
      | cons e u =>
        rw [hgap] at htext
        exact trivia?_append hx (by simp [← htext]) (by simp [← htext])
    rw [Trivia.textOf_cons, List.append_assoc, gap_of_trivia happend, htail]
  | case2 t hnone =>
    obtain ⟨rfl, -⟩ := Prod.mk.inj h
    exact gap_of_none hd

/-! ## What follows a token -/

/-- A point and a digit. -/
def startsFraction : Text → Bool
  | '.' :: d :: _ => d.isDigit
  | _ => false

/-- The letter of an exponent with a digit or a sign after it. -/
def startsExponent : Text → Bool
  | e :: d :: _ => (e == 'e' || e == 'E') && (d.isDigit || d == '+' || d == '-')
  | _ => false

theorem startsFraction_iff {t : Text} :
    startsFraction t = true ↔ ∃ d u, t = '.' :: d :: u ∧ d.isDigit = true := by
  unfold startsFraction
  split
  · simp
  · next hne =>
    simp only [Bool.false_eq_true, false_iff]
    rintro ⟨d, u, rfl, -⟩
    exact hne d u rfl

theorem startsExponent_iff {t : Text} :
    startsExponent t = true ↔ ∃ e d u, t = e :: d :: u ∧ (e = 'e' ∨ e = 'E') ∧
      (d.isDigit = true ∨ d = '+' ∨ d = '-') := by
  unfold startsExponent
  split
  · next e d u =>
    simp only [Bool.and_eq_true, Bool.or_eq_true, beq_iff_eq, or_assoc]
    constructor
    · exact fun h => ⟨e, d, u, rfl, h⟩
    · rintro ⟨_, _, _, heq, h⟩
      cases heq
      exact h
  · next hne =>
    simp only [Bool.false_eq_true, false_iff]
    rintro ⟨e, d, u, rfl, -⟩
    exact hne e d u rfl

/-- Behind the lexeme `l`, the text `s` looks no more like a part of the token than `r` does. -/
structure Alike (l r s : Text) : Prop where
  nil : r = [] → s = []
  head : ∀ c ∈ s.head?, c ∈ r.head? ∨
    (isIdentifierCharacter c = true ∧ c.isDigit = false ∧ r.head?.any isIdentifierCharacter = true)
  /-- Only a digit is continued by a fraction. -/
  fraction : startsFraction s = true → startsFraction r = true ∨ l.getLast?.any Char.isDigit = false
  /-- Only a digit is continued by an exponent. -/
  exponent : startsExponent s = true → startsExponent r = true ∨ l.getLast?.any Char.isDigit = false

namespace Alike

theorem refl (l r : Text) : Alike l r r :=
  ⟨id, fun _ h => .inl h, .inl, .inl⟩

/-- A prefix of what follows looks no more like a part of the token. -/
theorem of_initial (l : Text) {r s : Text} (h : s <+: r) : Alike l r s := by
  obtain ⟨t, rfl⟩ := h
  refine ⟨fun h => (List.append_eq_nil_iff.1 h).1, fun c hc => .inl ?_, fun h => .inl ?_,
    fun h => .inl ?_⟩
  · cases s with
    | nil => cases hc
    | cons d s => exact hc
  · obtain ⟨d, u, rfl, hd⟩ := startsFraction_iff.1 h
    exact startsFraction_iff.2 ⟨d, u ++ t, rfl, hd⟩
  · obtain ⟨e, d, u, rfl, he⟩ := startsExponent_iff.1 h
    exact startsExponent_iff.2 ⟨e, d, u ++ t, rfl, he⟩

/-- Only the first two characters of what follows count. -/
theorem of_append (l : Text) {r : Text} (h : 2 ≤ r.length) (s : Text) : Alike l r (r ++ s) := by
  match r, h with
  | a :: b :: r, _ =>
    refine ⟨fun h => by simp at h, fun c hc => .inl hc, fun h => .inl ?_, fun h => .inl ?_⟩
    · obtain ⟨d, u, heq, hd⟩ := startsFraction_iff.1 h
      cases heq
      exact startsFraction_iff.2 ⟨_, _, rfl, hd⟩
    · obtain ⟨e, d, u, heq, he⟩ := startsExponent_iff.1 h
      cases heq
      exact startsExponent_iff.2 ⟨_, _, _, rfl, he⟩

theorem head?_any {l r s : Text} {p : Char → Bool} (h : Alike l r s)
    (hp : ∀ c, isIdentifierCharacter c = true → c.isDigit = false → p c = false)
    (hr : r.head?.any p = false) : s.head?.any p = false := by
  cases hs : s.head? with
  | none => rfl
  | some c =>
    rcases h.head c hs with hc | ⟨hc, hd, -⟩
    · simpa [Option.mem_def.1 hc] using hr
    · simpa using hp c hc hd

theorem head?_any_identifier {l r s : Text} (h : Alike l r s)
    (hr : r.head?.any isIdentifierCharacter = false) :
    s.head?.any isIdentifierCharacter = false := by
  cases hs : s.head? with
  | none => rfl
  | some c =>
    rcases h.head c hs with hc | ⟨-, -, hc⟩
    · simpa [Option.mem_def.1 hc] using hr
    · rw [hr] at hc
      cases hc

/-- A sign that is no identifier character comes first only if it came first before. -/
theorem head?_ne {l r s : Text} {q : Char} (h : Alike l r s) (hq : isIdentifierCharacter q = false)
    (hr : r.head? ≠ some q) : s.head? ≠ some q := by
  intro hs
  rcases h.head q hs with hc | ⟨hc, -, -⟩
  · exact hr hc
  · rw [hq] at hc
    cases hc

end Alike

/-! ## Numbers -/

theorem fraction_of_not {t : Text} (h : startsFraction t = false) : fraction t = ([], t) := by
  unfold fraction
  split
  · next d t => rw [if_neg (by simpa [startsFraction] using h)]
  · rfl

theorem fraction_of_digit {d : Char} (h : d.isDigit = true) (t : Text) :
    fraction ('.' :: d :: t) = ('.' :: d :: t.takeWhile Char.isDigit, t.dropWhile Char.isDigit) := by
  simp [fraction, h]

theorem fraction_cases (t : Text) :
    (startsFraction t = false ∧ fraction t = ([], t)) ∨
    ∃ d u, t = '.' :: d :: u ∧ d.isDigit = true ∧
      fraction t = ('.' :: d :: u.takeWhile Char.isDigit, u.dropWhile Char.isDigit) := by
  cases h : startsFraction t with
  | false => exact .inl ⟨rfl, fraction_of_not h⟩
  | true =>
    obtain ⟨d, u, rfl, hd⟩ := startsFraction_iff.1 h
    exact .inr ⟨d, u, rfl, hd, fraction_of_digit hd u⟩

theorem exponent_of_not {t : Text} (h : startsExponent t = false) : exponent t = ([], t) := by
  unfold exponent
  split
  · next e d t => rw [if_neg (by simpa [startsExponent] using h)]
  · rfl

theorem exponent_of_sign {e d : Char} (he : e = 'e' ∨ e = 'E')
    (hd : d.isDigit = true ∨ d = '+' ∨ d = '-') (t : Text) :
    exponent (e :: d :: t) = (e :: d :: t.takeWhile Char.isDigit, t.dropWhile Char.isDigit) := by
  rw [exponent, if_pos (by simpa [or_assoc] using ⟨he, hd⟩)]

theorem exponent_cases (t : Text) :
    (startsExponent t = false ∧ exponent t = ([], t)) ∨
    ∃ e d u, t = e :: d :: u ∧ (e = 'e' ∨ e = 'E') ∧ (d.isDigit = true ∨ d = '+' ∨ d = '-') ∧
      exponent t = (e :: d :: u.takeWhile Char.isDigit, u.dropWhile Char.isDigit) := by
  cases h : startsExponent t with
  | false => exact .inl ⟨rfl, exponent_of_not h⟩
  | true =>
    obtain ⟨e, d, u, rfl, he, hd⟩ := startsExponent_iff.1 h
    exact .inr ⟨e, d, u, rfl, he, hd, exponent_of_sign he hd u⟩

/-- A number is read part by part. -/
theorem number_of_parts {ds f p s : Text} (c : Char) (hds : ∀ d ∈ ds, d.isDigit = true)
    (hstop : (f ++ (p ++ s)).head?.any Char.isDigit = false)
    (hf : fraction (f ++ (p ++ s)) = (f, p ++ s)) (hp : exponent (p ++ s) = (p, s)) :
    number c (ds ++ (f ++ (p ++ s))) = (c :: (ds ++ (f ++ p)), s) := by
  simp only [number]
  rw [Text.takeWhile_run hds hstop, Text.dropWhile_run hds hstop, hf, hp]
  simp

/-- A number ends in front of a text that has no digit, no fraction and no exponent for it. -/
theorem number_append {c : Char} {l r s : Text} (hc : c.isDigit = true)
    (h : number c (l ++ r) = (c :: l, r))
    (hstop : r.head?.any Char.isDigit = false → s.head?.any Char.isDigit = false)
    (hnofrac : startsFraction r = false → (c :: l).getLast?.any Char.isDigit = true →
      startsFraction s = false)
    (hnoexp : startsExponent r = false → (c :: l).getLast?.any Char.isDigit = true →
      startsExponent s = false) :
    number c (l ++ s) = (c :: l, s) := by
  have hds := Text.forall_mem_takeWhile Char.isDigit (l ++ r)
  have hw := Text.head?_any_dropWhile Char.isDigit (l ++ r)
  simp only [number] at h
  generalize (l ++ r).takeWhile Char.isDigit = ds at h hds
  generalize (l ++ r).dropWhile Char.isDigit = w at h hw
  have hdigits : ∀ d ∈ c :: ds, d.isDigit = true := by simpa [hc] using hds
  rcases fraction_cases w with ⟨hnf, hf⟩ | ⟨d, v, rfl, hd, hf⟩
  · rw [hf] at h
    rcases exponent_cases w with ⟨hnp, hp⟩ | ⟨e, x, v, rfl, he, hx, hp⟩
    · rw [hp] at h
      obtain ⟨rfl, rfl⟩ : ds = l ∧ w = r := by simpa using h
      have hlast := Text.getLast?_any_append [] (List.cons_ne_nil _ _) hdigits
      have hnf' := hnofrac hnf hlast
      have hnp' := hnoexp hnp hlast
      have := number_of_parts (f := []) (p := []) c hds (hstop hw) (fraction_of_not hnf')
        (exponent_of_not hnp')
      simpa using this
    · rw [hp] at h
      obtain ⟨rfl, rfl⟩ : ds ++ (e :: x :: v.takeWhile Char.isDigit) = l ∧
        v.dropWhile Char.isDigit = r := by simpa using h
      have hrun := Text.forall_mem_takeWhile Char.isDigit v
      have hs := hstop (Text.head?_any_dropWhile Char.isDigit v)
      have hexp : exponent (e :: x :: v.takeWhile Char.isDigit ++ s) =
          (e :: x :: v.takeWhile Char.isDigit, s) := by
        rw [List.cons_append, List.cons_append, exponent_of_sign he hx, Text.takeWhile_run hrun hs,
          Text.dropWhile_run hrun hs]
      have hnf' : startsFraction (e :: x :: v.takeWhile Char.isDigit ++ s) = false := by
        rcases he with rfl | rfl <;> rfl
      have := number_of_parts (f := []) (p := e :: x :: v.takeWhile Char.isDigit) (s := s) c hds
        (by simpa using hw) (fraction_of_not hnf') hexp
      simpa using this
  · rw [hf] at h
    have hrun := Text.forall_mem_takeWhile Char.isDigit v
    have hv := Text.head?_any_dropWhile Char.isDigit v
    rcases exponent_cases (v.dropWhile Char.isDigit) with ⟨hnp, hp⟩ | ⟨e, x, y, hy, he, hx, hp⟩
    · rw [hp] at h
      obtain ⟨rfl, rfl⟩ : ds ++ ('.' :: d :: v.takeWhile Char.isDigit) = l ∧
        v.dropWhile Char.isDigit = r := by simpa using h
      have hs := hstop hv
      have hlast : (c :: (ds ++ ('.' :: d :: v.takeWhile Char.isDigit))).getLast?.any Char.isDigit =
          true := by
        have hfraction : ∀ a ∈ d :: v.takeWhile Char.isDigit, a.isDigit = true := by
          simpa [hd] using hrun
        have := Text.getLast?_any_append (c :: ds ++ ['.']) (List.cons_ne_nil d _) hfraction
        simpa using this
      have hfrac : fraction ('.' :: d :: v.takeWhile Char.isDigit ++ ([] ++ s)) =
          ('.' :: d :: v.takeWhile Char.isDigit, [] ++ s) := by
        rw [List.cons_append, List.cons_append, fraction_of_digit hd, List.nil_append,
          Text.takeWhile_run hrun hs, Text.dropWhile_run hrun hs]
      have := number_of_parts (f := '.' :: d :: v.takeWhile Char.isDigit) (p := []) (s := s) c hds rfl
        hfrac (exponent_of_not (hnoexp hnp hlast))
      simpa using this
    · rw [hp] at h
      obtain ⟨rfl, rfl⟩ : ds ++ ('.' :: d :: v.takeWhile Char.isDigit ++
          (e :: x :: y.takeWhile Char.isDigit)) = l ∧ y.dropWhile Char.isDigit = r := by
        simpa using h
      have hrun' := Text.forall_mem_takeWhile Char.isDigit y
      have hs := hstop (Text.head?_any_dropWhile Char.isDigit y)
      have hexp : exponent (e :: x :: y.takeWhile Char.isDigit ++ s) =
          (e :: x :: y.takeWhile Char.isDigit, s) := by
        rw [List.cons_append, List.cons_append, exponent_of_sign he hx, Text.takeWhile_run hrun' hs,
          Text.dropWhile_run hrun' hs]
      have hv' : (e :: x :: y.takeWhile Char.isDigit ++ s).head?.any Char.isDigit = false := by
        rcases he with rfl | rfl <;> rfl
      have hfrac : fraction ('.' :: d :: v.takeWhile Char.isDigit ++
          (e :: x :: y.takeWhile Char.isDigit ++ s)) =
          ('.' :: d :: v.takeWhile Char.isDigit, e :: x :: y.takeWhile Char.isDigit ++ s) := by
        rw [List.cons_append, List.cons_append, fraction_of_digit hd, Text.takeWhile_run hrun hv',
          Text.dropWhile_run hrun hv']
      have := number_of_parts (f := '.' :: d :: v.takeWhile Char.isDigit)
        (p := e :: x :: y.takeWhile Char.isDigit) (s := s) c hds rfl hfrac hexp
      simpa using this

/-- A number stays a number when what follows it changes. -/
theorem number_alike {c : Char} {l r s : Text} (hc : c.isDigit = true)
    (h : number c (l ++ r) = (c :: l, r)) (ha : Alike (c :: l) r s) :
    number c (l ++ s) = (c :: l, s) := by
  refine number_append hc h (ha.head?_any fun _ _ hd => hd) (fun hr hl => ?_) (fun hr hl => ?_)
  · cases hs : startsFraction s with
    | false => rfl
    | true => rcases ha.fraction hs with hfrac | hlast <;> simp_all
  · cases hs : startsExponent s with
    | false => rfl
    | true => rcases ha.exponent hs with hexp | hlast <;> simp_all

/-! ## Quoted tokens -/

/-- A quoted text ends where no other quote follows. -/
theorem quotedBody_rest {q : Char} {t v r : Text} (h : quotedBody q t = some (v, r)) :
    r.head? ≠ some q := by
  fun_induction quotedBody q t generalizing v r with
  | case1 => cases h
  | case2 => cases h; simp
  | case3 => cases h
  | case4 t ih =>
    obtain ⟨⟨w, u⟩, hw, he⟩ := Option.map_eq_some_iff.1 h
    cases he
    exact ih hw
  | case5 d t hd => cases h; simpa using hd
  | case6 c d t hc ih =>
    obtain ⟨⟨w, u⟩, hw, he⟩ := Option.map_eq_some_iff.1 h
    cases he
    exact ih hw

/-- A quoted text is read back from its spelling. -/
theorem quotedBody_doubled {q : Char} {s : Text} (hs : s.head? ≠ some q) (v : Text) :
    quotedBody q (doubled q v ++ q :: s) = some (v, s) := by
  induction v with
  | nil =>
    cases s with
    | nil => simp [doubled, quotedBody]
    | cons d s =>
      have hd : d ≠ q := by simpa using hs
      simp [doubled, quotedBody, hd]
  | cons c v ih =>
    by_cases hc : c = q
    · subst hc
      simp [doubled, quotedBody, ih]
    · obtain ⟨d, u, hu⟩ : ∃ d u, doubled q v ++ q :: s = d :: u :=
        List.exists_cons_of_ne_nil (by simp)
      rw [hu] at ih
      simp [doubled, quotedBody, hc, hu, ih]

theorem quotedToken_alike {q : Char} {kind : Text → TokenKind} {cause : LexicalError} {k : TokenKind}
    {l r s : Text} (hq : isIdentifierCharacter q = false)
    (h : quotedToken q kind cause (l ++ r) = (k, q :: l, r)) (ha : Alike (q :: l) r s) :
    quotedToken q kind cause (l ++ s) = (k, q :: l, s) := by
  unfold quotedToken at h
  split at h
  · next v rest hbody =>
    obtain ⟨rfl, rfl, rfl⟩ : kind v = k ∧ doubled q v ++ [q] = l ∧ rest = r := by simpa using h
    have hs := ha.head?_ne hq (quotedBody_rest hbody)
    rw [quotedToken, List.append_assoc, List.singleton_append, quotedBody_doubled hs]
    rfl
  · next hbody =>
    obtain ⟨rfl, -, hr⟩ : TokenKind.error cause = k ∧ l ++ r = l ∧ [] = r := by simpa using h
    rw [← hr, List.append_nil] at hbody
    rw [ha.nil hr.symm, List.append_nil, quotedToken, hbody]

/-! ## Tokens -/

/-- A sign that opens or continues a token is no character of an identifier. -/
theorem not_identifier_of_mem {c : Char} (h : c ∈ ['-', '*', '=', '\x27', '\x22', '\x60']) :
    isIdentifierCharacter c = false := by
  simp only [List.mem_cons, List.not_mem_nil, or_false] at h
  rcases h with rfl | rfl | rfl | rfl | rfl | rfl <;> decide

/-- A token stays the same when what follows it changes. -/
theorem token_alike {c : Char} {k : TokenKind} {l r s : Text}
    (h : token c (l ++ r) = (k, c :: l, r)) (ha : Alike (c :: l) r s) :
    token c (l ++ s) = (k, c :: l, s) := by
  unfold token at h
  split at h
  case h_1 | h_2 | h_3 | h_4 | h_5 | h_6 =>
    obtain ⟨rfl, rfl⟩ := by simpa using h
    rfl
  case h_7 | h_8 | h_9 =>
    exact quotedToken_alike (not_identifier_of_mem (by decide)) h ha
  case h_10 =>
    split at h
    · next rest hrest =>
      obtain ⟨rfl, rfl, rfl⟩ : TokenKind.assign = k ∧ ['='] = l ∧ rest = r := by simpa using h
      rfl
    · next hne =>
      obtain ⟨rfl, rfl⟩ : TokenKind.symbol ':' = k ∧ [] = l := by simpa using h
      have hs : s.head? ≠ some '=' := by
        refine ha.head?_ne (not_identifier_of_mem (by decide)) fun hr => ?_
        obtain ⟨t, rfl⟩ := List.head?_eq_some_iff.1 hr
        exact hne t rfl
      cases s with
      | nil => rfl
      | cons d s =>
        have hd : d ≠ '=' := by simpa using hs
        simp [token, hd]
  case h_11 =>
    unfold token
    split
    case h_11 =>
      split at h
      · next hc =>
        obtain ⟨rfl, hn⟩ : TokenKind.number (number c (l ++ r)).1 = k ∧ number c (l ++ r) = (c :: l, r) := by
          simpa [Prod.ext_iff] using h
        rw [if_pos hc, hn, number_alike hc hn ha]
      · next hc =>
        rw [if_neg hc]
        split at h
        · next hw =>
          obtain ⟨rfl, hl, hr⟩ : wordKind (c :: (l ++ r).takeWhile isIdentifierCharacter) = k ∧
              (l ++ r).takeWhile isIdentifierCharacter = l ∧
              (l ++ r).dropWhile isIdentifierCharacter = r := by simpa using h
          have hrun := Text.forall_mem_takeWhile isIdentifierCharacter (l ++ r)
          have hstop := Text.head?_any_dropWhile isIdentifierCharacter (l ++ r)
          rw [hl] at hrun
          rw [hr] at hstop
          have hs := ha.head?_any_identifier hstop
          simp only [if_pos hw, Text.takeWhile_run hrun hs, Text.dropWhile_run hrun hs, hl]
        · next hw =>
          rw [if_neg hw]
          obtain ⟨rfl, rfl⟩ : TokenKind.symbol c = k ∧ [] = l := by simpa using h
          rfl
    all_goals simp_all

theorem wordKind_cases (word : Text) :
    (∃ k, wordKind word = .keyword k) ∨ wordKind word = .identifier word := by
  unfold wordKind
  split
  · exact .inl ⟨_, rfl⟩
  · exact .inr rfl

/-- The quotes of a string or a quoted name. -/
theorem token_quotes {c : Char} {t v : Text}
    (h : (token c t).1 = .string v ∨ (token c t).1 = .quoted v) :
    c ∈ ['\x27', '\x22', '\x60'] ∧ (token c t).2.1 = c :: doubled c v ++ [c] := by
  have hquoted {q : Char} {kind : Text → TokenKind} {cause : LexicalError}
      (hkind : ∀ w, kind w = .string v ∨ kind w = .quoted v → w = v)
      (h : (quotedToken q kind cause t).1 = .string v ∨ (quotedToken q kind cause t).1 = .quoted v) :
      (quotedToken q kind cause t).2.1 = q :: doubled q v ++ [q] := by
    unfold quotedToken at h ⊢
    split at h
    · next w rest hw => rw [hkind w h]
    · simp at h
  unfold token at h ⊢
  split at h
  case h_7 => exact ⟨by decide, hquoted (by simp) h⟩
  case h_8 | h_9 => exact ⟨by decide, hquoted (by simp) h⟩
  case h_10 => split at h <;> simp at h
  case h_11 =>
    split at h
    · simp at h
    · split at h
      · rcases wordKind_cases (c :: t.takeWhile isIdentifierCharacter) with ⟨k, hk⟩ | hk <;>
          simp [hk] at h
      · simp at h
  all_goals simp at h

theorem trivia?_eq_none_iff {c : Char} {t : Text} :
    trivia? (c :: t) = none ↔ isBlank c = false ∧ ¬(c = '-' ∧ t.head? = some '-') ∧
      ¬(c = '/' ∧ t.head? = some '*') := by
  unfold trivia?
  split
  · next heq => cases heq; simp
  · next heq => cases heq; simp
  · next d u hline hblock heq =>
    cases heq
    have hline' : ¬(c = '-' ∧ t.head? = some '-') := by
      rintro ⟨rfl, ht⟩
      obtain ⟨v, rfl⟩ := List.head?_eq_some_iff.1 ht
      exact hline v rfl rfl
    have hblock' : ¬(c = '/' ∧ t.head? = some '*') := by
      rintro ⟨rfl, ht⟩
      obtain ⟨v, rfl⟩ := List.head?_eq_some_iff.1 ht
      exact hblock v rfl rfl
    simp [hline', hblock']
  · next heq => cases heq

/-- A token does not become trivia when what follows it changes. -/
theorem trivia?_alike {c : Char} {l r s : Text} (h : trivia? (c :: (l ++ r)) = none)
    (ha : Alike (c :: l) r s) : trivia? (c :: (l ++ s)) = none := by
  rw [trivia?_eq_none_iff] at h ⊢
  obtain ⟨hblank, hline, hblock⟩ := h
  refine ⟨hblank, ?_⟩
  cases l with
  | nil =>
    exact ⟨fun ⟨hc, hs⟩ => ha.head?_ne (not_identifier_of_mem (by decide)) (fun hr => hline ⟨hc, hr⟩) hs,
      fun ⟨hc, hs⟩ => ha.head?_ne (not_identifier_of_mem (by decide)) (fun hr => hblock ⟨hc, hr⟩) hs⟩
  | cons d l => exact ⟨hline, hblock⟩

end Scan

/-! ## Scanning token by token -/

/-- The token is read from a text that starts with it and goes on with `rest`. -/
structure Token.Fits (t : Token) (rest : Text) : Prop where
  gap_eq : Scan.gap (t.text ++ rest) = (t.gap, t.lexeme ++ rest)
  token_eq : ∃ c l, t.lexeme = c :: l ∧ Scan.token c (l ++ rest) = (t.kind, c :: l, rest)

theorem Token.Fits.lexeme_ne_nil {t : Token} {rest : Text} (h : t.Fits rest) : t.lexeme ≠ [] := by
  obtain ⟨c, l, hl, -⟩ := h.token_eq
  simp [hl]

/-- A token fits in front of another text that leaves it what it is. -/
theorem Token.Fits.replace {t : Token} {r s : Text} {c : Char} {l : Text} (h : t.Fits r)
    (hl : t.lexeme = c :: l) (hnone : Scan.trivia? (c :: (l ++ s)) = none)
    (htoken : Scan.token c (l ++ s) = (t.kind, c :: l, s)) : t.Fits s := by
  refine ⟨?_, c, l, hl, htoken⟩
  have hgap := h.gap_eq
  have := Scan.gap_append (t := t.text ++ r) (r := l ++ r) (g := t.gap) (h := []) (c := c) (s := l ++ s)
    (by simp [hgap]) (by simp [hgap, hl])
  rw [Scan.gap_of_none hnone] at this
  simpa [Token.text, Token.gapText, Trivia.textOf, hl] using this

/-- What follows a gap does not start with trivia. -/
theorem Token.Fits.trivia?_eq_none {t : Token} {r : Text} (h : t.Fits r) :
    Scan.trivia? (t.lexeme ++ r) = none := by
  have hnone := Scan.trivia?_gap_snd (t.text ++ r)
  rwa [h.gap_eq] at hnone

/-- A token fits in front of every text that looks alike. -/
theorem Token.Fits.alike {t : Token} {r s : Text} (h : t.Fits r) (ha : Scan.Alike t.lexeme r s) :
    t.Fits s := by
  obtain ⟨c, l, hl, htoken⟩ := h.token_eq
  have hnone := h.trivia?_eq_none
  rw [hl] at ha hnone
  exact h.replace hl (Scan.trivia?_alike hnone ha) (Scan.token_alike htoken ha)

/-- A token fits without the first part of its gap. -/
theorem Token.Fits.dropGap {t : Token} {rest : Text} {g h : List Trivia} (ht : t.Fits rest)
    (hg : t.gap = g ++ h) : Token.Fits { t with gap := h } rest := by
  refine ⟨?_, ht.token_eq⟩
  have := Scan.gap_rest (t := t.text ++ rest) (g := g) (h := h) (by rw [ht.gap_eq, hg])
  rw [ht.gap_eq] at this
  simpa [Token.text, Token.gapText, Trivia.textOf] using this

/-- A token may stand behind the gap of another one. -/
theorem Token.Fits.behind {t u : Token} {r s : Text} (hu : Token.Fits { u with gap := [] } s) (ht : t.Fits r) :
    Token.Fits { u with gap := t.gap } s := by
  have hnone := hu.trivia?_eq_none
  obtain ⟨c, l, hl, -⟩ := ht.token_eq
  obtain ⟨d, l', hl', htoken⟩ := hu.token_eq
  have hgap := ht.gap_eq
  rw [hl, List.cons_append] at hgap
  rw [hl', List.cons_append] at hnone
  refine ⟨?_, d, l', hl', htoken⟩
  have hrespell := Scan.gap_respell hgap hnone
  simpa [Token.text, Token.gapText, Trivia.textOf, show u.lexeme = d :: l' from hl'] using hrespell

theorem scan_of_gap_nil {t : Text} {g : List Trivia} (h : Scan.gap t = (g, [])) :
    scan t = [⟨g, .eof, []⟩] := by
  rw [scan]
  split
  · next heq =>
    cases h.symm.trans heq
    rfl
  · next heq => cases h.symm.trans heq

theorem scan_of_gap_cons {t rest : Text} {g : List Trivia} {c : Char}
    (h : Scan.gap t = (g, c :: rest)) :
    scan t = ⟨g, (Scan.token c rest).1, (Scan.token c rest).2.1⟩ :: scan (Scan.token c rest).2.2 := by
  rw [scan]
  split
  · next heq => cases h.symm.trans heq
  · next heq =>
    cases h.symm.trans heq
    rfl

theorem scan_of_fits {t : Token} {rest : Text} (h : t.Fits rest) :
    scan (t.text ++ rest) = t :: scan rest := by
  obtain ⟨hgap, c, l, hl, htoken⟩ := h
  rw [hl, List.cons_append] at hgap
  rw [scan_of_gap_cons hgap, htoken, ← hl]

/-- A text ends after its gap, or it starts with a token. -/
theorem scan_cases (t : Text) :
    (∃ g, Scan.gap t = (g, []) ∧ t = Trivia.textOf g ∧ scan t = [⟨g, .eof, []⟩]) ∨
    ∃ (u : Token) (rest : Text), t = u.text ++ rest ∧ u.Fits rest ∧ scan t = u :: scan rest := by
  have htext := Scan.gap_text t
  rcases hgap : Scan.gap t with ⟨g, _ | ⟨c, rest⟩⟩
  · refine .inl ⟨g, rfl, ?_, scan_of_gap_nil hgap⟩
    simpa [hgap, Trivia.textOf] using htext.symm
  · have htoken := Scan.token_text c rest
    obtain ⟨l, hl⟩ : ∃ l, (Scan.token c rest).2.1 = c :: l := by
      obtain ⟨d, l, hl⟩ := List.exists_cons_of_ne_nil (Scan.token_lexeme_ne_nil c rest)
      rw [hl, List.cons_append, List.cons.injEq] at htoken
      exact ⟨l, htoken.1 ▸ hl⟩
    let u : Token := ⟨g, (Scan.token c rest).1, (Scan.token c rest).2.1⟩
    have ht : t = u.text ++ (Scan.token c rest).2.2 := by
      rw [hgap] at htext
      simp only [u, Token.text, Token.gapText, List.append_assoc, htoken]
      exact htext.symm
    refine .inr ⟨u, (Scan.token c rest).2.2, ht, ⟨?_, c, l, hl, ?_⟩, scan_of_gap_cons hgap⟩
    · rw [← ht, hgap]
      exact congrArg _ htoken.symm
    · rw [hl, List.cons_append, List.cons.injEq] at htoken
      rw [htoken.2, ← hl]

/-- A property of texts holds if it holds of every gap and passes from a text to the same text with a
token in front. -/
theorem scan_induction {motive : Text → Prop}
    (gap : ∀ g, Scan.gap (Trivia.textOf g) = (g, []) → motive (Trivia.textOf g))
    (token : ∀ (u : Token) (rest : Text), u.Fits rest → motive rest → motive (u.text ++ rest))
    (t : Text) : motive t := by
  induction hn : t.length using Nat.strongRecOn generalizing t with
  | ind n ih =>
    rcases scan_cases t with ⟨g, hgap, rfl, -⟩ | ⟨u, rest, rfl, hfits, -⟩
    · exact gap g hgap
    · refine token u rest hfits (ih rest.length ?_ rest rfl)
      have := List.length_pos_iff.2 hfits.lexeme_ne_nil
      simp only [Token.text, List.length_append] at hn
      omega

end DialectBridge
