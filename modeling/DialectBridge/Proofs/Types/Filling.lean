import DialectBridge.Proofs.Pattern.InStep
import DialectBridge.Proofs.Types.Replacing

/-!
# Other texts in the place of placeholders

A masked text can be written with any texts in the place of its placeholders: the texts that were there before,
or placeholders with other numbers. If these texts start with characters that a pattern does not look for, the
pattern takes the same ways through the text (`inStep_refilled`), and a matcher that finds nothing in them cuts
both texts alike (`pieces_filled`).
-/

namespace DialectBridge

namespace Masked

/-! ## Filled parts -/

/-- The text of a part, with these texts in the place of the placeholders. -/
def Part.spelled (f : Nat → Text) : Part → Text
  | code c => [c]
  | held n => f n

/-- The text of parts, with these texts in the place of the placeholders. -/
def spell (f : Nat → Text) (ps : List Part) : Text :=
  ps.flatMap (Part.spelled f)

section

variable (f : Nat → Text)

@[simp] theorem spell_nil : spell f [] = [] := rfl

@[simp] theorem spell_cons (p : Part) (ps : List Part) : spell f (p :: ps) = p.spelled f ++ spell f ps := rfl

@[simp] theorem spell_append (ps qs : List Part) : spell f (ps ++ qs) = spell f ps ++ spell f qs := by
  simp [spell]

@[simp] theorem Part.spelled_code (c : Char) : (code c).spelled f = [c] := rfl

@[simp] theorem Part.spelled_held (n : Nat) : (held n).spelled f = f n := rfl

@[simp] theorem spell_map_code (t : Text) : spell f (t.map .code) = t := by
  induction t with
  | nil => rfl
  | cons c t ih => simp [ih]

end

/-- The characters are no part of a word and no blanks. The mark is one of them. -/
structure AreStops (stops : List Char) : Prop where
  mark : Masked.mark ∈ stops
  word : ∀ c ∈ stops, isWordCharacter c = false
  blank : ∀ c ∈ stops, isBlank c = false

/-- The text ends in a stop, or a line or the whole text ends behind it. -/
def EndsApart (stops : List Char) (u rest : Text) : Prop :=
  (∃ c ∈ u.getLast?, c ∈ stops) ∨ ∀ c ∈ rest.head?, c = '\n'

/-- What the placeholders are filled with starts with a stop, ends apart from what follows, and holds no
parenthesis. -/
structure Fills (stops : List Char) (f : Nat → Text) (ps : List Part) : Prop where
  sound : Sound ps
  starts : ∀ n, .held n ∈ ps → ∃ c ∈ stops, ∃ t, f n = c :: t
  parens : ∀ n, .held n ∈ ps → '(' ∉ f n ∧ ')' ∉ f n
  apart : ∀ xs n ys, ps = xs ++ .held n :: ys → (∃ c ∈ (f n).getLast?, c ∈ stops) ∨ ∀ p ∈ ys.head?, p = .code '\n'

section

variable {stops : List Char} {f : Nat → Text} {p : Part} {ps qs : List Part}

theorem Fills.left (h : Fills stops f (ps ++ qs)) : Fills stops f ps where
  sound := (sound_append.1 h.sound).1
  starts n hn := h.starts n (List.mem_append_left _ hn)
  parens n hn := h.parens n (List.mem_append_left _ hn)
  apart xs n ys hps := by
    refine (h.apart xs n (ys ++ qs) (by simp [hps])).imp_right fun hnext q hq => hnext q ?_
    obtain ⟨zs, rfl⟩ := List.head?_eq_some_iff.1 hq
    rfl

theorem Fills.right (h : Fills stops f (ps ++ qs)) : Fills stops f qs where
  sound := (sound_append.1 h.sound).2
  starts n hn := h.starts n (List.mem_append_right _ hn)
  parens n hn := h.parens n (List.mem_append_right _ hn)
  apart xs n ys hqs := h.apart (ps ++ xs) n ys (by simp [hqs])

theorem Fills.tail (h : Fills stops f (p :: ps)) : Fills stops f ps :=
  Fills.right (show Fills stops f ([p] ++ ps) from h)

/-- A text without marks has nothing to fill. -/
theorem Fills.of_code {x : Text} (hmark : mark ∉ x) : Fills stops f (x.map .code) where
  sound := by simpa [Sound] using hmark
  starts n hn := by simp at hn
  parens n hn := by simp at hn
  apart xs n ys h := by
    have hmem : Part.held n ∈ x.map Part.code := by simp [h]
    simp at hmem

/-- The text behind a filled placeholder stands apart from it. -/
theorem Fills.endsApart {n : Nat} (h : Fills stops f (.held n :: ps)) : EndsApart stops (f n) (spell f ps) := by
  refine (h.apart [] n ps rfl).imp_right fun hnext c hc => ?_
  cases ps with
  | nil => cases hc
  | cons q ps =>
    obtain rfl := hnext q rfl
    exact (Option.some.inj hc).symm

/-- Filled texts start with the same character as the masked ones, or both start with a stop. -/
theorem Fills.head (hstops : AreStops stops) (h : Fills stops f ps) :
    (render ps).head? = (spell f ps).head? ∨
      (∃ c ∈ (render ps).head?, c ∈ stops) ∧ ∃ c ∈ (spell f ps).head?, c ∈ stops := by
  cases ps with
  | nil => exact .inl rfl
  | cons p ps =>
    cases p with
    | code c => exact .inl rfl
    | held n =>
      obtain ⟨c, hc, t, ht⟩ := h.starts n List.mem_cons_self
      exact .inr ⟨⟨mark, rfl, hstops.mark⟩, c, by simp [ht], hc⟩

/-- The first characters of masked and filled texts are alike for a test that all stops fail. -/
theorem Fills.any_head? (hstops : AreStops stops) (h : Fills stops f ps) {q : Char → Bool}
    (hq : ∀ c ∈ stops, q c = false) : (render ps).head?.any q = (spell f ps).head?.any q := by
  rcases h.head hstops with heq | ⟨⟨c, hc, hstop⟩, d, hd, hstop'⟩
  · rw [heq]
  · rw [Option.mem_def.1 hc, Option.mem_def.1 hd, Option.any_some, Option.any_some, hq c hstop, hq d hstop']

/-- A character that no placeholder is filled with is a part of its own. -/
theorem spell_eq_append_cons {ps : List Part} {x y : Text} {c : Char} (hc : ∀ n, .held n ∈ ps → c ∉ f n)
    (h : spell f ps = x ++ c :: y) : ∃ qs rs, ps = qs ++ .code c :: rs ∧ x = spell f qs ∧ y = spell f rs := by
  induction ps generalizing x with
  | nil => simp at h
  | cons p ps ih =>
    have hps {n : Nat} (hn : .held n ∈ ps) : c ∉ f n := hc n (List.mem_cons_of_mem p hn)
    rw [spell_cons] at h
    rcases List.append_eq_append_iff.1 h with ⟨z, rfl, hz⟩ | ⟨z, hz, hy⟩
    · obtain ⟨qs, rs, rfl, rfl, rfl⟩ := ih (fun n => hps) hz
      exact ⟨p :: qs, rs, rfl, rfl, rfl⟩
    · cases z with
      | nil =>
        obtain ⟨qs, rs, rfl, hq, rfl⟩ := ih (fun n => hps) (x := []) hy.symm
        exact ⟨p :: qs, rs, rfl, by rw [spell_cons, ← hq, hz, List.append_nil, List.append_nil], rfl⟩
      | cons d z =>
        obtain ⟨rfl, rfl⟩ := List.cons.inj hy
        cases p with
        | code e =>
          cases x with
          | nil =>
            obtain ⟨rfl, rfl⟩ : e = c ∧ [] = z := by simpa using hz
            exact ⟨[], ps, rfl, rfl, rfl⟩
          | cons d x => simp at hz
        | held n =>
          refine absurd ?_ (hc n List.mem_cons_self)
          rw [show f n = x ++ c :: z from hz]
          simp

/-- Blanks are never filled in. -/
theorem Fills.blank_iff (hstops : AreStops stops) {ps : List Part} (h : Fills stops f ps) :
    (∀ c ∈ spell f ps, isBlank c = true) ↔ ∀ p ∈ ps, p.isSpace = true := by
  induction ps with
  | nil => simp
  | cons p ps ih =>
    rw [spell_cons, List.forall_mem_append, ih h.tail, List.forall_mem_cons]
    refine and_congr_left fun _ => ?_
    cases p with
    | code c => simp [Part.isSpace]
    | held n =>
      obtain ⟨c, hc, t, ht⟩ := h.starts n List.mem_cons_self
      simp [Part.isSpace, ht, hstops.blank c hc]

/-- Parentheses are never filled in. -/
theorem Fills.mem_paren {c : Char} (hc : c = '(' ∨ c = ')') {ps : List Part} (h : Fills stops f ps) :
    c ∈ spell f ps ↔ c ∈ render ps := by
  have hdigit : c.isDigit = false := by rcases hc with rfl | rfl <;> decide
  have hmark : c ≠ mark := by rcases hc with rfl | rfl <;> decide
  induction ps with
  | nil => rfl
  | cons p ps ih =>
    have ih := ih h.tail
    rw [spell_cons, render_cons, List.mem_append, List.mem_append]
    refine or_congr ?_ ih
    cases p with
    | code d => rfl
    | held n =>
      have hparens := h.parens n List.mem_cons_self
      refine iff_of_false ?_ fun hmem => hmark ((mem_placeholder_iff hdigit n).1 hmem)
      rcases hc with rfl | rfl
      · exact hparens.1
      · exact hparens.2

end

end Masked

open Masked

/-! ## Runs over filled parts -/

namespace Pattern

/-- The text behind the second site is the one behind the first site with its placeholders filled. What was
captured is related by `C`. -/
structure Refilled (stops : List Char) (f : Nat → Text) (C : List (Nat × Text) → List (Nat × Text) → Prop)
    (s s' : Site) : Prop where
  edge : s.before.head?.any isWordCharacter = s'.before.head?.any isWordCharacter
  captured : C s.captured s'.captured
  after : ∃ ps, Fills stops f ps ∧ s.after = render ps ∧ s'.after = spell f ps

variable {stops : List Char} {f : Nat → Text} {C : List (Nat × Text) → List (Nat × Text) → Prop}

/-- A pattern that does not look for stops takes the same ways in front of the placeholders. -/
theorem inStep_refilled (hstops : AreStops stops) : InStep stops (Refilled stops f C) where
  edge := by
    rintro s s' ⟨hedge, -, ps, hps, hs, hs'⟩
    rw [Site.isEdge, Site.isEdge, hedge, hs, hs', hps.any_head? hstops hstops.word]
  lineEnd := by
    rintro s s' ⟨-, -, ps, hps, hs, hs'⟩
    rw [Site.isLineEnd, Site.isLineEnd, hs, hs']
    rcases hps.head hstops with heq | ⟨⟨c, hc, hstop⟩, d, hd, hstop'⟩
    · rw [heq]
    · have hnewline {c : Char} (hc : c ∈ stops) : (c == '\n') = false := by
        refine beq_eq_false_iff_ne.2 ?_
        rintro rfl
        exact absurd (hstops.blank _ hc) (by decide)
      rw [Option.mem_def.1 hc, Option.mem_def.1 hd, Option.all_some, Option.all_some, hnewline hstop,
        hnewline hstop']
  step := by
    rintro s s' ⟨-, hcaptured, ps, hps, hs, hs'⟩
    cases ps with
    | nil =>
      rw [hs, hs']
      exact .inr (by simp)
    | cons p ps =>
      cases p with
      | code c =>
        by_cases hc : c ∈ stops
        · rw [hs, hs']
          exact .inr (by simpa [Part.text] using hc)
        · exact .inl ⟨c, render ps, spell f ps, hc, hs, hs', rfl, hcaptured, ps, hps.tail, rfl, rfl⟩
      | held n =>
        obtain ⟨c, hc, t, ht⟩ := hps.starts n List.mem_cons_self
        rw [hs, hs']
        refine .inr ⟨?_, ?_⟩
        · simpa [Part.text, placeholder] using hstops.mark
        · simpa [ht] using hc

/-- If the runs of a pattern agree, and its matches are made of whole parts, then it finds the same matches in
masked and in filled texts. -/
theorem matcher_refilled {p : Pattern} {before before' : Text} {ps : List Part} (hps : Fills stops f ps)
    (hagree : Agree (Refilled stops f C) (fun _ => False) (run p ⟨before, render ps, []⟩ .some)
      (run p ⟨before', spell f ps, []⟩ .some))
    (hparts : ∀ {taken captures}, p.matcher before (render ps) = .some (taken, captures) →
      taken ≠ [] ∧ ∃ qs rs, ps = qs ++ rs ∧ taken = render qs) :
    (p.matcher before (render ps) = none ∧ p.matcher before' (spell f ps) = none) ∨
    ∃ qs rs v v', ps = qs ++ rs ∧ qs ≠ [] ∧ p.matcher before (render ps) = .some (render qs, v) ∧
      p.matcher before' (spell f ps) = .some (spell f qs, v') ∧ C v v' := by
  have hsome {before after : Text} {t : Site} (h : run p ⟨before, after, []⟩ .some = .some t) :
      ∃ taken, after = taken ++ t.after ∧ p.matcher before after = .some (taken, t.captured) := by
    obtain ⟨u, hreach, hu⟩ := run_reaches h
    obtain rfl := Option.some.inj hu
    obtain ⟨taken, hafter, -⟩ := hreach.split
    refine ⟨taken, hafter, ?_⟩
    rw [Pattern.matcher, h, Option.map_some, textUpTo_eq hafter]
  cases ho : run p ⟨before, render ps, []⟩ .some with
  | none =>
    rw [ho] at hagree
    exact .inl ⟨by rw [Pattern.matcher, ho]; rfl, by rw [Pattern.matcher, hagree.eq_none]; rfl⟩
  | some t =>
    cases ho' : run p ⟨before', spell f ps, []⟩ .some with
    | none =>
      rw [ho, ho'] at hagree
      cases hagree with
      | far h => cases h
    | some t' =>
      rw [ho, ho'] at hagree
      cases hagree with
      | far h => cases h
      | some h =>
        obtain ⟨-, hcaptured, zs, hzs, ht, ht'⟩ := h
        obtain ⟨taken, hafter, hmatch⟩ := hsome ho
        obtain ⟨taken', hafter', hmatch'⟩ := hsome ho'
        obtain ⟨hne, qs, rs, rfl, rfl⟩ := hparts hmatch
        -- what is left behind the match are the parts behind it
        have hrest : render rs = render zs := by
          rw [render_append, ht] at hafter
          exact List.append_cancel_left hafter
        obtain rfl := render_inj hps.right.sound hzs.sound hrest
        rw [ht', spell_append] at hafter'
        obtain rfl := List.append_cancel_right hafter'
        refine .inr ⟨qs, rs, _, _, rfl, ?_, hmatch, hmatch', hcaptured⟩
        rintro rfl
        exact hne rfl

end Pattern

/-! ## Cutting filled parts -/

namespace Masked

variable {α : Type} {matcher : Matcher α} {V : List Part → α → α → Prop} {stops : List Char} {f : Nat → Text}

/-- The matcher finds the same matches in masked and in filled texts, at a place that shows the same on both
sides or that no word starts at. The values of the matches are related by `V`. -/
structure RespectsFilling (stops : List Char) (f : Nat → Text) (matcher : Matcher α)
    (V : List Part → α → α → Prop) : Prop where
  nil (before : Text) : matcher before [] = none
  start {before after : Text} {c : Char} {found : Text × α} :
    matcher before (c :: after) = some found → c ≠ mark ∧ c.isDigit = false
  filled {before before' : Text} {ps : List Part} :
    before.head?.any isWordCharacter = before'.head?.any isWordCharacter ∨
      (render ps).head?.any isWordCharacter = false → Fills stops f ps →
      (matcher before (render ps) = none ∧ matcher before' (spell f ps) = none) ∨
      ∃ qs rs v v', ps = qs ++ rs ∧ qs ≠ [] ∧ matcher before (render ps) = some (render qs, v) ∧
        matcher before' (spell f ps) = some (spell f qs, v') ∧ V qs v v'

theorem RespectsFilling.mono {V' : List Part → α → α → Prop} (hM : RespectsFilling stops f matcher V)
    (hV : ∀ {qs v v'}, V qs v v' → V' qs v v') : RespectsFilling stops f matcher V' where
  nil := hM.nil
  start := hM.start
  filled hplace hps := by
    refine (hM.filled hplace hps).imp_right ?_
    rintro ⟨qs, rs, v, v', hparts, hne, hsome, hsome', hv⟩
    exact ⟨qs, rs, v, v', hparts, hne, hsome, hsome', hV hv⟩

/-- The matcher finds nothing that starts in the text, wherever it stands apart from what follows. -/
def Quiet (stops : List Char) (matcher : Matcher α) (u : Text) : Prop :=
  ∀ x y before rest, u = x ++ y → y ≠ [] → EndsApart stops u rest →
    matcher (x.reverse ++ before) (y ++ rest) = none

/-- A text in which the matcher finds nothing is copied. -/
theorem Quiet.pieces {u : Text} (h : Quiet stops matcher u) (hne : u ≠ []) {rest : Text}
    (hrest : EndsApart stops u rest) (fresh : Bool) (before : Text) :
    Cut.pieces matcher 0 fresh before (u ++ rest) =
      u.map .copied ++ Cut.pieces matcher 0 true (u.reverse ++ before) rest := by
  have hcopy (x y : Text) (hu : u = x ++ y) (hy : y ≠ []) (fresh : Bool) :
      Cut.pieces matcher 0 fresh (x.reverse ++ before) (y ++ rest) =
        y.map .copied ++ Cut.pieces matcher 0 true (y.reverse ++ (x.reverse ++ before)) rest := by
    induction y generalizing x fresh with
    | nil => exact absurd rfl hy
    | cons c y ih =>
      have hnone := h x (c :: y) before rest hu hy hrest
      rw [List.cons_append] at hnone ⊢
      rw [Cut.pieces_none hnone]
      cases y with
      | nil => rfl
      | cons d y =>
        have ih := ih (x ++ [c]) (by simp [hu]) (List.cons_ne_nil d y) true
        rw [List.reverse_append] at ih
        simp only [List.reverse_singleton, List.nil_append, List.cons_append] at ih ⊢
        rw [ih]
        simp
  exact hcopy [] u rfl hne fresh

/-- The text of a piece that is copied. -/
def leftOver : Cut α → Text
  | .copied c => [c]
  | .found _ => []

/-- The pieces of the parts `ps` behind `done`, and the pieces where the placeholders are filled. The parts
follow `before` and `before'`. What is copied satisfies `Q`. -/
inductive FilledCuts (f : Nat → Text) (V : List Part → α → α → Prop) (Q : Part → Prop) (before before' : Text) :
    List Part → List Part → List (Cut α) → List (Cut α) → Prop
  | nil (done : List Part) : FilledCuts f V Q before before' done [] [] []
  | kept {done ps : List Part} {cs cs' : List (Cut α)} {p : Part} (hp : Q p)
      (h : FilledCuts f V Q before before' (done ++ [p]) ps cs cs') :
      FilledCuts f V Q before before' done (p :: ps) (p.text.map .copied ++ cs) ((p.spelled f).map .copied ++ cs')
  | found {done qs rs : List Part} {v v' : α} {cs cs' : List (Cut α)} (hv : V qs v v')
      (h : FilledCuts f V Q before before' (done ++ qs) rs cs cs') :
      FilledCuts f V Q before before' done (qs ++ rs)
        (.found ⟨(render done).reverse ++ before, render qs, render rs, v⟩ :: cs)
        (.found ⟨(spell f done).reverse ++ before', spell f qs, spell f rs, v'⟩ :: cs')

/-- At each place between parts both sides show the same, or no word starts there. -/
theorem Fills.edges (hstops : AreStops stops) {done ps : List Part} (h : Fills stops f (done ++ ps))
    {before before' : Text} (hedge : before.head?.any isWordCharacter = before'.head?.any isWordCharacter) :
    ((render done).reverse ++ before).head?.any isWordCharacter =
        ((spell f done).reverse ++ before').head?.any isWordCharacter ∨
      (render ps).head?.any isWordCharacter = false := by
  have hmark := hstops.word mark hstops.mark
  have hnewline : isWordCharacter '\n' = false := by decide
  rcases List.eq_nil_or_concat done with rfl | ⟨done, p, rfl⟩
  · exact .inl hedge
  · cases p with
    | code c => exact .inl (by simp [Part.text])
    | held n =>
      have hpart : done.concat (.held n) ++ ps = done ++ .held n :: ps := by simp
      rcases h.apart done n ps hpart with ⟨c, hc, hstop⟩ | hnext
      · obtain ⟨t, ht⟩ := List.getLast?_eq_some_iff.1 hc
        exact .inl (by simp [Part.text, placeholder, ht, hmark, hstops.word c hstop])
      · right
        cases ps with
        | nil => rfl
        | cons q ps =>
          obtain rfl := hnext q rfl
          exact hnewline

/-- Cutting a masked text commutes with filling its placeholders, if nothing is found in those that are
copied. -/
theorem pieces_filled (hstops : AreStops stops) (hM : RespectsFilling stops f matcher V) {Q : Part → Prop}
    (hcode : ∀ c, Q (.code c)) {before before' : Text}
    (hedge : before.head?.any isWordCharacter = before'.head?.any isWordCharacter) (done : List Part)
    {ps : List Part} (hps : Fills stops f (done ++ ps))
    (hQ : ∀ n, .held n ∈ ps → Q (.held n) → Quiet stops matcher (f n))
    (fresh fresh' : Bool) :
    ∃ ks, Sound ks ∧ ks.Sublist ps ∧
      (Cut.pieces matcher 0 fresh ((render done).reverse ++ before) (render ps)).flatMap leftOver = render ks ∧
      ((∀ n, .held n ∈ ks → Q (.held n)) → FilledCuts f V Q before before' done ps
        (Cut.pieces matcher 0 fresh ((render done).reverse ++ before) (render ps))
        (Cut.pieces matcher 0 fresh' ((spell f done).reverse ++ before') (spell f ps))) := by
  -- the induction is on the number of parts, since a match takes several of them
  induction hlen : ps.length using Nat.strongRecOn generalizing done ps fresh fresh' with
  | ind len ih =>
    have hleft (t : Text) (cs : List (Cut α)) :
        (t.map Cut.copied ++ cs).flatMap leftOver = t ++ cs.flatMap leftOver := by
      induction t with
      | nil => rfl
      | cons c t ih => exact congrArg (c :: ·) ih
    cases ps with
    | nil =>
      rw [render_nil, spell_nil, Cut.pieces_nil (hM.nil _), Cut.pieces_nil (hM.nil _)]
      exact ⟨[], List.not_mem_nil, .slnil, rfl, fun _ => .nil done⟩
    | cons p ps =>
      have hnext : Fills stops f (done ++ [p] ++ ps) := by simpa using hps
      have hbehind (p : Part) (before : Text) :
          (render (done ++ [p])).reverse ++ before = p.text.reverse ++ ((render done).reverse ++ before) := by
        simp
      have hbehind' (p : Part) (before : Text) :
          (spell f (done ++ [p])).reverse ++ before = (p.spelled f).reverse ++ ((spell f done).reverse ++ before) := by
        simp
      have hsub {n : Nat} (hn : .held n ∈ ps) : .held n ∈ p :: ps := List.mem_cons_of_mem p hn
      obtain ⟨hp, hrest⟩ := sound_cons.1 hps.right.sound
      obtain ⟨ks, hks, hsublist, hcopied, hcuts⟩ :=
        ih ps.length (by simp [← hlen]) (done ++ [p]) hnext (fun n hn => hQ n (hsub hn)) true true rfl
      rw [hbehind, hbehind'] at hcuts
      rw [hbehind] at hcopied
      cases p with
      | held n =>
        have hheld : .held n ∈ Part.held n :: ps := List.mem_cons_self
        obtain ⟨c, hc, t, ht⟩ := hps.right.starts n hheld
        refine ⟨.held n :: ks, sound_cons.2 ⟨by simp, hks⟩, hsublist.cons_cons _, ?_, fun hall => ?_⟩
        · rw [render_cons, Part.text, pieces_placeholder hM.start, hleft]
          exact congrArg (placeholder n ++ ·) hcopied
        · obtain ⟨hn, hall⟩ : Q (.held n) ∧ ∀ m, .held m ∈ ks → Q (.held m) :=
            ⟨hall n List.mem_cons_self, fun m hm => hall m (List.mem_cons_of_mem _ hm)⟩
          have hcut := (hQ n hheld hn).pieces (by simp [ht]) hps.right.endsApart fresh'
            ((spell f done).reverse ++ before')
          rw [render_cons, Part.text, pieces_placeholder hM.start, spell_cons, Part.spelled_held, hcut]
          exact .kept hn (hcuts hall)
      | code c =>
        rcases hM.filled (hps.edges hstops hedge) hps.right with
          ⟨hnone, hnone'⟩ | ⟨qs, rs, v, v', hqs, hne, hsome, hsome', hv⟩
        · refine ⟨.code c :: ks, sound_cons.2 ⟨hp, hks⟩, hsublist.cons_cons _, ?_, fun hall => ?_⟩
          · rw [show render (.code c :: ps) = c :: render ps from rfl] at hnone ⊢
            rw [Cut.pieces_none hnone]
            exact congrArg (c :: ·) hcopied
          · rw [show render (.code c :: ps) = c :: render ps from rfl] at hnone ⊢
            rw [show spell f (.code c :: ps) = c :: spell f ps from rfl] at hnone' ⊢
            rw [Cut.pieces_none hnone, Cut.pieces_none hnone']
            exact .kept (hcode c) (hcuts fun m hm => hall m (List.mem_cons_of_mem _ hm))
        · have hlength : rs.length < len := by
            have := congrArg List.length hqs
            have hpos := List.length_pos_iff.2 hne
            simp only [List.length_cons, List.length_append] at this hlen
            omega
          have hmem {n : Nat} (hn : .held n ∈ rs) : .held n ∈ Part.code c :: ps := by
            rw [hqs]
            exact List.mem_append_right _ hn
          rw [hqs] at hps hsome hsome' ⊢
          obtain ⟨ks, hks, hsublist, hcopied, hcuts⟩ := ih rs.length hlength (done ++ qs) (by simpa using hps)
            (fun n hn => hQ n (hmem hn)) false false rfl
          have htaken : render qs ≠ [] ∧ spell f qs ≠ [] := by
            obtain ⟨q, qs, rfl⟩ := List.exists_cons_of_ne_nil hne
            cases q with
            | code d => exact ⟨List.cons_ne_nil _ _, List.cons_ne_nil _ _⟩
            | held n =>
              obtain ⟨d, -, t, ht⟩ := hps.right.starts n List.mem_cons_self
              exact ⟨List.cons_ne_nil _ _, by simp [ht]⟩
          rw [render_append, List.reverse_append, List.append_assoc] at hcuts hcopied
          rw [spell_append, List.reverse_append, List.append_assoc] at hcuts
          rw [render_append] at hsome ⊢
          rw [spell_append] at hsome' ⊢
          rw [Cut.pieces_some hsome htaken.1, Cut.pieces_some hsome' htaken.2]
          exact ⟨ks, hks, hsublist.trans (List.sublist_append_right qs rs), hcopied, fun hall => .found hv (hcuts hall)⟩

/-- Cutting a whole masked text commutes with filling its placeholders. -/
theorem cut_filled (hstops : AreStops stops) (hM : RespectsFilling stops f matcher V) {Q : Part → Prop}
    (hcode : ∀ c, Q (.code c)) {ps : List Part} (hps : Fills stops f ps)
    (hQ : ∀ n, .held n ∈ ps → Q (.held n) → Quiet stops matcher (f n)) :
    ∃ ks, Sound ks ∧ ks.Sublist ps ∧ (cut matcher (render ps)).flatMap leftOver = render ks ∧
      ((∀ n, .held n ∈ ks → Q (.held n)) →
        FilledCuts f V Q [] [] [] ps (cut matcher (render ps)) (cut matcher (spell f ps))) := by
  have hedge : ([] : Text).head?.any isWordCharacter = ([] : Text).head?.any isWordCharacter := rfl
  exact pieces_filled hstops hM hcode hedge [] hps hQ true true

/-- The first matches of corresponding cuts correspond. -/
theorem FilledCuts.find? {Q : Part → Prop} {before before' : Text} {done ps : List Part} {cs cs' : List (Cut α)}
    (h : FilledCuts f V Q before before' done ps cs cs') :
    (cs.find? (·.match?.isSome) = none ∧ cs'.find? (·.match?.isSome) = none) ∨
    ∃ pre qs rs v v', ps = pre ++ (qs ++ rs) ∧ V qs v v' ∧
      cs.find? (·.match?.isSome) =
        some (.found ⟨(render (done ++ pre)).reverse ++ before, render qs, render rs, v⟩) ∧
      cs'.find? (·.match?.isSome) =
        some (.found ⟨(spell f (done ++ pre)).reverse ++ before', spell f qs, spell f rs, v'⟩) := by
  have hcopied (t : Text) (cs : List (Cut α)) :
      (t.map Cut.copied ++ cs).find? (·.match?.isSome) = cs.find? (·.match?.isSome) := by
    induction t with
    | nil => rfl
    | cons c t ih => exact ih
  induction h with
  | nil done => exact .inl ⟨rfl, rfl⟩
  | @kept done ps cs cs' p hp h ih =>
    rw [hcopied, hcopied]
    refine ih.imp_right ?_
    rintro ⟨pre, qs, rs, v, v', rfl, hv, hfind, hfind'⟩
    refine ⟨p :: pre, qs, rs, v, v', rfl, hv, ?_, ?_⟩
    · rw [hfind, List.append_assoc, List.singleton_append]
    · rw [hfind', List.append_assoc, List.singleton_append]
  | @found done qs rs v v' cs cs' hv h ih =>
    refine .inr ⟨[], qs, rs, v, v', rfl, hv, ?_, ?_⟩
    · rw [List.append_nil]
      rfl
    · rw [List.append_nil]
      rfl

/-- Replacing the first match, where no placeholder stands in it, commutes with filling. -/
theorem replaceFirst_filled (hstops : AreStops stops) (hM : RespectsFilling stops f matcher V)
    (hV : ∀ {qs v v'}, V qs v v' → numbers qs = []) {w : Text} (hw : mark ∉ w) {ps : List Part}
    (hps : Fills stops f ps) (hquiet : ∀ n, .held n ∈ ps → Quiet stops matcher (f n)) :
    ∃ ws, Sound ws ∧ numbers ws = numbers ps ∧ replaceFirst matcher w (render ps) = render ws ∧
      replaceFirst matcher w (spell f ps) = spell f ws := by
  obtain ⟨ks, -, -, -, hcuts⟩ := cut_filled (Q := fun _ => True) hstops hM (fun _ => trivial) hps
    fun n hn _ => hquiet n hn
  have hcuts := hcuts fun _ _ => trivial
  unfold replaceFirst
  rcases hcuts.find? with ⟨hnone, hnone'⟩ | ⟨pre, qs, rs, v, v', rfl, hv, hfind, hfind'⟩
  · rw [hnone, hnone']
    exact ⟨ps, hps.sound, rfl, rfl, rfl⟩
  · rw [hfind, hfind']
    refine ⟨pre ++ (w.map .code ++ rs), ?_, ?_, ?_, ?_⟩
    · refine sound_append.2 ⟨hps.left.sound, sound_append.2 ⟨?_, hps.right.right.sound⟩⟩
      simpa [Sound] using hw
    · simp [hV hv]
    · simp [render_map_code]
    · simp

end Masked

end DialectBridge
