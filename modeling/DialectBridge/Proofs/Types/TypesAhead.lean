import DialectBridge.Proofs.Types.LaterChanges

/-!
# Types in front of a cut

A text is cut behind an opening parenthesis or a comma. As long as no type reaches over the cut, the types
in front of it do not depend on what follows (`pieces_ahead`), be it the text that followed, the same text
behind a new placeholder, or nothing.
-/

namespace DialectBridge

open Masked

/-- The text ends in an opening parenthesis or a comma. -/
def EndsInSign (t : Text) : Prop :=
  t.getLast? = some '(' ∨ t.getLast? = some ','

namespace EndsInSign

variable {f x y : Text} {c : Char}

theorem ne_nil (h : EndsInSign f) : f ≠ [] := by
  rintro rfl
  rcases h with h | h <;> cases h

/-- The sign is at the end of the last part. -/
theorem right (h : EndsInSign (x ++ y)) (hy : y ≠ []) : EndsInSign y := by
  have hlast := List.getLast?_eq_some_getLast hy
  unfold EndsInSign at h ⊢
  rwa [List.getLast?_append, hlast, Option.some_or, ← hlast] at h

/-- Behind another character the text goes on. -/
theorem tail (h : EndsInSign (x ++ c :: y)) (hopen : c ≠ '(') (hcomma : c ≠ ',') : EndsInSign y := by
  have h := h.right (List.cons_ne_nil c y)
  cases y with
  | nil =>
    rcases h with h | h
    · exact absurd (Option.some.inj h) hopen
    · exact absurd (Option.some.inj h) hcomma
  | cons d y => exact h.right (x := [c]) (List.cons_ne_nil d y)

theorem reverse (h : EndsInSign f) : ∃ c t, f.reverse = c :: t ∧ (c = '(' ∨ c = ',') := by
  rcases h with h | h
  · obtain ⟨t, ht⟩ := List.head?_eq_some_iff.1 (List.head?_reverse.trans h)
    exact ⟨_, t, ht, .inl rfl⟩
  · obtain ⟨t, ht⟩ := List.head?_eq_some_iff.1 (List.head?_reverse.trans h)
    exact ⟨_, t, ht, .inr rfl⟩

theorem mem (h : EndsInSign f) : '(' ∈ f ∨ ',' ∈ f :=
  h.imp List.mem_of_getLast? List.mem_of_getLast?

/-- What follows the sign does not change which character comes first. -/
theorem head?_append (h : EndsInSign f) (x y : Text) : (f ++ x).head? = (f ++ y).head? := by
  obtain ⟨c, f, rfl⟩ := List.exists_cons_of_ne_nil h.ne_nil
  rfl

/-- The sign is no blank. -/
theorem head?_trimStart (h : EndsInSign f) (x y : Text) :
    (Text.trimStart (f ++ x)).head? = (Text.trimStart (f ++ y)).head? := by
  induction f with
  | nil => exact absurd rfl h.ne_nil
  | cons c f ih =>
    unfold Text.trimStart at ih ⊢
    rw [List.cons_append, List.cons_append, List.dropWhile_cons, List.dropWhile_cons]
    split
    · next hblank =>
      refine ih (h.tail (x := []) ?_ ?_)
      · rintro rfl
        exact absurd hblank (by decide)
      · rintro rfl
        exact absurd hblank (by decide)
    · rfl

theorem not_blank (h : EndsInSign f) : ∃ c ∈ f, isBlank c = false := by
  rcases h.mem with hc | hc
  · exact ⟨_, hc, by decide⟩
  · exact ⟨_, hc, by decide⟩

end EndsInSign

namespace TypeRule

open Pattern

/-! ## Sites in front of the cut -/

/-- The sites stand at the same place in front of a cut; behind it different texts may follow. -/
structure Ahead (back back' : Text) (s s' : Site) : Prop where
  before : s.before = s'.before
  captured : s.captured = s'.captured
  after : ∃ f, EndsInSign f ∧ s.after = f ++ back ∧ s'.after = f ++ back'

theorem inStep_ahead {back back' : Text} : InStep ['(', ','] (Ahead back back') where
  edge := by
    rintro s s' ⟨hbefore, -, f, hf, hs, hs'⟩
    rw [Site.isEdge, Site.isEdge, hbefore, hs, hs', hf.head?_append back back']
  lineEnd := by
    rintro s s' ⟨-, -, f, hf, hs, hs'⟩
    rw [Site.isLineEnd, Site.isLineEnd, hs, hs', hf.head?_append back back']
  step := by
    rintro s s' ⟨hbefore, hcaptured, f, hf, hs, hs'⟩
    obtain ⟨c, f, rfl⟩ := List.exists_cons_of_ne_nil hf.ne_nil
    by_cases hc : c ∈ ['(', ',']
    · refine .inr ⟨?_, ?_⟩
      · simpa [hs] using hc
      · simpa [hs'] using hc
    · have hrest : EndsInSign f := by
        refine hf.tail (x := []) ?_ ?_ <;> rintro rfl <;> exact hc (by simp)
      exact .inl ⟨c, f ++ back, f ++ back', hc, hs, hs', congrArg (c :: ·) hbefore, hcaptured, f, hrest, rfl, rfl⟩

/-- Arguments that go on over the cut: the second text closes them only where the first one does, and up to
the numbers of placeholders the same follows. The first thing in it that is no blank is a placeholder. -/
structure Detached (back back' : Text) : Prop where
  start : ∀ c ∈ (Text.trimStart back').head?, c = mark
  closes {y z : Text} (h : back' = y ++ ')' :: z) (hopen : '(' ∉ y) (hclose : ')' ∉ y) :
    ∃ as zs, Sound zs ∧ back = render as ++ ')' :: render zs ∧ '(' ∉ render as ∧ ')' ∉ render as ∧
      z = render (zs.map Part.later)

variable {back back' : Text} {Q : Site → Site → Prop} {far : Site → Prop} {s s' : Site}
  {next next' : Site → Option Site}

/-- If the first parenthesis does not stand in the first part, it stands in the second one. -/
theorem append_paren_behind {f b x z : Text} (h : f ++ b = x ++ ')' :: z) (hf : ')' ∉ f) :
    ∃ y, x = f ++ y ∧ b = y ++ ')' :: z := by
  rcases List.append_eq_append_iff.1 h with h | ⟨u, rfl, hu⟩
  · exact h
  · cases u with
    | nil => exact ⟨[], by simp, hu.symm⟩
    | cons c u =>
      obtain ⟨rfl, -⟩ := List.cons.inj hu
      exact absurd (by simp) hf

theorem head?_trimStart_paren (y z : Text) :
    ∃ d ∈ y ++ [')'], (Text.trimStart (y ++ ')' :: z)).head? = some d := by
  induction y with
  | nil => exact ⟨')', by simp, rfl⟩
  | cons c y ih =>
    unfold Text.trimStart at ih ⊢
    rw [List.cons_append, List.cons_append, List.dropWhile_cons]
    split
    · obtain ⟨d, hd, hhead⟩ := ih
      exact ⟨d, List.mem_cons_of_mem _ hd, hhead⟩
    · exact ⟨c, List.mem_cons_self, rfl⟩

/-- A pattern that goes up to the first closing parenthesis takes the same in front of the cut, if it leads
over it in the first text wherever it does so in the second one. -/
theorem run_closing_ahead {q : Pattern} (hq : Closing q) (hfree : q.captureFree = true)
    (hcross : ∀ {f b c t'}, EndsInSign f → ')' ∉ f → Reaches q ⟨b, f ++ back', c⟩ t' →
      ∃ t, Reaches q ⟨b, f ++ back, c⟩ t ∧ Renumbered (fun _ _ => True) t t')
    (hahead : ∀ {t t'}, Ahead back back' t t' → s.textUpTo t = s'.textUpTo t' → Agree Q far (next t) (next' t'))
    (hfar : ∀ {t out}, t.after.length < back.length → next t = .some out → far out)
    (hbehind : ∀ {t t'}, Renumbered (fun _ _ => True) t t' → next t = .none → next' t' = .none)
    (h : Ahead back back' s s') : Agree Q far (run q s next) (run q s' next') := by
  obtain ⟨before, after, captured⟩ := s
  obtain ⟨before', after', captured'⟩ := s'
  obtain ⟨hbefore, hcaptured, f, hf, hs, hs'⟩ := h
  obtain rfl : before = before' := hbefore
  obtain rfl : captured = captured' := hcaptured
  obtain rfl : after = f ++ back := hs
  obtain rfl : after' = f ++ back' := hs'
  by_cases hclose : ')' ∈ f
  · -- the pattern can only stop at the first parenthesis, and that stands in front of the cut
    obtain ⟨x, g, rfl, hx⟩ := List.eq_append_cons_of_mem hclose
    have hg : EndsInSign g := hf.tail (by decide) (by decide)
    have hsite {rest : Text} {t : Site} (ht : Reaches q ⟨before, (x ++ ')' :: g) ++ rest, captured⟩ t) :
        t = ⟨(x ++ [')']).reverse ++ before, g ++ rest, captured⟩ := by
      obtain ⟨y, hy, hnot, ht⟩ := hq ht
      have hy : x ++ ')' :: (g ++ rest) = y ++ ')' :: t.after := by simpa using hy
      obtain ⟨rfl, hafter⟩ := append_paren_inj hy hx hnot
      rw [ht, ← hafter]
    have hmoved {rest rest' : Text} {t : Site}
        (ht : Reaches q ⟨before, (x ++ ')' :: g) ++ rest, captured⟩ t) :
        Reaches q ⟨before, (x ++ ')' :: g) ++ rest', captured⟩
          ⟨(x ++ [')']).reverse ++ before, g ++ rest', captured⟩ := by
      have hlike : t.after.head? = (g ++ rest').head? := by
        rw [hsite ht]
        exact hg.head?_append rest rest'
      have htaken : (x ++ ')' :: g) ++ rest = (x ++ [')']) ++ t.after := by simp [hsite ht]
      have hmoved : Reaches q ⟨before, (x ++ [')']) ++ (g ++ rest'), captured⟩
          ⟨(x ++ [')']).reverse ++ before, g ++ rest', captured⟩ := ht.moved hfree htaken rfl hlike
      simpa using hmoved
    by_cases hreach : ∃ t, Reaches q ⟨before, (x ++ ')' :: g) ++ back, captured⟩ t
    · obtain ⟨t, ht⟩ := hreach
      have ht' : Reaches q ⟨before, (x ++ ')' :: g) ++ back', captured⟩ _ := hmoved ht
      have htext (rest : Text) : Site.textUpTo ⟨before, (x ++ ')' :: g) ++ rest, captured⟩
          ⟨(x ++ [')']).reverse ++ before, g ++ rest, captured⟩ = x ++ [')'] := textUpTo_eq (by simp)
      rw [hq.run_eq ht, hq.run_eq ht', hsite ht]
      refine hahead ⟨rfl, rfl, g, hg, rfl, rfl⟩ ?_
      rw [htext, htext]
    · rw [run_of_not_reaches fun t ht => hreach ⟨t, ht⟩, run_of_not_reaches fun t ht => hreach ⟨_, hmoved ht⟩]
      exact .none
  · cases hrun : run q ⟨before, f ++ back, captured⟩ next with
    | none =>
      cases hrun' : run q ⟨before, f ++ back', captured⟩ next' with
      | none => exact .none
      | some out =>
        obtain ⟨t', ht', hout⟩ := run_reaches hrun'
        obtain ⟨t, ht, hlike⟩ := hcross hf hclose ht'
        rw [hq.run_eq ht] at hrun
        rw [hbehind hlike hrun] at hout
        cases hout
    | some out =>
      obtain ⟨t, ht, hout⟩ := run_reaches hrun
      obtain ⟨x, hx, -⟩ := hq ht
      refine .far (hfar ?_ hout)
      obtain ⟨y, -, hback⟩ := append_paren_behind hx hclose
      have := congrArg List.length hback
      simp only [List.length_append, List.length_cons] at this
      omega

/-- Sizes and scales do not go on over a placeholder. -/
theorem not_reaches_over {q : Pattern} (hd : Detached back back') (hq : Closing q) (hmark : q.avoids mark = true)
    {f b : Text} {c : List (Nat × Text)} {t' : Site} (hclose : ')' ∉ f) :
    ¬ Reaches q ⟨b, f ++ back', c⟩ t' := by
  intro h
  obtain ⟨x, hx, -⟩ := hq h
  obtain ⟨taken, htaken, -, hnot⟩ := h.avoids hmark
  obtain rfl : taken = x ++ [')'] := by
    refine List.append_cancel_right (htaken.symm.trans (hx.trans ?_))
    simp
  obtain ⟨y, rfl, hback⟩ := append_paren_behind hx hclose
  obtain ⟨d, hd', hhead⟩ := head?_trimStart_paren y t'.after
  rw [← hback] at hhead
  obtain rfl := hd.start d hhead
  refine hnot ?_
  rw [List.append_assoc]
  exact List.mem_append_right _ hd'

theorem cross_anyArguments (hd : Detached back back') {f b : Text} {c : List (Nat × Text)} {t' : Site}
    (hf : EndsInSign f) (hclose : ')' ∉ f) (h : Reaches anyArguments ⟨b, f ++ back', c⟩ t') :
    ∃ t, Reaches anyArguments ⟨b, f ++ back, c⟩ t ∧ Renumbered (fun _ _ => True) t t' := by
  obtain ⟨g, y, htext, hg, hopen, hshut⟩ := reaches_anyArguments h
  -- the arguments are opened in front of the cut, since the sign there is no blank
  obtain ⟨d, hd', hblank⟩ := hf.not_blank
  have hlast : ¬ ∀ c ∈ f, isBlank c = true := fun hall => by
    rw [hall d hd'] at hblank
    cases hblank
  obtain ⟨w, rfl, hw⟩ : ∃ w, f = g ++ '(' :: w ∧ y ++ ')' :: t'.after = w ++ back' := by
    rcases List.append_eq_append_iff.1 (show f ++ back' = g ++ _ from htext) with ⟨u, rfl, -⟩ | ⟨u, rfl, hu⟩
    · exact absurd (fun c hc => hg c (List.mem_append_left _ hc)) hlast
    · cases u with
      | nil => exact absurd (by simpa using hg) hlast
      | cons e w =>
        obtain ⟨rfl, hw⟩ := List.cons.inj hu
        exact ⟨w, rfl, hw⟩
  obtain ⟨v, rfl, hback⟩ := append_paren_behind hw.symm fun hc => hclose (by simp [hc])
  rw [List.mem_append, not_or] at hopen hshut
  obtain ⟨as, zs, hzs, rfl, hopen', hshut', hrest⟩ := hd.closes hback hopen.2 hshut.2
  have hwhole : g ++ '(' :: w ++ (render as ++ ')' :: render zs) =
      g ++ '(' :: (w ++ render as ++ ')' :: render zs) := by simp
  obtain ⟨t, ht, hafter⟩ := reaches_anyArguments_of_eq
    (s := ⟨b, g ++ '(' :: w ++ (render as ++ ')' :: render zs), c⟩) hwhole hg (by simp [hopen.1, hopen'])
    (by simp [hshut.1, hshut'])
  obtain ⟨x, -, -, hsite⟩ := closing_anyArguments ht
  obtain ⟨x', -, -, hsite'⟩ := closing_anyArguments h
  refine ⟨t, ht, ?_, trivial, zs, hzs, hafter, hrest⟩
  rw [hsite, hsite']
  simp

/-- A rule passes the same arguments in front of the cut. -/
theorem run_middle_ahead (hd : Detached back back') {q : Pattern} (hq : IsMiddle q) (h : Ahead back back' s s')
    (hahead : ∀ {t t'}, Ahead back back' t t' → Agree Q far (next t) (next' t'))
    (hfar : ∀ {t out}, t.after.length < back.length → next t = .some out → far out)
    (hbehind : ∀ {t t'}, Renumbered (fun _ _ => True) t t' → next t = .none → next' t' = .none) :
    Agree Q far (run q s next) (run q s' next') := by
  have hcapture {q : Pattern} (hq : Closing q) (hfree : q.captureFree = true)
      (hcross : ∀ {f b c t'}, EndsInSign f → ')' ∉ f → Reaches q ⟨b, f ++ back', c⟩ t' →
        ∃ t, Reaches q ⟨b, f ++ back, c⟩ t ∧ Renumbered (fun _ _ => True) t t') :
      Agree Q far (run (capture 1 q) s next) (run (capture 1 q) s' next') := by
    show Agree Q far (run q s fun t => next ⟨t.before, t.after, (1, s.textUpTo t) :: t.captured⟩)
      (run q s' fun t => next' ⟨t.before, t.after, (1, s'.textUpTo t) :: t.captured⟩)
    refine run_closing_ahead hq hfree hcross (fun ht htext => ?_) (fun {t out} hlt hout => ?_)
      (fun {t t'} ht hnone => ?_) h
    · rw [← htext]
      exact hahead ⟨ht.before, congrArg (_ :: ·) ht.captured, ht.after⟩
    · exact hfar (t := ⟨t.before, t.after, (1, s.textUpTo t) :: t.captured⟩) hlt hout
    · have hsites : Renumbered (fun _ _ => True) ⟨t.before, t.after, (1, s.textUpTo t) :: t.captured⟩
          ⟨t'.before, t'.after, (1, s'.textUpTo t') :: t'.captured⟩ := ⟨ht.edge, trivial, ht.after⟩
      exact hbehind hsites hnone
  cases hq with
  | size hy =>
    obtain ⟨hclosing, hmark, hfree⟩ := sizePattern_spec hy
    exact run_closing_ahead hclosing hfree (fun _ hclose ht => absurd ht (not_reaches_over hd hclosing hmark hclose))
      (fun ht _ => hahead ht) hfar hbehind h
  | scale =>
    exact hcapture closing_scaleArguments rfl fun _ hclose ht =>
      absurd ht (not_reaches_over hd closing_scaleArguments (by decide +kernel) hclose)
  | any => exact hcapture closing_anyArguments rfl (cross_anyArguments hd)
  | optional => exact (hcapture closing_anyArguments rfl (cross_anyArguments hd)).orElse (hahead h)

/-- A rule leads to the same places in front of the cut, unless it leads over it. -/
theorem run_ahead (hd : Detached back back') {r : TypeRule} (hshape : r.Shape) (hsteady : r.isSteady = true)
    (h : Ahead back back' s s') : Agree (Ahead back back') (fun t => t.after.length < back.length)
      (run r.pattern s .some) (run r.pattern s' .some) := by
  obtain ⟨havoids, hlead, hback⟩ := isSteady_iff.1 hsteady
  have hsigns : ∀ c ∈ ['(', ','], c ∈ ['(', ',', mark] := by simp
  rw [run_pattern hshape, run_pattern hshape]
  refine run_inStep inStep_ahead (fun c hc => (havoids c (hsigns c hc)).1) hlead h fun ht => ?_
  refine run_middle_ahead hd (isMiddle hshape) ht (fun hu => ?_) (fun hlt hout => ?_) fun hu hnone => ?_
  · exact run_inStep inStep_ahead (fun c hc => (havoids c (hsigns c hc)).2) hback hu .some
  · obtain ⟨u, hreach, hu⟩ := run_reaches hout
    obtain rfl := Option.some.inj hu
    obtain ⟨x, hx, -⟩ := hreach.split
    have := congrArg List.length hx
    rw [List.length_append] at this
    omega
  · have hagree : Agree (Renumbered fun _ _ => True) (fun _ => False) _ _ :=
      run_inStep inStep_renumbered (by simpa using (havoids mark (by simp)).2) hback hu .some
    rw [hnone] at hagree
    exact hagree.eq_none

end TypeRule

namespace TypeTable

open TypeRule

section

variable {types : TypeTable} {back back' f : Text}

/-! ## Matches in front of the cut -/

/-- Nothing is found in both texts, or a match that reaches over the text `f` is found in the first one,
or the same match is found in both and a part of `f` is left. -/
inductive FindsAhead (f : Text) : Option (Text × RuleMatch) → Option (Text × RuleMatch) → Prop
  | none : FindsAhead f none none
  | beyond {taken : Text} {m : RuleMatch} {found : Option (Text × RuleMatch)} (h : f.length < taken.length) :
    FindsAhead f (some (taken, m)) found
  | same {taken g : Text} {m : RuleMatch} (hne : taken ≠ []) (hf : f = taken ++ g) (hg : EndsInSign g) :
    FindsAhead f (some (taken, m)) (some (taken, m))

theorem FindsAhead.of_none {found' : Option (Text × RuleMatch)} (h : FindsAhead f .none found') :
    found' = .none := by
  cases h
  rfl

theorem FindsAhead.of_some {found' : Option (Text × RuleMatch)} {taken : Text} {m : RuleMatch}
    (h : FindsAhead f (.some (taken, m)) found') (hlen : taken.length ≤ f.length) :
    taken ≠ [] ∧ ∃ g, f = taken ++ g ∧ EndsInSign g ∧ found' = .some (taken, m) := by
  cases h with
  | beyond hlong => omega
  | same hne hf hg => exact ⟨hne, _, hf, hg, rfl⟩

/-- In front of the cut a rule finds the same, unless it reaches over the cut. -/
theorem rule_ahead (ht : types.IsSteady) (hd : Detached back back') {r : TypeRule} (hr : r ∈ types.rules)
    (hf : EndsInSign f) (before : Text) :
    FindsAhead f (tryRule before (f ++ back) r) (tryRule before (f ++ back') r) := by
  have hnull : r.pattern.nullable = false := by
    have := ht.regular r hr
    simp only [TypeRule.isRegular, Bool.and_eq_true, Bool.not_eq_true'] at this
    exact this.1.1.2
  have hsites : Ahead back back' ⟨before, f ++ back, []⟩ ⟨before, f ++ back', []⟩ :=
    ⟨rfl, rfl, f, hf, rfl, rfl⟩
  have hagree := run_ahead hd (ht.shape r hr).2 (ht.steady r hr) hsites
  have hsome {after : Text} {t : Pattern.Site} (h : r.pattern.run ⟨before, after, []⟩ .some = some t) :
      ∃ taken, taken ≠ [] ∧ after = taken ++ t.after ∧ r.pattern.matcher before after = some (taken, t.captured) := by
    obtain ⟨u, hreach, hu⟩ := Pattern.run_reaches h
    obtain rfl := Option.some.inj hu
    obtain ⟨taken, hafter, -⟩ := hreach.split
    have hmatch : r.pattern.matcher before after = some (taken, u.captured) := by
      rw [Pattern.matcher, h, Option.map_some, Pattern.textUpTo_eq hafter]
    obtain ⟨c, x, rfl, -⟩ := Pattern.matcher_start hnull hmatch
    exact ⟨c :: x, List.cons_ne_nil c x, hafter, hmatch⟩
  cases ho : r.pattern.run ⟨before, f ++ back, []⟩ .some with
  | none =>
    rw [ho] at hagree
    have hnone : tryRule before (f ++ back) r = none := by rw [tryRule, Pattern.matcher, ho]; rfl
    have hnone' : tryRule before (f ++ back') r = none := by rw [tryRule, Pattern.matcher, hagree.eq_none]; rfl
    rw [hnone, hnone']
    exact .none
  | some t =>
    obtain ⟨taken, hne, hafter, hmatch⟩ := hsome ho
    rw [tryRule, tryRule, hmatch]
    rw [ho] at hagree
    generalize ho' : r.pattern.run ⟨before, f ++ back', []⟩ .some = o' at hagree
    cases hagree with
    | far hlt =>
      refine .beyond (show f.length < taken.length from ?_)
      have := congrArg List.length hafter
      simp only [List.length_append] at this
      omega
    | some h =>
      obtain ⟨taken', -, hafter', hmatch'⟩ := hsome ho'
      obtain ⟨-, hcaptured, g, hg, htext, htext'⟩ := h
      rw [htext, ← List.append_assoc] at hafter
      rw [htext', ← List.append_assoc] at hafter'
      have hsplit := List.append_cancel_right hafter
      have hsplit' := List.append_cancel_right hafter'
      obtain rfl : taken' = taken := List.append_cancel_right (hsplit'.symm.trans hsplit)
      rw [hmatch', ← hcaptured]
      exact .same hne hsplit hg

/-- In front of the cut the table finds the same, unless it reaches over the cut. -/
theorem matcher_ahead (ht : types.IsSteady) (hd : Detached back back') (hf : EndsInSign f) (before : Text) :
    FindsAhead f (types.matcher before (f ++ back)) (types.matcher before (f ++ back')) := by
  rw [matcher_eq, matcher_eq]
  have hrules (rules : List TypeRule) (hsub : ∀ r ∈ rules, r ∈ types.rules) :
      FindsAhead f (rules.findSome? (tryRule before (f ++ back))) (rules.findSome? (tryRule before (f ++ back'))) := by
    induction rules with
    | nil => exact .none
    | cons r rules ih =>
      obtain ⟨hr, hsub⟩ := List.forall_mem_cons.1 hsub
      have hrule := rule_ahead ht hd hr hf before
      rw [List.findSome?_cons, List.findSome?_cons]
      generalize tryRule before (f ++ back) r = found at hrule
      generalize tryRule before (f ++ back') r = found' at hrule
      cases hrule with
      | none => exact ih hsub
      | beyond h => exact .beyond h
      | same hne hf hg => exact .same hne hf hg
  exact hrules types.rules fun _ h => h

/-- The pieces in front of a cut, with `back` and with `back'` behind it. -/
inductive SameAhead (back back' : Text) : List (Cut RuleMatch) → List (Cut RuleMatch) → Prop
  | nil : SameAhead back back' [] []
  | copied (c : Char) {cs cs' : List (Cut RuleMatch)} (h : SameAhead back back' cs cs') :
    SameAhead back back' (.copied c :: cs) (.copied c :: cs')
  | found {before x g : Text} {m : RuleMatch} {cs cs' : List (Cut RuleMatch)} (hg : EndsInSign g)
      (h : SameAhead back back' cs cs') :
      SameAhead back back' (.found ⟨before, x, g ++ back, m⟩ :: cs) (.found ⟨before, x, g ++ back', m⟩ :: cs')

/-- What stands in front of the cut is converted in the same way. -/
theorem SameAhead.converted {cs cs' : List (Cut RuleMatch)} (h : SameAhead back back' cs cs') :
    cs.flatMap convertedPiece = cs'.flatMap convertedPiece ∧ changesOf cs = changesOf cs' := by
  induction h with
  | nil => exact ⟨rfl, rfl⟩
  | copied c h ih => exact ⟨congrArg (c :: ·) ih.1, ih.2⟩
  | @found before x g m cs cs' hg h ih =>
    have hchange : change? ⟨before, x, g ++ back, m⟩ = change? ⟨before, x, g ++ back', m⟩ := by
      rw [change?_eq, change?_eq]
      simp only [isNamePlace_congr ⟨rfl, rfl⟩ (hg.head?_trimStart back back')]
      rfl
    constructor
    · rw [List.flatMap_cons, List.flatMap_cons, ih.1, convertedPiece, convertedPiece, hchange]
    · rw [changesOf_found, changesOf_found, ih.2, hchange]

/-- A piece that was found leaves a part of the text in front of the cut. -/
theorem SameAhead.after {cs cs' : List (Cut RuleMatch)} (h : SameAhead back back' cs cs') {m : Match RuleMatch}
    (hm : Cut.found m ∈ cs) : ∃ g, EndsInSign g ∧ m.after = g ++ back := by
  induction h with
  | nil => cases hm
  | copied c h ih => exact ih (by simpa using hm)
  | found hg h ih =>
    rcases List.mem_cons.1 hm with heq | hm
    · cases heq
      exact ⟨_, hg, rfl⟩
    · exact ih hm

theorem detached_nil (back : Text) : Detached back [] where
  start := by simp [Text.trimStart]
  closes h := by simp at h

/-- The pieces up to the cut do not depend on what follows it, if no match reaches over the cut. -/
theorem pieces_ahead (ht : types.IsSteady) (hf : f = [] ∨ EndsInSign f) (fresh : Bool) (before : Text)
    (hover : ∀ m, Cut.found m ∈ Cut.pieces types.matcher 0 fresh before (f ++ back) →
      m.before.length < before.length + f.length → m.before.length + m.text.length ≤ before.length + f.length) :
    ∃ cs fresh', Cut.pieces types.matcher 0 fresh before (f ++ back) =
        cs ++ Cut.pieces types.matcher 0 fresh' (f.reverse ++ before) back ∧
      ∀ back', Detached back back' → ∃ cs', SameAhead back back' cs cs' ∧
        Cut.pieces types.matcher 0 fresh before (f ++ back') =
          cs' ++ Cut.pieces types.matcher 0 fresh' (f.reverse ++ before) back' := by
  induction hlen : f.length using Nat.strongRecOn generalizing f fresh before with
  | ind len ih =>
    rcases hf with rfl | hf
    · exact ⟨[], fresh, rfl, fun back' _ => ⟨[], .nil, rfl⟩⟩
    · have hfound {back' : Text} (hd : Detached back back') := matcher_ahead ht hd hf before
      obtain ⟨c, g, rfl⟩ := List.exists_cons_of_ne_nil hf.ne_nil
      cases hm : types.matcher before (c :: g ++ back) with
      | none =>
        rw [List.cons_append] at hm hover ⊢
        rw [Cut.pieces_none hm] at hover ⊢
        have hg : g = [] ∨ EndsInSign g := by
          by_cases hnil : g = []
          · exact .inl hnil
          · exact .inr (hf.right (x := [c]) hnil)
        obtain ⟨cs, fresh', hcut, hsame⟩ := ih g.length (by simp [← hlen]) hg true (c :: before)
          (fun m hm hlt => by
            have := hover m (List.mem_cons_of_mem _ hm)
            simp only [List.length_cons] at this hlt ⊢
            omega) rfl
        refine ⟨.copied c :: cs, fresh', ?_, fun back' hd => ?_⟩
        · rw [hcut]
          simp
        · obtain ⟨cs', hsame, hcut'⟩ := hsame back' hd
          have hm' : types.matcher before (c :: (g ++ back')) = none := by
            have hnone := hfound hd
            rw [List.cons_append, hm] at hnone
            exact hnone.of_none
          refine ⟨.copied c :: cs', .copied c hsame, ?_⟩
          rw [List.cons_append, Cut.pieces_none hm', hcut']
          simp
      | some found =>
        obtain ⟨taken, m⟩ := found
        -- a match that reaches over the cut is excluded
        have hlong : taken.length ≤ (c :: g).length := by
          obtain ⟨rest, hrest⟩ := matcher_takesPrefix types hm
          rw [← hrest] at hm hover
          by_cases hne : taken = []
          · rw [hne]
            exact Nat.zero_le _
          · rw [Cut.pieces_some hm hne] at hover
            have := hover _ List.mem_cons_self (by simp)
            simpa using this
        have hsome {back' : Text} (hd : Detached back back') := by
          have h := hfound hd
          rw [hm] at h
          exact h.of_some hlong
        obtain ⟨hne, g', hsplit, hg, -⟩ := hsome (detached_nil back)
        have hm' {back' : Text} (hd : Detached back back') :
            types.matcher before (taken ++ (g' ++ back')) = some (taken, m) := by
          obtain ⟨-, -, -, -, hm'⟩ := hsome hd
          rwa [hsplit, List.append_assoc] at hm'
        rw [hsplit, List.append_assoc] at hm hover ⊢
        rw [Cut.pieces_some hm hne] at hover ⊢
        have hlength : g'.length < len := by
          have := List.length_pos_iff.2 hne
          rw [hsplit, List.length_append] at hlen
          omega
        obtain ⟨cs, fresh', hcut, hsame⟩ := ih g'.length hlength (.inr hg) false (taken.reverse ++ before)
          (fun n hn hlt => by
            have := hover n (List.mem_cons_of_mem _ hn)
            simp only [List.length_append, List.length_reverse] at this hlt ⊢
            omega) rfl
        refine ⟨.found ⟨before, taken, g' ++ back, m⟩ :: cs, fresh', ?_, fun back' hd => ?_⟩
        · rw [hcut, List.reverse_append, List.append_assoc]
          rfl
        · obtain ⟨cs', hsame, hcut'⟩ := hsame back' hd
          refine ⟨.found ⟨before, taken, g' ++ back', m⟩ :: cs', .found hg hsame, ?_⟩
          rw [List.append_assoc, Cut.pieces_some (hm' hd) hne, hcut', List.reverse_append, List.append_assoc]
          rfl

end

end TypeTable

end DialectBridge
