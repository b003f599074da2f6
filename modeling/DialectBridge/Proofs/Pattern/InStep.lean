import DialectBridge.Proofs.Pattern.Reach

/-!
# Runs in step

Two sites may differ far away from where a pattern looks. As long as the same characters follow both of
them, a pattern takes the same ways from both (`run_inStep`), and ways that lead too far in the first
text are left open. A pattern with one way at most is run by finding that way (`run_of_reaches`).
-/

namespace DialectBridge

namespace Pattern

/-! ## Outcomes that agree -/

/-- Two outcomes agree if both are failures or related sites. Nothing is said about the second one if
the first one is too far away. -/
inductive Agree (R : Site → Site → Prop) (far : Site → Prop) : Option Site → Option Site → Prop
  | none : Agree R far .none .none
  | some {t t' : Site} (h : R t t') : Agree R far (.some t) (.some t')
  | far {t : Site} {o : Option Site} (h : far t) : Agree R far (.some t) o

section

variable {R : Site → Site → Prop} {far : Site → Prop} {a a' b b' : Option Site}

theorem Agree.orElse (ha : Agree R far a a') (hb : Agree R far b b') :
    Agree R far (a <|> b) (a' <|> b') := by
  cases ha with
  | none => exact hb
  | some h => exact .some h
  | far h => exact .far h

theorem Agree.eq_none (h : Agree R far .none a') : a' = .none := by
  cases h
  rfl

end

/-! ## Steps -/

/-- Related sites are alike for patterns that take none of the characters `stops`: either the same other
character follows both, and they stay related behind it, or only such a character may follow. -/
structure InStep (stops : List Char) (R : Site → Site → Prop) : Prop where
  edge {s s' : Site} (h : R s s') : s.isEdge = s'.isEdge
  lineEnd {s s' : Site} (h : R s s') : s.isLineEnd = s'.isLineEnd
  step {s s' : Site} (h : R s s') :
    (∃ c rest rest', c ∉ stops ∧ s.after = c :: rest ∧ s'.after = c :: rest' ∧
      R ⟨c :: s.before, rest, s.captured⟩ ⟨c :: s'.before, rest', s'.captured⟩) ∨
    (∀ c ∈ s.after.head?, c ∈ stops) ∧ ∀ c ∈ s'.after.head?, c ∈ stops

section

variable {stops : List Char} {R Q : Site → Site → Prop} {far : Site → Prop}
  {next next' : Site → Option Site}

theorem passOne_stop {p : Char → Bool} (hp : ∀ c ∈ stops, p c = false) {s : Site}
    (h : ∀ c ∈ s.after.head?, c ∈ stops) (next : Site → Option Site) : passOne p s next = none := by
  unfold passOne
  cases hs : s.after with
  | nil => rfl
  | cons c rest =>
    have hc : p c = false := hp c (h c (by simp [hs]))
    simp [hc]

theorem passOne_inStep (hR : InStep stops R) {p : Char → Bool} (hp : ∀ c ∈ stops, p c = false)
    {s s' : Site} (h : R s s') (hnext : ∀ {t t'}, R t t' → Agree Q far (next t) (next' t')) :
    Agree Q far (passOne p s next) (passOne p s' next') := by
  rcases hR.step h with ⟨c, rest, rest', -, hs, hs', hrest⟩ | ⟨hs, hs'⟩
  · have hpass {s : Site} {rest : Text} (hs : s.after = c :: rest) (next : Site → Option Site) :
        passOne p s next = if p c then next ⟨c :: s.before, rest, s.captured⟩ else none := by
      rw [passOne, hs]
    rw [hpass hs, hpass hs']
    split
    · exact hnext hrest
    · exact .none
  · rw [passOne_stop hp hs, passOne_stop hp hs']
    exact .none

theorem passMany_inStep (hR : InStep stops R) {p : Char → Bool} (hp : ∀ c ∈ stops, p c = false)
    {s s' : Site} (h : R s s') (hnext : ∀ {t t'}, R t t' → Agree Q far (next t) (next' t')) :
    Agree Q far (passMany p s.captured next s.before s.after)
      (passMany p s'.captured next' s'.before s'.after) := by
  -- where a character stops the run, only the continuation is left
  have hstay {s : Site} (hs : ∀ c ∈ s.after.head?, c ∈ stops) (next : Site → Option Site) :
      passMany p s.captured next s.before s.after = next s := by
    cases hafter : s.after with
    | nil => rw [passMany, ← hafter]
    | cons c rest =>
      have hc : p c = false := hp c (hs c (by simp [hafter]))
      rw [passMany, if_neg (by simp [hc]), ← hafter]
  induction hlen : s.after.length generalizing s s' with
  | zero =>
    rcases hR.step h with ⟨c, rest, rest', -, hs, -⟩ | ⟨hs, hs'⟩
    · rw [hs] at hlen
      cases hlen
    · rw [hstay hs, hstay hs']
      exact hnext h
  | succ n ih =>
    rcases hR.step h with ⟨c, rest, rest', -, hs, hs', hrest⟩ | ⟨hs, hs'⟩
    · have hmore := ih hrest (by simpa [hs] using hlen)
      have hnow := hnext h
      have heta {s : Site} {a : Text} (ha : s.after = a) : s = ⟨s.before, a, s.captured⟩ := by rw [← ha]
      rw [heta hs, heta hs'] at hnow
      rw [hs, hs', passMany, passMany]
      split
      · exact hmore.orElse hnow
      · exact hnow
    · rw [hstay hs, hstay hs']
      exact hnext h

/-- From related sites a pattern leads to outcomes that agree, if all its continuations do. -/
theorem run_inStep (hR : InStep stops R) {p : Pattern} (hp : ∀ c ∈ stops, p.avoids c = true)
    (hfree : p.captureFree = true) {s s' : Site} (h : R s s')
    (hnext : ∀ {t t'}, R t t' → Agree Q far (next t) (next' t')) :
    Agree Q far (run p s next) (run p s' next') := by
  induction p generalizing s s' next next' with
  | empty => exact hnext h
  | letter c | one p =>
    refine passOne_inStep hR (fun c hc => ?_) h hnext
    simpa [avoids] using hp c hc
  | many p =>
    refine passMany_inStep hR (fun c hc => ?_) h hnext
    simpa [avoids] using hp c hc
  | seq first second ihFirst ihSecond =>
    simp only [avoids, captureFree, Bool.and_eq_true] at hp hfree
    refine ihFirst (fun c hc => (hp c hc).1) hfree.1 h fun ht => ?_
    exact ihSecond (fun c hc => (hp c hc).2) hfree.2 ht hnext
  | either first second ihFirst ihSecond =>
    simp only [avoids, captureFree, Bool.and_eq_true] at hp hfree
    exact (ihFirst (fun c hc => (hp c hc).1) hfree.1 h hnext).orElse
      (ihSecond (fun c hc => (hp c hc).2) hfree.2 h hnext)
  | edge =>
    rw [run, run, hR.edge h]
    split
    · exact hnext h
    · exact .none
  | lineEnd =>
    rw [run, run, hR.lineEnd h]
    split
    · exact hnext h
    · exact .none
  | capture n p => cases hfree

/-- The sites are related, and the same text without stops leads to them from `s` and `s'`. -/
def Tracked (stops : List Char) (R : Site → Site → Prop) (s s' t t' : Site) : Prop :=
  R t t' ∧ ∃ x, s.after = x ++ t.after ∧ s'.after = x ++ t'.after ∧ ∀ c ∈ x, c ∉ stops

theorem InStep.tracked (hR : InStep stops R) (s s' : Site) : InStep stops (Tracked stops R s s') where
  edge h := hR.edge h.1
  lineEnd h := hR.lineEnd h.1
  step h := by
    obtain ⟨h, x, hx, hx', hnot⟩ := h
    refine (hR.step h).imp_left ?_
    rintro ⟨c, rest, rest', hc, ht, ht', hrest⟩
    refine ⟨c, rest, rest', hc, ht, ht', hrest, x ++ [c], by simp [hx, ht], by simp [hx', ht'], ?_⟩
    intro d hd
    rcases List.mem_append.1 hd with hd | hd
    · exact hnot d hd
    · rwa [List.mem_singleton.1 hd]

end

/-! ## Ways and runs -/

/-- The search finds a way if there is one. -/
theorem run_ne_none {p : Pattern} {s t : Site} {next : Site → Option Site} (h : Reaches p s t)
    (ht : next t ≠ none) : run p s next ≠ none := by
  have hleft {a b : Option Site} (ha : a ≠ none) : (a <|> b) ≠ none := by
    cases a with
    | none => exact absurd rfl ha
    | some _ => exact ha
  have hright {a b : Option Site} (hb : b ≠ none) : (a <|> b) ≠ none := by
    cases a with
    | none => exact hb
    | some _ => simp
  induction p generalizing s t next with
  | empty =>
    obtain rfl : t = s := h
    exact ht
  | letter c | one p =>
    obtain ⟨d, rest, hafter, hd, rfl⟩ := h
    rw [run, passOne, hafter]
    simpa [hd] using ht
  | many p =>
    obtain ⟨taken, rest, hafter, htaken, rfl⟩ := h
    obtain ⟨before, after, captured⟩ := s
    obtain rfl : after = taken ++ rest := hafter
    show passMany p captured next before (taken ++ rest) ≠ none
    induction taken generalizing before with
    | nil =>
      cases rest with
      | nil => exact ht
      | cons c rest =>
        rw [List.nil_append, passMany]
        split
        · exact hright ht
        · exact ht
    | cons c taken ih =>
      obtain ⟨hc, htaken⟩ := List.forall_mem_cons.1 htaken
      rw [List.cons_append, passMany, if_pos hc]
      exact hleft (ih htaken (c :: before) (by simpa using ht))
  | seq first second ihFirst ihSecond =>
    obtain ⟨u, hfirst, hsecond⟩ := h
    exact ihFirst hfirst (ihSecond hsecond ht)
  | either first second ihFirst ihSecond =>
    rcases h with h | h
    · exact hleft (ihFirst h ht)
    · exact hright (ihSecond h ht)
  | edge =>
    obtain ⟨hedge, rfl⟩ := h
    rwa [run, if_pos hedge]
  | lineEnd =>
    obtain ⟨hend, rfl⟩ := h
    rwa [run, if_pos hend]
  | capture n p ih =>
    obtain ⟨u, hu, rfl⟩ := h
    exact ih hu ht

/-- Where a way leads through the pattern, it matches. -/
theorem matcher_ne_none {p : Pattern} {before after : Text} {t : Site} (h : Reaches p ⟨before, after, []⟩ t) :
    p.matcher before after ≠ none := by
  have hrun : run p ⟨before, after, []⟩ .some ≠ none := run_ne_none h (Option.some_ne_none t)
  exact mt Option.map_eq_none_iff.1 hrun

/-- If only one way leads through the pattern, the run goes on behind it. -/
theorem run_of_reaches {p : Pattern} {s t : Site} {next : Site → Option Site} (h : Reaches p s t)
    (honly : ∀ u, Reaches p s u → u = t) : run p s next = next t := by
  cases hrun : run p s next with
  | none =>
    cases ht : next t with
    | none => rfl
    | some out => exact absurd hrun (run_ne_none h (by simp [ht]))
  | some out =>
    obtain ⟨u, hu, hnext⟩ := run_reaches hrun
    rw [← honly u hu, hnext]

/-- If no way leads through the pattern, the run fails. -/
theorem run_of_not_reaches {p : Pattern} {s : Site} {next : Site → Option Site}
    (h : ∀ t, ¬ Reaches p s t) : run p s next = none := by
  cases hrun : run p s next with
  | none => rfl
  | some out =>
    obtain ⟨t, ht, -⟩ := run_reaches hrun
    exact absurd ht (h t)

/-- A way through a pattern depends on the text that it takes and on the characters next to it alone: on
whether these belong to words, and whether a line ends behind it. -/
theorem Reaches.exists_moved {p : Pattern} {s t : Site} (h : Reaches p s t) (captured : List (Nat × Text))
    {taken before rest : Text} (htaken : s.after = taken ++ t.after)
    (hbefore : s.before.head?.any isWordCharacter = before.head?.any isWordCharacter)
    (hword : t.after.head?.any isWordCharacter = rest.head?.any isWordCharacter)
    (hline : t.after.head?.all (· == '\n') = rest.head?.all (· == '\n')) :
    ∃ captured', Reaches p ⟨before, taken ++ rest, captured⟩ ⟨taken.reverse ++ before, rest, captured'⟩ := by
  have hnil {s t : Site} {taken : Text} (hst : t = s) (htaken : s.after = taken ++ t.after) : taken = [] := by
    rw [hst] at htaken
    simpa using htaken
  induction p generalizing s t taken before rest captured with
  | empty =>
    obtain rfl := hnil h htaken
    exact ⟨captured, rfl⟩
  | letter c | one p =>
    obtain ⟨d, u, hafter, hd, rfl⟩ := h
    obtain rfl : taken = [d] := List.append_cancel_right (htaken.symm.trans hafter)
    exact ⟨captured, d, rest, rfl, hd, rfl⟩
  | many p =>
    obtain ⟨x, u, hafter, hx, rfl⟩ := h
    obtain rfl : taken = x := List.append_cancel_right (htaken.symm.trans hafter)
    exact ⟨captured, taken, rest, rfl, hx, rfl⟩
  | seq first second ihFirst ihSecond =>
    obtain ⟨u, hfirst, hsecond⟩ := h
    obtain ⟨x, hx, hbx⟩ := hfirst.split
    obtain ⟨y, hy, -⟩ := hsecond.split
    obtain rfl : taken = x ++ y := List.append_cancel_right (htaken.symm.trans (by rw [hx, hy, List.append_assoc]))
    have hmiddle (f : Option Char → Bool) (hf : f t.after.head? = f rest.head?) :
        f u.after.head? = f (y ++ rest).head? := by
      rw [hy]
      cases y with
      | nil => exact hf
      | cons c y => rfl
    have hbehind : u.before.head?.any isWordCharacter = (x.reverse ++ before).head?.any isWordCharacter := by
      rw [hbx]
      cases x.reverse with
      | nil => exact hbefore
      | cons c x => rfl
    obtain ⟨captured₁, hfirst⟩ := ihFirst hfirst captured hx hbefore
      (hmiddle (·.any isWordCharacter) hword) (hmiddle (·.all (· == '\n')) hline)
    obtain ⟨captured₂, hsecond⟩ := ihSecond hsecond captured₁ hy hbehind hword hline
    rw [List.append_assoc, List.reverse_append, List.append_assoc]
    exact ⟨captured₂, _, hfirst, hsecond⟩
  | either first second ihFirst ihSecond =>
    rcases h with h | h
    · exact (ihFirst h captured htaken hbefore hword hline).imp fun _ => .inl
    · exact (ihSecond h captured htaken hbefore hword hline).imp fun _ => .inr
  | edge =>
    obtain ⟨hedge, hst⟩ := h
    obtain rfl := hnil hst htaken
    refine ⟨captured, ?_, rfl⟩
    rw [hst] at hword
    rw [← hedge, Site.isEdge, Site.isEdge, hword, hbefore]
    rfl
  | lineEnd =>
    obtain ⟨hend, hst⟩ := h
    obtain rfl := hnil hst htaken
    refine ⟨captured, ?_, rfl⟩
    rw [hst] at hline
    rw [← hend, Site.isLineEnd, Site.isLineEnd, hline]
    rfl
  | capture n p ih =>
    obtain ⟨u, hu, rfl⟩ := h
    obtain ⟨captured', hmoved⟩ := ih hu captured htaken hbefore hword hline
    exact ⟨_, _, hmoved, rfl⟩

theorem Reaches.moved {p : Pattern} (hfree : p.captureFree = true) {s t : Site} (h : Reaches p s t)
    {taken before rest : Text} {captured : List (Nat × Text)} (htaken : s.after = taken ++ t.after)
    (hbefore : s.before.head?.any isWordCharacter = before.head?.any isWordCharacter)
    (hrest : t.after.head? = rest.head?) :
    Reaches p ⟨before, taken ++ rest, captured⟩ ⟨taken.reverse ++ before, rest, captured⟩ := by
  obtain ⟨captured', hmoved⟩ := h.exists_moved captured htaken hbefore (congrArg (Option.any isWordCharacter) hrest)
    (congrArg (Option.all (· == '\n')) hrest)
  obtain rfl : captured' = captured := hmoved.captured hfree
  exact hmoved

end Pattern

end DialectBridge
