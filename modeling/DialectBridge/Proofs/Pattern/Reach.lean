import DialectBridge.Pattern.Search

/-!
# What a match can be

`Pattern.Reaches` says which later sites a pattern can lead to, whatever the order in which the ways
are tried. Every match is one of these ways (`Pattern.matcher_reaches`), so what holds of all ways
holds of the match: the characters it starts with, those it avoids, and what it captures.
-/

namespace DialectBridge

namespace Pattern

/-- The pattern can lead from the site `s` to the site `t`. -/
def Reaches : Pattern → Site → Site → Prop
  | empty, s, t => t = s
  | letter c, s, t =>
    ∃ d rest, s.after = d :: rest ∧ sameLetter c d = true ∧ t = ⟨d :: s.before, rest, s.captured⟩
  | one p, s, t => ∃ d rest, s.after = d :: rest ∧ p d = true ∧ t = ⟨d :: s.before, rest, s.captured⟩
  | many p, s, t =>
    ∃ run rest, s.after = run ++ rest ∧ (∀ c ∈ run, p c = true) ∧
      t = ⟨run.reverse ++ s.before, rest, s.captured⟩
  | seq first second, s, t => ∃ u, Reaches first s u ∧ Reaches second u t
  | either first second, s, t => Reaches first s t ∨ Reaches second s t
  | edge, s, t => s.isEdge = true ∧ t = s
  | lineEnd, s, t => s.isLineEnd = true ∧ t = s
  | capture n p, s, t =>
    ∃ u, Reaches p s u ∧ t = ⟨u.before, u.after, (n, s.textUpTo u) :: u.captured⟩

theorem orElse_eq_some {a b : Option Site} {out : Site} (h : (a <|> b) = .some out) :
    a = .some out ∨ b = .some out := by
  cases a with
  | none => exact .inr h
  | some _ => exact .inl h

theorem passOne_reaches {p : Char → Bool} {s out : Site} {next : Site → Option Site}
    (h : passOne p s next = .some out) :
    ∃ d rest, s.after = d :: rest ∧ p d = true ∧
      next ⟨d :: s.before, rest, s.captured⟩ = .some out := by
  unfold passOne at h
  split at h
  · cases h
  · next d rest hafter =>
    split at h
    · next hd => exact ⟨d, rest, hafter, hd, h⟩
    · cases h

theorem passMany_reaches {p : Char → Bool} {captured : List (Nat × Text)} {next : Site → Option Site}
    {before after : Text} {out : Site} (h : passMany p captured next before after = .some out) :
    ∃ run rest, after = run ++ rest ∧ (∀ c ∈ run, p c = true) ∧
      next ⟨run.reverse ++ before, rest, captured⟩ = .some out := by
  induction after generalizing before with
  | nil => exact ⟨[], [], rfl, by simp, h⟩
  | cons c after ih =>
    have hstay (hnext : next ⟨before, c :: after, captured⟩ = .some out) :
        ∃ run rest, c :: after = run ++ rest ∧ (∀ d ∈ run, p d = true) ∧
          next ⟨run.reverse ++ before, rest, captured⟩ = .some out :=
      ⟨[], c :: after, rfl, by simp, hnext⟩
    unfold passMany at h
    split at h
    · next hc =>
      rcases orElse_eq_some h with hmore | hnext
      · obtain ⟨run, rest, rfl, hrun, hnext⟩ := ih hmore
        exact ⟨c :: run, rest, rfl, by simpa [hc] using hrun, by simpa using hnext⟩
      · exact hstay hnext
    · exact hstay h

/-- A run of a pattern goes on from a site that the pattern reaches. -/
theorem run_reaches {p : Pattern} {s out : Site} {next : Site → Option Site}
    (h : run p s next = .some out) : ∃ t, Reaches p s t ∧ next t = .some out := by
  induction p generalizing s next with
  | empty => exact ⟨s, rfl, h⟩
  | letter c | one p =>
    obtain ⟨d, rest, hafter, hd, hnext⟩ := passOne_reaches h
    exact ⟨_, ⟨d, rest, hafter, hd, rfl⟩, hnext⟩
  | many p =>
    obtain ⟨run, rest, hafter, hrun, hnext⟩ := passMany_reaches h
    exact ⟨_, ⟨run, rest, hafter, hrun, rfl⟩, hnext⟩
  | seq first second ihFirst ihSecond =>
    obtain ⟨t, ht, hsecond⟩ := ihFirst h
    obtain ⟨u, hu, hnext⟩ := ihSecond hsecond
    exact ⟨u, ⟨t, ht, hu⟩, hnext⟩
  | either first second ihFirst ihSecond =>
    rcases orElse_eq_some h with hfirst | hsecond
    · obtain ⟨t, ht, hnext⟩ := ihFirst hfirst
      exact ⟨t, .inl ht, hnext⟩
    · obtain ⟨t, ht, hnext⟩ := ihSecond hsecond
      exact ⟨t, .inr ht, hnext⟩
  | edge =>
    unfold run at h
    split at h
    · next hedge => exact ⟨s, ⟨hedge, rfl⟩, h⟩
    · cases h
  | lineEnd =>
    unfold run at h
    split at h
    · next hend => exact ⟨s, ⟨hend, rfl⟩, h⟩
    · cases h
  | capture n p ih =>
    obtain ⟨t, ht, hnext⟩ := ih h
    exact ⟨_, ⟨t, ht, rfl⟩, hnext⟩

/-- A way through a pattern takes a text. -/
theorem Reaches.split {p : Pattern} {s t : Site} (h : Reaches p s t) :
    ∃ taken, s.after = taken ++ t.after ∧ t.before = taken.reverse ++ s.before := by
  induction p generalizing s t with
  | empty => cases h; exact ⟨[], rfl, rfl⟩
  | letter c | one p =>
    obtain ⟨d, rest, hafter, -, rfl⟩ := h
    exact ⟨[d], hafter, rfl⟩
  | many p =>
    obtain ⟨run, rest, hafter, -, rfl⟩ := h
    exact ⟨run, hafter, rfl⟩
  | seq first second ihFirst ihSecond =>
    obtain ⟨u, hfirst, hsecond⟩ := h
    obtain ⟨taken₁, hafter₁, hbefore₁⟩ := ihFirst hfirst
    obtain ⟨taken₂, hafter₂, hbefore₂⟩ := ihSecond hsecond
    exact ⟨taken₁ ++ taken₂, by rw [hafter₁, hafter₂, List.append_assoc],
      by rw [hbefore₂, hbefore₁, List.reverse_append, List.append_assoc]⟩
  | either first second ihFirst ihSecond => exact h.elim ihFirst ihSecond
  | edge | lineEnd =>
    obtain ⟨-, rfl⟩ := h
    exact ⟨[], rfl, rfl⟩
  | capture n p ih =>
    obtain ⟨u, hu, rfl⟩ := h
    have htaken := ih hu
    exact htaken

/-- The text between two sites is the text that a way between them takes. -/
theorem textUpTo_eq {s t : Site} {taken : Text} (h : s.after = taken ++ t.after) :
    s.textUpTo t = taken := by
  simp [Site.textUpTo, h]

/-- A match is a way through the pattern. -/
theorem matcher_reaches {p : Pattern} {before after taken : Text} {captures : List (Nat × Text)}
    (h : p.matcher before after = .some (taken, captures)) :
    ∃ t, Reaches p ⟨before, after, []⟩ t ∧ after = taken ++ t.after ∧
      t.before = taken.reverse ++ before ∧ t.captured = captures := by
  obtain ⟨t, hrun, heq⟩ := Option.map_eq_some_iff.1 h
  obtain ⟨u, hreach, hu⟩ := run_reaches hrun
  obtain rfl := Option.some.inj hu
  obtain ⟨taken', hafter, hbefore⟩ := hreach.split
  obtain ⟨htaken, rfl⟩ := Prod.mk.inj heq
  rw [textUpTo_eq hafter] at htaken
  subst htaken
  exact ⟨u, hreach, hafter, hbefore, rfl⟩

theorem reaches_sequence_append (ps : List Pattern) {qs : List Pattern} {s t : Site}
    (h : Reaches (sequence (ps ++ qs)) s t) :
    ∃ u, Reaches (sequence ps) s u ∧ Reaches (sequence qs) u t := by
  induction ps generalizing s with
  | nil => exact ⟨s, rfl, h⟩
  | cons p ps ih =>
    obtain ⟨u, hp, hrest⟩ := h
    obtain ⟨v, hps, hqs⟩ := ih hrest
    exact ⟨v, ⟨u, hp, hps⟩, hqs⟩

/-! ## What a pattern avoids -/

/-- No way through the pattern takes the character. -/
def avoids (c : Char) : Pattern → Bool
  | empty | edge | lineEnd => true
  | letter d => !sameLetter d c
  | one p | many p => !p c
  | seq first second | either first second => avoids c first && avoids c second
  | capture _ p => avoids c p

theorem Reaches.avoids {p : Pattern} {s t : Site} {c : Char} (h : Reaches p s t)
    (hp : p.avoids c = true) : ∃ taken, s.after = taken ++ t.after ∧
      t.before = taken.reverse ++ s.before ∧ c ∉ taken := by
  induction p generalizing s t with
  | empty => cases h; exact ⟨[], rfl, rfl, by simp⟩
  | letter d | one d =>
    obtain ⟨d, rest, hafter, hd, rfl⟩ := h
    refine ⟨[d], hafter, rfl, ?_⟩
    rintro hc
    obtain rfl := List.mem_singleton.1 hc
    simp [Pattern.avoids, hd] at hp
  | many p =>
    obtain ⟨run, rest, hafter, hrun, rfl⟩ := h
    refine ⟨run, hafter, rfl, fun hc => ?_⟩
    simp [Pattern.avoids, hrun c hc] at hp
  | seq first second ihFirst ihSecond =>
    obtain ⟨u, hfirst, hsecond⟩ := h
    simp only [Pattern.avoids, Bool.and_eq_true] at hp
    obtain ⟨taken₁, hafter₁, hbefore₁, hc₁⟩ := ihFirst hfirst hp.1
    obtain ⟨taken₂, hafter₂, hbefore₂, hc₂⟩ := ihSecond hsecond hp.2
    exact ⟨taken₁ ++ taken₂, by rw [hafter₁, hafter₂, List.append_assoc],
      by rw [hbefore₂, hbefore₁, List.reverse_append, List.append_assoc], by simp [hc₁, hc₂]⟩
  | either first second ihFirst ihSecond =>
    simp only [Pattern.avoids, Bool.and_eq_true] at hp
    exact h.elim (ihFirst · hp.1) (ihSecond · hp.2)
  | edge | lineEnd =>
    obtain ⟨-, rfl⟩ := h
    exact ⟨[], rfl, rfl, by simp⟩
  | capture n p ih =>
    obtain ⟨u, hu, rfl⟩ := h
    have htaken := ih hu hp
    exact htaken

theorem matcher_avoids {p : Pattern} {c : Char} (hp : p.avoids c = true) {before after taken : Text}
    {captures : List (Nat × Text)} (h : p.matcher before after = .some (taken, captures)) :
    c ∉ taken := by
  obtain ⟨t, hreach, hafter, -⟩ := matcher_reaches h
  obtain ⟨taken', hafter', -, hc⟩ := hreach.avoids hp
  rwa [List.append_cancel_right (hafter.symm.trans hafter')]

/-! ## How a pattern starts -/

/-- A way through the pattern may take nothing. -/
def nullable : Pattern → Bool
  | empty | edge | lineEnd | many _ => true
  | letter _ | one _ => false
  | seq first second => nullable first && nullable second
  | either first second => nullable first || nullable second
  | capture _ p => nullable p

/-- A way through the pattern may take the character first. -/
def startsWith (c : Char) : Pattern → Bool
  | empty | edge | lineEnd => false
  | letter d => sameLetter d c
  | one p | many p => p c
  | seq first second => startsWith c first || (nullable first && startsWith c second)
  | either first second => startsWith c first || startsWith c second
  | capture _ p => startsWith c p

/-- A way through the pattern takes nothing, or it starts with a character that may come first. -/
theorem Reaches.start {p : Pattern} {s t : Site} (h : Reaches p s t) :
    (t.after = s.after ∧ p.nullable = true) ∨
      ∃ c taken, s.after = c :: taken ++ t.after ∧ p.startsWith c = true := by
  induction p generalizing s t with
  | empty => cases h; exact .inl ⟨rfl, rfl⟩
  | letter d | one d =>
    obtain ⟨d, rest, hafter, hd, rfl⟩ := h
    exact .inr ⟨d, [], hafter, hd⟩
  | many p =>
    obtain ⟨run, rest, hafter, hrun, rfl⟩ := h
    cases run with
    | nil => exact .inl ⟨hafter.symm, rfl⟩
    | cons c run => exact .inr ⟨c, run, hafter, hrun c List.mem_cons_self⟩
  | seq first second ihFirst ihSecond =>
    obtain ⟨u, hfirst, hsecond⟩ := h
    rcases ihFirst hfirst with ⟨hu, hn⟩ | ⟨c, taken, hafter, hc⟩
    · rcases ihSecond hsecond with ⟨ht, hn'⟩ | ⟨c, taken, hafter, hc⟩
      · exact .inl ⟨ht.trans hu, by simp [nullable, hn, hn']⟩
      · exact .inr ⟨c, taken, hu ▸ hafter, by simp [startsWith, hn, hc]⟩
    · obtain ⟨taken', hafter', -⟩ := hsecond.split
      exact .inr ⟨c, taken ++ taken', by simp [hafter, hafter'], by simp [startsWith, hc]⟩
  | either first second ihFirst ihSecond =>
    rcases h with h | h
    · refine (ihFirst h).imp (fun h => ⟨h.1, by simp [nullable, h.2]⟩) ?_
      rintro ⟨c, taken, hafter, hc⟩
      exact ⟨c, taken, hafter, by simp [startsWith, hc]⟩
    · refine (ihSecond h).imp (fun h => ⟨h.1, by simp [nullable, h.2]⟩) ?_
      rintro ⟨c, taken, hafter, hc⟩
      exact ⟨c, taken, hafter, by simp [startsWith, hc]⟩
  | edge | lineEnd =>
    obtain ⟨-, rfl⟩ := h
    exact .inl ⟨rfl, rfl⟩
  | capture n p ih =>
    obtain ⟨u, hu, rfl⟩ := h
    have hstart := ih hu
    exact hstart

/-- A match of a pattern that cannot take nothing starts with a character that may come first. -/
theorem matcher_start {p : Pattern} (hp : p.nullable = false) {before after taken : Text}
    {captures : List (Nat × Text)} (h : p.matcher before after = .some (taken, captures)) :
    ∃ c rest, taken = c :: rest ∧ p.startsWith c = true := by
  obtain ⟨t, hreach, hafter, -⟩ := matcher_reaches h
  rcases hreach.start with ⟨-, hnull⟩ | ⟨c, rest, hstart, hc⟩
  · rw [hp] at hnull
    cases hnull
  · exact ⟨c, rest, List.append_cancel_right (hafter.symm.trans hstart), hc⟩

/-! ## What a pattern captures -/

/-- The pattern captures nothing. -/
def captureFree : Pattern → Bool
  | empty | letter _ | one _ | many _ | edge | lineEnd => true
  | seq first second | either first second => captureFree first && captureFree second
  | capture .. => false

theorem Reaches.captured {p : Pattern} {s t : Site} (h : Reaches p s t)
    (hp : p.captureFree = true) : t.captured = s.captured := by
  induction p generalizing s t with
  | empty => cases h; rfl
  | letter _ | one _ =>
    obtain ⟨d, rest, -, -, rfl⟩ := h
    rfl
  | many p =>
    obtain ⟨run, rest, -, -, rfl⟩ := h
    rfl
  | seq first second ihFirst ihSecond =>
    obtain ⟨u, hfirst, hsecond⟩ := h
    simp only [captureFree, Bool.and_eq_true] at hp
    rw [ihSecond hsecond hp.2, ihFirst hfirst hp.1]
  | either first second ihFirst ihSecond =>
    simp only [captureFree, Bool.and_eq_true] at hp
    exact h.elim (ihFirst · hp.1) (ihSecond · hp.2)
  | edge | lineEnd =>
    obtain ⟨-, rfl⟩ := h
    rfl
  | capture n p ih => cases hp

/-- No capture in the pattern takes the character. -/
def neverCaptures (c : Char) : Pattern → Bool
  | empty | letter _ | one _ | many _ | edge | lineEnd => true
  | seq first second | either first second => neverCaptures c first && neverCaptures c second
  | capture _ p => avoids c p && neverCaptures c p

theorem neverCaptures_sequence {c : Char} {ps : List Pattern} (h : ∀ p ∈ ps, p.neverCaptures c = true) :
    (sequence ps).neverCaptures c = true := by
  induction ps with
  | nil => rfl
  | cons p ps ih =>
    obtain ⟨hp, hps⟩ := List.forall_mem_cons.1 h
    exact Bool.and_eq_true_iff.2 ⟨hp, ih hps⟩

theorem Reaches.neverCaptures {p : Pattern} {s t : Site} {c : Char} (h : Reaches p s t) (hp : p.neverCaptures c = true)
    (hs : ∀ entry ∈ s.captured, c ∉ entry.2) : ∀ entry ∈ t.captured, c ∉ entry.2 := by
  induction p generalizing s t with
  | empty => cases h; exact hs
  | letter _ | one _ =>
    obtain ⟨d, rest, -, -, rfl⟩ := h
    exact hs
  | many p =>
    obtain ⟨run, rest, -, -, rfl⟩ := h
    exact hs
  | seq first second ihFirst ihSecond =>
    obtain ⟨u, hfirst, hsecond⟩ := h
    simp only [Pattern.neverCaptures, Bool.and_eq_true] at hp
    exact ihSecond hsecond hp.2 (ihFirst hfirst hp.1 hs)
  | either first second ihFirst ihSecond =>
    simp only [Pattern.neverCaptures, Bool.and_eq_true] at hp
    exact h.elim (ihFirst · hp.1 hs) (ihSecond · hp.2 hs)
  | edge | lineEnd =>
    obtain ⟨-, rfl⟩ := h
    exact hs
  | capture n p ih =>
    obtain ⟨u, hu, rfl⟩ := h
    simp only [Pattern.neverCaptures, Bool.and_eq_true] at hp
    obtain ⟨taken, hafter, -, hc⟩ := hu.avoids hp.1
    refine List.forall_mem_cons.2 ⟨?_, ih hu hp.2 hs⟩
    show c ∉ s.textUpTo u
    rwa [textUpTo_eq hafter]

end Pattern

end DialectBridge
