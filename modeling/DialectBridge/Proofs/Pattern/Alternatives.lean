import DialectBridge.Proofs.Pattern.Replaced

/-!
# Alternatives with numbers of their own

A choice tries its patterns in their order, and the first one that matches wins (`matcher_choice`). When the
captures of each alternative have numbers of their own, the numbers of a match tell which alternative won, and they
change nothing else about it (`matcher_capture_raise`).
-/

namespace DialectBridge

namespace Pattern

/-! ## Trying alternatives -/

theorem run_choice (ps : List Pattern) (s : Site) (next : Site → Option Site) :
    run (choice ps) s next = ps.findSome? fun p => run p s next := by
  induction ps with
  | nil =>
    obtain ⟨before, after, captured⟩ := s
    cases after <;> rfl
  | cons p ps ih =>
    rw [List.findSome?_cons]
    cases ps with
    | nil => cases hp : run p s next <;> simp [choice, hp]
    | cons q qs =>
      show (run p s next <|> run (choice (q :: qs)) s next) = _
      rw [ih]
      cases run p s next <;> rfl

/-- The first alternative that matches at a place wins. -/
theorem matcher_choice (ps : List Pattern) (before after : Text) :
    (choice ps).matcher before after = ps.findSome? fun p => p.matcher before after := by
  show (run (choice ps) ⟨before, after, []⟩ .some).map _ = _
  rw [run_choice]
  induction ps with
  | nil => rfl
  | cons p ps ih =>
    rw [List.findSome?_cons, List.findSome?_cons, matcher]
    cases hp : run p ⟨before, after, []⟩ .some with
    | none => exact ih
    | some stop => rfl

/-! ## Raising the numbers of captures -/

/-- The pattern with `k` added to the number of every capture. -/
def raise (k : Nat) : Pattern → Pattern
  | empty => empty
  | letter c => letter c
  | one p => one p
  | many p => many p
  | seq first second => seq (raise k first) (raise k second)
  | either first second => either (raise k first) (raise k second)
  | edge => edge
  | lineEnd => lineEnd
  | capture n p => capture (n + k) (raise k p)

/-- Captures with `k` added to their numbers. -/
def raiseCaptures (k : Nat) (captures : List (Nat × Text)) : List (Nat × Text) :=
  captures.map fun entry => (entry.1 + k, entry.2)

/-- The site with raised captures. -/
def Site.raise (k : Nat) (s : Site) : Site :=
  ⟨s.before, s.after, raiseCaptures k s.captured⟩

section

variable {k : Nat} {next next' : Site → Option Site} {g : Site → Site}

theorem passOne_raise {p : Char → Bool} (hnext : ∀ s, next (s.raise k) = (next' s).map g) (s : Site) :
    passOne p (s.raise k) next = (passOne p s next').map g := by
  obtain ⟨before, after, captured⟩ := s
  cases after with
  | nil => rfl
  | cons c after =>
    show (if p c then next _ else none) = (if p c then next' _ else none).map g
    split
    · exact hnext ⟨c :: before, after, captured⟩
    · rfl

theorem passMany_raise {p : Char → Bool} {captured : List (Nat × Text)}
    (hnext : ∀ s, next (s.raise k) = (next' s).map g) (before after : Text) :
    passMany p (raiseCaptures k captured) next before after = (passMany p captured next' before after).map g := by
  induction after generalizing before with
  | nil => exact hnext ⟨before, [], captured⟩
  | cons c after ih =>
    have hstay := hnext ⟨before, c :: after, captured⟩
    rw [passMany, passMany]
    split
    · rw [map_orElse, ← ih, ← hstay]
      rfl
    · exact hstay

/-- A pattern with raised captures runs as the pattern does, and the captures of its match are raised. -/
theorem run_raise {p : Pattern} (hnext : ∀ s, next (s.raise k) = (next' s).map g) (s : Site) :
    run (p.raise k) (s.raise k) next = (run p s next').map g := by
  induction p generalizing s next next' with
  | empty => exact hnext s
  | letter c | one p => exact passOne_raise hnext s
  | many p => exact passMany_raise hnext s.before s.after
  | seq first second ihFirst ihSecond => exact ihFirst (fun t => ihSecond hnext t) s
  | either first second ihFirst ihSecond =>
    rw [raise, run, run, map_orElse, ihFirst hnext, ihSecond hnext]
  | edge =>
    show (if s.isEdge then next (s.raise k) else none) = (if s.isEdge then next' s else none).map g
    split
    · exact hnext s
    · rfl
  | lineEnd =>
    show (if s.isLineEnd then next (s.raise k) else none) = (if s.isLineEnd then next' s else none).map g
    split
    · exact hnext s
    · rfl
  | capture n p ih => exact ih (fun t => hnext ⟨t.before, t.after, (n, s.textUpTo t) :: t.captured⟩) s

end

/-- A capture around a pattern with raised captures keeps the whole match; the match itself is the same. -/
theorem matcher_capture_raise (n k : Nat) (p : Pattern) (before after : Text) :
    (capture n (p.raise k)).matcher before after =
      (p.matcher before after).map fun found => (found.1, (n, found.1) :: raiseCaptures k found.2) := by
  let s : Site := ⟨before, after, []⟩
  have hrun : run (capture n (p.raise k)) s .some =
      (run p s .some).map fun t => ⟨t.before, t.after, (n, s.textUpTo t) :: raiseCaptures k t.captured⟩ :=
    run_raise (fun _ => rfl) s
  rw [matcher, matcher, hrun, Option.map_map, Option.map_map]
  rfl

/-! ## Looking up raised captures -/

theorem captured_raise (n k : Nat) (captures : List (Nat × Text)) :
    captured (n + k) (raiseCaptures k captures) = captured n captures := by
  have hsame : (fun e => e.1 == n + k) ∘ (fun entry : Nat × Text => (entry.1 + k, entry.2)) = fun e => e.1 == n := by
    funext e
    rw [Bool.eq_iff_iff]
    simp
  rw [captured, raiseCaptures, List.find?_map, hsame, Option.map_map]
  rfl

/-- Raised captures have no small numbers. -/
theorem captured_raise_of_lt {n k : Nat} (h : n < k) (captures : List (Nat × Text)) :
    captured n (raiseCaptures k captures) = none := by
  rw [captured, Option.map_eq_none_iff, List.find?_eq_none]
  intro entry hentry
  obtain ⟨e, -, rfl⟩ := List.mem_map.1 hentry
  simp only [beq_iff_eq]
  omega

theorem captured_cons_of_ne {m n : Nat} (h : m ≠ n) (t : Text) (captures : List (Nat × Text)) :
    captured n ((m, t) :: captures) = captured n captures := by
  rw [captured, List.find?_cons_of_neg (by simpa using h), captured]

end Pattern

end DialectBridge
