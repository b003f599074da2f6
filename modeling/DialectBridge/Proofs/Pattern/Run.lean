import DialectBridge.Pattern.Search
import DialectBridge.Proofs.Text.Bare

/-!
# Running a pattern

What a run of a pattern does at a site whose next characters are known.
-/

namespace DialectBridge

namespace Pattern

variable {before after run rest : Text} {captured : List (Nat × Text)} {next : Site → Option Site}
  {c d : Char} {p : Char → Bool}

theorem run_letter_cons (h : sameLetter c d = true) :
    Pattern.run (letter c) ⟨before, d :: after, captured⟩ next = next ⟨d :: before, after, captured⟩ := by
  simp [Pattern.run, passOne, h]

theorem run_letter_ne (h : sameLetter c d = false) :
    Pattern.run (letter c) ⟨before, d :: after, captured⟩ next = none := by
  simp [Pattern.run, passOne, h]

theorem run_one_cons (h : p d = true) :
    Pattern.run (one p) ⟨before, d :: after, captured⟩ next = next ⟨d :: before, after, captured⟩ := by
  simp [Pattern.run, passOne, h]

/-- Where no character of the class follows, none is passed. -/
theorem passMany_stop (h : after.head?.any p = false) :
    passMany p captured next before after = next ⟨before, after, captured⟩ := by
  cases after with
  | nil => rfl
  | cons c after => rw [passMany, if_neg (by simpa using h)]

/-- If the continuation succeeds behind the whole run of a class, the run is passed. -/
theorem passMany_run {out : Site} (hrun : ∀ c ∈ run, p c = true) (hrest : rest.head?.any p = false)
    (hnext : next ⟨run.reverse ++ before, rest, captured⟩ = .some out) :
    passMany p captured next before (run ++ rest) = .some out := by
  induction run generalizing before with
  | nil => rw [List.nil_append, passMany_stop hrest]; exact hnext
  | cons c run ih =>
    have hmore : passMany p captured next (c :: before) (run ++ rest) = .some out :=
      ih (fun d hd => hrun d (List.mem_cons_of_mem _ hd)) (by simpa using hnext)
    rw [List.cons_append, passMany, if_pos (hrun c List.mem_cons_self), hmore]
    rfl

/-- If the continuation fails wherever the run goes on, exactly the run is passed. -/
theorem passMany_exact (hrun : ∀ c ∈ run, p c = true) (hrest : rest.head?.any p = false)
    (hnext : ∀ c ∈ run, ∀ before after, next ⟨before, c :: after, captured⟩ = none) :
    passMany p captured next before (run ++ rest) = next ⟨run.reverse ++ before, rest, captured⟩ := by
  induction run generalizing before with
  | nil => exact passMany_stop hrest
  | cons c run ih =>
    have hmore : passMany p captured next (c :: before) (run ++ rest) =
        next ⟨run.reverse ++ c :: before, rest, captured⟩ :=
      ih (fun d hd => hrun d (List.mem_cons_of_mem _ hd)) fun d hd => hnext d (List.mem_cons_of_mem _ hd)
    have hnone (out : Option Site) : (out <|> none) = out := by cases out <;> rfl
    rw [List.cons_append, passMany, if_pos (hrun c List.mem_cons_self), hmore,
      hnext c List.mem_cons_self, hnone, List.reverse_cons, List.append_assoc, List.singleton_append]

/-- If the continuation succeeds in front of a character of the class and nowhere behind it, the
characters in front of it are passed. -/
theorem passMany_last {tail : Text} {out : Site} (hrun : ∀ c ∈ run, p c = true) (hd : p d = true)
    (htail : ∀ c ∈ tail, p c = true) (hrest : rest.head?.any p = false)
    (hfail : ∀ c ∈ tail, ∀ before after, next ⟨before, c :: after, captured⟩ = none)
    (hend : ∀ before, next ⟨before, rest, captured⟩ = none)
    (hnext : next ⟨run.reverse ++ before, d :: (tail ++ rest), captured⟩ = .some out) :
    passMany p captured next before (run ++ d :: (tail ++ rest)) = .some out := by
  induction run generalizing before with
  | nil =>
    have hbehind : passMany p captured next (d :: before) (tail ++ rest) = none := by
      rw [passMany_exact htail hrest hfail, hend]
    rw [List.nil_append, passMany, if_pos hd, hbehind]
    exact hnext
  | cons c run ih =>
    have hmore : passMany p captured next (c :: before) (run ++ d :: (tail ++ rest)) = .some out :=
      ih (fun e he => hrun e (List.mem_cons_of_mem _ he)) (by simpa using hnext)
    rw [List.cons_append, passMany, if_pos (hrun c List.mem_cons_self), hmore]
    rfl

/-! ## Parts of patterns -/

theorem run_one_ne (h : after.head?.any p = false) :
    Pattern.run (one p) ⟨before, after, captured⟩ next = none := by
  cases after with
  | nil => rfl
  | cons c after =>
    have hc : p c = false := by simpa using h
    simp [Pattern.run, passOne, hc]

theorem run_letter_none (h : after.head?.any (sameLetter c) = false) :
    Pattern.run (letter c) ⟨before, after, captured⟩ next = none :=
  run_one_ne (p := sameLetter c) h

/-- Where no whitespace follows, a gap is empty. -/
theorem run_gap (h : after.head?.any isBlank = false) :
    Pattern.run gap ⟨before, after, captured⟩ next = next ⟨before, after, captured⟩ :=
  passMany_stop h

theorem run_space_none (h : after.head?.any isBlank = false) :
    Pattern.run space ⟨before, after, captured⟩ next = none := by
  cases after with
  | nil => rfl
  | cons c after =>
    have hc : isBlank c = false := by simpa using h
    simp [space, Pattern.some, Pattern.run, passOne, hc]

/-- A single blank is whitespace. -/
theorem run_space_cons (h : after.head?.any isBlank = false) :
    Pattern.run space ⟨before, ' ' :: after, captured⟩ next = next ⟨' ' :: before, after, captured⟩ := by
  have hpass : passMany isBlank captured next (' ' :: before) after = next ⟨' ' :: before, after, captured⟩ :=
    passMany_stop h
  simpa [space, Pattern.some, Pattern.run, passOne, show isBlank ' ' = true by decide] using hpass

theorem run_sequence_cons (q : Pattern) (qs : List Pattern) (s : Site) :
    Pattern.run (sequence (q :: qs)) s next = Pattern.run q s fun t => Pattern.run (sequence qs) t next :=
  rfl

theorem run_sequence_append (ps qs : List Pattern) (s : Site) :
    Pattern.run (sequence (ps ++ qs)) s next =
      Pattern.run (sequence ps) s fun t => Pattern.run (sequence qs) t next := by
  induction ps generalizing s with
  | nil => rfl
  | cons p ps ih =>
    rw [List.cons_append, run_sequence_cons, run_sequence_cons]
    exact congrArg _ (funext ih)

/-- A word passes what equals it up to case. -/
theorem run_text {word w : Text} (h : Text.fold w = Text.fold word) :
    Pattern.run (text word) ⟨before, w ++ rest, captured⟩ next =
      next ⟨w.reverse ++ before, rest, captured⟩ := by
  induction word generalizing w before with
  | nil =>
    obtain rfl : w = [] := List.map_eq_nil_iff.1 h
    rfl
  | cons c word ih =>
    obtain ⟨d, w, rfl, hd, hw⟩ := List.map_eq_cons_iff.1 h
    have hsame : sameLetter c d = true := beq_iff_eq.2 hd.symm
    show Pattern.run (letter c) ⟨before, d :: (w ++ rest), captured⟩ _ = _
    rw [run_letter_cons hsame, List.reverse_cons, List.append_assoc]
    exact ih hw

theorem wordDigit_of_digit (h : c.isDigit = true) : isWordDigit c = true := by
  rw [isWordDigit_of_ascii (toNat_lt_of_digit h), h]

/-- Digits take a whole run of digits if the continuation wants no digit. -/
theorem run_digits (hne : run ≠ []) (hrun : ∀ c ∈ run, c.isDigit = true)
    (hrest : rest.head?.any isWordDigit = false)
    (hnext : ∀ c ∈ run, ∀ before after, next ⟨before, c :: after, captured⟩ = none) :
    Pattern.run digits ⟨before, run ++ rest, captured⟩ next =
      next ⟨run.reverse ++ before, rest, captured⟩ := by
  obtain ⟨c, run, rfl⟩ := List.exists_cons_of_ne_nil hne
  show Pattern.run (one isWordDigit) ⟨before, c :: (run ++ rest), captured⟩ _ = _
  rw [run_one_cons (wordDigit_of_digit (hrun c List.mem_cons_self)), List.reverse_cons, List.append_assoc]
  exact passMany_exact (fun d hd => wordDigit_of_digit (hrun d (List.mem_cons_of_mem _ hd))) hrest
    fun d hd => hnext d (List.mem_cons_of_mem _ hd)

/-- Digits take a whole run of digits if a match follows. -/
theorem run_digits_some (hne : run ≠ []) (hrun : ∀ c ∈ run, c.isDigit = true)
    (hrest : rest.head?.any isWordDigit = false) {out : Site}
    (hnext : next ⟨run.reverse ++ before, rest, captured⟩ = .some out) :
    Pattern.run digits ⟨before, run ++ rest, captured⟩ next = .some out := by
  obtain ⟨c, run, rfl⟩ := List.exists_cons_of_ne_nil hne
  show Pattern.run (one isWordDigit) ⟨before, c :: (run ++ rest), captured⟩ _ = _
  rw [run_one_cons (wordDigit_of_digit (hrun c List.mem_cons_self))]
  exact passMany_run (fun d hd => wordDigit_of_digit (hrun d (List.mem_cons_of_mem _ hd))) hrest (by simpa using hnext)

end Pattern

end DialectBridge
