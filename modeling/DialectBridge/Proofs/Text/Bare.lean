import DialectBridge.Proofs.Text.Case
import DialectBridge.Proofs.Text.Characters
import DialectBridge.Proofs.Text.Run

/-!
# Bare ASCII words

The bare characters are the ASCII letters, the digits and the underscore. On ASCII text the notions of
a word that search patterns, readers of identifiers and the places of names use all come down to them.
-/

namespace DialectBridge

/-- An ASCII letter, a digit or the underscore. -/
def isBare (c : Char) : Bool :=
  c.isAlphanum || c == '_'

/-- A bare character that may start a name. -/
def isBareStart (c : Char) : Bool :=
  c.isAlpha || c == '_'

theorem toNat_lt_of_bare {c : Char} (h : isBare c = true) : c.toNat < 128 := by
  have hcases : (((c.isUpper || c.isLower) || c.isDigit) || c == '_') = true := h
  have hbelow {last : Char} (hlast : last.toNat < 128) (hc : c.val ≤ last.val) : c.toNat < 128 :=
    Nat.lt_of_le_of_lt (UInt32.le_iff_toNat_le.1 hc) hlast
  simp only [Bool.or_eq_true, beq_iff_eq] at hcases
  rcases hcases with ((h | h) | h) | rfl
  · have hupper : 'A'.val ≤ c.val ∧ c.val ≤ 'Z'.val := of_decide_eq_true h
    exact hbelow (by decide) hupper.2
  · have hlower : decide (c.val ≤ 'z'.val) = true := (Bool.and_eq_true_iff.1 h).2
    exact hbelow (by decide) (of_decide_eq_true hlower)
  · exact toNat_lt_of_digit h
  · decide

theorem bare_of_start {c : Char} (h : isBareStart c = true) : isBare c = true := by
  simp only [isBareStart, isBare, Char.isAlphanum, Bool.or_eq_true] at h ⊢
  exact h.imp_left .inl

theorem bare_of_digit {c : Char} (h : c.isDigit = true) : isBare c = true := by
  simp [isBare, Char.isAlphanum, h]

/-! ## The notions of a word on ASCII text -/

section

variable {c : Char}

theorem wordCharacter_of_ascii (h : c.toNat < 128) : isWordCharacter c = isBare c :=
  forall_ascii (P := fun c => isWordCharacter c = isBare c) (by decide +kernel) h

theorem wordCharacter_of_bare (h : isBare c = true) : isWordCharacter c = true :=
  (wordCharacter_of_ascii (toNat_lt_of_bare h)).trans h

theorem nameCharacter_of_bare (h : isBare c = true) : (isAlphanumeric c || c == '_') = true :=
  forall_ascii (P := fun c => isBare c = true → (isAlphanumeric c || c == '_') = true)
    (by decide +kernel) (toNat_lt_of_bare h) h

theorem identifier_of_bare (h : isBare c = true) : isIdentifierCharacter c = true := by
  have hname := nameCharacter_of_bare h
  rw [isIdentifierCharacter, hname]
  rfl

theorem not_blank_of_bare (h : isBare c = true) : isBlank c = false :=
  not_blank_of_identifier (identifier_of_bare h)

theorem not_wordCharacter_of_blank (h : isBlank c = true) : isWordCharacter c = false := by
  have hmem := mem_blankCodePoints h
  rw [← Char.ofNat_toNat c]
  generalize c.toNat = n at hmem
  revert n
  decide +kernel

/-- A start of a name opens an identifier and no number. -/
theorem start_cases (h : isBareStart c = true) :
    c.isDigit = false ∧ (isAlphabetic c || c == '_') = true :=
  forall_ascii
    (P := fun c => isBareStart c = true → c.isDigit = false ∧ (isAlphabetic c || c == '_') = true)
    (by decide +kernel) (toNat_lt_of_bare (bare_of_start h)) h

/-- What equals a bare character up to case belongs to a word, too. -/
theorem wordCharacter_of_sameLetter {d : Char} (hc : isBare c = true) (h : sameLetter c d = true) :
    isWordCharacter d = true := by
  rcases sameLetter_ascii (toNat_lt_of_bare hc) h with ⟨hd, hlower⟩ | hmem
  · have hbare (e : Char) (he : e.toNat < 128) : isBare e = isBare e.toLower :=
      forall_ascii (P := fun e => isBare e = isBare e.toLower) (by decide +kernel) he
    rw [wordCharacter_of_ascii hd, hbare d hd, ← hlower, ← hbare c (toNat_lt_of_bare hc), hc]
  · simp only [foldsToAscii, List.mem_cons, List.not_mem_nil, or_false] at hmem
    rcases hmem with rfl | rfl <;> decide +kernel

end

/-! ## Bare words -/

/-- The text is a bare word that may be a name. -/
structure IsBareWord (w : Text) : Prop where
  start : w.head?.any isBareStart = true
  bare : ∀ c ∈ w, isBare c = true

instance (w : Text) : Decidable (IsBareWord w) :=
  decidable_of_iff (w.head?.any isBareStart = true ∧ w.all isBare = true)
    ⟨fun h => ⟨h.1, List.all_eq_true.1 h.2⟩, fun h => ⟨h.start, List.all_eq_true.2 h.bare⟩⟩

theorem IsBareWord.ne_nil {w : Text} (h : IsBareWord w) : w ≠ [] := by
  rintro rfl
  cases h.start

theorem IsBareWord.ascii {w : Text} (h : IsBareWord w) : ∀ c ∈ w, c.toNat < 128 :=
  fun c hc => toNat_lt_of_bare (h.bare c hc)

/-! ## Texts up to case -/

namespace Text

/-- A text with each character in the place of all its case variants. -/
def fold (t : Text) : Text :=
  t.map foldCase

@[simp] theorem fold_nil : fold [] = [] := rfl

@[simp] theorem fold_cons (c : Char) (t : Text) : fold (c :: t) = foldCase c :: fold t := rfl

/-- ASCII texts are equal up to case when they are equal up to ASCII case. -/
theorem fold_eq_iff {s t : Text} (hs : ∀ c ∈ s, c.toNat < 128) (ht : ∀ c ∈ t, c.toNat < 128) :
    fold s = fold t ↔ s.same t = true := by
  have hfold {u : Text} (hu : ∀ c ∈ u, c.toNat < 128) : fold u = lower u :=
    List.map_congr_left fun c hc => foldCase_of_ascii (hu c hc)
  rw [same_iff, hfold hs, hfold ht]

/-- What equals a bare word up to case is a run of word characters. -/
theorem wordCharacter_of_fold {word w : Text} (hword : ∀ c ∈ word, isBare c = true)
    (h : fold w = fold word) : ∀ c ∈ w, isWordCharacter c = true := by
  induction word generalizing w with
  | nil =>
    have hnil : w = [] := List.map_eq_nil_iff.1 h
    simp [hnil]
  | cons d word ih =>
    obtain ⟨c, w, rfl, hc, hw⟩ := List.map_eq_cons_iff.1 h
    have hsame : sameLetter d c = true := beq_iff_eq.2 hc.symm
    intro e he
    rcases List.mem_cons.1 he with rfl | he
    · exact wordCharacter_of_sameLetter (hword d List.mem_cons_self) hsame
    · exact ih (fun f hf => hword f (List.mem_cons_of_mem _ hf)) hw e he

/-! ## The words of a text -/

variable {p : Char → Bool} {run rest : Text}

theorem runs_cons_of_not {c : Char} (h : p c = false) (t : Text) : runs p (c :: t) = runs p t := by
  rw [runs.eq_def]
  exact if_neg (by simp [h])

/-- A run of a class that the class does not go on behind is one of the runs. -/
theorem runs_run (hne : run ≠ []) (hrun : ∀ c ∈ run, p c = true) (hrest : rest.head?.any p = false) :
    runs p (run ++ rest) = run :: runs p rest := by
  induction run with
  | nil => exact absurd rfl hne
  | cons c run ih =>
    have hc : p c = true := hrun c List.mem_cons_self
    cases run with
    | nil =>
      rw [List.singleton_append, runs.eq_def]
      cases rest with
      | nil => exact if_pos hc
      | cons d rest =>
        have hd : p d = false := by simpa using hrest
        cases hruns : runs p (d :: rest) <;> simp [hc, hd, hruns]
    | cons d run =>
      have hd : p d = true := hrun d (by simp)
      have hmore := ih (List.cons_ne_nil d run) fun e he => hrun e (List.mem_cons_of_mem _ he)
      rw [List.cons_append, runs.eq_def]
      simp only [List.cons_append] at hmore ⊢
      rw [hmore]
      simp [hc, hd]

theorem runs_append_cons (s : Text) {c : Char} (h : p c = false) (t : Text) :
    runs p (s ++ c :: t) = runs p s ++ runs p t := by
  induction hlen : s.length using Nat.strongRecOn generalizing s with
  | ind n ih =>
    cases s with
    | nil => exact runs_cons_of_not h t
    | cons d s =>
      cases hd : p d with
      | false =>
        have hshort : s.length < n := by simp [← hlen]
        rw [List.cons_append, runs_cons_of_not hd, runs_cons_of_not hd, ih _ hshort s rfl]
      | true =>
        -- the first run and what follows it
        have hsplit := List.takeWhile_append_dropWhile (p := p) (l := d :: s)
        have hne : (d :: s).takeWhile p ≠ [] := by simp [hd]
        have hall := forall_mem_takeWhile p (d :: s)
        have hstop := head?_any_dropWhile p (d :: s)
        have hshort : ((d :: s).dropWhile p).length < n := by
          have := (List.dropWhile_suffix p (l := s)).length_le
          rw [List.dropWhile_cons_of_pos hd, ← hlen, List.length_cons]
          omega
        have hnext : ((d :: s).dropWhile p ++ c :: t).head?.any p = false := by
          cases hrest : (d :: s).dropWhile p with
          | nil => simpa using h
          | cons e rest => simpa [hrest] using hstop
        rw [← hsplit, List.append_assoc, runs_run hne hall hnext, runs_run hne hall hstop,
          ih _ hshort _ rfl, List.cons_append]

/-- A run between characters of other classes is one of the runs. -/
theorem mem_runs {s : Text} (hne : run ≠ []) (hrun : ∀ c ∈ run, p c = true)
    (hbefore : s.getLast?.any p = false) (hrest : rest.head?.any p = false) :
    run ∈ runs p (s ++ run ++ rest) := by
  rcases List.eq_nil_or_concat s with rfl | ⟨s, c, rfl⟩
  · rw [List.nil_append, runs_run hne hrun hrest]
    exact List.mem_cons_self
  · have hc : p c = false := by simpa using hbefore
    rw [List.append_assoc, List.concat_eq_append, List.append_assoc, List.singleton_append,
      runs_append_cons s hc, runs_run hne hrun hrest]
    exact List.mem_append_right _ List.mem_cons_self

end Text

end DialectBridge
