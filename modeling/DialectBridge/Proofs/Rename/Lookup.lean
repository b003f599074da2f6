import DialectBridge.Proofs.Rename.Words
import DialectBridge.Proofs.Text.Bare

/-!
# Looking words up

The words of a glossary are looked for longest first, and a match that does not end a word is given
up. For names this comes to a plain lookup: a whole word is replaced by the target of the first pair
whose old word has the same lower case (`rename_ofPairs`).
-/

namespace DialectBridge

/-! ## The order of the words -/

namespace Glossary

theorem wordBefore_iff {v w : Text} :
    wordBefore v w = true ↔ w.utf8Size < v.utf8Size ∨ (v.utf8Size = w.utf8Size ∧ v < w) := by
  unfold wordBefore
  split
  · next hne => simp [hne]
  · next heq =>
    have heq : v.utf8Size = w.utf8Size := Decidable.not_not.1 heq
    rw [Text.before_iff]
    simp [heq]

theorem wordBefore_trans {u v w : Text} (huv : wordBefore u v = true) (hvw : wordBefore v w = true) :
    wordBefore u w = true := by
  rw [wordBefore_iff] at *
  rcases huv with huv | ⟨huv, hlt⟩ <;> rcases hvw with hvw | ⟨hvw, hlt'⟩
  · left; omega
  · left; omega
  · left; omega
  · exact .inr ⟨huv.trans hvw, List.lt_trans hlt hlt'⟩

theorem wordBefore_asymm {v w : Text} (h : wordBefore v w = true) : wordBefore w v = false := by
  rw [Bool.eq_false_iff]
  intro h'
  rw [wordBefore_iff] at h h'
  rcases h with h | ⟨hsize, hlt⟩ <;> rcases h' with h' | ⟨hsize', hlt'⟩
  · omega
  · omega
  · omega
  · exact List.lt_asymm hlt hlt'

theorem wordBefore_total {v w : Text} (hne : v ≠ w) (h : wordBefore v w = false) : wordBefore w v = true := by
  rw [Bool.eq_false_iff] at h
  rw [Ne, wordBefore_iff] at h
  rw [wordBefore_iff]
  rcases Nat.lt_trichotomy v.utf8Size w.utf8Size with hsize | hsize | hsize
  · exact .inl hsize
  · refine .inr ⟨hsize.symm, ?_⟩
    rcases List.le_iff_lt_or_eq.1 (List.not_lt.1 fun hlt => h (.inr ⟨hsize, hlt⟩)) with hlt | heq
    · exact hlt
    · exact absurd heq.symm hne
  · exact absurd (.inl hsize) h

/-! ## Entries in order -/

/-- Each entry comes before all later ones. -/
def IsSorted (entries : List (Text × Text)) : Prop :=
  entries.Pairwise fun e f => wordBefore e.1 f.1 = true

variable {word target : Text} {entries : List (Text × Text)}

theorem mem_insert {e : Text × Text} (h : e ∈ insert word target entries) : e = (word, target) ∨ e ∈ entries := by
  induction entries with
  | nil => exact .inl (List.mem_singleton.1 h)
  | cons f entries ih =>
    rw [insert] at h
    split at h
    · exact .inr h
    · split at h
      · rcases List.mem_cons.1 h with rfl | h
        · exact .inl rfl
        · exact .inr h
      · rcases List.mem_cons.1 h with rfl | h
        · exact .inr List.mem_cons_self
        · exact (ih h).imp_right (List.mem_cons_of_mem _)

theorem IsSorted.insert (h : IsSorted entries) : IsSorted (insert word target entries) := by
  induction entries with
  | nil => exact List.pairwise_singleton _ _
  | cons f entries ih =>
    obtain ⟨hfirst, hrest⟩ := List.pairwise_cons.1 h
    rw [Glossary.insert]
    split
    · exact h
    · next hne =>
      split
      · next hbefore =>
        refine List.pairwise_cons.2 ⟨fun e he => ?_, h⟩
        rcases List.mem_cons.1 he with rfl | he
        · exact hbefore
        · exact wordBefore_trans hbefore (hfirst e he)
      · next hbefore =>
        refine List.pairwise_cons.2 ⟨fun e he => ?_, ih hrest⟩
        rcases mem_insert he with rfl | he
        · exact wordBefore_total (Ne.symm hne) (Bool.eq_false_iff.2 hbefore)
        · exact hfirst e he

/-- A word that comes before the first entry is not listed. -/
theorem find?_eq_none (h : IsSorted entries) (hfirst : ∀ e ∈ entries.head?, wordBefore word e.1 = true) :
    entries.find? (fun e => e.1 == word) = none := by
  rw [List.find?_eq_none]
  intro e he heq
  obtain rfl : e.1 = word := beq_iff_eq.1 heq
  obtain ⟨f, entries, rfl⟩ := List.exists_cons_of_ne_nil (List.ne_nil_of_mem he)
  have hself : wordBefore e.1 e.1 = true := by
    rcases List.mem_cons.1 he with rfl | he
    · exact hfirst e rfl
    · exact wordBefore_trans (hfirst f rfl) ((List.pairwise_cons.1 h).1 e he)
  rw [wordBefore_asymm hself] at hself
  cases hself

/-- A word that is listed already keeps its target. -/
theorem find?_insert (h : IsSorted entries) (key : Text) :
    (insert word target entries).find? (fun e => e.1 == key) =
      (entries.find? fun e => e.1 == key).or (if word = key then some (word, target) else none) := by
  induction entries with
  | nil => by_cases hkey : word = key <;> simp [insert, hkey]
  | cons f entries ih =>
    have ih := ih (List.pairwise_cons.1 h).2
    rw [insert]
    by_cases hword : f.1 = word
    · rw [if_pos hword, List.find?_cons]
      by_cases hkey : f.1 = key
      · simp [hkey]
      · have hne : word ≠ key := hword ▸ hkey
        simp [hne]
    · rw [if_neg hword]
      split
      · next hbefore =>
        by_cases hkey : word = key
        · -- no later entry has this word
          subst hkey
          have hnone : (f :: entries).find? (fun e => e.1 == word) = none :=
            find?_eq_none h (by simpa using hbefore)
          rw [hnone]
          simp
        · simp [hkey]
      · rw [List.find?_cons, List.find?_cons, ih]
        by_cases hkey : f.1 = key
        · rw [beq_iff_eq.2 hkey]
          rfl
        · rw [beq_eq_false_iff_ne.2 hkey]

/-! ## Glossaries of pairs -/

/-- The pairs with a word, in lower case. -/
def loweredPairs (pairs : List (Text × Text)) : List (Text × Text) :=
  (pairs.filter fun p => !p.1.isEmpty).map fun p => (p.1.lowercase, p.2)

theorem targets_ofPairs (pairs : List (Text × Text)) : (ofPairs pairs).targets =
    (loweredPairs pairs).foldl (fun entries p => insert p.1 p.2 entries) [] := by
  rw [loweredPairs, List.foldl_map, ofPairs]

theorem isSorted_foldl (pairs : List (Text × Text)) (h : IsSorted entries) :
    IsSorted (pairs.foldl (fun entries p => insert p.1 p.2 entries) entries) := by
  induction pairs generalizing entries with
  | nil => exact h
  | cons p pairs ih => exact ih h.insert

theorem isSorted_ofPairs (pairs : List (Text × Text)) : IsSorted (ofPairs pairs).targets := by
  rw [targets_ofPairs]
  exact isSorted_foldl _ .nil

theorem mem_foldl {pairs : List (Text × Text)} {e : Text × Text}
    (h : e ∈ pairs.foldl (fun entries p => insert p.1 p.2 entries) entries) : e ∈ entries ∨ e ∈ pairs := by
  induction pairs generalizing entries with
  | nil => exact .inl h
  | cons p pairs ih =>
    rcases ih h with h | h
    · rcases mem_insert h with rfl | h
      · exact .inr List.mem_cons_self
      · exact .inl h
    · exact .inr (List.mem_cons_of_mem _ h)

theorem mem_ofPairs {pairs : List (Text × Text)} {e : Text × Text} (h : e ∈ (ofPairs pairs).targets) :
    ∃ p ∈ pairs, p.1 ≠ [] ∧ e = (p.1.lowercase, p.2) := by
  rw [targets_ofPairs] at h
  obtain ⟨p, hp, rfl⟩ := List.mem_map.1 ((mem_foldl h).resolve_left (List.not_mem_nil))
  obtain ⟨hmem, hne⟩ := List.mem_filter.1 hp
  exact ⟨p, hmem, by simpa using hne, rfl⟩

/-- Of the pairs for a word the first one counts. -/
theorem find?_foldl (pairs : List (Text × Text)) (h : IsSorted entries) (key : Text) :
    (pairs.foldl (fun entries p => insert p.1 p.2 entries) entries).find? (fun e => e.1 == key) =
      (entries.find? fun e => e.1 == key).or (pairs.find? fun p => p.1 == key) := by
  induction pairs generalizing entries with
  | nil => simp
  | cons p pairs ih =>
    rw [List.foldl_cons, ih h.insert, find?_insert h, Option.or_assoc, List.find?_cons]
    by_cases hkey : p.1 = key
    · rw [if_pos hkey, beq_iff_eq.2 hkey]
      rfl
    · rw [if_neg hkey, beq_eq_false_iff_ne.2 hkey]
      rfl

theorem target?_ofPairs (pairs : List (Text × Text)) (word : Text) : (ofPairs pairs).target? word =
    ((loweredPairs pairs).find? fun p => p.1 == word).map Prod.snd := by
  rw [target?, targets_ofPairs, find?_foldl _ .nil]
  rfl

/-! ## Words in lower case -/

theorem takeLike?_lowercaseAfter {key before w : Text} (hkey : key.IsAscii) (h : Text.lowercaseAfter before w = key) :
    takeLike? key w = some w := by
  induction w generalizing before key with
  | nil =>
    subst h
    rfl
  | cons c w ih =>
    rw [Text.lowercaseAfter] at h
    subst h
    obtain ⟨hfirst, hrest⟩ := Text.Over.append_iff.1 hkey
    have hsigma : c ≠ 'Σ' := by
      rintro rfl
      rw [if_pos rfl] at hfirst
      split at hfirst <;> exact absurd (hfirst _ List.mem_cons_self) (by decide)
    rw [if_neg hsigma] at hfirst ⊢
    obtain ⟨d, hd, hsame⟩ := lowercaseOf_ascii hfirst
    rw [hd, List.singleton_append, takeLike?, if_pos hsame, ih hrest rfl]
    rfl

/-- A text equals its lower case up to case, where that is ASCII. -/
theorem takeLike?_lowercase {w : Text} (h : w.lowercase.IsAscii) : takeLike? w.lowercase w = some w :=
  takeLike?_lowercaseAfter h rfl

theorem utf8Size_of_ascii {t : Text} (h : t.IsAscii) : t.utf8Size = t.length := by
  induction t with
  | nil => rfl
  | cons c t ih =>
    obtain ⟨hc, ht⟩ := List.forall_mem_cons.1 h
    have hsize : c.utf8Size = 1 := Char.utf8Size_eq_one_iff.2 (by
      have := UInt32.le_iff_toNat_le.2 (show c.val.toNat ≤ (127 : UInt32).toNat from Nat.lt_succ_iff.1 hc)
      exact this)
    rw [Text.utf8Size_cons, ih ht, hsize, List.length_cons, Nat.add_comm]

/-- Of listed ASCII words the first one that starts a word is the whole of it, if one is. -/
theorem takesAll_of_mem {g : Glossary} (hsorted : IsSorted g.targets) (hascii : ∀ e ∈ g.targets, e.1.IsAscii)
    {e : Text × Text} (he : e ∈ g.targets) {w : Text} (hw : takeLike? e.1 w = some w) : g.takesAll w = true := by
  have hfirst : ∀ entries : List (Text × Text), IsSorted entries → (∀ f ∈ entries, f.1.IsAscii) → e ∈ entries →
      (entries.findSome? fun f => (takeLike? f.1 w).map fun taken => (taken, ())).any
        (fun p => p.1.length == w.length) = true := by
    intro entries hsorted hascii he
    induction entries with
    | nil => cases he
    | cons f entries ih =>
      obtain ⟨hbefore, hsorted⟩ := List.pairwise_cons.1 hsorted
      obtain ⟨hf, hrest⟩ := List.forall_mem_cons.1 hascii
      rw [List.findSome?_cons]
      cases htake : takeLike? f.1 w with
      | none =>
        refine ih hsorted hrest ((List.mem_cons.1 he).resolve_left ?_)
        rintro rfl
        rw [hw] at htake
        cases htake
      | some taken =>
        -- the word found first is at least as long
        have hlonger : e.1.utf8Size ≤ f.1.utf8Size := by
          rcases List.mem_cons.1 he with rfl | he
          · exact Nat.le_refl _
          · rcases wordBefore_iff.1 (hbefore e he) with hlt | ⟨hsize, -⟩
            · exact Nat.le_of_lt hlt
            · exact Nat.le_of_eq hsize.symm
        rw [utf8Size_of_ascii hf, utf8Size_of_ascii (hascii e he)] at hlonger
        obtain ⟨hstart, hlength, -⟩ := takeLike?_eq_some htake
        have hall := (takeLike?_eq_some hw).2.1
        have hle := hstart.length_le
        rw [Option.map_some]
        show (taken.length == w.length) = true
        rw [beq_iff_eq]
        omega
  exact hfirst g.targets hsorted hascii he

end Glossary

/-! ## Identifiers in ASCII -/

/-- A letter, a digit or one of the signs that names may hold, all of them ASCII. -/
def isAsciiNameCharacter (c : Char) : Bool :=
  isBare c || c == '$' || c == '#'

/-- An ASCII identifier that starts with a letter or an underscore. -/
structure IsAsciiName (w : Text) : Prop where
  start : w.head?.any isBareStart = true
  characters : ∀ c ∈ w, isAsciiNameCharacter c = true

instance (w : Text) : Decidable (IsAsciiName w) :=
  decidable_of_iff (w.head?.any isBareStart = true ∧ w.all isAsciiNameCharacter = true)
    ⟨fun h => ⟨h.1, List.all_eq_true.1 h.2⟩, fun h => ⟨h.start, List.all_eq_true.2 h.characters⟩⟩

section

variable {c d : Char}

theorem toNat_lt_of_asciiName (h : isAsciiNameCharacter c = true) : c.toNat < 128 := by
  simp only [isAsciiNameCharacter, Bool.or_eq_true, beq_iff_eq] at h
  rcases h with (h | rfl) | rfl
  · exact toNat_lt_of_bare h
  · decide
  · decide

theorem identifier_of_asciiName (h : isAsciiNameCharacter c = true) : isIdentifierCharacter c = true :=
  forall_ascii (P := fun c => isAsciiNameCharacter c = true → isIdentifierCharacter c = true) (by decide +kernel)
    (toNat_lt_of_asciiName h) h

/-- What equals a character of an ASCII name up to case may stand in a name. -/
theorem identifier_of_sameLetter (hc : isAsciiNameCharacter c = true) (h : sameLetter c d = true) :
    isIdentifierCharacter d = true := by
  rcases sameLetter_ascii (toNat_lt_of_asciiName hc) h with ⟨-, hlower⟩ | hmem
  · rw [← isIdentifierCharacter_toLower, ← hlower, isIdentifierCharacter_toLower, identifier_of_asciiName hc]
  · simp only [foldsToAscii, List.mem_cons, List.not_mem_nil, or_false] at hmem
    rcases hmem with rfl | rfl <;> decide +kernel

/-- What equals the start of an ASCII name up to case starts a word. -/
theorem not_startsNoName_of_sameLetter (hc : isBareStart c = true) (h : sameLetter c d = true) :
    startsNoName d = false := by
  rcases sameLetter_ascii (toNat_lt_of_bare (bare_of_start hc)) h with ⟨hd, hlower⟩ | hmem
  · have hstart (e : Char) (he : e.toNat < 128) : startsNoName e = !isBareStart e.toLower :=
      forall_ascii (P := fun e => startsNoName e = !isBareStart e.toLower) (by decide +kernel) he
    have hsame (e : Char) (he : e.toNat < 128) : isBareStart e = isBareStart e.toLower :=
      forall_ascii (P := fun e => isBareStart e = isBareStart e.toLower) (by decide +kernel) he
    rw [hstart d hd, ← hlower, ← hsame c (toNat_lt_of_bare (bare_of_start hc)), hc, Bool.not_true]
  · simp only [foldsToAscii, List.mem_cons, List.not_mem_nil, or_false] at hmem
    rcases hmem with rfl | rfl <;> decide +kernel

end

namespace IsAsciiName

variable {w : Text}

theorem ne_nil (h : IsAsciiName w) : w ≠ [] := by
  rintro rfl
  cases h.start

theorem ascii (h : IsAsciiName w) : w.IsAscii :=
  fun c hc => toNat_lt_of_asciiName (h.characters c hc)

theorem isWord (h : IsAsciiName w) : IsWord w := by
  obtain ⟨c, w, rfl⟩ := List.exists_cons_of_ne_nil h.ne_nil
  have hstart : isBareStart c = true := h.start
  exact ⟨⟨c, rfl, start_cases hstart⟩, fun d hd => identifier_of_asciiName (h.characters d (List.mem_cons_of_mem _ hd))⟩

theorem lower (h : IsAsciiName w) : IsAsciiName w.lower := by
  have hstart {c : Char} (hc : c.toNat < 128) : isBareStart c.toLower = isBareStart c :=
    forall_ascii (P := fun c => isBareStart c.toLower = isBareStart c) (by decide +kernel) hc
  have hname {c : Char} (hc : c.toNat < 128) : isAsciiNameCharacter c.toLower = isAsciiNameCharacter c :=
    forall_ascii (P := fun c => isAsciiNameCharacter c.toLower = isAsciiNameCharacter c) (by decide +kernel) hc
  refine ⟨?_, fun c hc => ?_⟩
  · obtain ⟨c, w, rfl⟩ := List.exists_cons_of_ne_nil h.ne_nil
    show isBareStart c.toLower = true
    rw [hstart (h.ascii c List.mem_cons_self)]
    exact h.start
  · obtain ⟨d, hd, rfl⟩ := List.mem_map.1 hc
    rw [hname (h.ascii d hd)]
    exact h.characters d hd

end IsAsciiName

/-! ## Glossaries of identifiers -/

namespace Glossary

/-- The word that the first pair for a word puts in its place. -/
def lookup (pairs : List (Text × Text)) (w : Text) : Text :=
  ((pairs.find? fun p => p.1.lowercase == w.lowercase).map Prod.snd).getD w

variable {pairs : List (Text × Text)}

theorem mem_ofPairs_name (h : ∀ p ∈ pairs, IsAsciiName p.1) {e : Text × Text} (he : e ∈ (ofPairs pairs).targets) :
    IsAsciiName e.1 := by
  obtain ⟨p, hp, -, rfl⟩ := mem_ofPairs he
  rw [Text.lowercase_of_ascii (h p hp).ascii]
  exact (h p hp).lower

theorem listsNames_ofPairs (h : ∀ p ∈ pairs, IsAsciiName p.1 ∧ IsAsciiName p.2) :
    (ofPairs pairs).ListsNames fun _ => True where
  key_ne_nil e he := (mem_ofPairs_name (fun p hp => (h p hp).1) he).ne_nil
  key_identifier e he c hc d _ hsame :=
    identifier_of_sameLetter ((mem_ofPairs_name (fun p hp => (h p hp).1) he).characters c hc) hsame
  key_start e he c hc d _ hsame := by
    have hstart := (mem_ofPairs_name (fun p hp => (h p hp).1) he).start
    rw [Option.mem_def.1 hc] at hstart
    exact not_startsNoName_of_sameLetter hstart hsame
  target e he := by
    obtain ⟨p, hp, -, rfl⟩ := mem_ofPairs he
    exact (h p hp).2.isWord

/-- A whole word is replaced by the target of the first pair for it. -/
theorem rename_ofPairs (h : ∀ p ∈ pairs, IsAsciiName p.1 ∧ IsAsciiName p.2) (w : Text) :
    (ofPairs pairs).rename w = lookup pairs w := by
  have hfilter : (pairs.filter fun p => !p.1.isEmpty) = pairs :=
    List.filter_eq_self.2 fun p hp => by simpa using (h p hp).1.ne_nil
  have htarget : (ofPairs pairs).target? w.lowercase =
      (pairs.find? fun p => p.1.lowercase == w.lowercase).map Prod.snd := by
    rw [target?_ofPairs, loweredPairs, hfilter, List.find?_map, Option.map_map]
    rfl
  rw [rename, htarget, lookup]
  cases hfind : pairs.find? fun p => p.1.lowercase == w.lowercase with
  | none => simp
  | some p =>
    -- a listed word in the lower case of `w` takes all of it
    have hmem : ∃ e ∈ (ofPairs pairs).targets, e.1 = w.lowercase := by
      rw [hfind, target?] at htarget
      obtain ⟨e, he, -⟩ := Option.map_eq_some_iff.1 htarget
      exact ⟨e, List.mem_of_find?_eq_some he, by simpa using List.find?_some he⟩
    obtain ⟨e, he, hkey⟩ := hmem
    have hnames : ∀ f ∈ (ofPairs pairs).targets, IsAsciiName f.1 :=
      fun f hf => mem_ofPairs_name (fun p hp => (h p hp).1) hf
    have hascii : w.lowercase.IsAscii := hkey ▸ (hnames e he).ascii
    have hall := takesAll_of_mem (isSorted_ofPairs pairs) (fun f hf => (hnames f hf).ascii) he
      (by rw [hkey]; exact takeLike?_lowercase hascii)
    rw [if_pos hall]

end Glossary

end DialectBridge
