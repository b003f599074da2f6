import DialectBridge.Text.Basic
import DialectBridge.Text.LetterCase

/-!
# Case folding

Two characters beyond ASCII fold to ASCII letters, the long s and the Kelvin sign. All others stay
beyond ASCII.
-/

namespace DialectBridge

/-- A statement about ASCII characters is one about 128 characters. -/
theorem forall_ascii {P : Char → Prop} (h : ∀ n < 128, P (Char.ofNat n)) {c : Char}
    (hc : c.toNat < 128) : P c := by
  rw [← Char.ofNat_toNat c]
  exact h c.toNat hc

theorem toNat_toLower_lt {c : Char} (h : c.toNat < 128) : c.toLower.toNat < 128 :=
  forall_ascii (P := fun c => c.toLower.toNat < 128) (by decide) h

theorem foldCase_of_ascii {c : Char} (h : c.toNat < 128) : foldCase c = c.toLower :=
  if_pos h

/-- The long s and the Kelvin sign. -/
def foldsToAscii : List Char :=
  ['\u017F', '\u212A']

/-- The images of a shifted range stay beyond ASCII and are characters. -/
def staysBeyondAscii : CodePoint.ShiftedRange → Bool
  | (first, last, _, distance) =>
    (128 ≤ first + distance && last + distance < 0xD800) ||
      (0xE000 ≤ first + distance && last + distance < 0x110000)

theorem foldShifts_staysBeyondAscii :
    ∀ r ∈ foldShifts, staysBeyondAscii r = true ∨ (r.1 = r.2.1 ∧ r.1 ∈ [0x17F, 0x212A]) := by
  decide +kernel

theorem toNat_ofNat_shift {r : CodePoint.ShiftedRange} (hr : staysBeyondAscii r = true) {n : Nat}
    (hfirst : r.1 ≤ n) (hlast : n ≤ r.2.1) : 128 ≤ (Char.ofNat (Int.toNat (n + r.2.2.2))).toNat := by
  obtain ⟨first, last, step, distance⟩ := r
  simp only [staysBeyondAscii, Bool.or_eq_true, Bool.and_eq_true, decide_eq_true_eq] at hr
  simp only at hfirst hlast ⊢
  have hvalid : (Int.toNat (n + distance)).isValidChar := by
    unfold Nat.isValidChar
    omega
  have hn : (Char.ofNat (Int.toNat (n + distance))).toNat = Int.toNat (n + distance) := by
    rw [Char.ofNat, dif_pos hvalid]
    rfl
  omega

/-- A table of shifts keeps a character beyond ASCII there, if only ranges of one exceptional character
leave it. -/
theorem shift_beyond_ascii {table : List CodePoint.ShiftedRange} {exceptions : List Nat}
    (htable : ∀ r ∈ table, staysBeyondAscii r = true ∨ (r.1 = r.2.1 ∧ r.1 ∈ exceptions)) {c : Char}
    (h : 128 ≤ c.toNat) (hc : c.toNat ∉ exceptions) : 128 ≤ (CodePoint.shift table c).toNat := by
  rw [CodePoint.shift]
  split
  · next first last step distance hfind =>
    have hmem := List.mem_of_find?_eq_some hfind
    have hon := List.find?_some hfind
    simp only [CodePoint.onStep, Bool.and_eq_true, decide_eq_true_eq, beq_iff_eq] at hon
    rcases htable _ hmem with hstays | ⟨hone, hmem⟩
    · exact toNat_ofNat_shift hstays hon.1.1 hon.1.2
    · simp only at hone hmem
      have hn : c.toNat = first := by omega
      exact absurd (hn ▸ hmem) hc
  · exact h

/-- A character beyond ASCII folds to one beyond ASCII, with two exceptions. -/
theorem foldCase_beyond_ascii {c : Char} (h : 128 ≤ c.toNat) (hc : c ∉ foldsToAscii) :
    128 ≤ (foldCase c).toNat := by
  rw [foldCase, if_neg (Nat.not_lt.2 h)]
  refine shift_beyond_ascii foldShifts_staysBeyondAscii h fun hmem => hc ?_
  have hchar {d : Char} (hd : c.toNat = d.toNat) : c = d := by
    rw [← Char.ofNat_toNat c, hd, Char.ofNat_toNat]
  simp only [List.mem_cons, List.not_mem_nil, or_false] at hmem
  rcases hmem with hn | hn
  · rw [hchar (d := '\u017F') hn]
    exact List.mem_cons_self
  · rw [hchar (d := '\u212A') hn]
    exact List.mem_cons_of_mem _ List.mem_cons_self

theorem lowercaseShifts_staysBeyondAscii :
    ∀ r ∈ lowercaseShifts, staysBeyondAscii r = true ∨ (r.1 = r.2.1 ∧ r.1 ∈ [0x212A]) := by
  decide +kernel

/-- A character whose lower case is ASCII has one character there, which equals it up to case. -/
theorem lowercaseOf_ascii {c : Char} (h : ∀ d ∈ lowercaseOf c, d.toNat < 128) :
    ∃ d, lowercaseOf c = [d] ∧ sameLetter d c = true := by
  by_cases hc : c.toNat < 128
  · refine ⟨c.toLower, by rw [lowercaseOf, if_pos hc], ?_⟩
    rw [sameLetter, foldCase_of_ascii hc, foldCase_of_ascii (toNat_toLower_lt hc), beq_iff_eq]
    exact forall_ascii (P := fun c => c.toLower.toLower = c.toLower) (by decide) hc
  · by_cases hdotted : c = '\u0130'
    · subst hdotted
      exact absurd (h '\u0307' (by decide)) (by decide)
    · have hshift : lowercaseOf c = [CodePoint.shift lowercaseShifts c] := by
        rw [lowercaseOf, if_neg hc, if_neg hdotted]
      -- only the Kelvin sign is left
      have hkelvin : c.toNat = 0x212A := by
        refine Decidable.byContradiction fun hne => ?_
        have hbeyond := shift_beyond_ascii lowercaseShifts_staysBeyondAscii (Nat.not_lt.1 hc) (by simpa using hne)
        exact absurd (h _ (by simp [hshift])) (Nat.not_lt.2 hbeyond)
      obtain rfl : c = '\u212A' := by rw [← Char.ofNat_toNat c, hkelvin]
      exact ⟨_, hshift, by decide +kernel⟩

/-- The lower case of a character beyond ASCII stays there, but for the capital I with a dot above and the Kelvin
sign. -/
theorem mem_lowercaseOf_cases {b c : Char} (hb : 128 ≤ b.toNat) (hc : c ∈ lowercaseOf b) :
    128 ≤ c.toNat ∨ c = 'i' ∨ c = 'k' := by
  by_cases hdotted : b = '\u0130'
  · subst hdotted
    have hmem : c = 'i' ∨ c = '\u0307' := by simpa [lowercaseOf] using hc
    rcases hmem with rfl | rfl
    · exact .inr (.inl rfl)
    · exact .inl (by decide)
  · have hshift : c = CodePoint.shift lowercaseShifts b := by
      rwa [lowercaseOf, if_neg (Nat.not_lt.2 hb), if_neg hdotted, List.mem_singleton] at hc
    by_cases hkelvin : b.toNat = 0x212A
    · obtain rfl : b = '\u212A' := by rw [← Char.ofNat_toNat b, hkelvin]
      rw [hshift]
      exact .inr (.inr (by decide +kernel))
    · rw [hshift]
      exact .inl (shift_beyond_ascii lowercaseShifts_staysBeyondAscii hb (by simpa using hkelvin))

/-- The lower case of a character beyond ASCII folds to ASCII only for the capital I with a dot above, the
Kelvin sign and the long s. -/
theorem foldCase_lowercaseOf {b c : Char} (hb : 128 ≤ b.toNat) (hc : c ∈ lowercaseOf b)
    (h : (foldCase c).toNat < 128) : foldCase c = 'i' ∨ foldCase c = 'k' ∨ foldCase c = 's' := by
  rcases mem_lowercaseOf_cases hb hc with hbeyond | rfl | rfl
  · have hmem : c ∈ foldsToAscii :=
      Decidable.byContradiction fun hmem => Nat.not_lt.2 (foldCase_beyond_ascii hbeyond hmem) h
    simp only [foldsToAscii, List.mem_cons, List.not_mem_nil, or_false] at hmem
    rcases hmem with rfl | rfl
    · exact .inr (.inr (by decide +kernel))
    · exact .inr (.inl (by decide +kernel))
  · exact .inl (by decide +kernel)
  · exact .inr (.inl (by decide +kernel))

/-- Only an ASCII letter is equal up to case to another character than ASCII. -/
theorem sameLetter_ascii {c d : Char} (hc : c.toNat < 128) (h : sameLetter c d = true) :
    (d.toNat < 128 ∧ c.toLower = d.toLower) ∨ d ∈ foldsToAscii := by
  simp only [sameLetter, beq_iff_eq, foldCase_of_ascii hc] at h
  by_cases hd : d.toNat < 128
  · rw [foldCase_of_ascii hd] at h
    exact .inl ⟨hd, h⟩
  · refine .inr (Decidable.byContradiction fun hmem => ?_)
    have hbeyond := foldCase_beyond_ascii (Nat.not_lt.1 hd) hmem
    rw [← h] at hbeyond
    exact Nat.not_lt.2 hbeyond (toNat_toLower_lt hc)

/-- A sign that patterns look for equals no other character. -/
theorem eq_of_sameLetter {c d : Char} (hc : c ∈ ['(', ')', ';', '\n']) (h : sameLetter c d = true) : d = c := by
  simp only [List.mem_cons, List.not_mem_nil, or_false] at hc
  have hascii : c.toNat < 128 := by rcases hc with rfl | rfl | rfl | rfl <;> decide
  rcases sameLetter_ascii hascii h with ⟨hd, hlower⟩ | hmem
  · rcases hc with rfl | rfl | rfl | rfl
    · exact forall_ascii (P := fun d => '('.toLower = d.toLower → d = '(') (by decide) hd hlower
    · exact forall_ascii (P := fun d => ')'.toLower = d.toLower → d = ')') (by decide) hd hlower
    · exact forall_ascii (P := fun d => ';'.toLower = d.toLower → d = ';') (by decide) hd hlower
    · exact forall_ascii (P := fun d => '\n'.toLower = d.toLower → d = '\n') (by decide) hd hlower
  · revert h
    simp only [foldsToAscii, List.mem_cons, List.not_mem_nil, or_false] at hmem
    rcases hmem with rfl | rfl <;> rcases hc with rfl | rfl | rfl | rfl <;> decide

theorem toLower_toUpper (c : Char) : c.toUpper.toLower = c.toLower := by
  by_cases h : 'a'.val ≤ c.val ∧ c.val ≤ 'z'.val
  · have hascii : c.toNat < 128 := Nat.lt_of_le_of_lt (UInt32.le_iff_toNat_le.1 h.2) (by decide)
    exact forall_ascii (P := fun c => c.toUpper.toLower = c.toLower) (by decide) hascii
  · have hsame : c.toUpper = c := dif_neg h
    rw [hsame]

theorem toLower_of_not_ascii {c : Char} (h : 128 ≤ c.toNat) : c.toLower = c := by
  refine dif_neg fun hupper => ?_
  have := UInt32.le_iff_toNat_le.1 hupper.2
  exact absurd (Nat.lt_of_le_of_lt this (by decide)) (Nat.not_lt.2 h)

theorem toUpper_toLower (c : Char) : c.toLower.toUpper = c.toUpper := by
  by_cases h : c.toNat < 128
  · exact forall_ascii (P := fun c => c.toLower.toUpper = c.toUpper) (by decide) h
  · rw [toLower_of_not_ascii (Nat.not_lt.1 h)]

theorem Text.lower_upper (t : Text) : t.upper.lower = t.lower := by
  simp [upper, lower, toLower_toUpper]

theorem Text.upper_lower (t : Text) : t.lower.upper = t.upper := by
  simp [upper, lower, toUpper_toLower]

/-- A text in capitals is what another one is in upper case exactly if the two are the same. -/
theorem Text.upper_eq_iff {s t : Text} (ht : t.upper = t) : s.upper = t ↔ s.same t = true := by
  rw [same_iff]
  constructor
  · rintro rfl
    rw [lower_upper]
  · intro h
    rw [← upper_lower, h, upper_lower, ht]

end DialectBridge
