import DialectBridge.Proofs.Types.SpacedSizes

/-!
# Sizes that a target takes over

A size loses its whitespace and the unit of a length. The unit is told by the whitespace before it and stands at the end
of the size (`carriedSize_of_unit`).
-/

namespace DialectBridge

open Text

namespace TypeTable

variable {a g z : Text}

/-- A size without a unit loses its whitespace. -/
theorem carriedSize_eq_packed (h : ∀ c ∈ a, sameLetter 'C' c = false ∧ sameLetter 'B' c = false) :
    carriedSize a = packed a := by
  have hnone : hasMatch lengthUnit.matcher a = false := by
    refine Pattern.hasMatch_of_reaches fun s u hs hreach => ?_
    obtain ⟨v, hspace, x, hunit, -⟩ := hreach
    have hmem {d : Char} {rest : Text} (hv : v.after = d :: rest) : d ∈ a := by
      rw [← hs, ← hspace.text_eq, Pattern.Site.text, hv]
      simp
    have hfirst {c d : Char} (hc : sameLetter c d = false) (hsame : sameLetter c d = true) : False := by
      rw [hc] at hsame
      cases hsame
    rcases hunit with ⟨-, ⟨d, rest, hv, hsame, -⟩, -⟩ | ⟨-, ⟨d, rest, hv, hsame, -⟩, -⟩
    · exact hfirst (h d (hmem hv)).1 hsame
    · exact hfirst (h d (hmem hv)).2 hsame
  rw [carriedSize, replaceFirst_of_hasMatch _ hnone]
  rfl

/-- A list of digits, whitespace and punctuation is carried over without the whitespace. -/
theorem carriedSize_listText (hg : IsGap g) (hz : ∀ c ∈ z, isSizeCharacter c = true ∨ isBlank c = true) :
    carriedSize (listText g z) = '(' :: (packed z ++ [')']) := by
  rw [carriedSize_eq_packed, packed_listText hg]
  have hletter {l c : Char} (hl : l = 'C' ∨ l = 'B') (hc : (isSizeCharacter c = true ∨ isBlank c = true) ∨ c = '(' ∨ c = ')') :
      sameLetter l c = false := by
    rw [← Bool.not_eq_true]
    intro hsame
    have hbare : isBare l = true := by rcases hl with rfl | rfl <;> decide
    rcases hc with (hc | hc) | rfl | rfl
    · rw [TypeRule.sameLetter_comm] at hsame
      obtain rfl := eq_of_sameLetter_size hc hsame
      rcases hl with rfl | rfl <;> exact absurd hc (by decide)
    · have := wordCharacter_of_sameLetter hbare hsame
      simp [not_wordCharacter_of_blank hc] at this
    · have := wordCharacter_of_sameLetter hbare hsame
      simp [show isWordCharacter '(' = false by decide +kernel] at this
    · have := wordCharacter_of_sameLetter hbare hsame
      simp [show isWordCharacter ')' = false by decide +kernel] at this
  intro c hc
  have hc : (isSizeCharacter c = true ∨ isBlank c = true) ∨ c = '(' ∨ c = ')' := by
    simp only [listText, List.mem_append, List.mem_cons, List.not_mem_nil, or_false] at hc
    rcases hc with hc | rfl | hc | rfl
    · exact .inl (.inr (hg c hc))
    · exact .inr (.inl rfl)
    · exact .inl (hz c hc)
    · exact .inr (.inr rfl)
  exact ⟨hletter (.inl rfl) hc, hletter (.inr rfl) hc⟩

/-- A unit of length. -/
def IsLengthUnit (u : Text) : Prop :=
  fold u = fold "CHAR" ∨ fold u = fold "BYTE"

namespace IsLengthUnit

variable {u : Text}

theorem length_eq (h : IsLengthUnit u) : u.length = 4 := by
  rcases h with h | h <;> simpa [fold] using congrArg List.length h

theorem wordCharacter (h : IsLengthUnit u) : ∀ c ∈ u, isWordCharacter c = true := by
  rcases h with h | h <;> exact wordCharacter_of_fold (List.all_eq_true.1 (by decide)) h

theorem notMem (h : IsLengthUnit u) {c : Char} (hc : isWordCharacter c = false) : c ∉ u := fun hmem => by
  rw [h.wordCharacter c hmem] at hc
  cases hc

/-- A unit is no size. -/
theorem exists_not_size (h : IsLengthUnit u) : ∃ c ∈ u, isSizeCharacter c = false := by
  obtain ⟨c, rest, rfl⟩ := List.exists_cons_of_ne_nil (List.ne_nil_of_length_pos (by rw [h.length_eq]; decide))
  refine ⟨c, List.mem_cons_self, ?_⟩
  rw [← Bool.not_eq_true]
  intro hc
  have hsame {l : Char} (hl : foldCase c = foldCase l) : l = c :=
    eq_of_sameLetter_size hc (by simp [sameLetter, hl])
  rcases h with h | h
  · rw [← hsame (l := 'C') (List.cons.inj h).1] at hc
    exact absurd hc (by decide)
  · rw [← hsame (l := 'B') (List.cons.inj h).1] at hc
    exact absurd hc (by decide)

theorem packed (h : IsLengthUnit u) : packed u = u :=
  packed_of_solid fun c hc => by
    rw [← Bool.not_eq_true]
    intro hblank
    have := h.wordCharacter c hc
    simp [not_wordCharacter_of_blank hblank] at this

theorem reaches (h : IsLengthUnit u) (b rest : Text) (captures : List (Nat × Text)) :
    Pattern.Reaches (.either (.text "CHAR") (.text "BYTE")) ⟨b, u ++ rest, captures⟩ ⟨u.reverse ++ b, rest, captures⟩ :=
  h.imp (Pattern.reaches_text_of_fold · b rest captures) (Pattern.reaches_text_of_fold · b rest captures)

end IsLengthUnit

theorem end_of_last {x y rest : Text} (h : x ++ ')' :: rest = y ++ [')']) (hy : ')' ∉ y) : x = y ∧ rest = [] := by
  rcases List.eq_nil_or_concat rest with rfl | ⟨rest, c, rfl⟩
  · exact ⟨List.append_cancel_right h, rfl⟩
  · have hsplit : (x ++ ')' :: rest) ++ [c] = y ++ [')'] := by simpa using h
    obtain ⟨rfl, -⟩ := List.append_inj' hsplit rfl
    simp at hy

/-- What the unit of a length takes. -/
theorem lengthUnit_match {before after taken : Text} {captures : List (Nat × Text)}
    (h : lengthUnit.matcher before after = some (taken, captures)) :
    ∃ b u b', taken = b ++ u ++ b' ++ [')'] ∧ IsGap b ∧ b ≠ [] ∧ IsLengthUnit u ∧ IsGap b' := by
  obtain ⟨t, hreach, hafter, -⟩ := Pattern.matcher_reaches h
  obtain ⟨s₁, ⟨s₂, ⟨c, r₁, hc, hblank, rfl⟩, b, r₂, hb, hall, rfl⟩, s₃, hunit, s₄,
    ⟨b', r₃, hb', hall', rfl⟩, s₅, ⟨d, r₄, hd, hclose, rfl⟩, rfl⟩ := hreach
  obtain rfl := eq_rightParen hclose
  have htext {word : Text} (h : Pattern.Reaches (.text word) ⟨b.reverse ++ c :: before, r₂, []⟩ s₃) :
      ∃ u, r₂ = u ++ s₃.after ∧ fold u = fold word := by
    obtain ⟨u, hu, -, hfold⟩ := Pattern.reaches_text h
    exact ⟨u, hu, hfold⟩
  obtain ⟨u, hu, hfold⟩ : ∃ u, r₂ = u ++ s₃.after ∧ IsLengthUnit u := by
    rcases hunit with hunit | hunit
    · exact (htext hunit).imp fun u hu => ⟨hu.1, .inl hu.2⟩
    · exact (htext hunit).imp fun u hu => ⟨hu.1, .inr hu.2⟩
  refine ⟨c :: b, u, b', ?_, List.forall_mem_cons.2 ⟨hblank, hall⟩, List.cons_ne_nil c b, hfold, hall'⟩
  simp only at hc hb hb' hd hafter
  refine List.append_cancel_right (hafter.symm.trans ?_)
  rw [hc, hb, hu, hb', hd]
  simp

/-- A unit before the end of a list is found, whatever stands before the whitespace that tells it. -/
theorem exists_found_unit {u g₁ g₂ : Text} {c : Char} (front : Text) (hc : isBlank c = true) (hg₁ : IsGap g₁)
    (hu : IsLengthUnit u) (hg₂ : IsGap g₂) :
    ∃ m, Cut.found m ∈ cut lengthUnit.matcher (front ++ c :: (g₁ ++ u ++ g₂ ++ [')'])) := by
  have hreach {b : Text} : Pattern.Reaches lengthUnit ⟨b, c :: (g₁ ++ u ++ g₂ ++ [')']), []⟩
      ⟨')' :: (g₂.reverse ++ (u.reverse ++ (g₁.reverse ++ c :: b))), [], []⟩ :=
    ⟨_, ⟨_, ⟨c, _, rfl, hc, rfl⟩, g₁, u ++ (g₂ ++ [')']), by simp, hg₁, rfl⟩, _, hu.reaches _ _ _, _,
      ⟨g₂, [')'], rfl, hg₂, rfl⟩, _, ⟨')', [], rfl, by decide, rfl⟩, rfl⟩
  refine exists_found_of_hasMatch (Bool.of_not_eq_false fun hnone => ?_)
  exact Pattern.matcher_ne_none hreach (Pattern.matcher_of_hasMatch (by decide) hnone)

/-- A size loses its unit, which is told by the whitespace before it. -/
theorem carriedSize_of_unit {y u g₁ g₂ : Text} {c : Char} (hg : IsGap g) (hy : ')' ∉ y) (hc : isBlank c = true)
    (hg₁ : IsGap g₁) (hu : IsLengthUnit u) (hg₂ : IsGap g₂) :
    carriedSize (listText g (y ++ c :: (g₁ ++ u ++ g₂))) = '(' :: (packed y ++ [')']) := by
  have hz : ')' ∉ y ++ c :: (g₁ ++ u ++ g₂) := by
    have hparen {t : Text} (ht : IsGap t) : ')' ∉ t := ht.notMem (by decide)
    have hc' : ')' ≠ c := by
      rintro rfl
      exact absurd hc (by decide)
    simp [hy, hc', hparen hg₁, hu.notMem (c := ')') (by decide +kernel), hparen hg₂]
  have hfound : ∃ m, Cut.found m ∈ cut lengthUnit.matcher (listText g (y ++ c :: (g₁ ++ u ++ g₂))) := by
    simpa [listText] using exists_found_unit (g ++ '(' :: y) hc hg₁ hu hg₂
  obtain ⟨m, hm, hreplace⟩ := exists_replaceFirst hfound [')']
  obtain ⟨hmatch, htext⟩ := Cut.matcher_of_found lengthUnit.matcher_takesPrefix hm
  obtain ⟨b, v, b', htaken, hb, -, hv, hb'⟩ := lengthUnit_match hmatch
  -- it ends at the parenthesis, which is the only one
  have hends : m.before.reverse ++ b ++ v ++ b' = g ++ '(' :: (y ++ c :: (g₁ ++ u ++ g₂)) ∧ m.after = [] := by
    refine end_of_last ?_ (notMem_listText hg hz)
    have htext : m.before.reverse ++ (m.text ++ m.after) = listText g (y ++ c :: (g₁ ++ u ++ g₂)) := htext
    rw [← listText_eq, ← htext, htaken]
    simp
  -- and four characters before it are the unit
  have hpacked : packed m.before.reverse ++ v = '(' :: packed y ++ u := by
    have hopen : isBlank '(' = false := by decide
    have hsame := congrArg packed hends.1
    simpa [packed_of_gap, hb, hb', hg, hg₁, hg₂, hv.packed, hu.packed, packed_cons hopen, packed_blank hc] using hsame
  obtain ⟨hfront, -⟩ := List.append_inj' hpacked (hv.length_eq.trans hu.length_eq.symm)
  have hsize : carriedSize (listText g (y ++ c :: (g₁ ++ u ++ g₂))) = packed (m.before.reverse ++ [')'] ++ m.after) :=
    congrArg packed hreplace
  rw [hsize, hends.2, List.append_nil, packed_append, hfront]
  rfl

end TypeTable

end DialectBridge
