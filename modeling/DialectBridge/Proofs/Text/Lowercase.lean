import DialectBridge.Proofs.Text.Case

/-!
# Lower case

What the lower case of a text is made of: each character adds its lower-case forms, and a capital sigma one of two
small ones. Nothing vanishes, no ASCII capital is left, and no underscore comes up that was not there.
-/

namespace DialectBridge

/-! ## Characters -/

theorem lowercaseOf_ne_nil (c : Char) : lowercaseOf c ≠ [] := by
  unfold lowercaseOf
  split
  · simp
  · split <;> simp

theorem toLower_of_mem_lowercaseOf {c d : Char} (h : d ∈ lowercaseOf c) : d.toLower = d := by
  by_cases hc : c.toNat < 128
  · rw [lowercaseOf, if_pos hc, List.mem_singleton] at h
    subst h
    exact forall_ascii (P := fun c => c.toLower.toLower = c.toLower) (by decide) hc
  · rcases mem_lowercaseOf_cases (Nat.not_lt.1 hc) h with hd | rfl | rfl
    · exact toLower_of_not_ascii hd
    · rfl
    · rfl

/-- Only the underscore has an underscore in its lower case. -/
theorem eq_of_underscore_mem_lowercaseOf {c : Char} (h : '_' ∈ lowercaseOf c) : c = '_' := by
  by_cases hc : c.toNat < 128
  · rw [lowercaseOf, if_pos hc, List.mem_singleton] at h
    exact forall_ascii (P := fun c => '_' = c.toLower → c = '_') (by decide) hc h
  · exact absurd (mem_lowercaseOf_cases (Nat.not_lt.1 hc) h) (by decide)

/-! ## Texts -/

namespace Text

/-- The lower case of a text starts with that of its first character. -/
theorem exists_lowercaseAfter_cons (before : Text) (b : Char) (t : Text) : ∃ l, l ≠ [] ∧
    lowercaseAfter before (b :: t) = l ++ lowercaseAfter (b :: before) t ∧
    ∀ c ∈ l, c ∈ lowercaseOf b ∨ c = 'σ' ∨ c = 'ς' := by
  refine ⟨_, ?_, rfl, ?_⟩
  · split
    · simp
    · exact lowercaseOf_ne_nil b
  · split
    · split <;> simp
    · exact fun c hc => .inl hc

theorem mem_lowercaseAfter {before t : Text} {c : Char} (h : c ∈ lowercaseAfter before t) :
    ∃ b ∈ t, c ∈ lowercaseOf b ∨ c = 'σ' ∨ c = 'ς' := by
  induction t generalizing before with
  | nil => cases h
  | cons b t ih =>
    obtain ⟨l, -, heq, hl⟩ := exists_lowercaseAfter_cons before b t
    rw [heq] at h
    rcases List.mem_append.1 h with h | h
    · exact ⟨b, List.mem_cons_self, hl c h⟩
    · obtain ⟨a, ha, hc⟩ := ih h
      exact ⟨a, List.mem_cons_of_mem b ha, hc⟩

theorem lowercase_ne_nil {t : Text} (h : t ≠ []) : t.lowercase ≠ [] := by
  obtain ⟨b, t, rfl⟩ := List.exists_cons_of_ne_nil h
  obtain ⟨l, hl, heq, -⟩ := exists_lowercaseAfter_cons [] b t
  rw [lowercase, heq]
  simp [hl]

/-- No capital of ASCII is left in lower case. -/
theorem lower_lowercase (t : Text) : t.lowercase.lower = t.lowercase := by
  refine (List.map_congr_left fun c hc => ?_).trans (List.map_id _)
  obtain ⟨b, -, hmem | rfl | rfl⟩ := mem_lowercaseAfter hc
  · exact toLower_of_mem_lowercaseOf hmem
  · exact toLower_of_not_ascii (by decide)
  · exact toLower_of_not_ascii (by decide)

end Text

end DialectBridge
