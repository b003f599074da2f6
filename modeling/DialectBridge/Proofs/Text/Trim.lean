import Mathlib.Data.List.TakeWhile
import DialectBridge.Proofs.Text.Run

/-!
# Trimming

What trimming the end of a text takes away, told by its last character.
-/

namespace DialectBridge.Text

theorem trimEnd_eq (t : Text) : trimEnd t = (t.reverse.dropWhile isBlank).reverse := rfl

/-- Blank text at the end goes. -/
theorem trimEnd_append_blank (t : Text) {b : Text} (hb : ∀ c ∈ b, isBlank c = true) :
    trimEnd (t ++ b) = trimEnd t := by
  rw [trimEnd_eq, List.reverse_append, List.dropWhile_append_of_pos (by simpa using hb)]
  rfl

/-- A text that does not end blank stays whole in front of one that is trimmed. -/
theorem trimEnd_append {p : Text} (hp : p.getLast?.any isBlank = false) (t : Text) :
    trimEnd (p ++ t) = p ++ trimEnd t := by
  have hdrop : (p.reverse).dropWhile isBlank = p.reverse := by
    rw [← List.head?_reverse] at hp
    cases hr : p.reverse with
    | nil => rfl
    | cons c u =>
      rw [hr] at hp
      exact List.dropWhile_cons_of_neg (by simpa using hp)
  rw [trimEnd_eq, trimEnd_eq, List.reverse_append, List.dropWhile_append]
  split
  · next h => simp [hdrop, List.isEmpty_iff.1 h]
  · simp

/-- Only from whitespace nothing is left. -/
theorem trimEnd_eq_nil {t : Text} : trimEnd t = [] ↔ ∀ c ∈ t, isBlank c = true := by
  rw [trimEnd_eq, List.reverse_eq_nil_iff, List.dropWhile_eq_nil_iff]
  exact ⟨fun h c hc => h c (List.mem_reverse.2 hc), fun h c hc => h c (List.mem_reverse.1 hc)⟩

/-- A text stays whole in front of one that is not blank. -/
theorem trimEnd_append_of_ne {t : Text} (ht : trimEnd t ≠ []) (p : Text) : trimEnd (p ++ t) = p ++ trimEnd t := by
  have hne : (t.reverse.dropWhile isBlank).isEmpty = false := by simpa [trimEnd_eq] using ht
  rw [trimEnd_eq, trimEnd_eq, List.reverse_append, List.dropWhile_append, hne]
  simp

theorem getLast?_trimEnd (t : Text) : (trimEnd t).getLast?.any isBlank = false := by
  rw [← List.head?_reverse, trimEnd_eq, List.reverse_reverse]
  exact head?_any_dropWhile isBlank t.reverse

theorem trimEnd_eq_self {t : Text} : trimEnd t = t ↔ t.getLast?.any isBlank = false := by
  constructor
  · intro h
    rw [← h]
    exact getLast?_trimEnd t
  · intro h
    simpa [trimEnd_eq] using trimEnd_append h []

theorem trimEnd_trimEnd (t : Text) : trimEnd (trimEnd t) = trimEnd t :=
  trimEnd_eq_self.2 (getLast?_trimEnd t)

theorem length_trimEnd_le (t : Text) : (trimEnd t).length ≤ t.length := by
  have := (List.dropWhile_suffix isBlank (l := t.reverse)).length_le
  simpa [trimEnd_eq] using this

end DialectBridge.Text
