import DialectBridge.Text.Basic

/-!
# Texts cut at a separator

Cutting a text at each separator and joining the parts with it undo each other.
-/

namespace DialectBridge.Text

variable {separator : Char}

theorem splitOn_ne_nil (separator : Char) (t : Text) : splitOn separator t ≠ [] := by
  cases t with
  | nil => simp [splitOn]
  | cons c t =>
    rw [splitOn]
    split
    · simp
    · split <;> simp

theorem splitOn_append (separator : Char) (s t : Text) :
    splitOn separator (s ++ separator :: t) = splitOn separator s ++ splitOn separator t := by
  induction s with
  | nil => simp [splitOn]
  | cons c s ih =>
    rw [List.cons_append, splitOn, splitOn]
    split
    · rw [ih, List.cons_append]
    · obtain ⟨p, ps, hp⟩ := List.exists_cons_of_ne_nil (splitOn_ne_nil separator s)
      rw [ih, hp]
      rfl

theorem splitOn_of_not_mem {t : Text} (h : separator ∉ t) : splitOn separator t = [t] := by
  induction t with
  | nil => rfl
  | cons c t ih =>
    obtain ⟨hc, ht⟩ := List.ne_and_not_mem_of_not_mem_cons h
    rw [splitOn, if_neg hc.symm, ih ht]

theorem joinWith_cons (separator p : Text) {ps : List Text} (h : ps ≠ []) :
    joinWith separator (p :: ps) = p ++ separator ++ joinWith separator ps := by
  obtain ⟨q, ps, rfl⟩ := List.exists_cons_of_ne_nil h
  rw [joinWith, List.intercalate_cons_cons, ← joinWith]

theorem joinWith_splitOn (separator : Char) (t : Text) : joinWith [separator] (splitOn separator t) = t := by
  induction t with
  | nil => rfl
  | cons c t ih =>
    obtain ⟨p, ps, hparts⟩ := List.exists_cons_of_ne_nil (splitOn_ne_nil separator t)
    rw [splitOn]
    split
    · next hc => rw [joinWith_cons _ _ (splitOn_ne_nil separator t), ih, hc]; rfl
    · rw [hparts] at ih ⊢
      cases ps with
      | nil => simpa [joinWith] using ih
      | cons q ps =>
        rw [joinWith_cons _ _ (List.cons_ne_nil q ps)] at ih ⊢
        rw [← ih]
        rfl

/-- The parts of joined texts are the parts of these texts. -/
theorem splitOn_joinWith (separator : Char) {ts : List Text} (h : ts ≠ []) :
    splitOn separator (joinWith [separator] ts) = ts.flatMap (splitOn separator) := by
  induction ts with
  | nil => exact absurd rfl h
  | cons t ts ih =>
    by_cases hts : ts = []
    · simp [hts, joinWith]
    · rw [joinWith_cons _ _ hts, List.append_assoc, List.singleton_append, splitOn_append, ih hts,
        List.flatMap_cons]

end DialectBridge.Text
