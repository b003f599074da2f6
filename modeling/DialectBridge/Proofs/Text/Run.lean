import DialectBridge.Text.Basic

/-!
# Runs of characters

A run of characters of one class ends where a character of another class stands, or where the text
ends. Taking and dropping the run of a text are determined by that.
-/

namespace DialectBridge.Text

variable {p : Char → Bool}

/-- A text that follows a run of the class `p` does not go on with the class. -/
theorem head?_any_dropWhile (p : Char → Bool) (t : Text) : (t.dropWhile p).head?.any p = false := by
  have hnot := List.head?_dropWhile_not p t
  cases hhead : (t.dropWhile p).head? with
  | none => rfl
  | some c => simpa [hhead] using hnot

theorem forall_mem_takeWhile (p : Char → Bool) (t : Text) : ∀ c ∈ t.takeWhile p, p c = true :=
  List.all_eq_true.1 List.all_takeWhile

theorem takeWhile_run {run rest : Text} (hrun : ∀ c ∈ run, p c = true)
    (hrest : rest.head?.any p = false) : (run ++ rest).takeWhile p = run := by
  rw [List.takeWhile_append_of_pos hrun]
  cases rest with
  | nil => simp
  | cons c rest => simp_all

theorem dropWhile_run {run rest : Text} (hrun : ∀ c ∈ run, p c = true)
    (hrest : rest.head?.any p = false) : (run ++ rest).dropWhile p = rest := by
  rw [List.dropWhile_append_of_pos hrun]
  cases rest with
  | nil => simp
  | cons c rest => simp_all

theorem takeWhile_all {run : Text} (hrun : ∀ c ∈ run, p c = true) : run.takeWhile p = run := by
  have := @takeWhile_run p run [] hrun rfl
  rwa [List.append_nil] at this

theorem dropWhile_all {run : Text} (hrun : ∀ c ∈ run, p c = true) : run.dropWhile p = [] := by
  have := @dropWhile_run p run [] hrun rfl
  rwa [List.append_nil] at this

theorem getLast?_append_right (s : Text) {t : Text} (h : t ≠ []) : (s ++ t).getLast? = t.getLast? := by
  rw [List.getLast?_append, List.getLast?_eq_some_getLast h]
  rfl

/-- A text that ends in a run of the class `p` ends in a character of that class. -/
theorem getLast?_any_append (t : Text) {run : Text} (hne : run ≠ []) (hrun : ∀ c ∈ run, p c = true) :
    (t ++ run).getLast?.any p = true := by
  rw [getLast?_append_right t hne, List.getLast?_eq_some_getLast hne]
  exact hrun _ (List.getLast_mem hne)

/-- A run stands before a place with its last character next to it. -/
theorem head?_any_reverse_append {run : Text} (hne : run ≠ []) (hrun : ∀ c ∈ run, p c = true) (before : Text) :
    (run.reverse ++ before).head?.any p = true := by
  rw [List.head?_append, List.head?_reverse, List.getLast?_eq_some_getLast hne]
  exact hrun _ (List.getLast_mem hne)

end DialectBridge.Text
