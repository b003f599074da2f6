import DialectBridge.Proofs.Pattern.Replaced
import DialectBridge.Proofs.Types.Unmasked

/-!
# Holes

Held texts are given back where a text shows their placeholders, whoever wrote them: the mask, or the script itself in
its code. So the holes of a text are read from the text alone (`holes`), and restoring fills them
(`restore_eq_spell`). Holes are read piece by piece, as long as no placeholder reaches from one piece into the next
(`holes_append`, `IsWhole.holes`).
-/

namespace DialectBridge

namespace Masked

/-- The number of the held text that goes in the place of a match, if there is one. -/
def hole? (count : Nat) (m : Match (List (Nat × Text))) : Option Nat :=
  ((captured 1 m.value).bind number?).filter (· < count)

/-- The parts of a piece. What is no placeholder of a held text is code. -/
def holesOf (count : Nat) : Cut (List (Nat × Text)) → List Part
  | .copied c => [.code c]
  | .found m => ((hole? count m).map fun n => [.held n]).getD (m.text.map .code)

/-- The code of a text and its holes, when so many texts are held. -/
def holes (count : Nat) (t : Text) : List Part :=
  (cut placeholderPattern.matcher t).flatMap (holesOf count)

/-- The held text with a number. -/
def heldAt (held : List Text) (n : Nat) : Text :=
  held[n]?.getD []

/-- Filling the parts of a piece gives the text in its place. -/
theorem spell_holesOf (held : List Text) (m : Match (List (Nat × Text))) :
    spell (heldAt held) (holesOf held.length (.found m)) = heldText held m := by
  simp only [heldText, holesOf, hole?]
  cases hn : (captured 1 m.value).bind number? with
  | none => simp
  | some n => by_cases hlt : n < held.length <;> simp [Option.filter_some, heldAt, hlt]

/-- Restoring fills the holes. -/
theorem restore_eq_spell (held : List Text) (t : Text) :
    restore held t = spell (heldAt held) (holes held.length t) := by
  rw [restore, replaceMatches, holes]
  induction cut placeholderPattern.matcher t with
  | nil => rfl
  | cons piece cs ih =>
    rw [List.flatMap_cons, ih, List.flatMap_cons, spell_append]
    cases piece with
    | copied c => rfl
    | found m => rw [spell_holesOf]

theorem number_lt_of_holes {count n : Nat} {t : Text} (h : .held n ∈ holes count t) : n < count := by
  obtain ⟨piece, -, hn⟩ := List.mem_flatMap.1 h
  cases piece with
  | copied c => simp [holesOf] at hn
  | found m =>
    cases hhole : hole? count m with
    | none => simp [holesOf, hhole] at hn
    | some k =>
      obtain rfl : n = k := by simpa [holesOf, hhole] using hn
      simpa using (Option.filter_eq_some_iff.1 hhole).2

/-! ## Holes piece by piece -/

theorem placeless_holesOf (count : Nat) : Cut.Placeless (holesOf count) := by
  intro m m' htext hvalue
  simp only [holesOf, hole?, htext, hvalue]

section

variable (count : Nat)

@[simp] theorem holes_nil : holes count [] = [] :=
  flatMap_cut_nil rfl

theorem holes_cons {c : Char} (hc : c ≠ mark) (t : Text) : holes count (c :: t) = .code c :: holes count t :=
  flatMap_cut_copied rfl rfl (placeless_holesOf count) (matcher_code hc [] t)

theorem holes_placeholder {n : Nat} (hn : n < count) (t : Text) :
    holes count (placeholder n ++ t) = .held n :: holes count t := by
  refine (flatMap_cut_found rfl rfl (placeless_holesOf count) (matcher_placeholder [] n t)).trans ?_
  simp [holes, holesOf, hole?, captured, number?_ofNat, Option.filter_some, hn]

/-- A text without a mark is code. -/
theorem holes_code {x : Text} (hx : mark ∉ x) (t : Text) : holes count (x ++ t) = x.map .code ++ holes count t := by
  induction x with
  | nil => rfl
  | cons c x ih =>
    rw [List.mem_cons, not_or] at hx
    rw [List.cons_append, holes_cons count (Ne.symm hx.1), ih hx.2]
    rfl

/-- The character stands in no placeholder. -/
def IsOutside (c : Char) : Prop :=
  c ≠ mark ∧ isWordDigit c = false

theorem endsBefore_placeholder {y : Text} (hy : ∀ c ∈ y.head?, IsOutside c) : placeholderPattern.endsBefore y = true := by
  cases y with
  | nil => rfl
  | cons c y =>
    obtain ⟨hmark, hdigit⟩ := hy c rfl
    have hsame : sameLetter mark c = false := Bool.eq_false_iff.2 fun h => hmark (eq_mark h)
    simp [placeholderPattern, Pattern.sequence, Pattern.digits, Pattern.some, Pattern.endsBefore, hdigit, hsame]

/-- No placeholder reaches into a text that starts outside of placeholders. -/
theorem holes_append {y : Text} (hy : ∀ c ∈ y.head?, IsOutside c) (x : Text) :
    holes count (x ++ y) = holes count x ++ holes count y :=
  flatMap_cut_append rfl rfl (placeless_holesOf count) (endsBefore_placeholder hy) x

/-- The holes of a mask are its placeholders. -/
theorem holes_render {ps : List Part} (h : Sound ps) (hcount : ∀ n ∈ numbers ps, n < count) :
    holes count (render ps) = ps := by
  induction ps with
  | nil => exact holes_nil count
  | cons p ps ih =>
    obtain ⟨hp, hps⟩ := sound_cons.1 h
    have ih := ih hps fun n hn => hcount n (mem_numbers.2 (List.mem_cons_of_mem p (mem_numbers.1 hn)))
    cases p with
    | code c =>
      have hc : c ≠ mark := fun hc => hp (congrArg Part.code hc)
      exact (holes_cons count hc _).trans (congrArg _ ih)
    | held n => exact (holes_placeholder count (hcount n (mem_numbers.2 List.mem_cons_self)) _).trans (congrArg _ ih)

end

/-! ## Texts of whole placeholders -/

/-- No placeholder reaches into the text or out of it. -/
structure IsWhole (t : Text) : Prop where
  starts : ∃ c u, t = c :: u ∧ IsOutside c
  ends : ∃ u c v, t = u ++ c :: v ∧ IsOutside c ∧ mark ∉ v

/-- A text without a mark is whole if it starts outside of placeholders. -/
theorem IsWhole.of_code {c : Char} {t : Text} (hc : IsOutside c) (ht : mark ∉ t) : IsWhole (c :: t) :=
  ⟨⟨c, t, rfl, hc⟩, [], c, t, rfl, hc, ht⟩

/-- The holes of a whole text are the same wherever it stands. -/
theorem IsWhole.holes {t : Text} (ht : IsWhole t) (count : Nat) (x y : Text) :
    holes count (x ++ (t ++ y)) = Masked.holes count x ++ (Masked.holes count t ++ Masked.holes count y) := by
  obtain ⟨⟨c, u, hstart, hc⟩, v, d, w, hend, hd, hw⟩ := ht
  have hsplit (y : Text) : Masked.holes count (t ++ y) =
      Masked.holes count v ++ ((d :: w).map .code ++ Masked.holes count y) := by
    have hcode : mark ∉ d :: w := by
      rw [List.mem_cons, not_or]
      exact ⟨Ne.symm hd.1, hw⟩
    rw [hend, List.append_assoc, List.cons_append, holes_append count (by simpa using hd), ← List.cons_append,
      holes_code count hcode]
  have ht := hsplit []
  rw [List.append_nil, holes_nil, List.append_nil] at ht
  rw [holes_append count (by simpa [hstart] using hc), hsplit, ht, List.append_assoc]

theorem IsWhole.restore {t : Text} (ht : IsWhole t) (held : List Text) (x y : Text) :
    restore held (x ++ (t ++ y)) = Masked.restore held x ++ (Masked.restore held t ++ Masked.restore held y) := by
  simp only [restore_eq_spell, ht.holes, spell_append]

end Masked

end DialectBridge
