import DialectBridge.Proofs.Pattern.Alternatives
import DialectBridge.Proofs.Types.Declared

/-!
# All rules as one pattern

The rules of a table can be tried as the alternatives of a single pattern, in the order of the table. The alternative
of the rule at place `i` keeps what it takes under the number `2 * i + 1` and the arguments of the type under the
number `2 * i + 2`. So the captures of a match name the rule, and the pattern finds what the table finds
(`matcher_eq_alternation`).
-/

namespace DialectBridge

/-- The alternative for the rule at place `i`. -/
def TypeRule.alternative (r : TypeRule) (i : Nat) : Pattern :=
  .capture (2 * i + 1) (r.pattern.raise (2 * i + 1))

namespace TypeTable

open Pattern

/-- The rules as the alternatives of one pattern. -/
def alternation (types : TypeTable) : Pattern :=
  .choice (types.rules.zipIdx.map fun entry => entry.1.alternative entry.2)

/-- The first rule under whose number something was captured, with the arguments of the type if it has any. -/
def capturedRule? (types : TypeTable) (captures : List (Nat × Text)) : Option RuleMatch :=
  types.rules.zipIdx.findSome? fun entry =>
    (captured (2 * entry.2 + 1) captures).map fun _ =>
      ⟨entry.1, (captured (2 * entry.2 + 2) captures).filter fun t => !t.isEmpty⟩

/-- The match of the one pattern, with the rule that its captures name. -/
def alternationMatcher (types : TypeTable) : Matcher RuleMatch := fun before after =>
  (types.alternation.matcher before after).bind fun found =>
    (types.capturedRule? found.2).map fun m => (found.1, m)

variable {types : TypeTable} {r : TypeRule} {earlier later : List TypeRule} {before after taken : Text}
  {captures : List (Nat × Text)}

/-- A rule splits the numbered rules at its place. -/
theorem zipIdx_rules (h : types.rules = earlier ++ r :: later) :
    types.rules.zipIdx = earlier.zipIdx ++ (r, earlier.length) :: later.zipIdx (earlier.length + 1) := by
  rw [h, List.zipIdx_append, List.zipIdx_cons, Nat.zero_add]

/-- The numbers of a match name the rule whose alternative matched. -/
theorem capturedRule_alternative (h : types.rules = earlier ++ r :: later) :
    types.capturedRule? ((2 * earlier.length + 1, taken) :: raiseCaptures (2 * earlier.length + 1) captures) =
      some ⟨r, (captured 1 captures).filter fun t => !t.isEmpty⟩ := by
  -- every number of this match is larger than those of the alternatives before it
  have hearlier : ∀ entry ∈ earlier.zipIdx, captured (2 * entry.2 + 1)
      ((2 * earlier.length + 1, taken) :: raiseCaptures (2 * earlier.length + 1) captures) = none := by
    intro entry hentry
    have hlt : entry.2 < earlier.length := List.snd_lt_of_mem_zipIdx hentry
    rw [captured_cons_of_ne (by omega), captured_raise_of_lt (by omega)]
  have hown : captured (2 * earlier.length + 1)
      ((2 * earlier.length + 1, taken) :: raiseCaptures (2 * earlier.length + 1) captures) = some taken := by
    simp [captured]
  have harguments : captured (2 * earlier.length + 2)
      ((2 * earlier.length + 1, taken) :: raiseCaptures (2 * earlier.length + 1) captures) = captured 1 captures := by
    rw [captured_cons_of_ne (by omega), ← captured_raise 1 (2 * earlier.length + 1) captures]
    congr 1
    omega
  rw [capturedRule?, zipIdx_rules h, List.findSome?_append, List.findSome?_eq_none_iff.2, List.findSome?_cons, hown,
    harguments]
  · rfl
  · intro entry hentry
    rw [hearlier entry hentry]
    rfl

/-- The alternatives are tried in the order of the rules, and each captures under its own numbers. -/
theorem alternation_matcher (types : TypeTable) (before after : Text) :
    types.alternation.matcher before after = types.rules.zipIdx.findSome? fun entry =>
      (entry.1.pattern.matcher before after).map fun found =>
        (found.1, (2 * entry.2 + 1, found.1) :: raiseCaptures (2 * entry.2 + 1) found.2) := by
  rw [alternation, matcher_choice, List.findSome?_map]
  exact congrArg (List.findSome? · _) (funext fun entry => matcher_capture_raise _ _ _ before after)

/-- The table matches by the first of its rules that matches. -/
theorem matcher_eq_some_iff {m : RuleMatch} : types.matcher before after = some (taken, m) ↔
    ∃ earlier r later captures, types.rules = earlier ++ r :: later ∧
      (∀ s ∈ earlier, s.pattern.matcher before after = none) ∧
      r.pattern.matcher before after = some (taken, captures) ∧
      m = ⟨r, (captured 1 captures).filter fun t => !t.isEmpty⟩ := by
  rw [matcher_eq, List.findSome?_eq_some_iff]
  constructor
  · rintro ⟨earlier, r, later, hrules, hmatch, hearlier⟩
    obtain ⟨⟨taken', captures⟩, hr, heq⟩ := Option.map_eq_some_iff.1 hmatch
    cases heq
    exact ⟨earlier, r, later, captures, hrules, fun s hs => Option.map_eq_none_iff.1 (hearlier s hs), hr, rfl⟩
  · rintro ⟨earlier, r, later, captures, hrules, hearlier, hr, rfl⟩
    refine ⟨earlier, r, later, hrules, ?_, fun s hs => ?_⟩
    · rw [tryRule, hr]
      rfl
    · rw [tryRule, hearlier s hs]
      rfl

/-- Trying the rules one by one and matching all of them as one pattern come to the same. -/
theorem matcher_eq_alternation (types : TypeTable) : types.matcher = types.alternationMatcher := by
  funext before after
  rw [alternationMatcher, alternation_matcher]
  cases h : types.matcher before after with
  | none =>
    have hnone : ∀ r ∈ types.rules, r.pattern.matcher before after = none := fun r hr =>
      Option.map_eq_none_iff.1 (List.findSome?_eq_none_iff.1 (types.matcher_eq before after ▸ h) r hr)
    rw [List.findSome?_eq_none_iff.2]
    · rfl
    · intro entry hentry
      rw [hnone entry.1 (List.fst_mem_of_mem_zipIdx hentry)]
      rfl
  | some found =>
    obtain ⟨taken, m⟩ := found
    obtain ⟨earlier, r, later, captures, hrules, hearlier, hr, rfl⟩ := matcher_eq_some_iff.1 h
    rw [zipIdx_rules hrules, List.findSome?_append, List.findSome?_eq_none_iff.2, List.findSome?_cons, hr]
    · show .some _ = (types.capturedRule? _).map _
      rw [capturedRule_alternative hrules]
      rfl
    · intro entry hentry
      rw [hearlier entry.1 (List.fst_mem_of_mem_zipIdx hentry)]
      rfl

end TypeTable

end DialectBridge
