import Mathlib.Data.Bool.Basic
import Mathlib.Data.Char
import Mathlib.Data.List.Lex
import Mathlib.Data.List.Sort
import Mathlib.Data.Prod.Lex
import DialectBridge.Proofs.Pattern.Cutting
import DialectBridge.Proofs.Types.Alternation
import DialectBridge.Proofs.Types.RuleMatch

/-!
# The order of type rules

The order in which the rules of a table are written does not matter: rules that differ in their source or in whether
they require arguments are sorted in one way only. At each match the table takes a rule with the longest source among
those that match there, so a type with a size of its own wins over the bare word (`ofRules_perm`).
-/

namespace DialectBridge

namespace TypeRule

variable {r s : TypeRule} {rules rules' : List TypeRule}

/-! ## Sorting -/

/-- What rules are ordered by: a longer source comes first, then a smaller one, and of two rules with one source the
one that requires arguments. -/
def key (r : TypeRule) : ℕᵒᵈ ×ₗ Text ×ₗ Boolᵒᵈ :=
  toLex (.toDual r.source.utf8Size, toLex (r.source, .toDual r.requiresArguments))

theorem key_lt_iff : r.key < s.key ↔ s.source.utf8Size < r.source.utf8Size ∨
    r.source.utf8Size = s.source.utf8Size ∧
      (r.source < s.source ∨ r.source = s.source ∧ s.requiresArguments < r.requiresArguments) := by
  simp only [key, Prod.Lex.toLex_lt_toLex, OrderDual.toDual_lt_toDual, OrderDual.toDual_inj]

theorem key_inj : r.key = s.key ↔ r.source = s.source ∧ r.requiresArguments = s.requiresArguments := by
  constructor
  · intro h
    have hpair : (r.source, OrderDual.toDual r.requiresArguments) = (s.source, OrderDual.toDual s.requiresArguments) :=
      congrArg (fun k => ofLex (ofLex k).2) h
    simpa using hpair
  · rintro ⟨hsource, harguments⟩
    rw [key, key, hsource, harguments]

theorem before_iff : r.before s = true ↔ r.key < s.key := by
  rw [key_lt_iff, before]
  split
  · next hsize => simp [hsize]
  · next hsize =>
    have hsize : r.source.utf8Size = s.source.utf8Size := Decidable.not_not.1 hsize
    split
    · next hsource => simp [hsize, hsource, Text.before_iff]
    · next hsource =>
      have hsource : r.source = s.source := Decidable.not_not.1 hsource
      cases hr : r.requiresArguments <;> cases hs : s.requiresArguments <;> simp [hsource]

theorem insert_eq_orderedInsert (r : TypeRule) (rules : List TypeRule) :
    r.insert rules = rules.orderedInsert (fun r s => r.key ≤ s.key) r := by
  induction rules with
  | nil => rfl
  | cons s rules ih =>
    rw [insert, List.orderedInsert_cons, ih]
    by_cases h : s.before r = true
    · rw [if_pos h, if_neg (not_le.2 (before_iff.1 h))]
    · rw [if_neg h, if_pos (not_lt.1 fun hlt => h (before_iff.2 hlt))]

theorem sort_eq_insertionSort (rules : List TypeRule) :
    sort rules = rules.insertionSort fun r s => r.key ≤ s.key := by
  induction rules with
  | nil => rfl
  | cons r rules ih =>
    show r.insert (sort rules) = _
    rw [ih, insert_eq_orderedInsert, List.insertionSort_cons]

theorem sort_perm (rules : List TypeRule) : (sort rules).Perm rules := by
  rw [sort_eq_insertionSort]
  exact List.perm_insertionSort _ rules

theorem pairwise_sort (rules : List TypeRule) : (sort rules).Pairwise fun r s => r.key ≤ s.key := by
  rw [sort_eq_insertionSort]
  have : Std.Total fun r s : TypeRule => r.key ≤ s.key := ⟨fun r s => le_total r.key s.key⟩
  have : IsTrans TypeRule fun r s => r.key ≤ s.key := ⟨fun _ _ _ => le_trans⟩
  exact List.pairwise_insertionSort _ rules

/-- Rules that the order tells apart are sorted in one way only. -/
theorem sort_eq_of_perm (hdistinct : (rules.map fun r => (r.source, r.requiresArguments)).Nodup)
    (hperm : rules.Perm rules') : sort rules' = sort rules := by
  -- two sorted lists of the same rules differ only where different rules have one key
  refine List.Perm.eq_of_pairwise (fun r s hr hs hrs hsr => ?_) (pairwise_sort rules') (pairwise_sort rules)
    ((sort_perm rules').trans (hperm.symm.trans (sort_perm rules).symm))
  obtain ⟨hsource, harguments⟩ := key_inj.1 (le_antisymm hrs hsr)
  have hr : r ∈ rules := hperm.mem_iff.2 ((sort_perm rules').mem_iff.1 hr)
  have hs : s ∈ rules := (sort_perm rules).mem_iff.1 hs
  exact List.inj_on_of_nodup_map hdistinct hr hs (Prod.ext hsource harguments)

theorem size_le_of_key_le (h : r.key ≤ s.key) : s.source.utf8Size ≤ r.source.utf8Size := by
  rcases h.lt_or_eq with hlt | heq
  · rcases key_lt_iff.1 hlt with hsize | ⟨hsize, -⟩
    · exact Nat.le_of_lt hsize
    · exact Nat.le_of_eq hsize.symm
  · rw [(key_inj.1 heq).1]

/-- Behind a rule with the same source only one that requires no arguments follows. -/
theorem requires_of_key_lt (h : r.key < s.key) (hsource : r.source = s.source) :
    r.requiresArguments = true ∧ s.requiresArguments = false := by
  rcases key_lt_iff.1 h with hsize | ⟨-, hlt | ⟨-, hlt⟩⟩
  · rw [hsource] at hsize
    exact absurd hsize (Nat.lt_irrefl _)
  · rw [hsource] at hlt
    exact absurd hlt (List.lt_irrefl _)
  · exact (Bool.lt_iff.1 hlt).symm

/-! ## Matching -/

/-- The rule matches at the place between `before`, whose nearest character comes first, and `after`. -/
def MatchesAt (r : TypeRule) (before after : Text) : Prop :=
  (r.pattern.matcher before after).isSome = true

instance (r : TypeRule) (before after : Text) : Decidable (r.MatchesAt before after) :=
  inferInstanceAs (Decidable (_ = true))

theorem not_matchesAt {before after : Text} : ¬ r.MatchesAt before after ↔ r.pattern.matcher before after = none := by
  rw [MatchesAt, Bool.not_eq_true, Option.isSome_eq_false_iff, Option.isNone_iff_eq_none]

end TypeRule

namespace TypeTable

variable {types : TypeTable} {rules rules' : List TypeRule} {before after taken : Text} {m : RuleMatch}

/-- The table holds the rules, no longer source behind a shorter one, and of two rules with one source the one that
requires arguments first. -/
structure Orders (types : TypeTable) (rules : List TypeRule) : Prop where
  perm : types.rules.Perm rules
  sorted : types.rules.Pairwise fun r s => s.source.utf8Size ≤ r.source.utf8Size ∧
    (r.source = s.source → r.requiresArguments = true ∧ s.requiresArguments = false)

/-- Each match of the table is that of a rule with the longest source among the rules that match at its place, and the
first match stands at the first place where a rule matches. -/
structure TakesLongest (types : TypeTable) (rules : List TypeRule) : Prop where
  longest : ∀ (t : Text), ∀ m ∈ allMatches types.matcher t,
    m.value.rule ∈ rules ∧ m.value.rule.MatchesAt m.before (m.text ++ m.after) ∧
      ∀ r ∈ rules, r.MatchesAt m.before (m.text ++ m.after) → r.source.utf8Size ≤ m.value.rule.source.utf8Size
  first : ∀ front back : Text,
    (∀ x c y, front = x ++ c :: y → ∀ r ∈ rules, ¬ r.MatchesAt x.reverse (c :: (y ++ back))) →
      ∀ r ∈ rules, r.MatchesAt front.reverse back →
        ∃ m, (allMatches types.matcher (front ++ back)).head? = some m ∧ m.before = front.reverse ∧
          m.text ++ m.after = back ∧ r.source.utf8Size ≤ m.value.rule.source.utf8Size

theorem orders_ofRules (hdistinct : (rules.map fun r => (r.source, r.requiresArguments)).Nodup) :
    (ofRules rules).Orders rules where
  perm := TypeRule.sort_perm rules
  sorted := by
    have hnodup : ((TypeRule.sort rules).map fun r => (r.source, r.requiresArguments)).Nodup :=
      ((TypeRule.sort_perm rules).map _).nodup_iff.2 hdistinct
    refine (List.Pairwise.and (TypeRule.pairwise_sort rules) (List.pairwise_map.1 hnodup)).imp ?_
    rintro r s ⟨hle, hne⟩
    refine ⟨TypeRule.size_le_of_key_le hle, TypeRule.requires_of_key_lt (lt_of_le_of_ne hle fun heq => hne ?_)⟩
    obtain ⟨hsource, harguments⟩ := TypeRule.key_inj.1 heq
    exact Prod.ext hsource harguments

/-- The rule that the table takes matches at the place, and no rule that matches there has a longer source. -/
theorem matcher_ofRules (h : (ofRules rules).matcher before after = some (taken, m)) :
    m.rule ∈ rules ∧ m.rule.MatchesAt before after ∧
      ∀ r ∈ rules, r.MatchesAt before after → r.source.utf8Size ≤ m.rule.source.utf8Size := by
  obtain ⟨earlier, s, later, captures, hrules, hearlier, hs, rfl⟩ := matcher_eq_some_iff.1 h
  have hmem : s ∈ (ofRules rules).rules := by simp [hrules]
  refine ⟨mem_ofRules.1 hmem, by simp [TypeRule.MatchesAt, hs], fun r hr hmatch => ?_⟩
  have hplace : r ∈ earlier ++ s :: later := hrules ▸ mem_ofRules.2 hr
  rcases List.mem_append.1 hplace with hr | hr
  · exact absurd hmatch (TypeRule.not_matchesAt.2 (hearlier r hr))
  · rcases List.mem_cons.1 hr with rfl | hr
    · exact Nat.le_refl _
    · -- what was not tried stands behind the rule in the order
      have hsorted : (earlier ++ s :: later).Pairwise fun r s => r.key ≤ s.key := hrules ▸ TypeRule.pairwise_sort rules
      exact TypeRule.size_le_of_key_le ((List.pairwise_cons.1 (List.pairwise_append.1 hsorted).2.1).1 r hr)

/-- The table finds nothing exactly where no rule matches. -/
theorem matcher_ofRules_eq_none_iff :
    (ofRules rules).matcher before after = none ↔ ∀ r ∈ rules, ¬ r.MatchesAt before after := by
  rw [matcher_eq, List.findSome?_eq_none_iff]
  constructor
  · intro h r hr
    exact TypeRule.not_matchesAt.2 (Option.map_eq_none_iff.1 (h r (mem_ofRules.2 hr)))
  · intro h r hr
    exact Option.map_eq_none_iff.2 (TypeRule.not_matchesAt.1 (h r (mem_ofRules.1 hr)))

theorem takesLongest_ofRules (rules : List TypeRule) : (ofRules rules).TakesLongest rules where
  longest t m hm := by
    obtain ⟨hmatch, -⟩ := Cut.matcher_of_found (matcher_takesPrefix _) (Cut.mem_filterMap_match?.1 hm)
    exact matcher_ofRules hmatch
  first front back hnone r hr hmatch := by
    obtain ⟨⟨taken, value⟩, hfound⟩ := Option.ne_none_iff_exists'.1 fun h =>
      matcher_ofRules_eq_none_iff.1 h r hr hmatch
    obtain ⟨rest, rfl, hfirst⟩ := head?_allMatches (matcher_takesPrefix _)
      (fun x c y hfront => matcher_ofRules_eq_none_iff.2 (hnone x c y hfront)) hfound
    exact ⟨_, hfirst, rfl, rfl, (matcher_ofRules hfound).2.2 r hr hmatch⟩

/-- The order in which rules are written does not matter: the table holds them in one order, longest source first, and
changes every text in the same way. Its matches are those of one pattern with the rules as alternatives, and each is a
match of a rule with the longest source among those that match there. -/
theorem ofRules_perm (hdistinct : (rules.map fun r => (r.source, r.requiresArguments)).Nodup)
    (hperm : rules.Perm rules') :
    (ofRules rules').rules = (ofRules rules).rules ∧ (ofRules rules).Orders rules ∧
      (∀ t : Text, (ofRules rules').convertText t = (ofRules rules).convertText t ∧
        (ofRules rules').convertScript t = (ofRules rules).convertScript t ∧
        (ofRules rules').convertType? t = (ofRules rules).convertType? t) ∧
      (ofRules rules).matcher = (ofRules rules).alternationMatcher ∧ (ofRules rules).TakesLongest rules := by
  have hrules : (ofRules rules').rules = (ofRules rules).rules := TypeRule.sort_eq_of_perm hdistinct hperm
  have hsame : ofRules rules' = ofRules rules := congrArg TypeTable.mk hrules
  refine ⟨hrules, orders_ofRules hdistinct, fun t => ?_, matcher_eq_alternation _, takesLongest_ofRules rules⟩
  rw [hsame]
  exact ⟨rfl, rfl, rfl⟩

/-- The rules of Oracle from the last to the first make the same table. At `NUMBER(10)` the rule for this size is taken,
and not the rule for the word, which matches there as well. -/
theorem ofRules_perm_oracle :
    (ofRules oracleTypeRules.reverse).rules = oracleTypes.rules ∧
      (∀ t : Text, (ofRules oracleTypeRules.reverse).convertText t = oracleTypes.convertText t) ∧
      TypeRule.MatchesAt ⟨"NUMBER", "NUMERIC", .sized⟩ [] "NUMBER(10)" ∧
      ∃ m, (allMatches oracleTypes.matcher "NUMBER(10)").head? = some m ∧
        m.value.rule = ⟨"NUMBER(10)", "INTEGER", .fixed⟩ := by
  have hdistinct : (oracleTypeRules.map fun r => (r.source, r.requiresArguments)).Nodup := by decide +kernel
  obtain ⟨hrules, -, hconvert, -, htakes⟩ := ofRules_perm hdistinct (List.reverse_perm oracleTypeRules).symm
  have hmem : (⟨"NUMBER(10)", "INTEGER", .fixed⟩ : TypeRule) ∈ oracleTypeRules := by decide +kernel
  have hmatch : TypeRule.MatchesAt ⟨"NUMBER(10)", "INTEGER", .fixed⟩ [] "NUMBER(10)" := by decide +kernel
  have honly : ∀ r ∈ oracleTypeRules, r.MatchesAt [] "NUMBER(10)" → Text.utf8Size "NUMBER(10)" ≤ r.source.utf8Size →
      r = ⟨"NUMBER(10)", "INTEGER", .fixed⟩ := by decide +kernel
  obtain ⟨m, hfirst, hbefore, htext, hlongest⟩ := htakes.first [] "NUMBER(10)" (by simp) _ hmem hmatch
  obtain ⟨hrule, hplace, -⟩ := htakes.longest "NUMBER(10)" m (List.mem_of_head? hfirst)
  rw [hbefore, htext] at hplace
  exact ⟨hrules, fun t => (hconvert t).1, by decide +kernel, m, hfirst, honly _ hrule hplace hlongest⟩

end TypeTable

end DialectBridge
