import DialectBridge.Idiom.Oracle
import DialectBridge.Proofs.Idiom.Outside

/-!
# What replacing idioms keeps

The replacement of idioms works in stages: first `STORAGE` clauses go, then one rule after another
changes the code. Each stage puts its text together from pieces, and the next stage cuts that text
into segments again. Literals, quoted names and comments survive as long as the segments are the
pieces. A clause that is taken out with the line break in front of it can make code a part of a
comment, so this is not always the case.
-/

namespace DialectBridge

open Segment

/-- The text after a stage of the replacement, and the pieces that it was put together from. -/
structure IdiomStage where
  text : Text
  pieces : List Segment

namespace IdiomStage

/-- The stages of some rules, the first of which finds the text `t`. -/
def ofRules (t : Text) : List IdiomRule → List IdiomStage
  | [] => []
  | r :: rules =>
    ⟨changeCode r.replace t, recoded r.replace t⟩ :: ofRules (changeCode r.replace t) rules

/-- The stage that takes the `STORAGE` clauses out. -/
def storage (script : Text) : IdiomStage :=
  ⟨removeClause "STORAGE" script, merge (Clause.outside "STORAGE" (scan script))⟩

/-- The stages of the replacement. -/
def all (script : Text) : List IdiomStage :=
  storage script :: ofRules (storage script).text oracleIdioms

/-- The segments after the stage are the pieces that the stage put together. -/
def Faithful (s : IdiomStage) : Prop :=
  segments s.text = s.pieces

end IdiomStage

open IdiomStage

theorem Replaced.step_text (r : Replaced) (name : Text) (change : Text → Text) :
    (r.step name change).text = change r.text := by
  by_cases h : change r.text = r.text <;> simp [Replaced.step, h]

/-- The last stage has the text of the replacement. -/
theorem getLast?_all (script : Text) :
    ((all script).getLast?.map IdiomStage.text) = some (replaceOracleIdioms script).text := by
  have hrules (rules : List IdiomRule) (r : Replaced) (s : IdiomStage) (hs : s.text = r.text) :
      ((s :: ofRules s.text rules).getLast?.map IdiomStage.text) =
        some (rules.foldl (fun r rule => r.step rule.name (changeCode rule.replace)) r).text := by
    induction rules generalizing r s with
    | nil => simp [ofRules, hs]
    | cons rule rules ih =>
      rw [ofRules, List.getLast?_cons_cons, List.foldl_cons]
      refine ih (r.step rule.name (changeCode rule.replace)) ⟨_, _⟩ ?_
      rw [Replaced.step_text, hs]
  exact hrules oracleIdioms _ (storage script)
    (Replaced.step_text ⟨script, []⟩ "storage" (removeClause "STORAGE")).symm

/-- Every stage is faithful exactly if no `STORAGE` clause stands behind a comment that ends in
whitespace and the pieces of every stage stand apart. -/
theorem faithful_iff (script : Text) :
    (∀ s ∈ all script, Faithful s) ↔
      (∀ g ∈ Clause.gaps "STORAGE" (scan script), Clause.EndsClean g) ∧
        ∀ s ∈ all script, StandApart s.pieces := by
  have hrules (rules : List IdiomRule) (t : Text) :
      (∀ s ∈ ofRules t rules, Faithful s) ↔ ∀ s ∈ ofRules t rules, StandApart s.pieces := by
    induction rules generalizing t with
    | nil => simp [ofRules]
    | cons rule rules ih =>
      rw [ofRules, List.forall_mem_cons, List.forall_mem_cons, ih]
      exact and_congr_left fun _ => segments_changeCode_iff rule.replace t
  rw [all, List.forall_mem_cons, List.forall_mem_cons, hrules, ← and_assoc]
  exact and_congr_left fun _ => Clause.segments_removeClause_iff "STORAGE" script

/-- Faithful stages keep the shielded pieces. -/
theorem shielded_of_faithful {script : Text} (h : ∀ s ∈ all script, Faithful s) :
    shielded (segments (replaceOracleIdioms script).text) =
      shielded (Clause.outside "STORAGE" (scan script)) := by
  have hrules (rules : List IdiomRule) (s : IdiomStage) (hf : ∀ u ∈ s :: ofRules s.text rules, Faithful u) :
      ∀ u ∈ (s :: ofRules s.text rules).getLast?, shielded (segments u.text) = shielded s.pieces := by
    induction rules generalizing s with
    | nil =>
      intro u hu
      obtain rfl : s = u := Option.some.inj hu
      rw [hf s List.mem_cons_self]
    | cons rule rules ih =>
      intro u hu
      rw [ofRules, List.getLast?_cons_cons] at hu
      rw [ofRules, List.forall_mem_cons] at hf
      rw [ih ⟨_, _⟩ hf.2 u hu, shielded_recoded, hf.1]
  have hlast := getLast?_all script
  obtain ⟨u, hu, htext⟩ := Option.map_eq_some_iff.1 hlast
  rw [← htext, hrules oracleIdioms (storage script) h u hu]
  exact Clause.shielded_merge_outside "STORAGE" script

/-- Replacing idioms keeps the literals, quoted names and comments outside `STORAGE` clauses, as long as
each stage is cut into the pieces that it was put together from. That is so exactly if no clause takes
whitespace from a comment in front of it and no two neighbouring pieces run into each other. -/
theorem replaceOracleIdioms_keeps_shielded (script : Text) :
    ((∀ s ∈ all script, Faithful s) ↔
      (∀ g ∈ Clause.gaps "STORAGE" (scan script), Clause.EndsClean g) ∧
        ∀ s ∈ all script, StandApart s.pieces) ∧
    ((∀ s ∈ all script, Faithful s) →
      shielded (segments (replaceOracleIdioms script).text) =
        shielded (Clause.outside "STORAGE" (scan script))) :=
  ⟨faithful_iff script, shielded_of_faithful⟩

/-- An option behind a line comment goes with the line break that ends the comment, and the code behind
it becomes a part of the comment. -/
theorem replaceOracleIdioms_extends_comment :
    shielded (Clause.outside "STORAGE" (scan "a -- c\n TABLESPACE x b")) = [⟨.comment, "-- c"⟩] ∧
      shielded (segments (replaceOracleIdioms "a -- c\n TABLESPACE x b").text) =
        [⟨.comment, "-- c b"⟩] := by
  decide +kernel

end DialectBridge
