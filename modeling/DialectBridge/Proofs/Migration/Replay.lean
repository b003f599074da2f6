import DialectBridge.Migration
import Mathlib.Data.Finset.Basic
import Mathlib.Data.Finset.Dedup
import Mathlib.Data.Finset.Lattice.Lemmas

/-!
# Replaying migrations

A migration is run on the names of the tables that exist: a creating step adds a name that is not
there yet, a dropping step takes one away that is. Run one after another on an empty database, the
migrations of a history leave exactly the tables of its last version (`replay_history`).

What one migration does comes from what its two runs of steps do (`runs_creating`, `runs_dropping`);
what a history does comes from that by induction over its versions (`replay_take`).
-/

namespace DialectBridge.Migration

open scoped List

/-- The names by which tables are compared. -/
def keys (ts : List Table) : Finset Text :=
  (ts.map key).toFinset

theorem mem_keys {ts : List Table} {k : Text} : k ∈ keys ts ↔ ∃ t ∈ ts, key t = k := by
  simp [keys]

@[simp] theorem keys_nil : keys [] = ∅ := rfl

@[simp] theorem keys_cons (t : Table) (ts : List Table) : keys (t :: ts) = insert (key t) (keys ts) := by
  simp [keys]

/-! ## Running steps -/

/-- The name by which the table of a step is compared. -/
def Step.key (s : Step) : Text :=
  s.table.lowercase

/-- What a step makes of the tables that exist. -/
def Step.apply (names : Finset Text) (s : Step) : Finset Text :=
  match s with
  | .create .. => insert s.key names
  | .drop .. => names.erase s.key

/-- A step finds what it expects: no table of this name when it creates one, such a table when it
drops it. -/
def Step.Fits (names : Finset Text) (s : Step) : Prop :=
  match s with
  | .create .. => s.key ∉ names
  | .drop .. => s.key ∈ names

/-- The steps lead from the tables `before` to the tables `after`, and each one fits where it is run. -/
inductive Runs : Finset Text → List Step → Finset Text → Prop where
  | nil (names : Finset Text) : Runs names [] names
  | cons {before after : Finset Text} {s : Step} {ss : List Step} (hs : s.Fits before)
      (hss : Runs (s.apply before) ss after) : Runs before (s :: ss) after

theorem Runs.append {a b c : Finset Text} {ss us : List Step} (hs : Runs a ss b) (hu : Runs b us c) :
    Runs a (ss ++ us) c := by
  induction hs with
  | nil => exact hu
  | cons hfits _ ih => exact .cons hfits (ih hu)

theorem Runs.foldl_eq {a b : Finset Text} {ss : List Step} (h : Runs a ss b) :
    ss.foldl Step.apply a = b := by
  induction h with
  | nil => rfl
  | cons _ _ ih => exact ih

/-! ## Tables of distinct names -/

theorem distinctFrom_sublist (seen : List Text) (ts : List Table) : distinctFrom seen ts <+ ts := by
  induction ts generalizing seen with
  | nil => exact List.Sublist.refl _
  | cons t ts ih =>
    rw [distinctFrom]
    split
    · exact (ih seen).cons t
    · exact (ih _).cons_cons t

/-- A table among the distinct ones has a name that was not seen before. -/
theorem key_notMem_of_mem_distinctFrom {seen : List Text} {ts : List Table} {t : Table}
    (h : t ∈ distinctFrom seen ts) : key t ∉ seen := by
  induction ts generalizing seen with
  | nil => cases h
  | cons u ts ih =>
    rw [distinctFrom] at h
    split at h
    · exact ih h
    · next hu =>
      rcases List.mem_cons.1 h with rfl | h
      · simpa using hu
      · exact fun hmem => ih h (List.mem_cons_of_mem _ hmem)

/-- No name is lost: a table is left out only for a name that was seen or that another table has. -/
theorem exists_mem_distinctFrom {seen : List Text} {ts : List Table} {t : Table} (ht : t ∈ ts)
    (hseen : key t ∉ seen) : ∃ u ∈ distinctFrom seen ts, key u = key t := by
  induction ts generalizing seen with
  | nil => cases ht
  | cons v ts ih =>
    rw [distinctFrom]
    split
    · next hv =>
      have hv : key v ∈ seen := by simpa using hv
      rcases List.mem_cons.1 ht with rfl | ht
      · exact absurd hv hseen
      · exact ih ht hseen
    · by_cases hkey : key v = key t
      · exact ⟨v, List.mem_cons_self, hkey⟩
      · rcases List.mem_cons.1 ht with rfl | ht
        · exact absurd rfl hkey
        · have hunseen : key t ∉ key v :: seen := by simp [hseen, Ne.symm hkey]
          obtain ⟨u, hu, hut⟩ := ih ht hunseen
          exact ⟨u, List.mem_cons_of_mem _ hu, hut⟩

theorem nodup_distinctFrom (seen : List Text) (ts : List Table) :
    ((distinctFrom seen ts).map key).Nodup := by
  induction ts generalizing seen with
  | nil => exact List.nodup_nil
  | cons t ts ih =>
    rw [distinctFrom]
    split
    · exact ih seen
    · rw [List.map_cons, List.nodup_cons]
      refine ⟨fun hmem => ?_, ih _⟩
      obtain ⟨u, hu, hkey⟩ := List.mem_map.1 hmem
      exact key_notMem_of_mem_distinctFrom hu (by simp [hkey])

theorem distinct_sublist (ts : List Table) : distinct ts <+ ts :=
  distinctFrom_sublist [] ts

theorem nodup_distinct (ts : List Table) : ((distinct ts).map key).Nodup :=
  nodup_distinctFrom [] ts

@[simp] theorem keys_distinct (ts : List Table) : keys (distinct ts) = keys ts := by
  ext k
  simp only [mem_keys]
  constructor
  · rintro ⟨t, ht, rfl⟩
    exact ⟨t, (distinct_sublist ts).subset ht, rfl⟩
  · rintro ⟨t, ht, rfl⟩
    exact exists_mem_distinctFrom ht List.not_mem_nil

theorem isAmong_iff {ts : List Table} {t : Table} : isAmong ts t = true ↔ key t ∈ keys ts := by
  simp [isAmong, keys]

/-! ## One migration -/

/-- Creating tables of new and distinct names adds their names. -/
theorem runs_creating {ts : List Table} {names : Finset Text} (hnodup : (ts.map key).Nodup)
    (hnew : ∀ t ∈ ts, key t ∉ names) : Runs names (ts.map Step.ofNew) (names ∪ keys ts) := by
  induction ts generalizing names with
  | nil => simpa using Runs.nil names
  | cons t ts ih =>
    rw [List.map_cons, List.nodup_cons] at hnodup
    refine .cons (hnew t List.mem_cons_self) ?_
    have hrest : ∀ u ∈ ts, key u ∉ insert (key t) names := by
      intro u hu hmem
      rcases Finset.mem_insert.1 hmem with hkey | hmem
      · exact hnodup.1 (List.mem_map.2 ⟨u, hu, hkey⟩)
      · exact hnew u (List.mem_cons_of_mem _ hu) hmem
    have hunion : insert (key t) names ∪ keys ts = names ∪ keys (t :: ts) := by
      rw [keys_cons, Finset.insert_union, Finset.union_insert]
    rw [← hunion]
    exact ih hnodup.2 hrest

/-- Dropping tables of distinct names that exist takes their names away. -/
theorem runs_dropping {ts : List Table} {names : Finset Text} (hnodup : (ts.map key).Nodup)
    (hold : ∀ t ∈ ts, key t ∈ names) : Runs names (ts.map Step.ofOld) (names \ keys ts) := by
  induction ts generalizing names with
  | nil => simpa using Runs.nil names
  | cons t ts ih =>
    rw [List.map_cons, List.nodup_cons] at hnodup
    refine .cons (hold t List.mem_cons_self) ?_
    have hrest : ∀ u ∈ ts, key u ∈ names.erase (key t) := by
      intro u hu
      refine Finset.mem_erase.2 ⟨fun hkey => ?_, hold u (List.mem_cons_of_mem _ hu)⟩
      exact hnodup.1 (List.mem_map.2 ⟨u, hu, hkey⟩)
    have hdiff : names.erase (key t) \ keys ts = names \ keys (t :: ts) := by
      ext k
      simp only [keys_cons, Finset.mem_sdiff, Finset.mem_erase, Finset.mem_insert]
      tauto
    rw [← hdiff]
    exact ih hnodup.2 hrest

/-- The tables of `new` whose names `old` does not have, in the order of `new` and without duplicates.
Both runs of steps of a migration are made from such a list. -/
def missing (old new : List Table) : List Table :=
  (distinct new).filter fun t => !isAmong (distinct old) t

theorem steps_between (old new : List Table) : (between old new).steps =
    (missing old new).map Step.ofNew ++ (missing new old).map Step.ofOld := rfl

theorem mem_keys_missing {old new : List Table} {k : Text} :
    k ∈ keys (missing old new) ↔ k ∈ keys new ∧ k ∉ keys old := by
  rw [← keys_distinct new, ← keys_distinct old]
  simp only [missing, mem_keys, List.mem_filter, Bool.not_eq_true', ← Bool.not_eq_true, isAmong_iff]
  constructor
  · rintro ⟨t, ⟨ht, hold⟩, rfl⟩
    exact ⟨⟨t, ht, rfl⟩, hold⟩
  · rintro ⟨⟨t, ht, rfl⟩, hold⟩
    exact ⟨t, ⟨ht, hold⟩, rfl⟩

theorem nodup_missing (old new : List Table) : ((missing old new).map key).Nodup :=
  (nodup_distinct new).sublist (List.filter_sublist.map key)

/-- A migration leads from the old tables to the new ones. -/
theorem runs_between (old new : List Table) : Runs (keys old) (between old new).steps (keys new) := by
  have hcreate : Runs (keys old) ((missing old new).map Step.ofNew) (keys old ∪ keys (missing old new)) :=
    runs_creating (nodup_missing old new) fun t ht =>
      (mem_keys_missing.1 (mem_keys.2 ⟨t, ht, rfl⟩)).2
  have hdrop : Runs (keys old ∪ keys (missing old new)) ((missing new old).map Step.ofOld)
      ((keys old ∪ keys (missing old new)) \ keys (missing new old)) :=
    runs_dropping (nodup_missing new old) fun t ht =>
      Finset.mem_union_left _ (mem_keys_missing.1 (mem_keys.2 ⟨t, ht, rfl⟩)).1
  have hresult : (keys old ∪ keys (missing old new)) \ keys (missing new old) = keys new := by
    ext k
    simp only [Finset.mem_sdiff, Finset.mem_union, mem_keys_missing]
    tauto
  rw [steps_between, ← hresult]
  exact hcreate.append hdrop

/-- No table is created or dropped twice, and none is both created and dropped. -/
theorem nodup_steps (old new : List Table) : ((between old new).steps.map Step.key).Nodup := by
  have hkeys : (between old new).steps.map Step.key =
      (missing old new).map key ++ (missing new old).map key := by
    rw [steps_between, List.map_append, List.map_map, List.map_map]
    rfl
  rw [hkeys]
  refine (nodup_missing old new).append (nodup_missing new old) fun k hnew hold => ?_
  have hnew := mem_keys_missing.1 (List.mem_toFinset.2 hnew)
  have hold := mem_keys_missing.1 (List.mem_toFinset.2 hold)
  exact hold.2 hnew.1

/-- What a migration leaves unchanged are tables of the new set, each once, and all those that exist
already. -/
theorem unchanged_between (old new : List Table) :
    (between old new).unchanged <+ new.map Table.name ∧
      ((between old new).unchanged.map Text.lowercase).Nodup ∧
        ((between old new).unchanged.map Text.lowercase).toFinset = keys old ∩ keys new := by
  have hkeys : (between old new).unchanged.map Text.lowercase =
      ((distinct new).filter (isAmong (distinct old))).map key := List.map_map ..
  refine ⟨(List.filter_sublist.trans (distinct_sublist new)).map Table.name, ?_, ?_⟩
  · rw [hkeys]
    exact (nodup_distinct new).sublist (List.filter_sublist.map key)
  · ext k
    rw [hkeys, ← keys_distinct new, ← keys_distinct old, Finset.mem_inter]
    simp only [List.mem_toFinset, List.mem_map, List.mem_filter, isAmong_iff]
    constructor
    · rintro ⟨t, ⟨ht, hold⟩, rfl⟩
      exact ⟨hold, mem_keys.2 ⟨t, ht, rfl⟩⟩
    · rintro ⟨hold, hnew⟩
      obtain ⟨t, ht, rfl⟩ := mem_keys.1 hnew
      exact ⟨t, ⟨ht, hold⟩, rfl⟩

/-! ## Histories -/

/-- The migrations along a list of versions, each from the version before it; the first one starts
from nothing. -/
def history (versions : List (List Table)) : List Migration :=
  List.zipWith between ([] :: versions) versions

/-- What migrations make of the tables that exist. -/
def replay (names : Finset Text) (ms : List Migration) : Finset Text :=
  ms.foldl (fun names m => m.steps.foldl Step.apply names) names

/-- After `i` migrations the tables of version number `i` exist; number 0 has none. -/
theorem replay_take (versions : List (List Table)) (i : Nat) (hi : i < ([] :: versions).length) :
    replay ∅ ((history versions).take i) = keys (([] :: versions)[i]) := by
  induction i with
  | zero => rfl
  | succ i ih =>
    have hi : i < versions.length := Nat.lt_of_succ_lt_succ hi
    have hprevious : i < ([] :: versions).length := Nat.lt_succ_of_lt hi
    have hlt : i < (history versions).length := by simp [history, hi]
    have hget : (history versions)[i] = between ([] :: versions)[i] versions[i] := by
      simp [history]
    have ih := ih hprevious
    unfold replay at ih ⊢
    rw [List.take_succ_eq_append_getElem hlt, List.foldl_append, ih, hget]
    exact (runs_between _ _).foldl_eq

/-- The tables that a migration creates, in order. -/
def created (m : Migration) : List Text :=
  m.steps.filterMap fun
    | .create name _ => some name
    | .drop _ => none

/-- The tables that a migration drops, in order. -/
def dropped (m : Migration) : List Text :=
  m.steps.filterMap fun
    | .create .. => none
    | .drop name => some name

theorem created_between (old new : List Table) :
    (between old new).created = (missing old new).map Table.name := by
  rw [created, steps_between, List.filterMap_append, List.filterMap_map, List.filterMap_map]
  simp [Function.comp_def, Step.ofNew, Step.ofOld]

theorem dropped_between (old new : List Table) :
    (between old new).dropped = (missing new old).map Table.name := by
  rw [dropped, steps_between, List.filterMap_append, List.filterMap_map, List.filterMap_map]
  simp [Function.comp_def, Step.ofNew, Step.ofOld]

/-- Replaying a history from nothing: every migration in it finds what its steps expect, leaves exactly
the tables of its version, touches no table twice, and keeps what exists already, each table once. The
way back drops what the way there created. -/
theorem replay_history (versions : List (List Table)) :
    (∀ i : Fin versions.length,
      let before := replay ∅ ((history versions).take i)
      let after := replay ∅ ((history versions).take (i + 1))
      ∃ m, (history versions)[i.val]? = some m ∧ after = keys versions[i] ∧
        Runs before m.steps after ∧ (m.steps.map Step.key).Nodup ∧
          m.unchanged <+ versions[i].map Table.name ∧ (m.unchanged.map Text.lowercase).Nodup ∧
            (m.unchanged.map Text.lowercase).toFinset = before ∩ keys versions[i]) ∧
      ∀ a b : List Table, (between a b).created = (between b a).dropped := by
  constructor
  · intro i before after
    have hprevious : i.val < ([] :: versions).length := Nat.lt_succ_of_lt i.isLt
    have hbefore : before = keys ([] :: versions)[i.val] := replay_take versions i hprevious
    have hafter : after = keys versions[i] := replay_take versions (i + 1) (Nat.succ_lt_succ i.isLt)
    refine ⟨between ([] :: versions)[i.val] versions[i], by simp [history], hafter, ?_, nodup_steps _ _, ?_⟩
    · rw [hbefore, hafter]
      exact runs_between _ _
    · rw [hbefore]
      exact unchanged_between _ _
  · intro a b
    rw [created_between, dropped_between]

end DialectBridge.Migration
