import DialectBridge.Proofs.Schema.Statements
import DialectBridge.Proofs.Text.Case
import Mathlib.Data.List.Nodup

/-!
# The order of statements

Indexes and references find their tables by name, whatever the schema and the letter case, and take the
first table that fits. If no two tables of a script have one name in this sense, then at most one table
fits, and each table gets its indexes and the columns of its references whatever the order of the
statements is (`tables_eq_map`). So two scripts may be joined in either order (`tables_joined_comm`).
-/

namespace DialectBridge

/-! ## Names in lower case -/

theorem toLower_eq_dot {c : Char} : c.toLower = '.' ↔ c = '.' := by
  by_cases h : c.toNat < 128
  · exact forall_ascii (P := fun c => c.toLower = '.' ↔ c = '.') (by decide) h
  · rw [toLower_of_not_ascii (Nat.not_lt.1 h)]

theorem Text.splitOn_lower (t : Text) : Text.splitOn '.' t.lower = (Text.splitOn '.' t).map Text.lower := by
  induction t with
  | nil => rfl
  | cons c t ih =>
    show Text.splitOn '.' (c.toLower :: Text.lower t) = _
    rw [Text.splitOn, Text.splitOn]
    by_cases hc : c = '.'
    · rw [if_pos hc, if_pos (toLower_eq_dot.2 hc), ih]
      rfl
    · rw [if_neg hc, if_neg (mt toLower_eq_dot.1 hc), ih]
      cases Text.splitOn '.' t <;> rfl

namespace Script

theorem localName_lower (name : Text) : localName name.lower = (localName name).lower := by
  rw [localName, localName, Text.splitOn_lower, List.getLastD_eq_getLast?, List.getLastD_eq_getLast?,
    List.getLast?_map]
  cases (Text.splitOn '.' name).getLast? <;> rfl

/-- Names that agree as a whole agree in the part after the last dot. -/
theorem meansSameTable_iff {a b : Text} :
    meansSameTable a b = true ↔ (localName a).lower = (localName b).lower := by
  rw [meansSameTable, Bool.or_eq_true, Text.same_iff, Text.same_iff, ← localName_lower, ← localName_lower]
  exact ⟨fun h => h.elim (congrArg localName) id, .inr⟩

/-! ## Tables that no name confuses -/

/-- The tables have different names, whatever their schemas and the letter case. -/
def Apart (ts : List Table) : Prop :=
  (ts.map fun t => (localName t.name).lower).Nodup

instance (ts : List Table) : Decidable (Apart ts) :=
  inferInstanceAs (Decidable (ts.map fun t => (localName t.name).lower).Nodup)

variable {ts us : List Table}

theorem Apart.perm (h : Apart ts) (hperm : ts.Perm us) : Apart us :=
  (hperm.map _).nodup_iff.1 h

/-- Only the names of the tables count. -/
theorem Apart.of_map_name (h : Apart ts) (hnames : us.map Table.name = ts.map Table.name) : Apart us := by
  have hkeys := congrArg (List.map fun name => (localName name).lower) hnames
  rw [List.map_map, List.map_map] at hkeys
  show (us.map ((fun name => (localName name).lower) ∘ Table.name)).Nodup
  rw [hkeys]
  exact h

/-- A name means at most one of the tables. -/
theorem Apart.eq_of_means (h : Apart ts) {t u : Table} (ht : t ∈ ts) (hu : u ∈ ts) {name : Text}
    (htname : meansSameTable t.name name = true) (huname : meansSameTable u.name name = true) : t = u :=
  List.inj_on_of_nodup_map h ht hu
    ((meansSameTable_iff.1 htname).trans (meansSameTable_iff.1 huname).symm)

theorem Apart.pairwise (h : Apart ts) (name : Text) :
    ts.Pairwise fun t u => ¬(meansSameTable t.name name = true ∧ meansSameTable u.name name = true) :=
  (List.pairwise_map.1 h).imp fun hne hboth =>
    hne ((meansSameTable_iff.1 hboth.1).trans (meansSameTable_iff.1 hboth.2).symm)

/-- The table that a name means is the same in any order. -/
theorem Apart.find?_perm (h : Apart ts) (hperm : ts.Perm us) (name : Text) :
    (ts.find? fun t => meansSameTable t.name name) = us.find? fun t => meansSameTable t.name name := by
  cases hfind : us.find? fun t => meansSameTable t.name name with
  | none =>
    rw [List.find?_eq_none] at hfind ⊢
    exact fun t ht => hfind t (hperm.subset ht)
  | some u =>
    have humeans := List.find?_some hfind
    have hu : u ∈ ts := hperm.symm.subset (List.mem_of_find?_eq_some hfind)
    cases hother : ts.find? fun t => meansSameTable t.name name with
    | none => exact absurd humeans (List.find?_eq_none.1 hother u hu)
    | some t =>
      have htmeans : meansSameTable t.name name = true :=
        List.find?_some (p := fun t : Table => meansSameTable t.name name) hother
      rw [h.eq_of_means (List.mem_of_find?_eq_some hother) hu htmeans humeans]

/-! ## Indexes -/

/-- Where at most one member satisfies `p`, the first one that does is the only one. -/
theorem modifyFirst_eq_map {α : Type} {p : α → Bool} (change : α → α) {as : List α}
    (h : as.Pairwise fun a b => ¬(p a = true ∧ p b = true)) :
    Table.modifyFirst p change as = as.map fun a => if p a then change a else a := by
  induction as with
  | nil => rfl
  | cons a as ih =>
    obtain ⟨ha, has⟩ := List.pairwise_cons.1 h
    rw [Table.modifyFirst, List.map_cons]
    split
    · next hp =>
      have hrest : (as.map fun b => if p b then change b else b) = as.map id :=
        List.map_congr_left fun b hb => if_neg fun hpb => ha b hb ⟨hp, hpb⟩
      rw [hrest, List.map_id]
    · rw [ih has]

/-- The table with the indexes of the list that are meant for it. -/
def withIndexes (indexes : List (Text × Text)) (t : Table) : Table :=
  { t with indexes := t.indexes ++ (indexes.filter fun i => meansSameTable t.name i.2).map Prod.fst }

theorem map_name_withIndexes (indexes : List (Text × Text)) (ts : List Table) :
    (ts.map (withIndexes indexes)).map Table.name = ts.map Table.name := by
  rw [List.map_map]
  rfl

theorem Apart.giveIndex (h : Apart ts) (index : Text × Text) :
    Script.giveIndex ts index = ts.map (withIndexes [index]) := by
  rw [Script.giveIndex, modifyFirst_eq_map _ (h.pairwise index.2)]
  refine List.map_congr_left fun t _ => ?_
  split
  · next hmeans => simp [withIndexes, hmeans]
  · next hmeans => simp [withIndexes, hmeans]

theorem withIndexes_cons (index : Text × Text) (indexes : List (Text × Text)) (t : Table) :
    withIndexes indexes (withIndexes [index] t) = withIndexes (index :: indexes) t := by
  cases hmeans : meansSameTable t.name index.2 <;> simp [withIndexes, hmeans]

/-- Each table gets the indexes that are meant for it, in their order. -/
theorem Apart.foldl_giveIndex (h : Apart ts) (indexes : List (Text × Text)) :
    indexes.foldl Script.giveIndex ts = ts.map (withIndexes indexes) := by
  induction indexes generalizing ts with
  | nil =>
    have hnone : withIndexes [] = id := by
      funext t
      simp [withIndexes]
    rw [hnone, List.map_id]
    rfl
  | cons index indexes ih =>
    have hnext : Apart (ts.map (withIndexes [index])) := h.of_map_name (map_name_withIndexes _ ts)
    rw [List.foldl_cons, h.giveIndex, ih hnext, List.map_map]
    exact List.map_congr_left fun t _ => withIndexes_cons index indexes t

/-! ## References -/

theorem completeKey_withIndexes (indexes : List (Text × Text)) (ts : List Table) :
    completeKey (ts.map (withIndexes indexes)) = completeKey ts := by
  funext key
  rw [completeKey, completeKey, List.find?_map]
  show (if _ then { key with referencedColumn := ((Option.map _ (ts.find? _)).bind _).getD _ } else key) = _
  rw [Option.bind_map]
  rfl

theorem Apart.completeKey_perm (h : Apart ts) (hperm : ts.Perm us) : completeKey ts = completeKey us := by
  funext key
  rw [completeKey, completeKey, h.find?_perm hperm]

/-! ## Tables -/

/-- The table with everything that the declared tables and indexes of a script add to it. -/
def completed (declared : List Table) (indexes : List (Text × Text)) (t : Table) : Table :=
  { withIndexes indexes t with foreignKeys := t.foreignKeys.map (completeKey declared) }

/-- Where no name confuses two tables, each table is completed on its own. -/
theorem tables_eq_map {dialect : Dialect} {script : Text} (h : Apart (declared dialect script)) :
    tables dialect script =
      (declared dialect script).map (completed (declared dialect script) (declaredIndexes dialect script)) := by
  rw [tables_eq, indexed, h.foldl_giveIndex, completeReferences, completeKey_withIndexes, List.map_map]
  rfl

theorem map_name_tables (dialect : Dialect) (script : Text) :
    (tables dialect script).map Table.name = (declared dialect script).map Table.name := by
  have hnames := congrArg (List.map Table.name) (map_indexed dialect script)
  rw [List.map_map, List.map_map] at hnames
  rw [tables_eq, completeReferences, List.map_map]
  exact hnames

/-- The tables agree in everything but the order of their indexes. -/
structure AgreeUpToIndexOrder (t u : Table) : Prop where
  name : t.name = u.name
  columns : t.columns = u.columns
  primaryKey : t.primaryKey = u.primaryKey
  foreignKeys : t.foreignKeys = u.foreignKeys
  indexes : t.indexes.Perm u.indexes
  statement : t.statement = u.statement
  dialect : t.dialect = u.dialect

/-- The order in which tables and indexes are declared changes no table. -/
theorem Apart.completed_perm (h : Apart ts) (hperm : ts.Perm us) {is js : List (Text × Text)}
    (hindexes : is.Perm js) (t : Table) : AgreeUpToIndexOrder (completed ts is t) (completed us js t) where
  name := rfl
  columns := rfl
  primaryKey := rfl
  foreignKeys := by rw [completed, completed, h.completeKey_perm hperm]
  indexes := ((hindexes.filter _).map Prod.fst).append_left t.indexes
  statement := rfl
  dialect := rfl

/-- The order of two scripts does not matter to their tables. If in both of them every quotation,
comment and group is closed, and no two of their tables have one name, then each table of the scripts
joined in one order is there in the other order: it is the only table that its name means, and it
agrees with it in everything, its indexes in some order. -/
theorem tables_joined_comm {first second : Text} (hfirst : Scan.IsClosed first)
    (hsecond : Scan.IsClosed second) (hfirstGroups : Token.GroupsClose (scan first))
    (hsecondGroups : Token.GroupsClose (scan second)) (dialect : Dialect)
    (hapart : Apart (tables dialect first ++ tables dialect second)) :
    (tables dialect (joined first second)).length = (tables dialect (joined second first)).length ∧
      ∀ t ∈ tables dialect (joined first second), ∃ u ∈ tables dialect (joined second first),
        AgreeUpToIndexOrder t u ∧
        ∀ v ∈ tables dialect (joined second first), meansSameTable v.name t.name = true → v = u := by
  obtain ⟨htables, hindexes⟩ := declarations_joined hfirst hfirstGroups dialect second
  obtain ⟨htables', hindexes'⟩ := declarations_joined hsecond hsecondGroups dialect first
  -- either order declares the same tables and indexes
  have hperm : (declared dialect (joined first second)).Perm (declared dialect (joined second first)) := by
    rw [htables, htables']
    exact List.perm_append_comm
  have hindexPerm : (declaredIndexes dialect (joined first second)).Perm
      (declaredIndexes dialect (joined second first)) := by
    rw [hindexes, hindexes']
    exact List.perm_append_comm
  have hdeclared : Apart (declared dialect (joined first second)) := by
    refine hapart.of_map_name ?_
    rw [htables, List.map_append, List.map_append, map_name_tables, map_name_tables]
  have hother := hdeclared.perm hperm
  have hnames : (tables dialect (joined second first)).map Table.name =
      (declared dialect (joined second first)).map Table.name := map_name_tables ..
  refine ⟨by rw [length_tables, length_tables, hperm.length_eq], fun t ht => ?_⟩
  -- a table is completed with what all of them declare, and the table that a name means is unique
  rw [tables_eq_map hdeclared] at ht
  obtain ⟨d, hd, rfl⟩ := List.mem_map.1 ht
  have hu : completed (declared dialect (joined second first))
      (declaredIndexes dialect (joined second first)) d ∈ tables dialect (joined second first) := by
    rw [tables_eq_map hother]
    exact List.mem_map_of_mem (hperm.subset hd)
  refine ⟨_, hu, hdeclared.completed_perm hperm hindexPerm d, fun v hv hmeans => ?_⟩
  exact (hother.of_map_name hnames).eq_of_means hv hu hmeans (meansSameTable_iff.2 rfl)

/-- An index in front of its table, and a reference to a table that comes later. -/
theorem tables_joined_comm_forward :
    let first : Text := "CREATE INDEX i ON s.b (x); CREATE TABLE a (x INT REFERENCES b)"
    let second : Text := "CREATE TABLE B (k INT PRIMARY KEY)"
    (Scan.IsClosed first ∧ Scan.IsClosed second ∧ Token.GroupsClose (scan first) ∧
      Token.GroupsClose (scan second) ∧ Apart (tables .mysql first ++ tables .mysql second)) ∧
    (tables .mysql (joined first second)).flatMap Table.foreignKeys = [⟨"x", "b", "k"⟩] ∧
    ∀ t ∈ tables .mysql (joined first second), ∃ u ∈ tables .mysql (joined second first),
      AgreeUpToIndexOrder t u := by
  intro first second
  have hfirst : Scan.IsClosed first := by
    refine ⟨fun u hu cause => ?_, by decide +kernel⟩
    revert u
    cases cause <;> decide +kernel
  have hsecond : Scan.IsClosed second := by
    refine ⟨fun u hu cause => ?_, by decide +kernel⟩
    revert u
    cases cause <;> decide +kernel
  have hfirstGroups : Token.GroupsClose (scan first) := by decide +kernel
  have hsecondGroups : Token.GroupsClose (scan second) := by decide +kernel
  have hapart : Apart (tables .mysql first ++ tables .mysql second) := by decide +kernel
  refine ⟨⟨hfirst, hsecond, hfirstGroups, hsecondGroups, hapart⟩, by decide +kernel, fun t ht => ?_⟩
  obtain ⟨u, hu, hagree, -⟩ :=
    (tables_joined_comm hfirst hsecond hfirstGroups hsecondGroups .mysql hapart).2 t ht
  exact ⟨u, hu, hagree⟩

end Script

end DialectBridge
