import DialectBridge.Proofs.Schema.Alone
import DialectBridge.Proofs.Schema.Order

/-!
# The tables that names mean

Indexes and references find their tables by name. A name means the first table that has it, at least in the part
after the last dot (`IsMeant`), whether or not a later table has the name as a whole. So each table of a script is
what its statement declares, with the indexes whose names mean it and with the keys of the tables that its references
mean (`tables_eq_mapIdx`). A name that a table has as a whole means such a table exactly when none that it could be
taken for stands in front of all of them (`tables_meant`).
-/

namespace DialectBridge

open Token Reader

theorem Table.getElem?_modifyFirst {α : Type} (p : α → Bool) (change : α → α) (as : List α) (n : Nat) :
    (modifyFirst p change as)[n]? = as[n]?.map fun a => if as.findIdx? p = some n then change a else a := by
  induction as generalizing n with
  | nil => rfl
  | cons a as ih =>
    rw [modifyFirst]
    by_cases hp : p a = true
    · cases n <;> simp [hp, List.findIdx?_cons]
    · cases n <;> simp [hp, List.findIdx?_cons, ih]

namespace Script

variable {ts : List Table} {name : Text}

/-- The place of the table that a name means. -/
def meant? (ts : List Table) (name : Text) : Option Nat :=
  ts.findIdx? fun t => meansSameTable t.name name

/-- The name means the table `t` behind the tables `before`: it is the first one that has the name. -/
structure IsMeant (before : List Table) (t : Table) (name : Text) : Prop where
  means : meansSameTable t.name name = true
  first : ∀ u ∈ before, meansSameTable u.name name = false

theorem isMeant_iff {before : List Table} {t : Table} : IsMeant before t name ↔
    meansSameTable t.name name = true ∧ ∀ u ∈ before, meansSameTable u.name name = false :=
  ⟨fun h => ⟨h.means, h.first⟩, fun h => ⟨h.1, h.2⟩⟩

instance (before : List Table) (t : Table) (name : Text) : Decidable (IsMeant before t name) :=
  decidable_of_iff _ isMeant_iff.symm

theorem meant?_append_cons {before after : List Table} {t : Table} :
    meant? (before ++ t :: after) name = some before.length ↔ IsMeant before t name := by
  rw [meant?, List.findIdx?_eq_some_iff_findIdx_eq, isMeant_iff]
  induction before with
  | nil => cases hmeans : meansSameTable t.name name <;> simp [List.findIdx_cons, hmeans]
  | cons u before ih => cases hmeans : meansSameTable u.name name <;> simp_all [List.findIdx_cons]

/-- Only the names of the tables count. -/
theorem meant?_congr {us : List Table} (h : us.map Table.name = ts.map Table.name) : meant? us = meant? ts := by
  funext name
  have hboth := congrArg (List.findIdx? fun n => meansSameTable n name) h
  rwa [List.findIdx?_map, List.findIdx?_map] at hboth

/-! ## Indexes and references -/

/-- The indexes whose names mean the table at a place. -/
def given (ts : List Table) (indexes : List (Text × Text)) (place : Nat) : List Text :=
  (indexes.filter fun i => meant? ts i.2 = some place).map Prod.fst

theorem map_name_giveIndex (ts : List Table) (index : Text × Text) :
    (giveIndex ts index).map Table.name = ts.map Table.name := by
  have hnames := congrArg (List.map Table.name) (map_giveIndex ts index)
  rwa [List.map_map, List.map_map] at hnames

theorem getElem?_foldl_giveIndex (indexes : List (Text × Text)) (ts : List Table) (place : Nat) :
    (indexes.foldl giveIndex ts)[place]? =
      ts[place]?.map fun t => { t with indexes := t.indexes ++ given ts indexes place } := by
  induction indexes generalizing ts with
  | nil => simp [given]
  | cons index indexes ih =>
    have hrest : given (giveIndex ts index) indexes place = given ts indexes place := by
      rw [given, given, meant?_congr (map_name_giveIndex ts index)]
    rw [List.foldl_cons, ih, hrest, giveIndex, Table.getElem?_modifyFirst, Option.map_map]
    congr 1
    funext t
    by_cases hmeant : meant? ts index.2 = some place
    · simp [given, hmeant, show (ts.findIdx? fun t => meansSameTable t.name index.2) = some place from hmeant]
    · simp [given, hmeant, show ¬(ts.findIdx? fun t => meansSameTable t.name index.2) = some place from hmeant]

/-- Of the tables only the names and the primary keys count. -/
theorem completeKey_congr {us : List Table}
    (h : us.map (fun t => (t.name, t.primaryKey)) = ts.map fun t => (t.name, t.primaryKey)) :
    completeKey us = completeKey ts := by
  funext k
  have hfind : (us.find? fun t => meansSameTable t.name k.table).bind Table.primaryKey =
      (ts.find? fun t => meansSameTable t.name k.table).bind Table.primaryKey := by
    have hboth := congrArg (fun ps => (List.find? (fun p => meansSameTable p.1 k.table) ps).bind Prod.snd) h
    simp only [List.find?_map, Option.bind_map] at hboth
    exact hboth
  rw [completeKey, completeKey]
  simp only [hfind]

/-! ## Tables -/

/-- The table at a place with what the tables and indexes of its script add to it. -/
def completedAt (ds : List Table) (indexes : List (Text × Text)) (place : Nat) (d : Table) : Table :=
  { d with indexes := d.indexes ++ given ds indexes place, foreignKeys := d.foreignKeys.map (completeKey ds) }

theorem completeKey_indexed (dialect : Dialect) (script : Text) :
    completeKey (indexed dialect script) = completeKey (declared dialect script) := by
  refine completeKey_congr ?_
  have hsame := congrArg (List.map fun t : Table => (t.name, t.primaryKey)) (map_indexed dialect script)
  rwa [List.map_map, List.map_map] at hsame

/-- The tables of a script are the declared ones, each with the indexes whose names mean it and with the keys of the
tables that its references mean. -/
theorem tables_eq_mapIdx (dialect : Dialect) (script : Text) : tables dialect script =
    (declared dialect script).mapIdx (completedAt (declared dialect script) (declaredIndexes dialect script)) := by
  rw [tables_eq, completeReferences, completeKey_indexed, indexed]
  refine List.ext_getElem? fun place => ?_
  rw [List.getElem?_map, getElem?_foldl_giveIndex, List.getElem?_mapIdx, Option.map_map]
  rfl

theorem completeKey_tables (dialect : Dialect) (script : Text) :
    completeKey (tables dialect script) = completeKey (declared dialect script) := by
  refine completeKey_congr (List.ext_getElem? fun place => ?_)
  rw [tables_eq_mapIdx, List.getElem?_map, List.getElem?_map, List.getElem?_mapIdx, Option.map_map]
  rfl

/-- A table is declared without indexes. -/
theorem indexes_of_mem_declared {dialect : Dialect} {script : Text} {d : Table} (hd : d ∈ declared dialect script) :
    d.indexes = [] := by
  obtain ⟨run, hrun⟩ := (holdStatements_findings dialect (List.suffix_refl (scan script))).exists_run hd
  obtain ⟨n, parts, -, rfl⟩ := hrun.table
  rfl

/-- A table of a script has the indexes whose names mean it. -/
theorem indexes_eq {dialect : Dialect} {script : Text} {before after : List Table} {t : Table}
    (h : tables dialect script = before ++ t :: after) : t.indexes =
      ((declaredIndexes dialect script).filter fun i => decide (IsMeant before t i.2)).map Prod.fst := by
  have hplace : (tables dialect script)[before.length]? = some t := by simp [h]
  have hmeant : meant? (declared dialect script) = meant? (before ++ t :: after) :=
    meant?_congr (by rw [← h, map_name_tables])
  rw [tables_eq_mapIdx, List.getElem?_mapIdx] at hplace
  obtain ⟨d, hd, rfl⟩ := Option.map_eq_some_iff.1 hplace
  have hindexes : (completedAt (declared dialect script) (declaredIndexes dialect script) before.length d).indexes =
      given (declared dialect script) (declaredIndexes dialect script) before.length := by
    rw [completedAt, indexes_of_mem_declared (List.mem_of_getElem? hd), List.nil_append]
  rw [hindexes, given]
  refine congrArg (List.map Prod.fst) (List.filter_congr fun i _ => decide_eq_decide.2 ?_)
  rw [hmeant]
  exact meant?_append_cons

/-! ## Whole names -/

/-- In front of the first table that has the name as a whole stands one that has it in the part after the last dot. -/
def Shadowed (name : Text) (ts : List Table) : Prop :=
  ∃ t ∈ ts.takeWhile fun t => !t.name.same name, (localName t.name).same (localName name) = true

instance (name : Text) (ts : List Table) : Decidable (Shadowed name ts) :=
  inferInstanceAs (Decidable (∃ t ∈ ts.takeWhile fun t => !t.name.same name,
    (localName t.name).same (localName name) = true))

theorem means_of_same {a b : Text} (h : a.same b = true) : meansSameTable a b = true := by
  rw [meansSameTable, h, Bool.true_or]

theorem shadowed_cons {t : Table} (h : t.name.same name = false) : Shadowed name (t :: ts) ↔
    meansSameTable t.name name = true ∨ Shadowed name ts := by
  rw [Shadowed, List.takeWhile_cons_of_pos (by simp [h]), meansSameTable, h, Bool.false_or, Shadowed]
  simp only [List.mem_cons, or_and_right, exists_or, exists_eq_left]

/-- A name means a table that has it as a whole, unless another table shadows all of these. -/
theorem same_iff_not_shadowed {t : Table} (h : ts.find? (fun t => meansSameTable t.name name) = some t) :
    t.name.same name = true ↔ ¬Shadowed name ts := by
  induction ts with
  | nil => cases h
  | cons u us ih =>
    rw [List.find?_cons] at h
    cases hsame : u.name.same name with
    | true =>
      rw [means_of_same hsame] at h
      obtain rfl := Option.some.inj h
      simp [Shadowed, hsame]
    | false =>
      rw [shadowed_cons hsame]
      cases hmeans : meansSameTable u.name name with
      | true =>
        rw [hmeans] at h
        obtain rfl := Option.some.inj h
        simp [hsame]
      | false =>
        rw [hmeans] at h
        simp [ih h]

/-- The name of a table of a script, with or without a schema and in any letter case, means the first table that has
it, at least in the part after the last dot. Each index stands in the table that it means and in no other one, and a
reference that names no column gets the primary key of the table that it means, or `id` if it has none. This table
has the name as a whole exactly when no other one shadows it. -/
theorem tables_meant (dialect : Dialect) (script : Text) {name : Text}
    (hname : ∃ t ∈ tables dialect script, t.name.same name = true) :
    ∃ before t after, tables dialect script = before ++ t :: after ∧ IsMeant before t name ∧
      (t.name.same name = true ↔ ¬Shadowed name (tables dialect script)) ∧
      (∀ front u back, tables dialect script = front ++ u :: back → u.indexes =
        ((declaredIndexes dialect script).filter fun i => decide (IsMeant front u i.2)).map Prod.fst) ∧
      List.Forall₂ (fun d u => List.Forall₂ (fun k l => k.referencedColumn = [] → k.table = name →
          l = { k with referencedColumn := t.primaryKey.getD assumedColumn }) d.foreignKeys u.foreignKeys)
        (declared dialect script) (tables dialect script) := by
  obtain ⟨u, hu, hsame⟩ := hname
  obtain ⟨t, hfind⟩ : ∃ t, (tables dialect script).find? (fun t => meansSameTable t.name name) = some t := by
    rw [← Option.isSome_iff_exists, List.find?_isSome]
    exact ⟨u, hu, means_of_same hsame⟩
  obtain ⟨hmeans, before, after, hsplit, hbefore⟩ := List.find?_eq_some_iff_append.1 hfind
  refine ⟨before, t, after, hsplit, ⟨hmeans, by simpa using hbefore⟩, same_iff_not_shadowed hfind,
    fun front u back => indexes_eq, ?_⟩
  refine (completes_tables dialect script).imp fun d u h => ?_
  rw [h.2, completeKey_indexed, ← completeKey_tables, List.forall₂_map_right_iff, List.forall₂_same]
  intro k _ hopen htable
  rw [completeKey, if_pos (by simp [hopen]), htable, hfind]
  rfl

/-- A table of another schema that comes later does no harm, in whatever case the name is written. -/
theorem tables_meant_later :
    let script : Text := "CREATE TABLE b.t (y INT PRIMARY KEY); CREATE TABLE a.t (x INT PRIMARY KEY); " ++
      "CREATE INDEX i ON B.T (y); CREATE TABLE c (z INT REFERENCES B.T)"
    (∃ t ∈ tables .postgresql script, t.name.same "B.T" = true) ∧
      ∃ t ∈ tables .postgresql script, t.name.same "B.T" = true ∧ t.indexes = ["i".toList] ∧
        List.Forall₂ (fun d u => List.Forall₂ (fun k l => k.referencedColumn = [] → k.table = "B.T".toList →
            l = { k with referencedColumn := t.primaryKey.getD assumedColumn }) d.foreignKeys u.foreignKeys)
          (declared .postgresql script) (tables .postgresql script) := by
  intro script
  obtain ⟨hname, hshadowed, hdeclared⟩ : (∃ t ∈ tables .postgresql script, t.name.same "B.T" = true) ∧
      ¬Shadowed "B.T" (tables .postgresql script) ∧
      declaredIndexes .postgresql script = [("i".toList, "B.T".toList)] := by decide +kernel
  obtain ⟨before, t, after, hsplit, hmeant, hsame, hindexes, hkeys⟩ := tables_meant .postgresql script hname
  refine ⟨hname, t, by simp [hsplit], hsame.2 hshadowed, ?_, hkeys⟩
  rw [hindexes before t after hsplit, hdeclared, List.filter_cons_of_pos (by simpa using hmeant)]
  rfl

/-- A table of another schema comes first: it gets the index, and the reference gets its primary key. -/
theorem tables_meant_shadowed :
    let script : Text := "CREATE TABLE a.t (x INT PRIMARY KEY); CREATE TABLE b.t (y INT PRIMARY KEY); " ++
      "CREATE INDEX i ON b.t (y); CREATE TABLE c (z INT REFERENCES b.t)"
    (tables .postgresql script).map (fun t => (t.name, t.indexes, t.foreignKeys)) =
      [("a.t".toList, ["i".toList], []), ("b.t".toList, [], []), ("c".toList, [], [⟨"z", "b.t", "x"⟩])] := by
  decide +kernel

end Script

end DialectBridge
