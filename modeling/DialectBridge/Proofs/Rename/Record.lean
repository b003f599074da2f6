import DialectBridge.Proofs.Rename.Conflicts
import DialectBridge.Proofs.Schema.MeantTables

/-!
# The record of a renaming

The record lists every table rename, and with the first table of a name, up to case, the column renames that
decide about their column names (`mem_columns_iff`). The passes over the script go by the first rename for a
name, whether it is the one that the record shows or not. So the record shows what happens exactly as long as
no table is renamed under two spellings in two ways, and no column rename takes effect that another table or
another spelling is in front of (`transformations_true_iff`).
-/

namespace DialectBridge

theorem Text.same_trans {s t u : Text} (hst : s.same t = true) (htu : t.same u = true) : s.same u = true :=
  same_iff.2 ((same_iff.1 hst).trans (same_iff.1 htu))

namespace TextMap

variable {α : Type} {m : TextMap α}

/-- A new key adds its entry. -/
theorem mem_insert_iff {key : Text} (hkey : ∀ f ∈ m, f.1 ≠ key) {value : α} {e : Text × α} :
    e ∈ insert key value m ↔ e = (key, value) ∨ e ∈ m := by
  refine ⟨mem_insert, ?_⟩
  induction m with
  | nil => rintro (rfl | h); exacts [List.mem_singleton.2 rfl, absurd h List.not_mem_nil]
  | cons f m ih =>
    obtain ⟨hf, hm⟩ := List.forall_mem_cons.1 hkey
    rw [insert, if_neg hf]
    split
    · exact List.mem_cons.2
    · rintro (rfl | h)
      · exact List.mem_cons_of_mem _ (ih hm (.inl rfl))
      · rcases List.mem_cons.1 h with rfl | h
        · exact List.mem_cons_self
        · exact List.mem_cons_of_mem _ (ih hm (.inr h))

/-- Entries with different keys are all kept. -/
theorem mem_foldl_insert {pairs : List (Text × α)} (hpairs : (pairs.map Prod.fst).Nodup)
    (hkeys : ∀ f ∈ m, f.1 ∉ pairs.map Prod.fst) {e : Text × α} :
    e ∈ pairs.foldl (fun m p => insert p.1 p.2 m) m ↔ e ∈ m ∨ e ∈ pairs := by
  induction pairs generalizing m with
  | nil => simp
  | cons p pairs ih =>
    rw [List.map_cons, List.nodup_cons] at hpairs
    have hnew : ∀ f ∈ m, f.1 ≠ p.1 := fun f hf heq => hkeys f hf (by simp [heq])
    rw [List.foldl_cons, ih hpairs.2, mem_insert_iff hnew, List.mem_cons, or_comm (a := e = _), or_assoc]
    intro f hf
    rcases mem_insert hf with rfl | hf
    · exact hpairs.1
    · exact fun hmem => hkeys f hf (List.mem_cons_of_mem _ hmem)

end TextMap

/-! ## A listed word alone -/

namespace Glossary

variable {g : Glossary}

/-- Where a listed word is found as a whole, replacing it alone looks it up. -/
theorem replace_of_takesAll {w : Text} (hne : w ≠ []) (h : g.takesAll w = true) :
    g.replace w = (g.target? w.lowercase).getD w := by
  obtain ⟨⟨taken, u⟩, hmatch, hlength⟩ := (Option.any_eq_true ..).1 h
  obtain ⟨e, he, htake⟩ := List.exists_of_findSome?_eq_some hmatch
  obtain ⟨taken', hlike, heq⟩ := Option.map_eq_some_iff.1 htake
  cases heq
  -- what is found is as long as the word
  obtain rfl : taken = w := (takeLike?_eq_some hlike).1.eq_of_length (beq_iff_eq.1 hlength)
  have hcut : cut g.matcher taken = [.found ⟨[], taken, [], ()⟩] := by
    have hwhole : g.matcher [] (taken ++ []) = some (taken, ()) := by rwa [List.append_nil]
    have hpieces : Cut.pieces g.matcher 0 true [] (taken ++ []) = _ := Cut.pieces_some hwhole hne
    rw [List.append_nil] at hpieces
    rw [cut, hpieces, List.append_nil, Cut.pieces]
    cases g.matcher taken.reverse [] <;> rfl
  rw [replace, replaceMatches, hcut, List.flatMap_singleton]
  show (g.replacement? ⟨[], taken, [], ()⟩).getD taken = _
  have halone : standsAlone (⟨[], taken, [], ()⟩ : Match Unit) = true := rfl
  rw [replacement?, if_pos halone]

/-- A word whose lower case is ASCII is found as a whole if it is listed and all listed words are ASCII in
lower case. -/
theorem takesAll_of_ascii {pairs : List (Text × Text)} (h : ∀ p ∈ pairs, p.1.lowercase.IsAscii) {p : Text × Text}
    (hp : p ∈ pairs) (hne : p.1 ≠ []) {w : Text} (hw : p.1.lowercase = w.lowercase) :
    (ofPairs pairs).takesAll w = true := by
  have hascii : ∀ e ∈ (ofPairs pairs).targets, e.1.IsAscii := by
    intro e he
    obtain ⟨q, hq, -, rfl⟩ := mem_ofPairs he
    exact h q hq
  have hlowered : (w.lowercase, p.2) ∈ loweredPairs pairs :=
    List.mem_map.2 ⟨p, List.mem_filter.2 ⟨hp, by simpa using hne⟩, by rw [hw]⟩
  have hfind : ((loweredPairs pairs).find? fun q => q.1 == w.lowercase).isSome = true :=
    List.find?_isSome.2 ⟨_, hlowered, beq_self_eq_true w.lowercase⟩
  obtain ⟨q, hq⟩ := Option.isSome_iff_exists.1 hfind
  have htarget : (ofPairs pairs).target? w.lowercase = some q.2 := by
    rw [target?_ofPairs]
    exact congrArg (Option.map Prod.snd) hq
  obtain ⟨e, he, -⟩ := Option.map_eq_some_iff.1 htarget
  have hkey : e.1 = w.lowercase := by simpa using List.find?_some he
  refine takesAll_of_mem (isSorted_ofPairs pairs) hascii (List.mem_of_find?_eq_some he) ?_
  rw [hkey]
  exact takeLike?_lowercase (hw ▸ h p hp)

end Glossary

namespace Renaming

open Glossary

variable {r : Renaming}

/-- Every old name is found as a whole where it stands alone. -/
structure FindsNames (r : Renaming) : Prop where
  tables : ∀ e ∈ r.tableRenames, r.tableGlossary.takesAll e.1 = true
  columns : ∀ c ∈ r.columnRenames, r.columnGlossary.takesAll c.old = true

/-- What decides about a column name is accepted. -/
theorem find?_accepted (r : Renaming) (c : ColumnRename) :
    r.acceptedColumns.find? (fun e => e.old.lowercase == c.old.lowercase) = r.deciding? c :=
  find?_decisive (by simp) _

/-- Old names are found as a whole if their lower case is ASCII. -/
theorem findsNames_of_ascii (htables : ∀ e ∈ r.tables, e.1.lowercase.IsAscii)
    (hcolumns : ∀ c ∈ r.columnRenames, c.old.lowercase.IsAscii) : r.FindsNames where
  tables e he := by
    obtain ⟨hmem, hne⟩ := List.mem_filter.1 he
    exact takesAll_of_ascii htables hmem (by simpa using hne) rfl
  columns c hc := by
    obtain ⟨first, hfirst⟩ := exists_deciding hc
    rw [← find?_accepted] at hfirst
    have hmem := List.mem_of_find?_eq_some hfirst
    have haccepted : ∀ p ∈ r.acceptedColumns.map names, p.1.lowercase.IsAscii :=
      List.forall_mem_map.2 fun d hd => hcolumns d ((decisive_sublist [] _).subset hd)
    have hne := (mem_columnRenames.1 ((decisive_sublist [] _).subset hmem)).1
    have hsame : first.old.lowercase = c.old.lowercase := by simpa using List.find?_some hfirst
    exact takesAll_of_ascii haccepted (List.mem_map_of_mem hmem) hne hsame

/-! ## What the passes do -/

/-- The table rename that decides about a name: the first one for it, up to case. -/
def decidingTable? (r : Renaming) (old : Text) : Option (Text × Text) :=
  r.tableRenames.find? fun e => e.1.lowercase == old.lowercase

theorem exists_decidingTable {e : Text × Text} (he : e ∈ r.tableRenames) :
    ∃ first, r.decidingTable? e.1 = some first :=
  Option.isSome_iff_exists.1 (List.find?_isSome.2 ⟨e, he, by exact beq_self_eq_true _⟩)

theorem replace_table (h : r.FindsNames) {e first : Text × Text} (he : e ∈ r.tableRenames)
    (hfirst : r.decidingTable? e.1 = some first) : r.tableGlossary.replace e.1 = first.2 := by
  have hne : e.1 ≠ [] := by simpa using (List.mem_filter.1 he).2
  have htarget : r.tableGlossary.target? e.1.lowercase = some first.2 := by
    rw [tableGlossary, target?_ofPairs, loweredPairs, List.find?_map, Option.map_map]
    exact congrArg (Option.map Prod.snd) hfirst
  rw [replace_of_takesAll hne (h.tables e he), htarget, Option.getD_some]

theorem replace_column (h : r.FindsNames) {c first : ColumnRename} (hc : c ∈ r.columnRenames)
    (hfirst : r.deciding? c = some first) : r.columnGlossary.replace c.old = first.new := by
  have hne := (mem_columnRenames.1 hc).1
  have hall : (r.acceptedColumns.map names).filter (fun p => !p.1.isEmpty) = r.acceptedColumns.map names := by
    refine List.filter_eq_self.2 (List.forall_mem_map.2 fun d hd => ?_)
    simpa [names] using (mem_columnRenames.1 ((decisive_sublist [] _).subset hd)).1
  have htarget : r.columnGlossary.target? c.old.lowercase = some first.new := by
    have hpass : r.columnGlossary = ofPairs (r.acceptedColumns.map names) := rfl
    rw [← find?_accepted] at hfirst
    rw [hpass, target?_ofPairs, loweredPairs, hall, List.map_map, List.find?_map, Option.map_map]
    exact congrArg (Option.map ColumnRename.new) hfirst
  rw [replace_of_takesAll hne (h.columns c hc), htarget, Option.getD_some]

/-! ## What is recorded -/

/-- The place of the transformation that the column renames of a table are recorded with. -/
def recordedAt? (r : Renaming) (table : Text) : Option Nat :=
  r.tableRenames.findIdx? fun e => e.1.same table

theorem atTable_eq (table : Text) (change : Transformation → Transformation) (ts : List Transformation) :
    atTable table change ts = Table.modifyFirst (fun t => t.oldTable.same table) change ts := by
  induction ts with
  | nil => rfl
  | cons t ts ih => rw [atTable, Table.modifyFirst, ih]

/-- A transformation with more column renames recorded. -/
def recordAll (cs : List ColumnRename) (t : Transformation) : Transformation :=
  { t with columns := (cs.map names).foldl (fun m p => TextMap.insert p.1 p.2 m) t.columns }

theorem getElem?_record (ts : List Transformation) (c : ColumnRename) (n : Nat) :
    (record ts c)[n]? = ts[n]?.map fun t =>
      if (ts.map Transformation.oldTable).findIdx? (fun old => old.same c.table) = some n then recordAll [c] t else t := by
  rw [record, atTable_eq, Table.getElem?_modifyFirst, List.findIdx?_map]
  rfl

theorem map_oldTable_record (ts : List Transformation) (c : ColumnRename) :
    (record ts c).map Transformation.oldTable = ts.map Transformation.oldTable := by
  refine List.ext_getElem? fun n => ?_
  rw [List.getElem?_map, List.getElem?_map, getElem?_record, Option.map_map]
  congr 1
  funext t
  show (if _ then recordAll [c] t else t).oldTable = _
  split <;> rfl

theorem getElem?_foldl_record (cs : List ColumnRename) (ts : List Transformation) (n : Nat) :
    (cs.foldl record ts)[n]? = ts[n]?.map (recordAll (cs.filter fun c =>
      (ts.map Transformation.oldTable).findIdx? (fun old => old.same c.table) = some n)) := by
  induction cs generalizing ts with
  | nil => cases hts : ts[n]? <;> simp [hts, recordAll]
  | cons c cs ih =>
    rw [List.foldl_cons, ih, map_oldTable_record, getElem?_record, Option.map_map]
    congr 1
    funext t
    by_cases hplace : (ts.map Transformation.oldTable).findIdx? (fun old => old.same c.table) = some n
    · rw [List.filter_cons_of_pos (by simpa using hplace), Function.comp_apply, if_pos hplace]
      rfl
    · rw [List.filter_cons_of_neg (by simpa using hplace), Function.comp_apply, if_neg hplace]

/-- The transformations are the table renames, each with the column renames that are recorded with it. -/
theorem getElem?_transformations (r : Renaming) (route : Route) (n : Nat) :
    (r.transformations route)[n]? = r.tableRenames[n]?.map fun e =>
      recordAll (r.acceptedColumns.filter fun c => r.recordedAt? c.table = some n) ⟨e.1, e.2, [], [], route⟩ := by
  rw [transformations, getElem?_foldl_record, List.getElem?_map, Option.map_map, List.map_map]
  congr 1
  funext e
  have hplace (c : ColumnRename) : (r.tableRenames.map (Transformation.oldTable ∘ fun x => ⟨x.1, x.2, [], [], route⟩)).findIdx?
      (fun old => old.same c.table) = r.recordedAt? c.table := List.findIdx?_map ..
  simp only [hplace]
  rfl

/-- No two accepted renames are for one column name. -/
theorem nodup_accepted (r : Renaming) : (r.acceptedColumns.map fun c => c.old.lowercase).Nodup := by
  -- those behind earlier renames share no name with them either
  have hdecisive (earlier cs : List ColumnRename) : ((decisive earlier cs).map fun c => c.old.lowercase).Nodup ∧
      ∀ c ∈ decisive earlier cs, ∀ e ∈ earlier, e.old.lowercase ≠ c.old.lowercase := by
    induction cs generalizing earlier with
    | nil => exact ⟨.nil, List.forall_mem_nil _⟩
    | cons c cs ih =>
      rw [decisive]
      split
      · exact ih earlier
      · next hnew =>
        obtain ⟨hnodup, hother⟩ := ih (earlier ++ [c])
        refine ⟨List.nodup_cons.2 ⟨fun hmem => ?_, hnodup⟩, List.forall_mem_cons.2 ⟨?_, fun d hd e he => ?_⟩⟩
        · obtain ⟨d, hd, hsame⟩ := List.mem_map.1 hmem
          exact hother d hd c (List.mem_append_right _ (List.mem_singleton.2 rfl)) hsame.symm
        · simpa using hnew
        · exact hother d hd e (List.mem_append_left _ he)
  exact (hdecisive [] _).1

/-- The accepted renames are those that decide about their column names. -/
theorem mem_accepted_iff {c : ColumnRename} :
    c ∈ r.acceptedColumns ↔ c ∈ r.columnRenames ∧ r.deciding? c = some c := by
  constructor
  · intro hc
    have hmem := (decisive_sublist [] _).subset hc
    obtain ⟨first, hfirst⟩ := exists_deciding hmem
    rw [← find?_accepted] at hfirst
    have hsame : first.old.lowercase = c.old.lowercase := by simpa using List.find?_some hfirst
    obtain rfl : first = c := List.inj_on_of_nodup_map r.nodup_accepted (List.mem_of_find?_eq_some hfirst) hc hsame
    exact ⟨hmem, by rwa [← find?_accepted]⟩
  · rintro ⟨-, hfirst⟩
    rw [← find?_accepted] at hfirst
    exact List.mem_of_find?_eq_some hfirst

/-- With a transformation stand the column renames that decide about their column names and are recorded at its place. -/
theorem mem_columns_iff {route : Route} {n : Nat} {t : Transformation} (ht : (r.transformations route)[n]? = some t)
    (p : Text × Text) : p ∈ t.columns ↔
      ∃ c ∈ r.columnRenames, r.deciding? c = some c ∧ r.recordedAt? c.table = some n ∧ names c = p := by
  rw [getElem?_transformations] at ht
  obtain ⟨e, -, rfl⟩ := Option.map_eq_some_iff.1 ht
  have hkeys : (((r.acceptedColumns.filter fun c => r.recordedAt? c.table = some n).map names).map Prod.fst).Nodup := by
    have hnodup : ((r.acceptedColumns.map ColumnRename.old).map Text.lowercase).Nodup := by
      rw [List.map_map]
      exact r.nodup_accepted
    rw [List.map_map]
    exact (hnodup.of_map Text.lowercase).sublist (List.filter_sublist.map _)
  show p ∈ List.foldl _ [] _ ↔ _
  rw [TextMap.mem_foldl_insert hkeys (List.forall_mem_nil _)]
  simp [mem_accepted_iff, and_assoc]

/-! ## What the record shows -/

/-- The transformation shows what happens: the table pass makes its table rename, and its column renames are those of
its table that the column pass makes. -/
structure Shows (r : Renaming) (t : Transformation) : Prop where
  table : r.tableGlossary.replace t.oldTable = t.newTable
  columns : ∀ p, p ∈ t.columns ↔ ∃ c ∈ r.columnRenames, names c = p ∧ t.oldTable.same c.table = true ∧
    r.columnGlossary.replace c.old = c.new

theorem exists_place {route : Route} {t : Transformation} (ht : t ∈ r.transformations route) :
    ∃ n : Nat, (r.transformations route)[n]? = some t ∧ r.tableRenames[n]? = some (t.oldTable, t.newTable) := by
  obtain ⟨n, hn⟩ := List.mem_iff_getElem?.1 ht
  refine ⟨n, hn, ?_⟩
  rw [getElem?_transformations] at hn
  obtain ⟨e, he, rfl⟩ := Option.map_eq_some_iff.1 hn
  exact he

theorem map_transformations (r : Renaming) (route : Route) :
    (r.transformations route).map (fun t => (t.oldTable, t.newTable)) = r.tableRenames := by
  refine List.ext_getElem? fun n => ?_
  rw [List.getElem?_map, getElem?_transformations, Option.map_map]
  exact Option.map_id' ..

theorem same_of_recordedAt {table : Text} {n : Nat} {e : Text × Text} (hplace : r.recordedAt? table = some n)
    (he : r.tableRenames[n]? = some e) : e.1.same table = true := by
  obtain ⟨hlt, hsame, -⟩ := List.findIdx?_eq_some_iff_getElem.1 hplace
  rw [List.getElem?_eq_getElem hlt, Option.some.injEq] at he
  rwa [he] at hsame

theorem exists_recordedAt {table : Text} {e : Text × Text} (he : e ∈ r.tableRenames) (hsame : e.1.same table = true) :
    ∃ (n : Nat) (f : Text × Text), r.recordedAt? table = some n ∧ r.tableRenames[n]? = some f := by
  cases hplace : r.recordedAt? table with
  | none => exact absurd hsame (by simpa using List.findIdx?_eq_none_iff.1 hplace e he)
  | some n =>
    obtain ⟨hlt, -⟩ := List.findIdx?_eq_some_iff_getElem.1 hplace
    exact ⟨n, _, rfl, List.getElem?_eq_getElem hlt⟩

/-- What the record shows of the columns of a table happens to them. -/
theorem columns_take_effect (h : r.FindsNames) {route : Route} {t : Transformation} (ht : t ∈ r.transformations route)
    {p : Text × Text} (hp : p ∈ t.columns) : ∃ c ∈ r.columnRenames, names c = p ∧ t.oldTable.same c.table = true ∧
      r.columnGlossary.replace c.old = c.new := by
  obtain ⟨n, hn, he⟩ := exists_place ht
  obtain ⟨c, hc, hdecides, hplace, hnames⟩ := (mem_columns_iff hn p).1 hp
  exact ⟨c, hc, hnames, same_of_recordedAt hplace he, replace_column h hc hdecides⟩

/-- The table renames are those that the table pass makes exactly if no table is renamed in two ways. -/
theorem tables_shown_iff (h : r.FindsNames) : (∀ e ∈ r.tableRenames, r.tableGlossary.replace e.1 = e.2) ↔
    ∀ e ∈ r.tableRenames, ∀ f ∈ r.tableRenames, e.1.lowercase = f.1.lowercase → e.2 = f.2 := by
  constructor
  · intro hall e he f hf hname
    obtain ⟨first, hfirst⟩ := exists_decidingTable he
    have hsame : r.decidingTable? f.1 = some first := by rw [decidingTable?, ← hname]; exact hfirst
    rw [← hall e he, ← hall f hf, replace_table h he hfirst, replace_table h hf hsame]
  · intro hall e he
    obtain ⟨first, hfirst⟩ := exists_decidingTable he
    have hname : first.1.lowercase = e.1.lowercase := by simpa using List.find?_some hfirst
    rw [replace_table h he hfirst]
    exact hall first (List.mem_of_find?_eq_some hfirst) e he hname

/-- The table rename is the only one for its table, and the column rename of this table takes effect because of
one that is recorded as this one would be. -/
structure IsOnRecord (r : Renaming) (e : Text × Text) (c : ColumnRename) : Prop where
  alone : ∀ f ∈ r.tableRenames, f.1.same c.table = true → f = e
  first : ∃ first ∈ r.deciding? c, first.old = c.old ∧ first.table.same c.table = true

instance (r : Renaming) (e : Text × Text) (c : ColumnRename) : Decidable (r.IsOnRecord e c) :=
  decidable_of_iff ((∀ f ∈ r.tableRenames, f.1.same c.table = true → f = e) ∧
    ∃ first ∈ r.deciding? c, first.old = c.old ∧ first.table.same c.table = true)
    ⟨fun h => ⟨h.1, h.2⟩, fun h => ⟨h.alone, h.first⟩⟩

theorem exists_transformation (route : Route) {n : Nat} {e : Text × Text} (he : r.tableRenames[n]? = some e) :
    ∃ t, (r.transformations route)[n]? = some t ∧ t.oldTable = e.1 := by
  rw [getElem?_transformations, he]
  exact ⟨_, rfl, rfl⟩

/-- A column rename that takes effect is recorded if the one that decides is spelled like it and recorded at this place. -/
theorem names_mem_columns_iff (h : r.FindsNames) {route : Route} {n : Nat} {t : Transformation} {c : ColumnRename}
    (ht : (r.transformations route)[n]? = some t) (hc : c ∈ r.columnRenames)
    (heffect : r.columnGlossary.replace c.old = c.new) : names c ∈ t.columns ↔
      ∃ first, r.deciding? c = some first ∧ first.old = c.old ∧ r.recordedAt? first.table = some n := by
  rw [mem_columns_iff ht]
  constructor
  · rintro ⟨d, -, hdecides, hplace, hnames⟩
    obtain ⟨hold, -⟩ := Prod.mk.inj hnames
    exact ⟨d, by rwa [deciding?, ← hold], hold, hplace⟩
  · rintro ⟨first, hfirst, hold, hplace⟩
    have hself : r.deciding? first = some first := by rwa [deciding?, hold]
    have hnew : first.new = c.new := by rw [← heffect, replace_column h hc hfirst]
    exact ⟨first, List.mem_of_find?_eq_some hfirst, hself, hplace, Prod.ext hold hnew⟩

theorem nodup_tableRenames (hordered : r.tables.IsOrdered) : r.tableRenames.Nodup := by
  refine List.Pairwise.imp ?_ (hordered.filter fun e => !e.1.isEmpty)
  rintro e f hbefore rfl
  exact List.lt_irrefl _ (Text.before_iff.1 hbefore)

/-- All column renames that take effect in a renamed table are shown exactly if they are on record. -/
theorem columns_shown_iff (h : r.FindsNames) (hordered : r.tables.IsOrdered) (route : Route) :
    (∀ t ∈ r.transformations route, ∀ c ∈ r.columnRenames, t.oldTable.same c.table = true →
      r.columnGlossary.replace c.old = c.new → names c ∈ t.columns) ↔
    ∀ e ∈ r.tableRenames, ∀ c ∈ r.columnRenames, e.1.same c.table = true → r.columnGlossary.replace c.old = c.new →
      r.IsOnRecord e c := by
  constructor
  · intro hall e he c hc hsame heffect
    have hplace {f : Text × Text} {m : Nat} (hf : r.tableRenames[m]? = some f) (hfsame : f.1.same c.table = true) :
        ∃ first, r.deciding? c = some first ∧ first.old = c.old ∧ r.recordedAt? first.table = some m := by
      obtain ⟨t, ht, hold⟩ := exists_transformation route hf
      exact (names_mem_columns_iff h ht hc heffect).1
        (hall t (List.mem_of_getElem? ht) c hc (by rwa [hold]) heffect)
    obtain ⟨n, hn⟩ := List.mem_iff_getElem?.1 he
    obtain ⟨first, hfirst, hold, hat⟩ := hplace hn hsame
    refine ⟨fun f hf hfsame => ?_, first, hfirst, hold, ?_⟩
    · obtain ⟨m, hm⟩ := List.mem_iff_getElem?.1 hf
      obtain ⟨first', hfirst', -, hat'⟩ := hplace hm hfsame
      obtain rfl : first = first' := Option.some.inj (hfirst.symm.trans hfirst')
      obtain rfl : n = m := Option.some.inj (hat.symm.trans hat')
      exact Option.some.inj (hm.symm.trans hn)
    · have htable := same_of_recordedAt hat hn
      rw [Text.same_comm] at htable
      exact Text.same_trans htable hsame
  · intro hall t ht c hc hsame heffect
    obtain ⟨n, hn, he⟩ := exists_place ht
    obtain ⟨halone, first, hfirst, hold, htable⟩ := hall _ (List.mem_of_getElem? he) c hc hsame heffect
    refine (names_mem_columns_iff h hn hc heffect).2 ⟨first, hfirst, hold, ?_⟩
    have hself : t.oldTable.same first.table = true := by
      rw [Text.same_comm] at htable
      exact Text.same_trans hsame htable
    -- where the rename that decides is recorded stands the same table rename
    obtain ⟨m, f, hplace, hf⟩ := exists_recordedAt (List.mem_of_getElem? he) hself
    obtain rfl := halone f (List.mem_of_getElem? hf) (Text.same_trans (same_of_recordedAt hplace hf) htable)
    have hlt := (List.getElem?_eq_some_iff.1 hf).1
    obtain rfl : m = n := (List.getElem?_inj hlt (nodup_tableRenames hordered)).1 (hf.trans he.symm)
    exact hplace

/-- The record lists all table renames, and what it shows of columns happens. It shows exactly what happens if and only
if no table is renamed in two ways, up to case, and every column rename that takes effect in a renamed table is on
record: no rename for the same column of another table or with another spelling decides in its place, and its table is
renamed under one spelling only. -/
theorem transformations_true_iff (r : Renaming) (h : r.FindsNames) (hordered : r.tables.IsOrdered) (script : Text)
    (route : Route) :
    (r.apply script route).transformations.map (fun t => (t.oldTable, t.newTable)) = r.tableRenames ∧
    (r.apply script route).labels =
      (r.apply script route).transformations.map (fun t => label (t.oldTable, t.newTable)) ∧
    (∀ t ∈ (r.apply script route).transformations, ∀ p ∈ t.columns, ∃ c ∈ r.columnRenames, names c = p ∧
      t.oldTable.same c.table = true ∧ r.columnGlossary.replace c.old = c.new) ∧
    ((∀ t ∈ (r.apply script route).transformations, r.Shows t) ↔
      (∀ e ∈ r.tableRenames, ∀ f ∈ r.tableRenames, e.1.lowercase = f.1.lowercase → e.2 = f.2) ∧
      ∀ e ∈ r.tableRenames, ∀ c ∈ r.columnRenames, e.1.same c.table = true →
        r.columnGlossary.replace c.old = c.new → r.IsOnRecord e c) := by
  have hlist : (r.transformations route).map (fun t => (t.oldTable, t.newTable)) = r.tableRenames :=
    map_transformations r route
  refine ⟨hlist, ?_, fun t ht p => columns_take_effect h ht, ?_⟩
  · show r.tableRenames.map label = _
    rw [← hlist, List.map_map]
    rfl
  · rw [← tables_shown_iff h, ← columns_shown_iff h hordered route, ← hlist, List.forall_mem_map]
    constructor
    · intro hall
      exact ⟨fun t ht => (hall t ht).table,
        fun t ht c hc hsame heffect => ((hall t ht).columns _).2 ⟨c, hc, rfl, hsame, heffect⟩⟩
    · rintro ⟨htables, hcolumns⟩ t ht
      refine ⟨htables t ht, fun p => ⟨columns_take_effect h ht, ?_⟩⟩
      rintro ⟨c, hc, rfl, hsame, heffect⟩
      exact hcolumns t ht c hc hsame heffect

/-- Two renamed tables, of which the second one wants another name for a column of the first one, too. -/
theorem transformations_true_iff_orders :
    (⟨[("orders", "sales"), ("users", "people")],
      [("Orders", [("id", "sale")]), ("users", [("id", "person"), ("name", "label")])]⟩ : Renaming).FindsNames ∧
    (⟨[("orders", "sales"), ("users", "people")],
      [("Orders", [("id", "sale")]), ("users", [("id", "person"), ("name", "label")])]⟩ : Renaming).tables.IsOrdered ∧
    ∀ t ∈ ((⟨[("orders", "sales"), ("users", "people")],
      [("Orders", [("id", "sale")]), ("users", [("id", "person"), ("name", "label")])]⟩ : Renaming).apply
        "SELECT id, name FROM users" ⟨.oracle, .postgresql⟩).transformations,
      (⟨[("orders", "sales"), ("users", "people")],
        [("Orders", [("id", "sale")]), ("users", [("id", "person"), ("name", "label")])]⟩ : Renaming).Shows t := by
  have h : (⟨[("orders", "sales"), ("users", "people")],
      [("Orders", [("id", "sale")]), ("users", [("id", "person"), ("name", "label")])]⟩ : Renaming).FindsNames :=
    findsNames_of_ascii (by decide) (by decide)
  exact ⟨h, by decide, (transformations_true_iff _ h (by decide) _ _).2.2.2.2 ⟨by decide +kernel, by decide +kernel⟩⟩

/-- A table that is renamed under two spellings is listed with both new names, though the first one stands everywhere;
and a column that two tables rename alike is shown with the first one only. -/
theorem transformations_not_true :
    ((⟨[("T", "a"), ("t", "b")], []⟩ : Renaming).apply "SELECT * FROM t" ⟨.oracle, .postgresql⟩).labels =
        ["T -> a", "t -> b"] ∧
      ((⟨[("T", "a"), ("t", "b")], []⟩ : Renaming).apply "SELECT * FROM t" ⟨.oracle, .postgresql⟩).text =
        "SELECT * FROM a" ∧
      ((⟨[("a", "a2"), ("b", "b2")], [("a", [("id", "k")]), ("b", [("id", "k")])]⟩ : Renaming).apply
        "SELECT id FROM a, b" ⟨.oracle, .postgresql⟩).text = "SELECT k FROM a2, b2" ∧
      ((⟨[("a", "a2"), ("b", "b2")], [("a", [("id", "k")]), ("b", [("id", "k")])]⟩ : Renaming).apply
        "SELECT id FROM a, b" ⟨.oracle, .postgresql⟩).transformations.map Transformation.columns =
          [([("id", "k")] : TextMap Text), []] := by
  decide +kernel

end Renaming

end DialectBridge
