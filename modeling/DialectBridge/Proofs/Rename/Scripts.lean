import DialectBridge.Proofs.Rename.Statements

/-!
# Renamed scripts

Indexes go to the renamed tables as before, and references are completed from them as before. So the
tables of a script with replaced words are the tables of the script with their words replaced
(`tables_replaceNames`).
-/

namespace DialectBridge

open Script

namespace Glossary

/-- An index and its table with known names, and what they become. -/
structure RenamesIndex (g : Glossary) (i j : Text × Text) : Prop where
  name : g.Renames i.1 j.1
  table : g.Renames i.2 j.2

variable {g : Glossary} {ts us : List Table}

theorem RenamesFinding.table? {f f' : Finding} (h : g.RenamesFinding f f') :
    Option.Rel g.RenamesTable (Script.table? f) (Script.table? f') := by
  cases h with
  | table htable _ _ => exact .some htable
  | _ => exact .none

theorem RenamesFinding.index? {f f' : Finding} (h : g.RenamesFinding f f') :
    Option.Rel g.RenamesIndex (Script.index? f) (Script.index? f') := by
  cases h with
  | index hname htable => exact .some ⟨hname, htable⟩
  | _ => exact .none

/-- The same table is meant by the renamed names. -/
theorem RenamesTable.meansSameTable (hg : g.KeepsApart) {t u : Table} (h : g.RenamesTable t u) {n m : Text}
    (hname : g.Renames n m) : Script.meansSameTable u.name m = Script.meansSameTable t.name n := by
  obtain ⟨hknows, rfl⟩ := hname
  rw [h.eq]
  exact meansSameTable_replace hg h.name hknows

theorem renamesTable_giveIndex (hg : g.KeepsApart) (h : List.Forall₂ g.RenamesTable ts us) {i j : Text × Text}
    (hindex : g.RenamesIndex i j) : List.Forall₂ g.RenamesTable (giveIndex ts i) (giveIndex us j) := by
  refine rel_modifyFirst (fun t u htu => htu.meansSameTable hg hindex.table) (fun t u htu => ?_) h
  obtain ⟨-, hname⟩ := hindex.name
  refine ⟨htu.name, htu.foreignKeys, ?_⟩
  rw [htu.eq, hname]
  simp [renameTable]

/-- A reference is completed with the renamed column. -/
theorem completeKey_renamed (hg : g.KeepsApart) (hassumed : g.replace assumedColumn = assumedColumn)
    (h : List.Forall₂ g.RenamesTable ts us) {k l : ForeignKey} (hkey : g.RenamesKey k l) :
    completeKey us l = g.renameKey (completeKey ts k) := by
  have htarget := rel_find? (p := fun t => Script.meansSameTable t.name k.table)
    (q := fun u => Script.meansSameTable u.name (g.replace k.table))
    (fun t u htu => htu.meansSameTable hg ⟨hkey.table, rfl⟩) h
  have hempty : (g.replace k.referencedColumn).isEmpty = k.referencedColumn.isEmpty := by
    rw [Bool.eq_iff_iff, List.isEmpty_iff, List.isEmpty_iff, replace_eq_nil hg.toListsNames hkey.referencedColumn.ascii]
  rw [hkey.eq, completeKey, completeKey]
  simp only [renameKey, hempty]
  split
  · generalize ts.find? (fun t => Script.meansSameTable t.name k.table) = x at htarget ⊢
    generalize us.find? (fun u => Script.meansSameTable u.name (g.replace k.table)) = y at htarget ⊢
    cases htarget with
    | none => simp [hassumed]
    | @some t u htu =>
      rw [htu.eq]
      cases hprimary : t.primaryKey <;> simp [renameTable, hprimary, hassumed]
  · rfl

theorem completeReferences_renamed (hg : g.KeepsApart) (hassumed : g.replace assumedColumn = assumedColumn)
    (h : List.Forall₂ g.RenamesTable ts us) :
    completeReferences us = (completeReferences ts).map g.renameTable := by
  refine eq_map_of_forall₂ (fun _ _ heq => heq) (List.rel_map (R := g.RenamesTable) (fun t u htu => ?_) h)
  have hstep : ∀ ⦃k l⦄, g.RenamesKey k l → completeKey us l = g.renameKey (completeKey ts k) :=
    fun k l hkl => completeKey_renamed hg hassumed h hkl
  have hkeys := List.rel_map (P := fun k l => l = g.renameKey k) hstep htu.foreignKeys
  rw [eq_map_of_forall₂ (fun _ _ heq => heq) hkeys, htu.eq]
  rfl

/-- The tables of a script with replaced words are its tables with their words replaced. -/
theorem tables_replaceNames (hg : g.KeepsApart) (hassumed : g.replace assumedColumn = assumedColumn) {script : Text}
    (hscript : g.Knows script) (dialect : Dialect) :
    tables dialect (g.replaceNames script) = (tables dialect script).map g.renameTable := by
  have hrenamed : g.Renamed false (scan script) (scan (g.replaceNames script)) := by
    rw [scan_replaceNames hg.toListsNames hscript.ascii, renameTokens_scan hg hscript.ascii]
    exact @renamed_scan g hg [] script hscript false (by simp)
  have hfindings := findings_renamed hg dialect (List.suffix_refl _) (Fresh.anywhere _ _ hrenamed)
  have htables := List.rel_filterMap (fun _ _ h => RenamesFinding.table? h) hfindings
  have hindexes := List.rel_filterMap (fun _ _ h => RenamesFinding.index? h) hfindings
  exact completeReferences_renamed hg hassumed (List.rel_foldl (P := List.Forall₂ g.RenamesTable) (R := g.RenamesIndex)
    (fun _ _ hts _ _ hindex => renamesTable_giveIndex hg hts hindex) htables hindexes)

end Glossary

end DialectBridge
