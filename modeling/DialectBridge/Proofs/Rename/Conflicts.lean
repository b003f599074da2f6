import DialectBridge.Proofs.Rename.WordByWord

/-!
# Conflicts between column renames

Of the renames for one column name, up to case, the first one decides (`Decides`), and its new name stands
wherever that name is a whole word (`takesEffect_iff`). So a rename takes effect if it wants the same new
name; otherwise it is reported, once, in its turn, and with the rename that decides
(`conflicts_report_dropped`).
-/

namespace DialectBridge

namespace Text

variable {p : Char → Bool} {f : Text → Text}

/-- A text that ends outside a run is changed by itself. -/
theorem mapRuns_append {s : Text} (hs : s.getLast?.any p = false) (t : Text) :
    mapRuns p f (s ++ t) = mapRuns p f s ++ mapRuns p f t := by
  induction s using run_induction p with
  | nil => rw [List.nil_append, mapRuns_nil, List.nil_append]
  | other c s hc ih =>
    have hrest : s.getLast?.any p = false := by
      cases s with
      | nil => rfl
      | cons d s => rwa [List.getLast?_cons_cons] at hs
    rw [List.cons_append, mapRuns_other hc, mapRuns_other hc, ih hrest, List.cons_append]
  | run r s hne hr hstop ih =>
    cases s with
    | nil =>
      -- a run does not end outside itself
      rw [List.append_nil, List.getLast?_eq_some_getLast hne, Option.any_some, hr _ (List.getLast_mem hne)] at hs
      cases hs
    | cons d s =>
      rw [getLast?_append_right r (List.cons_ne_nil d s)] at hs
      have hrest : (d :: s ++ t).head?.any p = false := hstop
      rw [List.append_assoc, mapRuns_run hne hr hrest, mapRuns_run hne hr hstop, ih hs, List.append_assoc]

end Text

/-! ## Maps -/

namespace TextMap

variable {α : Type}

/-- The keys of the entries grow, so every key occurs once. -/
def IsOrdered (m : TextMap α) : Prop :=
  m.Pairwise fun e f => Text.before e.1 f.1 = true

instance (m : TextMap α) : Decidable m.IsOrdered :=
  inferInstanceAs (Decidable (m.Pairwise fun e f => Text.before e.1 f.1 = true))

theorem mem_insert {m : TextMap α} {key : Text} {value : α} {e : Text × α} (h : e ∈ insert key value m) :
    e = (key, value) ∨ e ∈ m := by
  fun_induction insert key value m with
  | case1 => exact .inl (List.mem_singleton.1 h)
  | case2 entries v =>
    exact (List.mem_cons.1 h).imp_right (List.mem_cons_of_mem _)
  | case3 k v entries _ _ => exact List.mem_cons.1 h
  | case4 k v entries _ _ ih =>
    rcases List.mem_cons.1 h with rfl | h
    · exact .inr List.mem_cons_self
    · exact (ih h).imp_right (List.mem_cons_of_mem _)

theorem IsOrdered.insert {m : TextMap α} (h : m.IsOrdered) (key : Text) (value : α) :
    IsOrdered (insert key value m) := by
  induction m with
  | nil => exact List.pairwise_singleton _ _
  | cons e m ih =>
    obtain ⟨hfirst, hrest⟩ := List.pairwise_cons.1 h
    rw [TextMap.insert]
    split
    · next heq => exact List.pairwise_cons.2 ⟨fun f hf => heq ▸ hfirst f hf, hrest⟩
    · next hne =>
      split
      · next hbefore =>
        refine List.pairwise_cons.2 ⟨fun f hf => ?_, h⟩
        rcases List.mem_cons.1 hf with rfl | hf
        · exact hbefore
        · exact Text.before_iff.2 (List.lt_trans (Text.before_iff.1 hbefore) (Text.before_iff.1 (hfirst f hf)))
      · next hafter =>
        refine List.pairwise_cons.2 ⟨fun f hf => ?_, ih hrest⟩
        rcases mem_insert hf with rfl | hf
        · rw [Text.before_iff] at hafter ⊢
          exact (List.le_iff_lt_or_eq.1 (List.not_lt.1 hafter)).resolve_right hne
        · exact hfirst f hf

/-- A map that is built from entries is ordered. -/
theorem isOrdered_ofList (entries : List (Text × α)) : IsOrdered (ofList entries) := by
  have hfold (m : TextMap α) (hm : m.IsOrdered) :
      IsOrdered (entries.foldl (fun m entry => insert entry.1 entry.2 m) m) := by
    induction entries generalizing m with
    | nil => exact hm
    | cons e entries ih => exact ih _ (hm.insert e.1 e.2)
  exact hfold [] .nil

end TextMap

/-! ## Renames in order -/

namespace ColumnRename

/-- Renames are ordered by their tables, and by the old names of their columns within a table. -/
def ComesBefore (c d : ColumnRename) : Prop :=
  Text.before c.table d.table = true ∨ (c.table = d.table ∧ Text.before c.old d.old = true)

instance (c d : ColumnRename) : Decidable (c.ComesBefore d) :=
  inferInstanceAs (Decidable (_ ∨ _))

theorem not_comesBefore_self (c : ColumnRename) : ¬ c.ComesBefore c := by
  rintro (h | ⟨-, h⟩) <;> exact List.lt_irrefl _ (Text.before_iff.1 h)

/-- The two renames are for one column name, up to case. -/
def SharesName (c d : ColumnRename) : Prop :=
  c.old.lowercase = d.old.lowercase

instance (c d : ColumnRename) : Decidable (c.SharesName d) :=
  inferInstanceAs (Decidable (c.old.lowercase = d.old.lowercase))

end ColumnRename

/-- A conflict names what the earlier rename puts in the place of the column name, and its table. -/
theorem RenameConflict.infix_message (k : RenameConflict) :
    k.earlier.new <:+: k.message ∧ k.earlier.table <:+: k.message := by
  obtain ⟨⟨table, old, new⟩, ⟨table', old', new'⟩⟩ := k
  have hnew (front back rest : Text) : new' <:+: front ++ new' ++ back ++ rest := by
    rw [List.append_assoc]
    exact List.infix_append _ _ _
  exact ⟨(hnew _ _ _).trans (List.prefix_append _ _).isInfix, List.infix_append _ _ _⟩

namespace Renaming

open Glossary

variable {r : Renaming}

/-- The columns have ASCII identifiers for old and new names, and the maps that list them are ordered. -/
structure HasOrderlyColumns (r : Renaming) : Prop where
  areNames : ∀ entry ∈ r.columns, ∀ p ∈ entry.2, IsAsciiName p.1 ∧ IsAsciiName p.2
  tablesOrdered : r.columns.IsOrdered
  columnsOrdered : ∀ entry ∈ r.columns, TextMap.IsOrdered entry.2

instance (r : Renaming) : Decidable r.HasOrderlyColumns :=
  decidable_of_iff ((∀ entry ∈ r.columns, ∀ p ∈ entry.2, IsAsciiName p.1 ∧ IsAsciiName p.2) ∧
    r.columns.IsOrdered ∧ ∀ entry ∈ r.columns, TextMap.IsOrdered entry.2)
    ⟨fun h => ⟨h.1, h.2.1, h.2.2⟩, fun h => ⟨h.areNames, h.tablesOrdered, h.columnsOrdered⟩⟩

theorem mem_columnRenames {c : ColumnRename} : c ∈ r.columnRenames ↔
    c.old ≠ [] ∧ ∃ columns, (c.table, columns) ∈ r.columns ∧ (c.old, c.new) ∈ columns := by
  obtain ⟨table, old, new⟩ := c
  simp only [columnRenames, List.mem_flatMap, List.mem_map, List.mem_filter, Prod.exists, ColumnRename.mk.injEq]
  constructor
  · rintro ⟨_, columns, hcolumns, _, _, ⟨hmem, hne⟩, rfl, rfl, rfl⟩
    exact ⟨by simpa using hne, columns, hcolumns, hmem⟩
  · rintro ⟨hne, columns, hcolumns, hmem⟩
    exact ⟨table, columns, hcolumns, old, new, ⟨hmem, by simpa using hne⟩, rfl, rfl, rfl⟩

theorem HasOrderlyColumns.names_of_mem (h : r.HasOrderlyColumns) {c : ColumnRename} (hc : c ∈ r.columnRenames) :
    IsAsciiName c.old ∧ IsAsciiName c.new := by
  obtain ⟨-, columns, hcolumns, hmem⟩ := mem_columnRenames.1 hc
  exact h.areNames _ hcolumns _ hmem

theorem HasOrderlyColumns.accepted (h : r.HasOrderlyColumns) :
    ∀ p ∈ r.acceptedColumns.map names, IsAsciiName p.1 ∧ IsAsciiName p.2 :=
  List.forall_mem_map.2 fun _ hc => h.names_of_mem ((decisive_sublist [] _).subset hc)

/-- Renames are listed in their order. -/
theorem HasOrderlyColumns.pairwise (h : r.HasOrderlyColumns) : r.columnRenames.Pairwise ColumnRename.ComesBefore := by
  refine List.pairwise_flatMap.2 ⟨fun entry hentry => ?_, ?_⟩
  · rw [List.pairwise_map]
    exact ((h.columnsOrdered entry hentry).filter _).imp fun hbefore => .inr ⟨rfl, hbefore⟩
  · refine List.Pairwise.imp (fun {e f} hbefore c hc d hd => ?_) h.tablesOrdered
    obtain ⟨_, -, rfl⟩ := List.mem_map.1 hc
    obtain ⟨_, -, rfl⟩ := List.mem_map.1 hd
    exact .inl hbefore

theorem HasOrderlyColumns.nodup (h : r.HasOrderlyColumns) : r.columnRenames.Nodup := by
  refine List.Pairwise.imp ?_ h.pairwise
  rintro c d hbefore rfl
  exact c.not_comesBefore_self hbefore

/-! ## The rename that decides -/

/-- Of the renames for the column name of `c`, the first one is `first`. -/
structure Decides (r : Renaming) (first c : ColumnRename) : Prop where
  mem : first ∈ r.columnRenames
  sharesName : first.SharesName c
  comesFirst : ∀ e ∈ r.columnRenames, e.SharesName c → e = first ∨ first.ComesBefore e

/-- The rename that decides about the column name of `c`. -/
def deciding? (r : Renaming) (c : ColumnRename) : Option ColumnRename :=
  r.columnRenames.find? fun e => e.old.lowercase == c.old.lowercase

theorem exists_deciding {c : ColumnRename} (hc : c ∈ r.columnRenames) : ∃ first, r.deciding? c = some first := by
  refine Option.isSome_iff_exists.1 (List.find?_isSome.2 ⟨c, hc, ?_⟩)
  exact beq_self_eq_true _

theorem HasOrderlyColumns.decides (h : r.HasOrderlyColumns) {c first : ColumnRename} (hfirst : r.deciding? c = some first) :
    r.Decides first c := by
  obtain ⟨hshares, front, back, hcut, hfront⟩ := List.find?_eq_some_iff_append.1 hfirst
  have hordered := h.pairwise
  rw [hcut, List.pairwise_append, List.pairwise_cons] at hordered
  refine ⟨List.mem_of_find?_eq_some hfirst, beq_iff_eq.1 hshares, fun e he hname => ?_⟩
  rw [hcut, List.mem_append, List.mem_cons] at he
  rcases he with he | rfl | he
  · exact absurd (beq_iff_eq.2 hname) (by simpa using hfront e he)
  · exact .inl rfl
  · exact .inr (hordered.2.1.1 e he)

/-! ## What a rename puts in the place of a name -/

/-- The rename takes effect: wherever its old name is a whole word of a text, in any letter case, the new
name takes its place, and the text around it is treated by itself. -/
def TakesEffect (r : Renaming) (c : ColumnRename) : Prop :=
  ∀ front word back : Text, word.lowercase = c.old.lowercase →
    front.getLast?.any isIdentifierCharacter = false → back.head?.any isIdentifierCharacter = false →
    r.columnGlossary.replace (front ++ word ++ back) =
      r.columnGlossary.replace front ++ c.new ++ r.columnGlossary.replace back

theorem HasOrderlyColumns.replace_eq (h : r.HasOrderlyColumns) (t : Text) : r.columnGlossary.replace t =
    t.mapRuns isIdentifierCharacter (lookup (r.columnRenames.map names)) := by
  have hpass : r.columnGlossary = ofPairs (r.acceptedColumns.map names) := rfl
  rw [hpass, replace_eq_mapRuns (listsNames_ofPairs h.accepted) fun _ _ => trivial, funext (rename_ofPairs h.accepted),
    lookup_accepted]

theorem lookup_columns {c first : ColumnRename} (hfirst : r.deciding? c = some first) {w : Text}
    (hw : w.lowercase = c.old.lowercase) : lookup (r.columnRenames.map names) w = first.new := by
  have hfind : (r.columnRenames.map names).find? (fun p => p.1.lowercase == w.lowercase) =
      (r.deciding? c).map names := by
    rw [hw]
    exact List.find?_map ..
  rw [lookup, hfind, hfirst]
  rfl

/-- What has the lower case of a name is a run of identifier characters. -/
theorem identifier_of_lowercase {name w : Text} (hname : IsAsciiName name) (hw : w.lowercase = name.lowercase) :
    w ≠ [] ∧ ∀ d ∈ w, isIdentifierCharacter d = true := by
  rw [Text.lowercase_of_ascii hname.ascii] at hw
  have htake : takeLike? name.lower w = some w := by
    rw [← hw]
    exact takeLike?_lowercase (hw ▸ hname.lower.ascii)
  obtain ⟨-, -, hsame⟩ := takeLike?_eq_some htake
  refine ⟨?_, fun d hd => ?_⟩
  · rintro rfl
    exact hname.lower.ne_nil hw.symm
  · obtain ⟨c, hc, hcd⟩ := hsame d hd
    exact identifier_of_sameLetter (hname.lower.characters c hc) hcd

/-- A rename takes effect exactly if the one that decides about its column name wants the same new name. -/
theorem HasOrderlyColumns.takesEffect_iff (h : r.HasOrderlyColumns) {c first : ColumnRename} (hc : c ∈ r.columnRenames)
    (hfirst : r.deciding? c = some first) : r.TakesEffect c ↔ first.new = c.new := by
  have hword (w : Text) (hw : w.lowercase = c.old.lowercase) (back : Text)
      (hback : back.head?.any isIdentifierCharacter = false) :
      r.columnGlossary.replace (w ++ back) = first.new ++ r.columnGlossary.replace back := by
    obtain ⟨hne, hall⟩ := identifier_of_lowercase (h.names_of_mem hc).1 hw
    rw [h.replace_eq, Text.mapRuns_run hne hall hback, lookup_columns hfirst hw, h.replace_eq]
  constructor
  · intro heffect
    have hwhole := heffect [] c.old [] rfl rfl rfl
    have hnil : r.columnGlossary.replace [] = [] := by rw [h.replace_eq, Text.mapRuns_nil]
    rwa [List.nil_append, hword c.old rfl [] rfl, hnil, List.nil_append, List.append_nil, List.append_nil] at hwhole
  · intro hnew front w back hw hfront hback
    rw [List.append_assoc, h.replace_eq (front ++ _), Text.mapRuns_append hfront, ← h.replace_eq, ← h.replace_eq,
      hword w hw back hback, hnew, List.append_assoc]

/-! ## Conflicts -/

/-- The report of a rename that wants another new name than the one that decides. -/
def report? (r : Renaming) (c : ColumnRename) : Option RenameConflict :=
  (r.deciding? c).bind fun first => if first.new = c.new then .none else some ⟨c, first⟩

theorem report?_of_deciding {c first : ColumnRename} (hfirst : r.deciding? c = some first) :
    r.report? c = if first.new = c.new then .none else some ⟨c, first⟩ := by
  rw [report?, hfirst, Option.bind_some]

theorem rename_of_report {c : ColumnRename} {k : RenameConflict} (h : r.report? c = some k) : k.rename = c := by
  obtain ⟨first, -, hk⟩ := Option.bind_eq_some_iff.1 h
  split at hk
  · cases hk
  · cases hk
    rfl

theorem conflicts_eq (r : Renaming) : r.conflicts = r.columnRenames.filterMap r.report? := by
  refine congrArg (fun f => List.filterMap f r.columnRenames) (funext fun c => ?_)
  have hfind : r.acceptedColumns.find? (fun e => e.old.lowercase == c.old.lowercase) = r.deciding? c :=
    find?_decisive (by simp) _
  rw [conflict?, hfind, report?]
  cases r.deciding? c <;> rfl

/-- The conflicts stand in the order of the renames. -/
theorem rename_conflicts_sublist (r : Renaming) : (r.conflicts.map RenameConflict.rename).Sublist r.columnRenames := by
  rw [conflicts_eq]
  induction r.columnRenames with
  | nil => exact .slnil
  | cons c cs ih =>
    rw [List.filterMap_cons]
    split
    · exact ih.cons c
    · next k hk =>
      rw [List.map_cons, rename_of_report hk]
      exact ih.cons_cons c

/-- The conflicts of a rename are its report. -/
theorem HasOrderlyColumns.filter_conflicts (h : r.HasOrderlyColumns) {c : ColumnRename} (hc : c ∈ r.columnRenames) :
    (r.conflicts.filter fun k => decide (k.rename = c)) = (r.report? c).toList := by
  have hone : (r.columnRenames.filter fun d => decide (d = c)) = [c] := by
    rw [List.filter_eq, h.nodup.count, if_pos hc]
    rfl
  have hsame : (r.conflicts.filter fun k => decide (k.rename = c)) =
      (r.columnRenames.filter fun d => decide (d = c)).filterMap r.report? := by
    rw [conflicts_eq, List.filter_filterMap, List.filterMap_filter]
    refine congrArg (fun f => List.filterMap f r.columnRenames) (funext fun d => ?_)
    cases hreport : r.report? d with
    | none => simp
    | some k => simp [Option.filter, rename_of_report hreport]
  rw [hsame, hone, List.filterMap_cons]
  cases r.report? c <;> rfl

end Renaming

end DialectBridge
