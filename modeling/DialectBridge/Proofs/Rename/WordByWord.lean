import DialectBridge.Proofs.Rename.Lookup
import DialectBridge.Proofs.Rename.Segments
import DialectBridge.Rename.Renaming

/-!
# Renaming word by word

Where all names are ASCII identifiers, renaming is a lookup for each word: in two passes, tables first,
every run of identifier characters in code and in quoted names is looked up among the old names, and
nothing else changes, the cut into segments included (`apply_word_by_word`).
-/

namespace DialectBridge

namespace Text

variable {p : Char → Bool} {f : Text → Text}

/-- The text with `f` applied to each maximal run of characters of the class `p`. -/
def mapRuns (p : Char → Bool) (f : Text → Text) : Text → Text
  | [] => []
  | c :: t =>
    if p c then f (c :: t.takeWhile p) ++ mapRuns p f (t.dropWhile p) else c :: mapRuns p f t
termination_by t => t.length
decreasing_by
  · exact Nat.lt_succ_of_le (List.dropWhile_suffix p).length_le
  · exact Nat.lt_succ_self _

theorem mapRuns_nil : mapRuns p f [] = [] := by
  rw [mapRuns]

theorem mapRuns_other {c : Char} (hc : p c = false) (t : Text) : mapRuns p f (c :: t) = c :: mapRuns p f t := by
  rw [mapRuns, if_neg (by simp [hc])]

theorem mapRuns_run {r t : Text} (hne : r ≠ []) (hr : ∀ c ∈ r, p c = true) (hstop : t.head?.any p = false) :
    mapRuns p f (r ++ t) = f r ++ mapRuns p f t := by
  obtain ⟨c, r, rfl⟩ := List.exists_cons_of_ne_nil hne
  obtain ⟨hc, hr⟩ := List.forall_mem_cons.1 hr
  rw [List.cons_append, mapRuns, if_pos hc, takeWhile_run hr hstop, dropWhile_run hr hstop]

end Text

namespace Glossary

variable {pairs : List (Text × Text)}

/-- Names in a text are replaced run by run. -/
theorem replace_eq_mapRuns {g : Glossary} {p : Char → Prop} (hg : g.ListsNames p) {t : Text} (ht : t.Over p) :
    g.replace t = t.mapRuns isIdentifierCharacter g.rename := by
  induction t using Text.run_induction isIdentifierCharacter with
  | nil => rw [replace_nil hg, Text.mapRuns_nil]
  | other c t hc ih => rw [replace_other hg ht hc, Text.mapRuns_other hc, ih (List.forall_mem_cons.1 ht).2]
  | run r t hne hr hstop ih =>
    rw [replace_run hg hne hr ht hstop, Text.mapRuns_run hne hr hstop, ih (Text.Over.append_iff.1 ht).2]

/-- The segment with each of its words looked up, if it is code or a quoted name. -/
def lookupSegment (pairs : List (Text × Text)) (s : Segment) : Segment :=
  match s.kind with
  | .code | .quoted => { s with text := s.text.mapRuns isIdentifierCharacter (lookup pairs) }
  | .literal | .comment => s

/-- The script with each word of its code and its quoted names looked up. -/
def lookupNames (pairs : List (Text × Text)) (script : Text) : Text :=
  Segment.textOf ((segments script).map (lookupSegment pairs))

theorem renameSegment_ofPairs (h : ∀ p ∈ pairs, IsAsciiName p.1 ∧ IsAsciiName p.2) (s : Segment) :
    (ofPairs pairs).renameSegment s = lookupSegment pairs s := by
  have hreplace : (ofPairs pairs).replace s.text = s.text.mapRuns isIdentifierCharacter (lookup pairs) := by
    rw [replace_eq_mapRuns (listsNames_ofPairs h) fun _ _ => trivial, funext (rename_ofPairs h)]
  obtain ⟨kind, text⟩ := s
  cases kind with
  | code | quoted =>
    show Segment.mk _ ((ofPairs pairs).replace text) = Segment.mk _ (text.mapRuns _ _)
    rw [hreplace]
  | literal | comment => rfl

/-- A pass over a script looks its words up. -/
theorem replaceNames_ofPairs (h : ∀ p ∈ pairs, IsAsciiName p.1 ∧ IsAsciiName p.2) (script : Text) :
    (ofPairs pairs).replaceNames script = lookupNames pairs script := by
  rw [replaceNames_eq_textOf, funext (renameSegment_ofPairs h), lookupNames]

/-- A pass over a script keeps it cut into segments as it was. -/
theorem segments_lookupNames (h : ∀ p ∈ pairs, IsAsciiName p.1 ∧ IsAsciiName p.2) (script : Text) :
    segments (lookupNames pairs script) = (segments script).map (lookupSegment pairs) := by
  rw [← replaceNames_ofPairs h, segments_replaceNames (listsNames_ofPairs h) fun _ _ => trivial,
    funext (renameSegment_ofPairs h)]

end Glossary

namespace Renaming

open Glossary

/-- The old and the new name of a column. -/
def names (c : ColumnRename) : Text × Text :=
  (c.old, c.new)

/-- All old and new names are ASCII identifiers. -/
structure HasAsciiNames (r : Renaming) : Prop where
  tables : ∀ p ∈ r.tables, IsAsciiName p.1 ∧ IsAsciiName p.2
  columns : ∀ entry ∈ r.columns, ∀ p ∈ entry.2, IsAsciiName p.1 ∧ IsAsciiName p.2

instance (r : Renaming) : Decidable r.HasAsciiNames :=
  decidable_of_iff ((∀ p ∈ r.tables, IsAsciiName p.1 ∧ IsAsciiName p.2) ∧
    ∀ entry ∈ r.columns, ∀ p ∈ entry.2, IsAsciiName p.1 ∧ IsAsciiName p.2)
    ⟨fun h => ⟨h.1, h.2⟩, fun h => ⟨h.tables, h.columns⟩⟩

theorem decisive_sublist (earlier cs : List ColumnRename) : (decisive earlier cs).Sublist cs := by
  induction cs generalizing earlier with
  | nil => exact List.Sublist.refl []
  | cons c cs ih =>
    rw [decisive]
    split
    · exact (ih earlier).cons c
    · exact (ih _).cons_cons c

theorem HasAsciiNames.accepted {r : Renaming} (h : r.HasAsciiNames) :
    ∀ p ∈ r.acceptedColumns.map names, IsAsciiName p.1 ∧ IsAsciiName p.2 := by
  intro p hp
  obtain ⟨c, hc, rfl⟩ := List.mem_map.1 hp
  obtain ⟨entry, hentry, hmem⟩ := List.mem_flatMap.1 ((decisive_sublist [] _).subset hc)
  obtain ⟨q, hq, rfl⟩ := List.mem_map.1 hmem
  exact h.columns entry hentry q (List.mem_filter.1 hq).1

/-- Of the renames for one column name the first one decides. -/
theorem find?_decisive {earlier : List ColumnRename} {w : Text}
    (hearlier : ∀ e ∈ earlier, e.old.lowercase ≠ w) (cs : List ColumnRename) :
    (decisive earlier cs).find? (fun c => c.old.lowercase == w) = cs.find? fun c => c.old.lowercase == w := by
  induction cs generalizing earlier with
  | nil => rfl
  | cons c cs ih =>
    rw [decisive, List.find?_cons]
    by_cases hw : c.old.lowercase = w
    · have hnew : (earlier.any fun e => e.old.lowercase == c.old.lowercase) = false := by
        simpa [hw] using hearlier
      rw [hnew, beq_iff_eq.2 hw]
      simp [hw]
    · rw [beq_eq_false_iff_ne.2 hw]
      split
      · exact ih hearlier
      · rw [List.find?_cons, beq_eq_false_iff_ne.2 hw]
        refine ih fun e he => ?_
        rcases List.mem_append.1 he with he | he
        · exact hearlier e he
        · rwa [List.mem_singleton.1 he]

theorem lookup_accepted (r : Renaming) :
    lookup (r.acceptedColumns.map names) = lookup (r.columnRenames.map names) := by
  funext w
  have hfind (cs : List ColumnRename) : (cs.map names).find? (fun p => p.1.lowercase == w.lowercase) =
      (cs.find? fun c => c.old.lowercase == w.lowercase).map names := List.find?_map ..
  rw [lookup, lookup, hfind, hfind, acceptedColumns, find?_decisive (by simp)]

/-- Renaming looks up each word of the code and of the quoted names of a script, first among the tables
and then among the accepted columns, where the first pair for a name counts. Each pass keeps the script
cut into segments as it was. -/
theorem apply_word_by_word (r : Renaming) (h : r.HasAsciiNames) (script : Text) (route : Route) :
    (r.apply script route).text =
        lookupNames (r.acceptedColumns.map names) (lookupNames r.tables script) ∧
      (∀ s, segments (lookupNames r.tables s) = (segments s).map (lookupSegment r.tables)) ∧
      (∀ s, segments (lookupNames (r.acceptedColumns.map names) s) =
        (segments s).map (lookupSegment (r.acceptedColumns.map names))) ∧
      lookup (r.acceptedColumns.map names) = lookup (r.columnRenames.map names) := by
  refine ⟨?_, segments_lookupNames h.tables, segments_lookupNames h.accepted, lookup_accepted r⟩
  rw [apply, tableGlossary, columnGlossary, replaceNames_ofPairs h.tables]
  exact replaceNames_ofPairs h.accepted _

/-- A table and a column that share the old name `users`, next to words that only contain it. -/
theorem apply_word_by_word_users :
    (⟨[("users", "people")], [("users", [("Users", "owner"), ("id", "people")])]⟩ : Renaming).HasAsciiNames ∧
      ((⟨[("users", "people")], [("users", [("Users", "owner"), ("id", "people")])]⟩ : Renaming).apply
        "SELECT id, \"USERS\".users_id FROM uſers -- users" ⟨.oracle, .postgresql⟩).text =
        "SELECT people, \"people\".users_id FROM uſers -- users" := by
  have hnames : (⟨[("users", "people")], [("users", [("Users", "owner"), ("id", "people")])]⟩ :
      Renaming).HasAsciiNames := by decide
  refine ⟨hnames, ?_⟩
  rw [(apply_word_by_word _ hnames _ _).1]
  decide +kernel

end Renaming

end DialectBridge
