import DialectBridge.Proofs.Rename.Lookup
import DialectBridge.Proofs.Rename.Scripts
import DialectBridge.Proofs.Text.Lowercase
import DialectBridge.Rename.Renaming
import Mathlib.Data.List.Pairwise

/-!
# Renaming and reading

Renaming the tables of a script and reading it then gives what reading it first gives, with all names
renamed (`tables_apply`). The names may hold letters of every script, so that a name is compared with the
words of the script in lower case.
-/

namespace DialectBridge

/-! ## Lower case and ASCII -/

section Letters

variable {q : Char → Bool} {b c d : Char}

/-- A class of characters that does not depend on the case of ASCII letters holds every ASCII character
that equals, up to case, a lower-case form of one of its characters. -/
theorem mem_of_sameLetter_lowercase (hlower : ∀ n < 128, q (Char.ofNat n).toLower = q (Char.ofNat n))
    (hletters : q 'i' = true ∧ q 'k' = true ∧ q 's' = true) (hb : q b = true)
    (hc : c ∈ lowercaseOf b ∨ c = 'σ' ∨ c = 'ς') (hd : d.toNat < 128) (hsame : sameLetter c d = true) : q d = true := by
  have hcase {e : Char} (he : e.toNat < 128) : q e.toLower = q e :=
    forall_ascii (P := fun e => q e.toLower = q e) hlower he
  have hfold : foldCase c = d.toLower := by rw [← foldCase_of_ascii hd]; exact beq_iff_eq.1 hsame
  have hclass {e : Char} (he : q e = true) (h : foldCase c = e) : q d = true := by
    rw [← hcase hd, ← hfold, h, he]
  have hsigma : c ≠ 'σ' ∧ c ≠ 'ς' := by
    have hbeyond := toNat_toLower_lt hd
    rw [← hfold] at hbeyond
    constructor <;> rintro rfl <;> exact absurd hbeyond (by decide +kernel)
  have hc : c ∈ lowercaseOf b := by simpa [hsigma] using hc
  by_cases hascii : b.toNat < 128
  · rw [lowercaseOf, if_pos hascii, List.mem_singleton] at hc
    subst hc
    refine hclass ?_ (foldCase_of_ascii (toNat_toLower_lt hascii))
    rw [hcase (toNat_toLower_lt hascii), hcase hascii, hb]
  · have hletter : (foldCase c).toNat < 128 := hfold ▸ toNat_toLower_lt hd
    rcases foldCase_lowercaseOf (Nat.not_lt.1 hascii) hc hletter with h | h | h
    · exact hclass hletters.1 h
    · exact hclass hletters.2.1 h
    · exact hclass hletters.2.2 h

end Letters

namespace Glossary

variable {pairs : List (Text × Text)}

/-- Words of any script are names in ASCII texts. -/
theorem listsNames_of_isWord (h : ∀ p ∈ pairs, IsWord p.1 ∧ IsWord p.2) :
    (ofPairs pairs).ListsNames fun c => c.toNat < 128 where
  key_ne_nil e he := by
    obtain ⟨p, -, hne, rfl⟩ := mem_ofPairs he
    exact Text.lowercase_ne_nil hne
  key_identifier e he c hc d hd hsame := by
    obtain ⟨p, hp, -, rfl⟩ := mem_ofPairs he
    obtain ⟨b, hb, hc⟩ := Text.mem_lowercaseAfter hc
    exact mem_of_sameLetter_lowercase (by decide +kernel) (by decide +kernel) ((h p hp).1.forall_identifier b hb) hc hd hsame
  key_start e he c hc d hd hsame := by
    obtain ⟨p, hp, -, rfl⟩ := mem_ofPairs he
    obtain ⟨b, t, hbt, -, hletter, -⟩ := (h p hp).1.cases
    obtain ⟨l, hl, heq, hforms⟩ := Text.exists_lowercaseAfter_cons [] b t
    have hc : c ∈ l := by
      have hhead : (p.1.lowercase).head? = some c := hc
      rw [hbt, Text.lowercase, heq, List.head?_append_of_ne_nil l hl] at hhead
      exact List.mem_of_head? hhead
    have hstart := mem_of_sameLetter_lowercase (q := fun c => isAlphabetic c || c == '_') (by decide +kernel)
      (by decide +kernel) hletter (hforms c hc) hd hsame
    rw [startsNoName, hstart, Bool.not_true]
  target e he := by
    obtain ⟨p, hp, -, rfl⟩ := mem_ofPairs he
    exact (h p hp).2

end Glossary

namespace Renaming

open Glossary

/-- Only tables are renamed, in an ASCII script. The new names are new to it, and the readers of scripts look for no
name, old or new. -/
structure SuitsScript (r : Renaming) (script : Text) : Prop where
  ascii : script.IsAscii
  columns : r.columns = []
  names : ∀ p ∈ r.tables, IsWord p.1 ∧ IsWord p.2
  old_free : ∀ p ∈ r.tables, ∀ w ∈ Script.assumedColumn :: reservedWords, p.1.lowercase ≠ w.lower
  new_free : ∀ p ∈ r.tables, ∀ w ∈ reservedWords, p.2.same w = false
  new_distinct : r.tables.Pairwise fun p q => p.2.same q.2 = false
  new_absent : ∀ w ∈ script.runs isIdentifierCharacter, ∀ p ∈ r.tables, w.same p.2 = false

namespace SuitsScript

variable {r : Renaming} {script : Text}

theorem keepsApart (h : r.SuitsScript script) : r.tableGlossary.KeepsApart where
  toListsNames := listsNames_of_isWord h.names
  distinct e he f hf hsame := by
    obtain ⟨p, hp, -, rfl⟩ := mem_ofPairs he
    obtain ⟨p', hp', -, rfl⟩ := mem_ofPairs hf
    refine Decidable.byContradiction fun hne => ?_
    have hsymm : Std.Symm fun p q : Text × Text => p.2.same q.2 = false := ⟨fun p q h => by rwa [Text.same_comm]⟩
    have hdifferent : p.2.same p'.2 = false := by
      refine h.new_distinct.forall hp hp' ?_
      rintro rfl
      exact hne rfl
    rw [hdifferent] at hsame
    cases hsame
  key_free e he w hw := by
    obtain ⟨p, hp, -, rfl⟩ := mem_ofPairs he
    exact h.old_free p hp w (List.mem_cons_of_mem _ hw)
  target_free e he w hw := by
    obtain ⟨p, hp, -, rfl⟩ := mem_ofPairs he
    exact h.new_free p hp w hw

theorem knows (h : r.SuitsScript script) : r.tableGlossary.Knows script := by
  refine ⟨h.ascii, fun w hw e he => ?_⟩
  obtain ⟨p, hp, -, rfl⟩ := mem_ofPairs he
  exact h.new_absent w hw p hp

theorem replace_assumedColumn (h : r.SuitsScript script) :
    r.tableGlossary.replace Script.assumedColumn = Script.assumedColumn := by
  have hword : IsWord Script.assumedColumn := by decide +kernel
  rw [replace_word h.keepsApart.toListsNames hword.ne_nil hword.forall_identifier (show Text.IsAscii _ by decide)]
  rcases rename_cases r.tableGlossary Script.assumedColumn with hkeep | ⟨e, he, hkey, -⟩
  · exact hkeep
  · obtain ⟨p, hp, -, rfl⟩ := mem_ofPairs he
    refine absurd (hkey.trans ?_) (h.old_free p hp _ List.mem_cons_self)
    decide +kernel

end SuitsScript

/-- Reading a script with renamed tables gives the tables of the script with all their names renamed, and with
their types, default values and statements renamed outside literals and comments. -/
theorem tables_apply (r : Renaming) (script : Text) (h : r.SuitsScript script) (route : Route) (dialect : Dialect) :
    Script.tables dialect (r.apply script route).text = (Script.tables dialect script).map r.tableGlossary.renameTable := by
  have hcolumns : r.columnGlossary = ⟨[]⟩ := by
    rw [columnGlossary, acceptedColumns, columnRenames, h.columns]
    rfl
  have htext : (r.apply script route).text = r.tableGlossary.replaceNames script := by
    rw [apply, hcolumns, replaceNames_of_empty]
  rw [htext]
  exact tables_replaceNames h.keepsApart h.replace_assumedColumn h.knows dialect

/-- A renamed table with an index, and a reference to it that is completed with a quoted name. Literals and comments
keep the old name. -/
theorem tables_apply_users :
    (⟨[("users", "people")], []⟩ : Renaming).SuitsScript
        "CREATE TABLE users (\x22users id\x22 INT PRIMARY KEY, note CHAR(5) DEFAULT 'users');
        CREATE TABLE notes (owner /* users */ INT REFERENCES hr.Users);
        CREATE UNIQUE INDEX USERS ON hr.users (note);" ∧
      (Script.tables .postgresql ((⟨[("users", "people")], []⟩ : Renaming).apply
        "CREATE TABLE users (\x22users id\x22 INT PRIMARY KEY, note CHAR(5) DEFAULT 'users');
        CREATE TABLE notes (owner /* users */ INT REFERENCES hr.Users);
        CREATE UNIQUE INDEX USERS ON hr.users (note);" ⟨.oracle, .postgresql⟩).text).map
          (fun t => ((t.name, t.primaryKey, t.indexes), t.columns.map Column.default, t.foreignKeys)) =
        ([(("people", some "people id", ["people"]), [Option.none, some "'users'"], []),
          (("notes", Option.none, []), [Option.none], [⟨"owner", "hr.people", "people id"⟩])] :
          List ((Text × Option Text × List Text) × List (Option Text) × List ForeignKey)) := by
  -- the characters of the script are told once
  set_option maxRecDepth 4000 in
  have hscript : ("CREATE TABLE users (\x22users id\x22 INT PRIMARY KEY, note CHAR(5) DEFAULT 'users');
        CREATE TABLE notes (owner /* users */ INT REFERENCES hr.Users);
        CREATE UNIQUE INDEX USERS ON hr.users (note);" : Text) = _ := String.toList_ofList
  rw [hscript]
  refine (and_iff_left_of_imp fun hsuits => ?_).2
    ⟨by decide +kernel, rfl, by decide +kernel, by decide +kernel, by decide +kernel, by decide +kernel, by decide +kernel⟩
  rw [tables_apply _ _ hsuits]
  decide +kernel

/-- Names in the spelling of another case are not enough to look at. `key` with the Kelvin sign is no keyword, but its
lowercase form is, so `KEY` is replaced and the key is lost. And an index of an undeclared table `B` goes to a table
that is renamed to `b`. -/
theorem tables_apply_lookalikes :
    ((∀ p ∈ [(("\u212Aey" : Text), ("q" : Text))], IsWord p.1 ∧ IsWord p.2 ∧
          (∀ w ∈ Script.assumedColumn :: reservedWords, Text.same p.1 w = false) ∧
          (∀ w ∈ reservedWords, Text.same p.2 w = false) ∧
          ∀ w ∈ Text.runs isIdentifierCharacter "CREATE TABLE t (x INT PRIMARY KEY)", w.same p.2 = false) ∧
        Script.tables .postgresql ((⟨[("\u212Aey", "q")], []⟩ : Renaming).apply "CREATE TABLE t (x INT PRIMARY KEY)"
            ⟨.oracle, .postgresql⟩).text ≠
          (Script.tables .postgresql "CREATE TABLE t (x INT PRIMARY KEY)").map
            (⟨[("\u212Aey", "q")], []⟩ : Renaming).tableGlossary.renameTable) ∧
      (∀ p ∈ [(("a" : Text), ("b" : Text))], IsWord p.1 ∧ IsWord p.2 ∧
          (∀ w ∈ Script.assumedColumn :: reservedWords, Text.same p.1 w = false) ∧
          (∀ w ∈ reservedWords, Text.same p.2 w = false) ∧
          ∀ w ∈ Text.runs isIdentifierCharacter "CREATE TABLE a (x INT); CREATE INDEX i ON B (x)", w ≠ p.2) ∧
        Script.tables .postgresql ((⟨[("a", "b")], []⟩ : Renaming).apply
            "CREATE TABLE a (x INT); CREATE INDEX i ON B (x)" ⟨.oracle, .postgresql⟩).text ≠
          (Script.tables .postgresql "CREATE TABLE a (x INT); CREATE INDEX i ON B (x)").map
            (⟨[("a", "b")], []⟩ : Renaming).tableGlossary.renameTable := by
  decide +kernel

end Renaming

end DialectBridge
