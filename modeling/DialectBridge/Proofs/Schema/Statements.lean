import DialectBridge.Proofs.Lexical.Break
import DialectBridge.Proofs.Reading.Stop
import DialectBridge.Schema.Script

/-!
# One statement after another

Reading a script jumps: behind a statement that could be read, or back behind its `CREATE`. It never
jumps over the semicolon behind a part of the script whose groups are closed
(`exists_map_declares_findings`). So two scripts with a semicolon between them declare the tables and
indexes of the first one and then those of the second one (`declarations_joined`), and the tables
differ at most in what is completed from all tables of a script (`tables_joined`).
-/

namespace DialectBridge

namespace Fragment

/-- What a fragment of these tokens declares, wherever it stands. -/
def declarationOf? (ts : List Token) : Option Declaration :=
  (read ⟨ts, []⟩).declaration?

theorem declarations_map_read (parts : List Reader.Part) :
    (parts.map read).filterMap declaration? = (parts.map Reader.Part.tokens).filterMap declarationOf? := by
  rw [List.filterMap_map, List.filterMap_map]
  rfl

end Fragment

/-! ## Statements in front of a stop -/

namespace Finding

open Reader Token

variable {front : List Token}

/-- What a finding adds to the script: a table, or an index with the name of its table. -/
def declares (f : Finding) : Option Table × Option (Text × Text) :=
  (Script.table? f, Script.index? f)

theorem confined_existenceGuard (front : List Token) : Confined id (fun _ => existenceGuard) front :=
  (confined_eatKeyword .if front).bind_same fun guarded after _ => by
    cases guarded with
    | false => exact .pure () fun _ _ => rfl
    | true =>
      exact (confined_expectKeyword .not after).bind_same fun _ after _ =>
        confined_expectKeyword .exists after

theorem confined_orReplace (front : List Token) : Confined id (fun _ => orReplace) front :=
  (confined_eatKeyword .or front).bind_same fun replacing after _ => by
    cases replacing with
    | false => exact .pure () fun _ _ => rfl
    | true => exact confined_expectKeyword .replace after

/-- The stop is no `BITMAP`, so that the token that is passed stands before it. -/
theorem confined_bitmap (front : List Token) : Confined id (fun _ => bitmap) front := by
  cases front with
  | nil =>
    refine .ok (fun _ => ()) () (List.suffix_refl _) fun tail htail => ⟨?_, rfl⟩
    rw [bitmap, bind_ok (a := atWord "BITMAP" tail) rfl, atWord_stop htail]
    rfl
  | cons t front =>
    cases ht : t.isWord "BITMAP" with
    | false =>
      refine .ok (fun _ => ()) () (List.suffix_refl _) fun tail _ => ⟨?_, rfl⟩
      rw [bitmap, bind_ok (a := false) (by rw [← ht]; rfl)]
      rfl
    | true =>
      refine .ok (fun _ => ()) () (List.suffix_cons t front) fun tail _ => ⟨?_, rfl⟩
      rw [bitmap, bind_ok (a := true) (by rw [← ht]; rfl)]
      rfl

theorem confined_readTable (dialect : Dialect) (create : Token) (whole : List Token)
    (hclose : GroupsClose front) :
    Confined declares (fun tail => readTable dialect create (whole ++ tail)) front := by
  refine (confined_existenceGuard front).bind_same fun _ after₁ h₁ =>
    (confined_name "table name" after₁).bind_same fun name after₂ h₂ =>
      (confined_splitGroup (hclose.suffix (h₂.trans h₁))).bind fun parts tokens after₃ h₃ hparts => ?_
  have hstatement : Confined id
      (fun tail => look fun rest => verbatim (create :: taken (whole ++ tail) rest)) after₃ := by
    refine .ok (fun _ => verbatim (create :: taken whole after₃)) _ (List.suffix_refl _) fun tail _ =>
      ⟨?_, rfl⟩
    rw [look, taken_append_append]
  refine hstatement.bind fun statement text after₄ h₄ htext => .pure
    (some (.ofDeclarations name text dialect (tokens.filterMap Fragment.declarationOf?)), none)
    fun tail htail => ?_
  show (some (Table.ofDeclarations name (statement tail) dialect
    (((parts tail).map Fragment.read).filterMap Fragment.declaration?)), none) = _
  rw [Fragment.declarations_map_read, hparts tail htail, show statement tail = text from htext tail htail]

theorem confined_readIndex (hclose : GroupsClose front) :
    Confined declares (fun _ => readIndex) front :=
  (confined_existenceGuard front).bind_same fun _ after₁ h₁ =>
    (confined_name "index name" after₁).bind_same fun name after₂ h₂ =>
      (confined_expectKeyword .on after₂).bind_same fun _ after₃ h₃ =>
        (confined_name "table name" after₃).bind_same fun table _ h₄ =>
          (confined_skipGroup (hclose.suffix (h₄.trans (h₃.trans (h₂.trans h₁))))).bind_same fun _ _ _ =>
            .pure (none, some (name, table)) fun _ _ => rfl

/-- What stands behind the stop changes neither where a statement ends nor what it declares. -/
theorem confined_afterCreate (dialect : Dialect) (create : Token) (whole : List Token)
    (hclose : GroupsClose front) :
    Confined declares (fun tail => afterCreate dialect create (whole ++ tail)) front :=
  (confined_orReplace front).bind_same fun _ after₁ h₁ =>
    (confined_eatKeyword .global after₁).bind_same fun _ after₂ h₂ =>
      (confined_eatKeyword .temporary after₂).bind_same fun _ after₃ h₃ =>
        (confined_eatKeyword .table after₃).bind_same fun table after₄ h₄ => by
          have hclose := hclose.suffix (h₄.trans (h₃.trans (h₂.trans h₁)))
          cases table with
          | true => exact confined_readTable dialect create whole hclose
          | false =>
            exact (confined_eatKeyword .unique after₄).bind_same fun _ after₅ h₅ =>
              (confined_bitmap after₅).bind_same fun _ after₆ h₆ =>
                (confined_eatKeyword .index after₆).bind_same fun index after₇ h₇ => by
                  cases index with
                  | true => exact confined_readIndex (hclose.suffix (h₇.trans (h₆.trans h₅)))
                  | false => exact .pure (none, none) fun _ _ => rfl

end Finding

/-! ## The statements of a script -/

namespace Script

open Token Reader

variable {dialect : Dialect}

theorem findings_other {t : Token} {rest : List Token} (heof : t.kind ≠ .eof)
    (hcreate : t.kind ≠ .keyword .create) : findings dialect (t :: rest) = findings dialect rest := by
  rw [findings, if_neg (by simpa [isEof] using heof), if_neg (by simpa [isKeyword] using hcreate)]

theorem findings_ok {t : Token} {rest next : List Token} {f : Finding} (hcreate : t.kind = .keyword .create)
    (h : Finding.afterCreate dialect t rest rest = .ok (f, next)) :
    findings dialect (t :: rest) = f :: findings dialect next := by
  rw [findings, if_neg (by simp [isEof, hcreate]), if_pos (by simp [isKeyword, hcreate])]
  split
  · next hstep => cases h.symm.trans hstep; rfl
  · next hstep => cases h.symm.trans hstep

theorem findings_error {t : Token} {rest : List Token} {e : ReadError} (hcreate : t.kind = .keyword .create)
    (h : Finding.afterCreate dialect t rest rest = .error e) :
    findings dialect (t :: rest) = .unreadable e :: findings dialect rest := by
  rw [findings, if_neg (by simp [isEof, hcreate]), if_pos (by simp [isKeyword, hcreate])]
  split
  · next hstep => cases h.symm.trans hstep
  · next hstep => cases h.symm.trans hstep; rfl

/-- The gap in front of a script plays no role. -/
theorem findings_withGap (g : List Trivia) (ts : List Token) :
    findings dialect (withGap g ts) = findings dialect ts := by
  cases ts with
  | nil => rfl
  | cons t rest =>
    let u : Token := { t with gap := g }
    show findings dialect (u :: rest) = _
    have hu : u.kind = t.kind := rfl
    by_cases hcreate : t.kind = .keyword .create
    · have hgap : Finding.afterCreate dialect u rest rest = Finding.afterCreate dialect t rest rest := rfl
      rcases hstep : Finding.afterCreate dialect t rest rest with e | ⟨f, next⟩
      · rw [findings_error (hu.trans hcreate) (hgap.trans hstep), findings_error hcreate hstep]
      · rw [findings_ok (hu.trans hcreate) (hgap.trans hstep), findings_ok hcreate hstep]
    · by_cases heof : t.kind = .eof
      · rw [findings, findings, if_pos (by simp [isEof, hu, heof]), if_pos (by simp [isEof, heof])]
      · rw [findings_other (hu ▸ heof) (hu ▸ hcreate), findings_other heof hcreate]

/-- What the tokens `front` declare is the same in front of every stop, and what stands behind the stop
follows. -/
theorem exists_map_declares_findings (dialect : Dialect) {front : List Token} (hclose : GroupsClose front)
    (heof : ∀ t ∈ front, t.kind ≠ .eof) :
    ∃ ds, ∀ tail, IsStop tail → (findings dialect (front ++ tail)).map Finding.declares =
      ds ++ (findings dialect tail).map Finding.declares := by
  induction hlen : front.length using Nat.strongRecOn generalizing front with
  | ind n ih =>
    cases front with
    | nil => exact ⟨[], fun tail _ => rfl⟩
    | cons t front =>
      rw [List.length_cons] at hlen
      -- what the rest of the script declares from a place behind `t` on
      have hafter {after : List Token} (h : after <:+ front) : ∃ ds, ∀ tail, IsStop tail →
          (findings dialect (after ++ tail)).map Finding.declares =
            ds ++ (findings dialect tail).map Finding.declares := by
        have hlt : after.length < n := by have := h.length_le; omega
        have hsuffix := h.trans (List.suffix_cons t front)
        exact ih _ hlt (hclose.suffix hsuffix) (fun u hu => heof u (hsuffix.subset hu)) rfl
      by_cases hcreate : t.kind = .keyword .create
      · rcases Finding.confined_afterCreate dialect t front
            (hclose.suffix (List.suffix_cons t front)) with ⟨f, d, after, hsuffix, hok⟩ | herror
        · obtain ⟨ds, hds⟩ := hafter hsuffix
          refine ⟨d :: ds, fun tail htail => ?_⟩
          obtain ⟨hstep, hd⟩ := hok tail htail
          rw [List.cons_append, findings_ok hcreate hstep, List.map_cons, hd, hds tail htail, List.cons_append]
        · obtain ⟨ds, hds⟩ := hafter (List.suffix_refl front)
          refine ⟨(none, none) :: ds, fun tail htail => ?_⟩
          obtain ⟨e, he⟩ := herror tail htail
          rw [List.cons_append, findings_error hcreate he, List.map_cons, hds tail htail, List.cons_append]
          rfl
      · obtain ⟨ds, hds⟩ := hafter (List.suffix_refl front)
        refine ⟨ds, fun tail htail => ?_⟩
        rw [List.cons_append, findings_other (heof t List.mem_cons_self) hcreate, hds tail htail]

/-! ## Scripts with a semicolon between them -/

/-- The tables as their statements declare them, before anything is completed from other statements. -/
def declared (dialect : Dialect) (script : Text) : List Table :=
  (findings dialect (scan script)).filterMap table?

/-- Two scripts with a semicolon on a line of its own between them. -/
def joined (first second : Text) : Text :=
  first ++ '\n' :: ';' :: '\n' :: second

/-- The indexes of a script, each with the name of its table. -/
def declaredIndexes (dialect : Dialect) (script : Text) : List (Text × Text) :=
  (findings dialect (scan script)).filterMap index?

theorem map_declares_joined {first : Text} (hclosed : Scan.IsClosed first)
    (hgroups : GroupsClose (scan first)) (dialect : Dialect) (second : Text) :
    (findings dialect (scan (joined first second))).map Finding.declares =
      (findings dialect (scan first)).map Finding.declares ++
        (findings dialect (scan second)).map Finding.declares := by
  obtain ⟨us, g, h, hscan, heof, hjoined⟩ :=
    exists_scan_append_newline hclosed (';' :: '\n' :: second)
  have hsemicolon : scan (';' :: '\n' :: second) = ⟨[], .semicolon, [';']⟩ :: scan ('\n' :: second) :=
    scan_of_gap_cons (Scan.gap_of_none rfl)
  obtain ⟨g', hsecond⟩ := exists_scan_withGap (t := '\n' :: second)
    (Scan.gap_blank_append (b := ['\n']) (List.all_eq_true.1 (by decide)) second)
  rw [hscan] at hgroups
  obtain ⟨ds, hds⟩ := exists_map_declares_findings dialect (groupsClose_of_eof rfl hgroups) heof
  have hfirst : (findings dialect (scan first)).map Finding.declares = ds := by
    have hend : findings dialect [⟨g, .eof, []⟩] = [] := by
      rw [findings]
      exact if_pos rfl
    rw [hscan, hds _ ⟨_, _, rfl, .inl rfl⟩, hend, List.map_nil, List.append_nil]
  have hstop : IsStop (withGap h (⟨[], .semicolon, [';']⟩ :: scan ('\n' :: second))) :=
    ⟨⟨h, .semicolon, [';']⟩, _, rfl, .inr rfl⟩
  rw [joined, hjoined, hsemicolon, hds _ hstop, hfirst, findings_withGap,
    findings_other (by simp) (by simp), hsecond, findings_withGap]

/-- Two scripts with a semicolon between them declare what the first one declares and then what the
second one declares. -/
theorem declarations_joined {first : Text} (hclosed : Scan.IsClosed first)
    (hgroups : GroupsClose (scan first)) (dialect : Dialect) (second : Text) :
    declared dialect (joined first second) = declared dialect first ++ declared dialect second ∧
      declaredIndexes dialect (joined first second) =
        declaredIndexes dialect first ++ declaredIndexes dialect second := by
  have hboth := map_declares_joined hclosed hgroups dialect second
  have htables := congrArg (List.filterMap Prod.fst) hboth
  have hindexes := congrArg (List.filterMap Prod.snd) hboth
  simp only [List.filterMap_append, List.filterMap_map] at htables hindexes
  exact ⟨htables, hindexes⟩

/-! ## What is completed from all tables of a script -/

/-- The table with the indexes that were given to it and with complete references comes from the table
`d` of a statement. -/
structure Completes (d t : Table) : Prop where
  name : t.name = d.name
  columns : t.columns = d.columns
  primaryKey : t.primaryKey = d.primaryKey
  statement : t.statement = d.statement
  dialect : t.dialect = d.dialect
  length : t.foreignKeys.length = d.foreignKeys.length
  /-- A reference that names a column is complete. -/
  key : ∀ (j : Nat) k, d.foreignKeys[j]? = some k → k.referencedColumn ≠ [] → t.foreignKeys[j]? = some k

/-- The table without its indexes. -/
def withoutIndexes (t : Table) : Table :=
  { t with indexes := [] }

theorem map_giveIndex (ts : List Table) (index : Text × Text) :
    (giveIndex ts index).map withoutIndexes = ts.map withoutIndexes := by
  unfold giveIndex
  induction ts with
  | nil => rfl
  | cons t ts ih =>
    rw [Table.modifyFirst]
    split
    · rfl
    · rw [List.map_cons, ih, List.map_cons]

theorem map_foldl_giveIndex (indexes : List (Text × Text)) (ts : List Table) :
    (indexes.foldl giveIndex ts).map withoutIndexes = ts.map withoutIndexes := by
  induction indexes generalizing ts with
  | nil => rfl
  | cons index indexes ih => rw [List.foldl_cons, ih, map_giveIndex]

theorem completeKey_of_named {k : ForeignKey} (h : k.referencedColumn ≠ []) (ts : List Table) :
    completeKey ts k = k := by
  rw [completeKey, if_neg (by simpa using h)]

/-- The tables with their indexes, before the references are completed. -/
def indexed (dialect : Dialect) (script : Text) : List Table :=
  (declaredIndexes dialect script).foldl giveIndex (declared dialect script)

theorem tables_eq (dialect : Dialect) (script : Text) :
    tables dialect script = completeReferences (indexed dialect script) := rfl

theorem map_indexed (dialect : Dialect) (script : Text) :
    (indexed dialect script).map withoutIndexes = (declared dialect script).map withoutIndexes :=
  map_foldl_giveIndex _ _

theorem length_tables (dialect : Dialect) (script : Text) :
    (tables dialect script).length = (declared dialect script).length := by
  have hlen := congrArg List.length (map_indexed dialect script)
  simpa [tables_eq, completeReferences] using hlen

/-- Each table of a script comes from the statement at its place. -/
theorem exists_completes {dialect : Dialect} {script : Text} {i : Nat} {t : Table}
    (h : (tables dialect script)[i]? = some t) :
    ∃ d, (declared dialect script)[i]? = some d ∧ Completes d t := by
  rw [tables_eq, completeReferences, List.getElem?_map, Option.map_eq_some_iff] at h
  obtain ⟨u, hu, rfl⟩ := h
  have hat := congrArg (fun ts => ts[i]?) (map_indexed dialect script)
  simp only [List.getElem?_map, hu, Option.map_some] at hat
  obtain ⟨d, hd, hclear⟩ := Option.map_eq_some_iff.1 hat.symm
  have hkeys : u.foreignKeys = d.foreignKeys := (congrArg Table.foreignKeys hclear).symm
  refine ⟨d, hd, (congrArg Table.name hclear).symm, (congrArg Table.columns hclear).symm,
    (congrArg Table.primaryKey hclear).symm, (congrArg Table.statement hclear).symm,
    (congrArg Table.dialect hclear).symm, by simp [hkeys], fun j k hk hnamed => ?_⟩
  simp [hkeys, hk, completeKey_of_named hnamed]

/-- The tables agree in all that does not depend on other statements; `d` is the table of the statement
from which both come. -/
structure AgreeOn (d t u : Table) : Prop where
  name : t.name = u.name
  columns : t.columns = u.columns
  primaryKey : t.primaryKey = u.primaryKey
  statement : t.statement = u.statement
  dialect : t.dialect = u.dialect
  length : t.foreignKeys.length = u.foreignKeys.length
  /-- A reference whose clause names a column, by a name that is not empty. -/
  key : ∀ (j : Nat) k, d.foreignKeys[j]? = some k → k.referencedColumn ≠ [] →
    t.foreignKeys[j]? = some k ∧ u.foreignKeys[j]? = some k

theorem Completes.agreeOn {d t u : Table} (ht : Completes d t) (hu : Completes d u) : AgreeOn d t u :=
  ⟨ht.name.trans hu.name.symm, ht.columns.trans hu.columns.symm, ht.primaryKey.trans hu.primaryKey.symm,
    ht.statement.trans hu.statement.symm, ht.dialect.trans hu.dialect.symm, ht.length.trans hu.length.symm,
    fun j k hk hnamed => ⟨ht.key j k hk hnamed, hu.key j k hk hnamed⟩⟩

theorem exists_completes_append {dialect : Dialect} {first second : Text} {i : Nat} {t : Table}
    (h : (tables dialect first ++ tables dialect second)[i]? = some t) :
    ∃ d, (declared dialect first ++ declared dialect second)[i]? = some d ∧ Completes d t := by
  rw [List.getElem?_append, length_tables] at h
  rw [List.getElem?_append]
  split
  · next hi => exact exists_completes (by rwa [if_pos hi] at h)
  · next hi => exact exists_completes (by rwa [if_neg hi] at h)

/-- Statements are read independently: with a semicolon between them, two scripts declare what the first
one declares and then what the second one declares, if in the first one every quotation, comment and
group is closed. Only the indexes of a table and its references without a named column depend on both
scripts. -/
theorem tables_joined {first : Text} (hclosed : Scan.IsClosed first)
    (hgroups : GroupsClose (scan first)) (dialect : Dialect) (second : Text) :
    declared dialect (joined first second) = declared dialect first ++ declared dialect second ∧
      (tables dialect (joined first second)).length =
        (tables dialect first ++ tables dialect second).length ∧
      ∀ (i : Nat) t u, (tables dialect (joined first second))[i]? = some t →
        (tables dialect first ++ tables dialect second)[i]? = some u →
        ∃ d, (declared dialect (joined first second))[i]? = some d ∧ AgreeOn d t u := by
  have hdeclared := (declarations_joined hclosed hgroups dialect second).1
  refine ⟨hdeclared, ?_, fun i t u ht hu => ?_⟩
  · rw [length_tables, hdeclared, List.length_append, List.length_append, length_tables, length_tables]
  · obtain ⟨d, hd, htable⟩ := exists_completes ht
    obtain ⟨e, he, hother⟩ := exists_completes_append hu
    obtain rfl : d = e := by
      rw [hdeclared, he] at hd
      exact (Option.some.inj hd).symm
    exact ⟨d, hd, htable.agreeOn hother⟩

/-- A `CREATE` that cannot be read does not hide the table behind it. -/
theorem tables_joined_nameless :
    Scan.IsClosed "CREATE TABLE (x INT)" ∧ GroupsClose (scan "CREATE TABLE (x INT)") ∧
      declared .oracle (joined "CREATE TABLE (x INT)" "CREATE TABLE t (id INT)") =
        [] ++ declared .oracle "CREATE TABLE t (id INT)" := by
  have hclosed : Scan.IsClosed "CREATE TABLE (x INT)" := by
    refine ⟨fun u hu cause => ?_, by decide +kernel⟩
    revert u
    cases cause <;> decide +kernel
  have hgroups : GroupsClose (scan "CREATE TABLE (x INT)") := by decide +kernel
  have hnone : declared .oracle "CREATE TABLE (x INT)" = [] := by decide +kernel
  have hjoined := (tables_joined hclosed hgroups .oracle "CREATE TABLE t (id INT)").1
  rw [hnone] at hjoined
  exact ⟨hclosed, hgroups, hjoined⟩

/-- A reference that names the empty column counts as one that names none, so its column comes from a
table of the second script. -/
theorem tables_joined_empty_name :
    Scan.IsClosed "CREATE TABLE a (x INT REFERENCES b (\x22\x22))" ∧
      GroupsClose (scan "CREATE TABLE a (x INT REFERENCES b (\x22\x22))") ∧
      (tables .postgresql (joined "CREATE TABLE a (x INT REFERENCES b (\x22\x22))"
        "CREATE TABLE b (k INT PRIMARY KEY)")).flatMap Table.foreignKeys = [⟨"x", "b", "k"⟩] ∧
      (tables .postgresql "CREATE TABLE a (x INT REFERENCES b (\x22\x22))" ++
        tables .postgresql "CREATE TABLE b (k INT PRIMARY KEY)").flatMap Table.foreignKeys =
          [⟨"x", "b", "id"⟩] := by
  refine ⟨⟨fun u hu cause => ?_, by decide +kernel⟩, by decide +kernel, by decide +kernel, by decide +kernel⟩
  revert u
  cases cause <;> decide +kernel

end Script

end DialectBridge
