import DialectBridge.Proofs.Spacing.Columns

/-!
# Scripts behind other gaps

Statements read alike behind other gaps (`Respacing.afterCreate`), so the tokens of a script declare
tables that are the same but for what is kept as written, with the same indexes and references
(`Respacing.tablesOf`). It is only within the parts of a group that no gap may come or go.
-/

namespace DialectBridge

open Token Reader

variable {R : List Token → List Token → Prop} {V : Text → Text → Prop}

/-- The findings are the same but for what is kept as written and for the places of errors. -/
inductive Finding.ReadsAlike (V : Text → Text → Prop) : Finding → Finding → Prop where
  | table {t u : Table} (table : t.ReadsAlike V u) (fs gs : List Fragment) : ReadsAlike V (.table t fs) (.table u gs)
  | index (name table : Text) : ReadsAlike V (.index name table) (.index name table)
  | other : ReadsAlike V .other .other
  | unreadable (e f : ReadError) : ReadsAlike V (.unreadable e) (.unreadable f)

namespace Respacing

variable (hR : Respacing R V)
include hR

open Finding

/-! ## Words between the names -/

theorem inStep_existenceGuard : InStep R Eq R existenceGuard existenceGuard := by
  refine (hR.inStep_eatKeyword .if).bind fun guarded guarded' hguarded => ?_
  obtain rfl := hguarded
  cases guarded with
  | false => exact .pure rfl
  | true => exact (hR.inStep_expectKeyword .not).bind fun _ _ _ => hR.inStep_expectKeyword .exists

theorem inStep_orReplace : InStep R Eq R orReplace orReplace := by
  refine (hR.inStep_eatKeyword .or).bind fun replacing replacing' hreplacing => ?_
  obtain rfl := hreplacing
  cases replacing with
  | false => exact .pure rfl
  | true => exact hR.inStep_expectKeyword .replace

theorem inStep_bitmap : InStep R Eq R bitmap bitmap := by
  refine .look_bind (fun _ _ h => hR.atWord h _) fun found => InStep.start (P := R) ?_ fun _ _ h => h.1
  cases found with
  | false => exact .pure rfl
  | true => exact hR.inStep_skip

/-! ## Statements -/

theorem inStep_readIndex : InStep R (Finding.ReadsAlike V) R readIndex readIndex := by
  refine hR.inStep_existenceGuard.bind fun _ _ _ => (hR.inStep_name _).bind fun name name' hname =>
    (hR.inStep_expectKeyword .on).bind fun _ _ _ => (hR.inStep_name _).bind fun table table' htable =>
      hR.inStep_skipGroup.bind fun _ _ _ => .pure ?_
  obtain rfl := hname
  obtain rfl := htable
  exact .index name table

end Respacing

/-- The groups of the script and of other tokens have parts that are related by `P`. -/
def SplitsInto (script : Text) (R P : List Token → List Token → Prop) : Prop :=
  InStep (Along (· <:+ scan script) R)
    (fun ps qs => List.Forall₂ P (ps.map Part.tokens) (qs.map Part.tokens)) R splitGroup splitGroup

theorem Respacing.splitsInto (hR : Respacing R V) (script : Text) : SplitsInto script R R :=
  hR.inStep_splitGroup.start fun _ _ h => h.1

namespace Respacing

open Finding

variable {P : List Token → List Token → Prop} {script : Text} (hR : Respacing R V) (hP : TightRespacing P V)
  (hsplit : SplitsInto script R P)
include hR hP hsplit

section Statement

variable {create create' : Token} {whole whole' : List Token}

omit hR hP in
/-- The parts of a group can be written down, and the place behind it lies behind a parenthesis. -/
theorem inStep_parts (hscript : create :: whole <:+ scan script) :
    InStep (Along (· <:+ whole) R)
      (fun ps qs => List.Forall₂ P (ps.map Part.tokens) (qs.map Part.tokens) ∧ ∀ part ∈ ps, Chain part.tokens)
      (Along (BehindGroup whole) R) splitGroup splitGroup := by
  have hwhole : whole <:+ scan script := (List.suffix_cons create whole).trans hscript
  refine (hsplit.start fun _ _ h => ⟨h.1, h.2.trans hwhole⟩).also fun ts us parts rest h hrun => ⟨?_, ?_⟩
  · intro part hpart
    exact (part_of_splitGroup (h.2.trans hwhole) hrun hpart).1
  · obtain ⟨front, hfront⟩ := h.2
    obtain ⟨us, c, rfl, hc⟩ := exists_closing_of_splitGroup hrun
    exact ⟨front ++ us, c, by rw [List.append_assoc, hfront], hc⟩

theorem inStep_readTable (dialect : Dialect) (hscript : create :: whole <:+ scan script)
    (hwhole : R (create :: whole) (create' :: whole')) :
    InStep (Along (· <:+ whole) R) (Finding.ReadsAlike V) R (readTable dialect create whole)
      (readTable dialect create' whole') := by
  have hS : ∀ ⦃ts us : List Token⦄, ts <:+ whole → us <:+ ts → us <:+ whole := fun _ _ hts hus => hus.trans hts
  refine (hR.inStep_existenceGuard.along hS leavesSuffix_existenceGuard).bind fun _ _ _ =>
    ((hR.inStep_name _).along hS (leavesSuffix_name _)).bind fun name name' hname =>
      (inStep_parts hsplit hscript).bind fun parts parts' hparts => ?_
  obtain rfl := hname
  -- the statement is written down from its `CREATE` to the parenthesis that closes its body
  have hstatement : InStep (Along (BehindGroup whole) R) V R
      (look fun rest => Token.verbatim (create :: Token.taken whole rest))
      (look fun rest => Token.verbatim (create' :: Token.taken whole' rest)) := by
    intro rest rest' h
    have hlen := hR.length_eq hwhole
    have htaken : R (create :: Token.taken whole rest) (create' :: Token.taken whole' rest') := by
      refine hR.front hwhole (List.cons_prefix_cons.2 ⟨rfl, List.take_prefix _ _⟩)
        (List.cons_prefix_cons.2 ⟨rfl, List.take_prefix _ _⟩) ?_
      simp only [List.length_cons, Nat.add_right_cancel_iff] at hlen
      simp only [Token.taken, List.length_cons, List.length_take, hlen, hR.length_eq h.1]
    exact .ok ⟨hR.verbatim htaken (h.2.chain hscript), h.1⟩
  refine hstatement.bind fun _ _ htext => .pure (.table (Table.readsAlike_ofDeclarations name htext dialect ?_) _ _)
  rw [Fragment.declarations_map_read, Fragment.declarations_map_read]
  have hchains : ∀ ts ∈ parts.map Part.tokens, Chain ts := by
    intro ts hts
    obtain ⟨part, hpart, rfl⟩ := List.mem_map.1 hts
    exact hparts.2 part hpart
  exact List.rel_filterMap (fun ts us h => hP.declarationOf? h)
    (((List.forall₂_and_left _ _).2 ⟨hchains, hparts.1⟩).imp fun _ _ h => h.symm)

theorem afterCreate (dialect : Dialect) (hscript : create :: whole <:+ scan script)
    (hwhole : R (create :: whole) (create' :: whole')) :
    Together (fun p q => p.1.ReadsAlike V q.1 ∧ R p.2 q.2) (afterCreate dialect create whole whole)
      (Finding.afterCreate dialect create' whole' whole') := by
  have hS : ∀ ⦃ts us : List Token⦄, ts <:+ whole → us <:+ ts → us <:+ whole := fun _ _ hts hus => hus.trans hts
  have heat (k : Keyword) := (hR.inStep_eatKeyword k).along hS (leavesSuffix_eatKeyword k)
  have hread : InStep (Along (· <:+ whole) R) (Finding.ReadsAlike V) R (Finding.afterCreate dialect create whole)
      (Finding.afterCreate dialect create' whole') := by
    refine (hR.inStep_orReplace.along hS leavesSuffix_orReplace).bind fun _ _ _ => (heat .global).bind fun _ _ _ =>
      (heat .temporary).bind fun _ _ _ => (heat .table).bind fun table table' htable => ?_
    obtain rfl := htable
    cases table with
    | true => exact hR.inStep_readTable hP hsplit dialect hscript hwhole
    | false =>
      refine ((hR.inStep_eatKeyword .unique).start fun _ _ h => h.1).bind fun _ _ _ => hR.inStep_bitmap.bind fun _ _ _ =>
        (hR.inStep_eatKeyword .index).bind fun index index' hindex => ?_
      obtain rfl := hindex
      cases index with
      | true => exact hR.inStep_readIndex
      | false => exact .pure .other
  exact hread ⟨hR.tail hwhole, List.suffix_refl whole⟩

end Statement

/-! ## Scripts -/

open Script in
/-- Both scripts have the same statements. -/
theorem findings (dialect : Dialect) {ts us : List Token} (hts : ts <:+ scan script) (h : R ts us) :
    List.Forall₂ (Finding.ReadsAlike V) (findings dialect ts) (Script.findings dialect us) := by
  fun_induction Script.findings dialect ts generalizing us with
  | case1 =>
    rw [hR.nil_right h, Script.findings]
    exact .nil
  | case2 t rest heof =>
    obtain ⟨u, vs, rfl, htu, hrest⟩ := hR.exists_cons h
    have hkind : u.isEof = true := by rwa [isEof, htu.kind]
    rw [Script.findings, if_pos hkind]
    exact .nil
  | case3 t rest heof hcreate f next hstep ih =>
    obtain ⟨u, vs, rfl, htu, hrest⟩ := hR.exists_cons h
    have hkind : u.kind = .keyword .create := htu.kind.trans (by simpa [isKeyword] using hcreate)
    have htogether := hR.afterCreate hP hsplit dialect hts h
    rw [hstep] at htogether
    generalize hstep' : Finding.afterCreate dialect u vs vs = y at htogether
    cases htogether with
    | ok hpq =>
      have hnext := (leavesSuffix_afterCreate dialect t rest hstep).trans ((List.suffix_cons t rest).trans hts)
      rw [findings_ok hkind hstep']
      exact .cons hpq.1 (ih hnext hpq.2)
  | case4 t rest heof hcreate e hstep ih =>
    obtain ⟨u, vs, rfl, htu, hrest⟩ := hR.exists_cons h
    have hkind : u.kind = .keyword .create := htu.kind.trans (by simpa [isKeyword] using hcreate)
    have htogether := hR.afterCreate hP hsplit dialect hts h
    rw [hstep] at htogether
    generalize hstep' : Finding.afterCreate dialect u vs vs = y at htogether
    cases htogether
    rw [findings_error hkind hstep']
    exact .cons (.unreadable _ _) (ih ((List.suffix_cons t rest).trans hts) hrest)
  | case5 t rest heof hcreate ih =>
    obtain ⟨u, vs, rfl, htu, hrest⟩ := hR.exists_cons h
    have heof : u.kind ≠ .eof := htu.kind ▸ (by simpa [isEof] using heof)
    have hcreate : u.kind ≠ .keyword .create := htu.kind ▸ (by simpa [isKeyword] using hcreate)
    rw [findings_other heof hcreate]
    exact ih ((List.suffix_cons t rest).trans hts) hrest

end Respacing

/-! ## Tables -/

theorem Finding.ReadsAlike.table? {f g : Finding} (h : f.ReadsAlike V g) :
    Option.Rel (Table.ReadsAlike V) (Script.table? f) (Script.table? g) := by
  cases h with
  | table htable _ _ => exact .some htable
  | _ => exact .none

theorem Finding.ReadsAlike.index? {f g : Finding} (h : f.ReadsAlike V g) : Script.index? g = Script.index? f := by
  cases h <;> rfl

namespace Script

variable {ts us : List Table}

theorem readsAlike_giveIndex (h : List.Forall₂ (Table.ReadsAlike V) ts us) (index : Text × Text) :
    List.Forall₂ (Table.ReadsAlike V) (giveIndex ts index) (giveIndex us index) :=
  rel_modifyFirst (fun t u htu => by rw [htu.name])
    (fun t u htu => { htu with indexes := congrArg (· ++ [index.1]) htu.indexes }) h

/-- References are completed in the same way. -/
theorem completeKey_readsAlike (h : List.Forall₂ (Table.ReadsAlike V) ts us) : completeKey us = completeKey ts := by
  funext key
  have htarget := rel_find? (p := fun t => meansSameTable t.name key.table)
    (q := fun u => meansSameTable u.name key.table) (fun t u htu => by rw [htu.name]) h
  rw [completeKey, completeKey]
  generalize ts.find? (fun t => meansSameTable t.name key.table) = x at htarget ⊢
  generalize us.find? (fun u => meansSameTable u.name key.table) = y at htarget ⊢
  cases htarget with
  | none => rfl
  | @some t u htu =>
    show (if _ then { key with referencedColumn := u.primaryKey.getD assumedColumn } else key) = _
    rw [htu.primaryKey]
    rfl

theorem readsAlike_completeReferences (h : List.Forall₂ (Table.ReadsAlike V) ts us) :
    List.Forall₂ (Table.ReadsAlike V) (completeReferences ts) (completeReferences us) := by
  have hkeys := completeKey_readsAlike h
  refine List.rel_map (R := Table.ReadsAlike V) (fun t u htu => ?_) h
  exact { htu with foreignKeys := by rw [hkeys, htu.foreignKeys] }

theorem readsAlike_tablesOf {fs gs : List Finding} (h : List.Forall₂ (Finding.ReadsAlike V) fs gs) :
    List.Forall₂ (Table.ReadsAlike V) (tablesOf fs) (tablesOf gs) := by
  have htables := List.rel_filterMap (fun _ _ hfg => Finding.ReadsAlike.table? hfg) h
  have hindexes : gs.filterMap index? = fs.filterMap index? := by
    rw [← Function.id_comp index?, ← List.filterMap_map, ← List.filterMap_map,
      map_eq_of_forall₂ (fun _ _ hfg => Finding.ReadsAlike.index? hfg) h]
  rw [tablesOf, tablesOf, hindexes]
  refine readsAlike_completeReferences (List.rel_foldl (P := List.Forall₂ (Table.ReadsAlike V)) (R := Eq)
    (fun ts us hts i j hij => ?_) htables (List.forall₂_refl _))
  obtain rfl := hij
  exact readsAlike_giveIndex hts i

end Script

/-- Tokens that are the same as those of a script but for their gaps declare tables that are the same but
for what is kept as written. -/
theorem Respacing.tablesOf {P : List Token → List Token → Prop} {script : Text} (hR : Respacing R V)
    (hP : TightRespacing P V) (hsplit : SplitsInto script R P) (dialect : Dialect) {us : List Token}
    (h : R (scan script) us) :
    List.Forall₂ (Table.ReadsAlike V) (Script.tables dialect script)
      (Script.tablesOf (Script.findings dialect us)) :=
  Script.readsAlike_tablesOf (hR.findings hP hsplit dialect (List.suffix_refl _) h)

theorem TightRespacing.tablesOf (hR : TightRespacing R V) (dialect : Dialect) {script : Text} {us : List Token}
    (h : R (scan script) us) :
    List.Forall₂ (Table.ReadsAlike V) (Script.tables dialect script)
      (Script.tablesOf (Script.findings dialect us)) :=
  hR.toRespacing.tablesOf hR (hR.splitsInto script) dialect h

end DialectBridge
