import DialectBridge.Proofs.Rename.Declarations

/-!
# Statements of renamed tokens

A statement among renamed tokens is read as the statement with replaced words (`afterCreate_renamed`), so
that a renamed script declares the renamed tables and indexes, in the same order (`findings_renamed`).
-/

namespace DialectBridge

open Token Reader

namespace Glossary

/-- What a `CREATE` turns out to be, and what it becomes. -/
inductive RenamesFinding (g : Glossary) : Finding → Finding → Prop where
  | table {t u : Table} (table : g.RenamesTable t u) (fs gs : List Fragment) :
      RenamesFinding g (.table t fs) (.table u gs)
  | index {n m t u : Text} (name : g.Renames n m) (table : g.Renames t u) : RenamesFinding g (.index n t) (.index m u)
  | other : RenamesFinding g .other .other
  | unreadable (e f : ReadError) : RenamesFinding g (.unreadable e) (.unreadable f)

variable {g : Glossary}

open Finding

/-! ## Words between the names -/

theorem inStep_existenceGuard : InStep g.Fresh (fun _ _ => True) g.Fresh existenceGuard existenceGuard := by
  refine (inStep_eatKeyword .if).bind fun guarded guarded' hguarded => ?_
  obtain rfl := hguarded
  cases guarded with
  | false => exact .pure trivial
  | true =>
    exact ((inStep_expectKeyword .not).start Fresh.anywhere).bind fun _ _ _ =>
      (inStep_expectKeyword .exists).start Fresh.anywhere

theorem inStep_orReplace : InStep g.Fresh (fun _ _ => True) g.Fresh orReplace orReplace := by
  refine (inStep_eatKeyword .or).bind fun replacing replacing' hreplacing => ?_
  obtain rfl := hreplacing
  cases replacing with
  | false => exact .pure trivial
  | true => exact (inStep_expectKeyword .replace).start Fresh.anywhere

theorem inStep_bitmap (hg : g.KeepsApart) : InStep g.Fresh (fun _ _ => True) g.Fresh bitmap bitmap := by
  refine .look_bind (fun _ _ h => h.atWord hg List.mem_cons_self) fun kind => ?_
  cases kind with
  | false => exact InStep.start (.pure trivial) fun _ _ h => h.1
  | true =>
    intro ts us ⟨h, hword⟩
    cases ts with
    | nil => cases hword
    | cons t ts =>
      obtain ⟨joined, vs, rfl, hrest⟩ := (Fresh.anywhere _ _ h).behind (runsOn_of_isWord hword)
      exact .ok ⟨trivial, hrest⟩

/-! ## Statements -/

theorem inStep_readIndex (hg : g.KeepsApart) : InStep g.Fresh g.RenamesFinding g.Fresh readIndex readIndex :=
  inStep_existenceGuard.bind fun _ _ _ => (inStep_name hg _).bind fun _ _ hname =>
    ((inStep_expectKeyword .on).start Fresh.anywhere).bind fun _ _ _ => (inStep_name hg _).bind fun _ _ htable =>
      (inStep_skipGroup.start Fresh.anywhere).bind fun _ _ _ => .pure (.index hname htable)

section Statement

variable {create : Token} {keyword : Keyword} {script : Text} {whole whole' : List Token}

/-- The text of a statement is replaced as written. -/
theorem statement_renamed (hg : g.KeepsApart) (hkind : create.kind = .keyword keyword) (hascii : create.text.IsAscii)
    (h : g.Fresh whole whole') {rest rest' : List Token} (hrest : rest'.length = rest.length)
    (hchain : Chain (create :: taken whole rest)) :
    verbatim (create :: taken whole' rest') = g.replaceNames (verbatim (create :: taken whole rest)) := by
  have htaken := h.taken hrest
  have hrespell : create :: taken whole' rest' = g.respellTokens false (create :: taken whole rest) := by
    rw [respellTokens, respellToken_of_keyword hkind, runsOn_keyword hkind, ← htaken.eq]
  rw [hrespell, verbatim_respellTokens hg hchain]
  rw [textOf_cons]
  exact Text.Over.append_iff.2 ⟨hascii, htaken.ascii⟩

theorem inStep_parts (hscript : create :: whole <:+ scan script) :
    InStep (Along (· <:+ whole) g.Fresh)
      (fun parts parts' => g.PartsRenamed parts parts' ∧ ∀ part ∈ parts, Chain part.tokens)
      (Along (BehindGroup whole) g.Fresh) splitGroup splitGroup := by
  refine (inStep_splitGroup.start fun _ _ h => Fresh.anywhere _ _ h.1).also fun ts us parts rest h hrun => ⟨?_, ?_⟩
  · intro part hpart
    exact (part_of_splitGroup (h.2.trans ((List.suffix_cons create whole).trans hscript)) hrun hpart).1
  · obtain ⟨front, hfront⟩ := h.2
    obtain ⟨us, c, rfl, hc⟩ := exists_closing_of_splitGroup hrun
    exact ⟨front ++ us, c, by rw [List.append_assoc, hfront], hc⟩

theorem inStep_readTable (hg : g.KeepsApart) (dialect : Dialect) (hkind : create.kind = .keyword keyword)
    (hascii : create.text.IsAscii) (hscript : create :: whole <:+ scan script) (hwhole : g.Fresh whole whole') :
    InStep (Along (· <:+ whole) g.Fresh) g.RenamesFinding g.Fresh (readTable dialect create whole)
      (readTable dialect create whole') := by
  have hS : ∀ ⦃ts us : List Token⦄, ts <:+ whole → us <:+ ts → us <:+ whole := fun _ _ hts hus => hus.trans hts
  refine (inStep_existenceGuard.along hS leavesSuffix_existenceGuard).bind fun _ _ _ =>
    ((inStep_name hg _).along hS (leavesSuffix_name _)).bind fun _ _ hname =>
      (inStep_parts hscript).bind fun parts parts' hparts => ?_
  have hstatement : InStep (Along (BehindGroup whole) g.Fresh) g.RenamesVerbatim g.Fresh
      (look fun rest => verbatim (create :: taken whole rest))
      (look fun rest => verbatim (create :: taken whole' rest)) := fun rest rest' h =>
    .ok ⟨statement_renamed hg hkind hascii hwhole h.1.length_eq (h.2.chain hscript), h.1⟩
  refine hstatement.bind fun _ _ htext => .pure (.table (renamesTable_ofDeclarations hg hname htext dialect ?_) _ _)
  rw [Fragment.declarations_map_read, Fragment.declarations_map_read]
  have hchains : ∀ ts ∈ parts.map Part.tokens, Chain ts := by
    intro ts hts
    obtain ⟨part, hpart, rfl⟩ := List.mem_map.1 hts
    exact hparts.2 part hpart
  exact List.rel_filterMap (fun ts us h => declarationOf?_renamed hg h)
    (((List.forall₂_and_left _ _).2 ⟨hchains, hparts.1⟩).imp fun _ _ h => h.symm)

theorem afterCreate_renamed (hg : g.KeepsApart) (dialect : Dialect) (hkind : create.kind = .keyword keyword)
    (hascii : create.text.IsAscii) (hscript : create :: whole <:+ scan script) (hwhole : g.Fresh whole whole') :
    Together (fun p q => g.RenamesFinding p.1 q.1 ∧ g.Fresh p.2 q.2) (afterCreate dialect create whole whole)
      (afterCreate dialect create whole' whole') := by
  have hS : ∀ ⦃ts us : List Token⦄, ts <:+ whole → us <:+ ts → us <:+ whole := fun _ _ hts hus => hus.trans hts
  have heat (k : Keyword) := (inStep_eatKeyword (g := g) k).along hS (leavesSuffix_eatKeyword k)
  have hread : InStep (Along (· <:+ whole) g.Fresh) g.RenamesFinding g.Fresh (afterCreate dialect create whole)
      (afterCreate dialect create whole') := by
    refine (inStep_orReplace.along hS leavesSuffix_orReplace).bind fun _ _ _ => (heat .global).bind fun _ _ _ =>
      (heat .temporary).bind fun _ _ _ => (heat .table).bind fun table table' htable => ?_
    obtain rfl := htable
    cases table with
    | true => exact inStep_readTable hg dialect hkind hascii hscript hwhole
    | false =>
      refine ((inStep_eatKeyword .unique).start fun _ _ h => h.1).bind fun _ _ _ => (inStep_bitmap hg).bind fun _ _ _ =>
        (inStep_eatKeyword .index).bind fun index index' hindex => ?_
      obtain rfl := hindex
      cases index with
      | true => exact inStep_readIndex hg
      | false => exact .pure .other
  exact hread ⟨hwhole, List.suffix_refl whole⟩

end Statement

/-! ## Scripts -/

open Script in
/-- A renamed script declares renamed tables and indexes. -/
theorem findings_renamed (hg : g.KeepsApart) (dialect : Dialect) {script : Text} {ts us : List Token}
    (hts : ts <:+ scan script) (h : g.Anywhere ts us) :
    List.Forall₂ g.RenamesFinding (findings dialect ts) (findings dialect us) := by
  fun_induction findings dialect ts generalizing us with
  | case1 =>
    obtain ⟨inside, h⟩ := h
    cases h
    rw [findings]
    exact .nil
  | case2 t rest heof =>
    obtain ⟨inside, h⟩ := h
    cases h with
    | cons _ _ _ =>
      rw [findings, if_pos (isEof_respellToken.trans heof)]
      exact .nil
  | case3 t rest heof hcreate f next hstep ih =>
    have hkind : t.kind = .keyword .create := by simpa [isKeyword] using hcreate
    obtain ⟨inside, h⟩ := h
    cases h with
    | @cons _ _ _ vs hascii _ hrest =>
      rw [runsOn_keyword hkind] at hrest
      rw [respellToken_of_keyword hkind]
      have htogether := afterCreate_renamed hg dialect hkind hascii hts hrest
      rw [hstep] at htogether
      generalize hstep' : Finding.afterCreate dialect t vs vs = y at htogether
      cases htogether with
      | @ok _ q hpq =>
        have hnext := (Finding.leavesSuffix_afterCreate dialect t rest hstep).trans ((List.suffix_cons t rest).trans hts)
        rw [findings_ok hkind hstep']
        exact .cons hpq.1 (ih hnext (Fresh.anywhere _ _ hpq.2))
  | case4 t rest heof hcreate e hstep ih =>
    have hkind : t.kind = .keyword .create := by simpa [isKeyword] using hcreate
    obtain ⟨inside, h⟩ := h
    cases h with
    | @cons _ _ _ vs hascii _ hrest =>
      rw [runsOn_keyword hkind] at hrest
      rw [respellToken_of_keyword hkind]
      have htogether := afterCreate_renamed hg dialect hkind hascii hts hrest
      rw [hstep] at htogether
      generalize hstep' : Finding.afterCreate dialect t vs vs = y at htogether
      cases htogether
      rw [findings_error hkind hstep']
      exact .cons (.unreadable _ _) (ih ((List.suffix_cons t rest).trans hts) (Fresh.anywhere _ _ hrest))
  | case5 t rest heof hcreate ih =>
    have heof : t.kind ≠ .eof := by simpa [isEof] using heof
    have hcreate : t.kind ≠ .keyword .create := by simpa [isKeyword] using hcreate
    obtain ⟨inside, h⟩ := h
    cases h with
    | cons _ _ hrest =>
      rw [findings_other (mt (kind_respellToken_iff (by simp) (by simp)).1 heof)
        (mt (kind_respellToken_iff (by simp) (by simp)).1 hcreate)]
      exact ih ((List.suffix_cons t rest).trans hts) ⟨_, hrest⟩

end Glossary

end DialectBridge
