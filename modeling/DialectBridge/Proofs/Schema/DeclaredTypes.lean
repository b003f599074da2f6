import DialectBridge.Proofs.Schema.Alone
import DialectBridge.Proofs.Schema.Parts
import DialectBridge.Proofs.Types.UnmaskedChanges

/-!
# Types of columns

The type of a column is a run of tokens as they stand: a word, and then words that continue it and groups in
parentheses (`isDeclaredType_of_mem`). So it starts and ends without whitespace, and everything in quotes in it is
the type's first word or stands behind a parenthesis (`IsDeclaredType.quotesFirst`).
-/

namespace DialectBridge

open Token Reader

/-! ## Quotations behind parentheses -/

/-- The token is written in quotes. -/
def Token.IsQuotation (t : Token) : Prop :=
  ∃ v, t.kind = .string v ∨ t.kind = .quoted v

/-- In front of each quotation a parenthesis was opened. -/
def Token.OpensFirst (us : List Token) : Prop :=
  ∀ xs t ys, us = xs ++ t :: ys → t.IsQuotation → ∃ o ∈ xs, o.kind = .leftParen

theorem Token.opensFirst_nil : OpensFirst [] := by
  intro xs t ys h
  simp at h

theorem Token.OpensFirst.cons {u : Token} {us : List Token} (hu : ¬ u.IsQuotation) (h : OpensFirst us) :
    OpensFirst (u :: us) := by
  intro xs t ys heq ht
  cases xs with
  | nil =>
    obtain ⟨rfl, -⟩ := List.cons.inj heq
    exact absurd ht hu
  | cons x xs =>
    obtain ⟨rfl, rfl⟩ := List.cons.inj heq
    obtain ⟨o, ho, hkind⟩ := h xs t ys rfl ht
    exact ⟨o, List.mem_cons_of_mem _ ho, hkind⟩

theorem Token.opensFirst_paren {o : Token} (ho : o.kind = .leftParen) (us : List Token) : OpensFirst (o :: us) := by
  intro xs t ys heq ht
  cases xs with
  | nil =>
    obtain ⟨rfl, -⟩ := List.cons.inj heq
    obtain ⟨v, hv | hv⟩ := ht <;> simp [ho] at hv
  | cons x xs =>
    obtain ⟨rfl, -⟩ := List.cons.inj heq
    exact ⟨o, List.mem_cons_self, ho⟩

/-- The text is a run of tokens in which each quotation but the first token stands behind a parenthesis. -/
def IsDeclaredType (s : Text) : Prop :=
  ∃ t us, Chain (t :: us) ∧ OpensFirst us ∧ verbatim (t :: us) = s

/-! ## Reading types -/

namespace ColumnDefinition

theorem opensFirst_afterType {continuations : List Text} {ts rest : List Token}
    (h : afterType continuations ts = .ok rest) : ∃ us, ts = us ++ rest ∧ OpensFirst us := by
  fun_induction afterType continuations ts with
  | case1 =>
    cases h
    exact ⟨[], rfl, opensFirst_nil⟩
  | case2 t ts ht mid hmid ih =>
    obtain ⟨us, rfl, -⟩ := ih h
    obtain ⟨vs, rfl⟩ := (afterGroup?_suffix hmid).1
    exact ⟨t :: (vs ++ us), by simp, opensFirst_paren (by simpa using ht) _⟩
  | case3 => cases h
  | case4 t ts _ hword ih =>
    obtain ⟨us, rfl, hus⟩ := ih h
    refine ⟨t :: us, rfl, hus.cons ?_⟩
    rintro ⟨v, hv | hv⟩ <;> simp [isWord, hv] at hword
  | case5 t ts =>
    cases h
    exact ⟨[], rfl, opensFirst_nil⟩

theorem isDeclaredType_dataType {ts rest : List Token} {type : Text} (h : dataType ts = .ok (type, rest))
    (hchain : Chain ts) : IsDeclaredType type := by
  rw [dataType_eq] at h
  split at h
  · obtain ⟨⟨base, mid⟩, hword, h⟩ := exists_of_bind_eq_ok h
    obtain ⟨next, hafter, h⟩ := exists_of_bind_eq_ok h
    cases h
    obtain ⟨us, rfl, hus⟩ := opensFirst_afterType hafter
    cases ts with
    | nil => cases hword
    | cons t ts =>
      obtain rfl : ts = us ++ rest := by
        cases hname : t.name? with
        | none => simp [word, hname] at hword
        | some n => simp [word, hname] at hword; exact hword.2
      rw [← List.cons_append] at hchain ⊢
      exact ⟨t, us, hchain.left, hus, by rw [taken_append]⟩
  · cases h

theorem attributeStep_dataType {d e : Draft} {ts rest : List Token} (h : attributeStep d ts = .ok (e, rest)) :
    e.column.dataType = d.column.dataType := by
  cases ts with
  | nil => cases h; rfl
  | cons t ts =>
    rw [attributeStep] at h
    split at h
    · split at h <;> cases h <;> rfl
    · split at h <;> cases h <;> rfl
    · cases h; rfl
    · obtain ⟨value, -, rfl⟩ := map_eq_ok h; rfl
    · obtain ⟨key, -, rfl⟩ := map_eq_ok h; rfl
    · obtain ⟨name, -, rfl⟩ := map_eq_ok h; rfl
    · split at h
      · obtain ⟨group, -, rfl⟩ := map_eq_ok h; rfl
      · cases h; rfl

theorem attributes_dataType {d e : Draft} {ts : List Token} (h : attributes d ts = .ok e) :
    e.column.dataType = d.column.dataType := by
  fun_induction attributes d ts with
  | case1 => cases h; rfl
  | case2 => cases h
  | case3 d ts _ next rest hstep ih => exact (ih h).trans (attributeStep_dataType hstep)

theorem isDeclaredType_read {ts : List Token} {d : Draft} (hchain : Chain ts) (h : read ts = .ok d) :
    IsDeclaredType d.column.dataType := by
  obtain ⟨name, rest, type, after, hname, htype, hattributes⟩ := read_inv h
  rw [attributes_dataType hattributes]
  exact isDeclaredType_dataType htype (hchain.suffix (leavesSuffix_word _ hname))

end ColumnDefinition

/-! ## Columns of tables -/

theorem isDeclaredType_of_declaration {ts : List Token} (hchain : Chain ts) {d : Declaration}
    (hd : Fragment.declarationOf? ts = some d) {c : Column} (hc : d.column? = some c) : IsDeclaredType c.dataType := by
  rw [Fragment.declarationOf?_eq] at hd
  split at hd
  · cases hread : Constraint.read ts with
    | error e => simp [hread, Bind.bind, Except.bind, Except.toOption] at hd
    | ok p =>
      simp only [hread, Bind.bind, Except.bind, Except.toOption, Option.some.injEq] at hd
      subst hd
      cases hc
  · cases hread : ColumnDefinition.read ts with
    | error e => simp [hread, Bind.bind, Except.bind, Except.toOption] at hd
    | ok draft =>
      simp only [hread, Bind.bind, Except.bind, Except.toOption, Option.some.injEq] at hd
      subst hd
      obtain rfl := Option.some.inj hc
      exact ColumnDefinition.isDeclaredType_read hchain hread

theorem Table.map_dataType_markUnique (columns : List Column) (name : Text) :
    (markUnique columns name).map Column.dataType = columns.map Column.dataType := by
  unfold markUnique
  induction columns with
  | nil => rfl
  | cons c columns ih =>
    rw [modifyFirst]
    split
    · rfl
    · rw [List.map_cons, ih, List.map_cons]

theorem Table.map_dataType_ofDeclarations (name statement : Text) (dialect : Dialect) (ds : List Declaration) :
    (ofDeclarations name statement dialect ds).columns.map Column.dataType =
      (ds.filterMap Declaration.column?).map Column.dataType := by
  have hfold (names : List Text) (columns : List Column) :
      (names.foldl markUnique columns).map Column.dataType = columns.map Column.dataType := by
    induction names generalizing columns with
    | nil => rfl
    | cons name names ih => rw [List.foldl_cons, ih, map_dataType_markUnique]
  exact hfold _ _

/-- The types of columns are read from tokens of the script. -/
theorem Script.isDeclaredType_of_mem {dialect : Dialect} {script : Text} {t : Table} (ht : t ∈ tables dialect script)
    {c : Column} (hc : c ∈ t.columns) : IsDeclaredType c.dataType := by
  obtain ⟨d, run, hrun, hcompletes⟩ := exists_run_of_mem ht
  obtain ⟨n, parts, hparts, rfl⟩ := hrun.table
  rw [hcompletes.columns] at hc
  have htype := List.mem_map_of_mem (f := Column.dataType) hc
  rw [Finding.declaredTable, Table.map_dataType_ofDeclarations] at htype
  obtain ⟨e, he, heq⟩ := List.mem_map.1 htype
  obtain ⟨declaration, hdeclaration, hcolumn⟩ := List.mem_filterMap.1 he
  obtain ⟨us, hus, hread⟩ := List.mem_filterMap.1 hdeclaration
  rw [← heq]
  exact isDeclaredType_of_declaration (hparts us hus) hread hcolumn

/-! ## Pieces of a type -/

theorem IsDeclaredType.trim_eq {s : Text} (h : IsDeclaredType s) : s.trim = s := by
  obtain ⟨t, us, hchain, -, rfl⟩ := h
  exact hchain.trim_verbatim

open Segment

/-- A piece of lists side by side stands in one of them. -/
theorem exists_of_flatMap_eq {α β : Type} {f : α → List β} {us : List α} {xs ys : List β} {p : β}
    (h : us.flatMap f = xs ++ p :: ys) :
    ∃ as u bs xs' ys', us = as ++ u :: bs ∧ f u = xs' ++ p :: ys' ∧ xs = as.flatMap f ++ xs' := by
  induction us generalizing xs with
  | nil => simp at h
  | cons u us ih =>
    rw [List.flatMap_cons] at h
    rcases List.append_eq_append_iff.1 h with ⟨zs, rfl, hzs⟩ | ⟨zs, hzs, hys⟩
    · obtain ⟨as, v, bs, xs', ys', rfl, hv, rfl⟩ := ih hzs
      exact ⟨u :: as, v, bs, xs', ys', rfl, hv, by rw [List.flatMap_cons, List.append_assoc]⟩
    · cases zs with
      | nil =>
        have hback : us.flatMap f = [] ++ p :: ys := hys.symm
        obtain ⟨as, v, bs, xs', ys', rfl, hv, hnil⟩ := ih hback
        refine ⟨u :: as, v, bs, xs', ys', rfl, hv, ?_⟩
        rw [List.append_nil] at hzs
        rw [List.flatMap_cons, List.append_assoc, ← hnil, List.append_nil, hzs]
      | cons q zs =>
        obtain ⟨rfl, -⟩ := List.cons.inj hys
        exact ⟨[], u, us, xs, zs, rfl, hzs, rfl⟩

/-- Of the pieces of a token only the last one can be in quotes. -/
theorem cellsOf_eq_append {u : Token} {xs ys : List Segment} {p : Segment} (h : cellsOf u = xs ++ p :: ys)
    (hp : p.kind = .literal ∨ p.kind = .quoted) : u.IsQuotation ∧ xs = u.gap.map ofTrivia := by
  have hgap : p ∉ u.gap.map ofTrivia := fun hmem => by
    obtain ⟨x, -, rfl⟩ := List.mem_map.1 hmem
    cases x <;> simp [ofTrivia] at hp
  obtain ⟨zs, rfl, hzs⟩ : ∃ zs, xs = u.gap.map ofTrivia ++ zs ∧
      (if u.lexeme.isEmpty then [] else [ofLexeme u]) = zs ++ p :: ys := by
    rcases List.append_eq_append_iff.1 h with ⟨zs, rfl, hzs⟩ | ⟨zs, hzs, hys⟩
    · exact ⟨zs, rfl, hzs⟩
    · cases zs with
      | nil => exact ⟨[], by rw [hzs, List.append_nil, List.append_nil], hys.symm⟩
      | cons q zs =>
        obtain ⟨rfl, -⟩ := List.cons.inj hys
        exact absurd (by rw [hzs]; simp) hgap
  split at hzs
  · simp at hzs
  · obtain ⟨rfl, rfl, -⟩ : zs = [] ∧ p = ofLexeme u ∧ ys = [] := by
      cases zs <;> simp_all
    refine ⟨?_, List.append_nil _⟩
    unfold ofLexeme at hp
    split at hp
    · next v hv => exact ⟨v, .inl hv⟩
    · next v hv => exact ⟨v, .inr hv⟩
    · simp at hp

/-- A parenthesis is a piece of its own. -/
theorem paren_mem_cellsOf {o : Token} {rest : Text} (h : o.Fits rest) (ho : o.kind = .leftParen) :
    ⟨.code, ['(']⟩ ∈ cellsOf o := by
  obtain ⟨c, l, hl, htoken⟩ := h.token_eq
  obtain ⟨hc, hlexeme⟩ := Scan.token_of_sign (c := c) (t := l ++ rest) (.inl (by rw [htoken, ho]))
  obtain rfl : c = '(' := by
    refine hc.resolve_right ?_
    rintro rfl
    have hkind := congrArg Prod.fst htoken
    rw [ho] at hkind
    cases hkind
  rw [htoken] at hlexeme
  have hcell : ofLexeme o = ⟨.code, ['(']⟩ := by
    rw [ofLexeme, ho, hl]
    exact congrArg (Segment.mk _) hlexeme
  simp [cellsOf, hl, hcell]

theorem IsDeclaredType.quotesFirst {s : Text} (h : IsDeclaredType s) : TypeTable.QuotesFirst s := by
  obtain ⟨t, us, hchain, hopens, rfl⟩ := h
  intro xs p ys hcells hp
  have htokens : cells (verbatim (t :: us)) = (withGap [] (t :: us)).flatMap cellsOf := by
    rw [cells, scan_verbatim hchain, List.flatMap_append]
    exact List.append_nil _
  obtain ⟨as, u, bs, xs', ys', hsplit, hu, rfl⟩ := exists_of_flatMap_eq (htokens.symm.trans hcells)
  obtain ⟨hquotation, rfl⟩ := cellsOf_eq_append hu hp
  -- the first token has no gap, so nothing stands in front of it
  cases as with
  | nil =>
    obtain ⟨rfl, -⟩ := List.cons.inj hsplit
    exact .inl rfl
  | cons a as =>
    obtain ⟨rfl, rfl⟩ := List.cons.inj hsplit
    obtain ⟨o, ho, hkind⟩ := hopens as u bs rfl hquotation
    refine .inr (List.mem_append_left _ (List.mem_flatMap.2 ⟨o, List.mem_cons_of_mem _ ho, ?_⟩))
    obtain ⟨rest, hfits⟩ := hchain.exists_fits (List.mem_cons_of_mem _ (List.mem_append_left _ ho))
    exact paren_mem_cellsOf hfits hkind

end DialectBridge
