import DialectBridge.Proofs.Schema.Parts
import DialectBridge.Proofs.Schema.Verbatim
import DialectBridge.Proofs.Spacing.Readers

/-!
# Columns behind other gaps

A column definition reads alike behind other gaps: its name, its flags, its reference and the presence of
a default value are the same, and its type and its default value are what is written there
(`TightRespacing.column`). So the parts of a table body declare alike, and so do tables made of them.
-/

namespace DialectBridge

open Token Reader

/-! ## What reads alike -/

section Alike

variable (V : Text → Text → Prop)

/-- The columns are the same but for what is kept as written, which is related by `V`. -/
structure Column.ReadsAlike (c e : Column) : Prop where
  name : e.name = c.name
  dataType : V c.dataType e.dataType
  nullable : e.nullable = c.nullable
  isPrimaryKey : e.isPrimaryKey = c.isPrimaryKey
  isUnique : e.isUnique = c.isUnique
  default : Option.Rel V c.default e.default

/-- What has been read of two column definitions is the same but for what is kept as written. -/
structure ColumnDefinition.Draft.ReadsAlike (d e : Draft) : Prop where
  column : d.column.ReadsAlike V e.column
  reference : e.reference = d.reference

/-- The declarations are the same but for what is kept as written. -/
inductive Declaration.ReadsAlike : Declaration → Declaration → Prop where
  | column {d e : ColumnDefinition.Draft} (draft : d.ReadsAlike V e) : ReadsAlike (.column d) (.column e)
  | constraint (c : Constraint) : ReadsAlike (.constraint c) (.constraint c)

/-- The tables are the same but for what is kept as written. -/
structure Table.ReadsAlike (t u : Table) : Prop where
  name : u.name = t.name
  columns : List.Forall₂ (Column.ReadsAlike V) t.columns u.columns
  primaryKey : u.primaryKey = t.primaryKey
  foreignKeys : u.foreignKeys = t.foreignKeys
  indexes : u.indexes = t.indexes
  statement : V t.statement u.statement
  dialect : u.dialect = t.dialect

end Alike

variable {R : List Token → List Token → Prop} {V : Text → Text → Prop}

namespace ColumnDefinition.Draft.ReadsAlike

variable {d e : Draft}

theorem setNotNull (h : d.ReadsAlike V e) : d.setNotNull.ReadsAlike V e.setNotNull :=
  ⟨{ h.column with nullable := rfl }, h.reference⟩

theorem setPrimaryKey (h : d.ReadsAlike V e) : d.setPrimaryKey.ReadsAlike V e.setPrimaryKey :=
  ⟨{ h.column with isPrimaryKey := rfl }, h.reference⟩

theorem setUnique (h : d.ReadsAlike V e) : d.setUnique.ReadsAlike V e.setUnique :=
  ⟨{ h.column with isUnique := rfl }, h.reference⟩

theorem setDefault (h : d.ReadsAlike V e) {s t : Text} (hst : V s t) :
    (d.setDefault s).ReadsAlike V (e.setDefault t) :=
  ⟨{ h.column with default := .some hst }, h.reference⟩

theorem setReference (h : d.ReadsAlike V e) (key : ForeignKey) :
    (d.setReference key).ReadsAlike V (e.setReference key) :=
  ⟨h.column, rfl⟩

end ColumnDefinition.Draft.ReadsAlike

namespace Respacing

variable (hR : Respacing R V)
include hR

open ColumnDefinition

/-! ## Types -/

theorem afterType (continuations : List Text) {ts us : List Token} (h : R ts us) :
    Together R (afterType continuations ts) (ColumnDefinition.afterType continuations us) := by
  fun_induction ColumnDefinition.afterType continuations ts generalizing us with
  | case1 =>
    rw [hR.nil_right h, ColumnDefinition.afterType]
    exact .ok (hR.nil_right h ▸ h)
  | case2 t ts ht next hnext ih =>
    obtain ⟨u, vs, rfl, htu, hrest⟩ := hR.exists_cons h
    have hgroup := hR.afterGroup? hrest 0
    rw [hnext] at hgroup
    generalize hafter : Reader.afterGroup? 0 vs = x at hgroup
    cases hgroup with
    | some hplace =>
      rw [afterType_group (htu.kind.trans (by simpa using ht)) hafter]
      exact ih hplace
  | case3 t ts ht hnone =>
    obtain ⟨u, vs, rfl, htu, hrest⟩ := hR.exists_cons h
    have hgroup := hR.afterGroup? hrest 0
    rw [hnone] at hgroup
    generalize hafter : Reader.afterGroup? 0 vs = x at hgroup
    cases hgroup
    rw [afterType_unclosed (htu.kind.trans (by simpa using ht)) hafter]
    exact .error _ _
  | case4 t ts ht hword ih =>
    obtain ⟨u, vs, rfl, htu, hrest⟩ := hR.exists_cons h
    have ht : u.kind ≠ .leftParen := htu.kind ▸ (by simpa using ht)
    have hword : continuations.any u.isWord = true := by
      rwa [show u.isWord = t.isWord from funext htu.isWord]
    rw [afterType_word ht hword]
    exact ih hrest
  | case5 t ts ht hword =>
    obtain ⟨u, vs, rfl, htu, hrest⟩ := hR.exists_cons h
    have ht : u.kind ≠ .leftParen := htu.kind ▸ (by simpa using ht)
    have hword : continuations.any u.isWord = false := by
      rw [show u.isWord = t.isWord from funext htu.isWord]
      simpa using hword
    rw [afterType_stop ht hword]
    exact .ok h

theorem inStep_dataType : InStep (Along Chain R) V (Along Chain R) dataType dataType := by
  refine InStep.keep (fun _ _ => Chain.suffix) ?_ leavesSuffix_dataType
  intro ts us ⟨h, hchain⟩
  have hstarts : startsType us = startsType ts := by
    rw [startsType, startsType, hR.atKind h, hR.atKind h]
  rw [dataType_eq, dataType_eq, hstarts]
  split
  · refine (hR.inStep_word _ h).bind fun p q hpq => ?_
    obtain ⟨hbase, hrest⟩ := hpq
    rw [← hbase]
    exact (hR.afterType _ hrest).bind fun next next' hnext => .ok ⟨hR.verbatim_taken h hchain hnext, hnext⟩
  · exact .error _ _

end Respacing

namespace TightRespacing

variable (hR : TightRespacing R V)
include hR

open ColumnDefinition

/-! ## Default values -/

/-- A token behind another one has its counterpart on the other side, and no gap comes or goes. -/
theorem exists_next {t : Token} {ts us : List Token} (h : Behind R (t :: ts) us) :
    ∃ u vs, us = u :: vs ∧ AgreeUpToSpacing t u ∧ Behind R ts vs := by
  obtain ⟨u, vs, rfl, htu, hrest⟩ := hR.behind.exists_cons h
  obtain ⟨_, _, hplace⟩ := h
  exact ⟨u, vs, rfl, ⟨htu, hR.gap hplace⟩, hrest⟩

/-- A default value ends at a gap, whatever the gap holds. -/
theorem afterAdjacent {ts us : List Token} (h : Behind R ts us) :
    Together (Behind R) (afterAdjacent ts) (ColumnDefinition.afterAdjacent us) := by
  fun_induction ColumnDefinition.afterAdjacent ts generalizing us with
  | case1 =>
    have hnil := hR.behind.nil_right h
    rw [hnil, ColumnDefinition.afterAdjacent]
    exact .ok (hnil ▸ h)
  | case2 t ts hstop =>
    obtain ⟨u, vs, rfl, htu, hrest⟩ := hR.exists_next h
    -- the end stops a default value without a gap, everything else with one
    have hstop : (u.isEof || !u.gap.isEmpty) = true := by
      rw [Bool.or_eq_true, Token.isEof, beq_iff_eq] at hstop ⊢
      by_cases heof : t.kind = .eof
      · exact .inl (htu.kind.trans heof)
      · have hgap := hstop.resolve_left heof
        simp only [Bool.not_eq_true', List.isEmpty_eq_false_iff] at hgap ⊢
        exact .inr (mt (htu.gap heof).1 hgap)
    rw [afterAdjacent_stop hstop]
    exact .ok h
  | case3 t ts hadjacent ht next hnext ih =>
    obtain ⟨u, vs, rfl, htu, hrest⟩ := hR.exists_next h
    have ht : t.kind = .leftParen := by simpa using ht
    have hgap : t.gap = [] := by simpa [isEof, ht] using hadjacent
    have hgroup := hR.behind.afterGroup? hrest 0
    rw [hnext] at hgroup
    generalize hafter : Reader.afterGroup? 0 vs = x at hgroup
    cases hgroup with
    | some hplace =>
      rw [afterAdjacent_group ((htu.gap (by simp [ht])).2 hgap) (htu.kind.trans ht) hafter]
      exact ih hplace
  | case4 t ts hadjacent ht hnone =>
    obtain ⟨u, vs, rfl, htu, hrest⟩ := hR.exists_next h
    have ht : t.kind = .leftParen := by simpa using ht
    have hgap : t.gap = [] := by simpa [isEof, ht] using hadjacent
    have hgroup := hR.behind.afterGroup? hrest 0
    rw [hnone] at hgroup
    generalize hafter : Reader.afterGroup? 0 vs = x at hgroup
    cases hgroup
    rw [afterAdjacent_unclosed ((htu.gap (by simp [ht])).2 hgap) (htu.kind.trans ht) hafter]
    exact .error _ _
  | case5 t ts hadjacent ht ih =>
    obtain ⟨u, vs, rfl, htu, hrest⟩ := hR.exists_next h
    have ht : t.kind ≠ .leftParen := by simpa using ht
    simp only [Bool.or_eq_true, not_or, Bool.not_eq_true, Bool.not_eq_false', List.isEmpty_iff] at hadjacent
    obtain ⟨heof, hgap⟩ := hadjacent
    have heof : t.kind ≠ .eof := by simpa [isEof] using heof
    rw [afterAdjacent_cons ((htu.gap heof).2 hgap) (htu.kind ▸ heof) (htu.kind ▸ ht)]
    exact ih hrest

theorem afterItem {ts us : List Token} (h : R ts us) (hend : atEnd ts = false) :
    Together (Behind R) (afterItem ts) (ColumnDefinition.afterItem us) := by
  rw [afterItem_eq, afterItem_eq, hR.atKind h]
  split
  · exact (hR.inStep_skipGroup_behind h).bind fun p q hpq => .ok hpq.2
  · cases ts with
    | nil => cases hend
    | cons t ts =>
      obtain ⟨u, vs, rfl, -, -⟩ := hR.exists_cons h
      exact .ok ⟨t, u, h⟩

theorem inStep_defaultValue : InStep (Along Chain R) V (Along Chain R) defaultValue defaultValue := by
  refine InStep.keep (fun _ _ => Chain.suffix) ?_ leavesSuffix_defaultValue
  intro ts us ⟨h, hchain⟩
  rw [defaultValue_def, defaultValue_def, hR.atEnd h]
  split
  · exact .error _ _
  · next hend =>
    exact (hR.afterItem h (Bool.eq_false_iff.2 hend)).bind fun _ _ hitem =>
      (hR.afterAdjacent hitem).bind fun next next' hnext =>
        .ok ⟨hR.verbatim_taken h hchain (hR.of_behind hnext), hR.of_behind hnext⟩

/-! ## Attributes -/

theorem inStep_reference (column : Text) : InStep R Eq R (reference column) (reference column) := by
  refine (hR.inStep_name _).bind fun table table' htable => .look_bind (fun _ _ h => hR.atKind h _) fun named => ?_
  obtain rfl := htable
  refine InStep.start (P := R) ?_ fun _ _ h => h.1
  cases named with
  | false => exact .pure rfl
  | true => exact hR.inStep_nameList.bind fun _ _ hnames => .pure (by rw [hnames])

/-- A keyword that goes on with another one. -/
theorem pair (keyword : Keyword) {d e d' e' : Draft} (h : d.ReadsAlike V e) (h' : d'.ReadsAlike V e')
    {ts us : List Token} (hplace : R ts us) :
    Together (fun p q => p.1.ReadsAlike V q.1 ∧ R p.2 q.2)
      (if Token.atKeyword keyword ts then (.ok (d', ts.drop 1) : Except ReadError (Draft × List Token)) else .ok (d, ts))
      (if Token.atKeyword keyword us then (.ok (e', us.drop 1) : Except ReadError (Draft × List Token))
        else .ok (e, us)) := by
  rw [hR.atKeyword hplace]
  split
  · exact .ok ⟨h', hR.drop hplace⟩
  · exact .ok ⟨h, hplace⟩

theorem inStep_attributeStep {d e : Draft} (h : d.ReadsAlike V e) :
    InStep (Along Chain R) (Draft.ReadsAlike V) (Along Chain R) (attributeStep d) (attributeStep e) := by
  refine InStep.keep (fun _ _ => Chain.suffix) ?_ (leavesSuffix_attributeStep d)
  intro ts us ⟨hplace, hchain⟩
  cases ts with
  | nil =>
    obtain rfl := hR.nil_right hplace
    exact .ok ⟨h, hplace⟩
  | cons t ts =>
    obtain ⟨u, vs, rfl, htu, hrest⟩ := hR.exists_cons hplace
    simp only [attributeStep, htu.keyword?, htu.kind]
    split
    · exact hR.pair .null h h.setNotNull hrest
    · exact hR.pair .key h h.setPrimaryKey hrest
    · exact .ok ⟨h.setUnique, hrest⟩
    · have hdefault : InStep (Along Chain R) (Draft.ReadsAlike V) (Along Chain R) (d.setDefault <$> defaultValue)
          (e.setDefault <$> defaultValue) := hR.inStep_defaultValue.map fun _ _ hst => h.setDefault hst
      exact (hdefault ⟨hrest, hchain.tail⟩).mono fun _ _ hpq => ⟨hpq.1, hpq.2.1⟩
    · rw [h.column.name]
      exact ((hR.inStep_reference _).map fun k l (hkl : k = l) => hkl ▸ h.setReference k) hrest
    · exact ((hR.inStep_word _).map fun _ _ _ => h) hrest
    · split
      · exact (hR.inStep_skipGroup.map fun _ _ _ => h) hplace
      · exact .ok ⟨h, hrest⟩

theorem attributes {d e : Draft} (h : d.ReadsAlike V e) {ts us : List Token} (hplace : Along Chain R ts us) :
    Together (Draft.ReadsAlike V) (attributes d ts) (ColumnDefinition.attributes e us) := by
  fun_induction ColumnDefinition.attributes d ts generalizing e us with
  | case1 d ts hts =>
    rw [attributes_eq, hR.atEnd hplace.1, if_pos hts]
    exact .ok h
  | case2 d ts hts error hstep =>
    have htogether := hR.inStep_attributeStep h hplace
    rw [attributes_eq e us, hR.atEnd hplace.1, if_neg hts]
    rw [hstep] at htogether
    generalize attributeStep e us = y at htogether ⊢
    cases htogether
    exact .error _ _
  | case3 d ts hts next rest hstep ih =>
    have htogether := hR.inStep_attributeStep h hplace
    rw [attributes_eq e us, hR.atEnd hplace.1, if_neg hts]
    rw [hstep] at htogether
    generalize attributeStep e us = y at htogether ⊢
    cases htogether with
    | ok related => exact ih related.1 related.2

/-- A column definition reads alike behind other gaps. -/
theorem column {ts us : List Token} (h : Along Chain R ts us) :
    Together (Draft.ReadsAlike V) (ColumnDefinition.read ts) (ColumnDefinition.read us) := by
  rw [read_eq, read_eq]
  refine ((hR.inStep_word _).along (fun _ _ => Chain.suffix) (leavesSuffix_word _) h).bind fun p q hpq =>
    (hR.inStep_dataType hpq.2).bind fun p' q' hpq' => hR.attributes ?_ hpq'.2
  exact ⟨⟨hpq.1.symm, hpq'.1, rfl, rfl, rfl, .none⟩, rfl⟩

/-! ## Constraints -/

theorem inStep_readName : InStep R Eq R Constraint.readName Constraint.readName := by
  refine (hR.inStep_eatKeyword .constraint).bind fun named named' hnamed => ?_
  obtain rfl := hnamed
  cases named with
  | false => exact .pure rfl
  | true => exact (hR.inStep_word _).bind fun _ _ _ => .pure rfl

/-- A constraint has nothing that is kept as written. -/
theorem inStep_constraint : InStep R Eq R Constraint.read Constraint.read := by
  have hskip {keyword : Option Keyword} :
      InStep (fun ts us => R ts us ∧ Token.headKeyword? ts = keyword) Eq R skip skip :=
    hR.inStep_skip.start fun _ _ h => h.1
  refine hR.inStep_readName.bind fun _ _ _ => .look_bind (fun _ _ h => hR.headKeyword? h) fun keyword => ?_
  split
  · exact hskip.bind fun _ _ _ => (hR.inStep_expectKeyword .key).bind fun _ _ _ =>
      hR.inStep_nameList.bind fun _ _ hcolumns => .pure (by rw [hcolumns])
  · refine hskip.bind fun _ _ _ => (hR.inStep_expectKeyword .key).bind fun _ _ _ =>
      hR.inStep_nameList.bind fun columns columns' hcolumns => (hR.inStep_expectKeyword .references).bind fun _ _ _ =>
        (hR.inStep_name _).bind fun table table' htable => .look_bind (fun _ _ h => hR.atKind h _) fun named =>
          .start (P := R) ?_ fun _ _ h => h.1
    obtain rfl := hcolumns
    obtain rfl := htable
    cases named with
    | false => exact .pure rfl
    | true => exact hR.inStep_nameList.bind fun _ _ hreferenced => .pure (by rw [hreferenced])
  · have hcolumns : InStep R Eq R (nameList >>= fun columns => pure (Constraint.unique columns))
        (nameList >>= fun columns => pure (Constraint.unique columns)) :=
      hR.inStep_nameList.bind fun _ _ hcolumns => .pure (by rw [hcolumns])
    have hunique : InStep R Eq R
        (look (Token.atKind .leftParen) >>= fun bare =>
          if bare then nameList >>= fun columns => pure (Constraint.unique columns)
          else word "constraint name" >>= fun _ => nameList >>= fun columns => pure (Constraint.unique columns))
        (look (Token.atKind .leftParen) >>= fun bare =>
          if bare then nameList >>= fun columns => pure (Constraint.unique columns)
          else word "constraint name" >>= fun _ => nameList >>= fun columns => pure (Constraint.unique columns)) :=
      .look_bind (fun _ _ h => hR.atKind h _) fun bare => .start (P := R) (by
        cases bare with
        | true => exact hcolumns
        | false => exact (hR.inStep_word _).bind fun _ _ _ => hcolumns) fun _ _ h => h.1
    refine hskip.bind fun _ _ _ => (hR.inStep_eatKeyword .key).bind fun key key' hkey => ?_
    obtain rfl := hkey
    cases key with
    | true => exact hunique
    | false => exact (hR.inStep_eatKeyword .index).bind fun _ _ _ => hunique
  · exact InStep.start (.pure rfl) fun _ _ h => h.1
  · exact .fail _

/-! ## Declarations -/

/-- A part of a table body declares alike behind other gaps. -/
theorem declarationOf? {ts us : List Token} (h : Along Chain R ts us) :
    Option.Rel (Declaration.ReadsAlike V) (Fragment.declarationOf? ts) (Fragment.declarationOf? us) := by
  have hstart : Fragment.isConstraint us = Fragment.isConstraint ts := by
    rw [Fragment.isConstraint, Fragment.isConstraint, hR.headKeyword? h.1]
  rw [Fragment.declarationOf?_eq, Fragment.declarationOf?_eq, hstart]
  apply Together.toOption
  split
  · exact (hR.inStep_constraint h.1).bind fun p q hpq => .ok (hpq.1 ▸ .constraint p.1)
  · exact (hR.column h).bind fun d e hde => .ok (.column hde)

end TightRespacing

/-! ## Tables -/

namespace Declaration.ReadsAlike

variable {d e : Declaration} (h : d.ReadsAlike V e)
include h

theorem column? : Option.Rel (Column.ReadsAlike V) d.column? e.column? := by
  cases h with
  | column draft => exact .some draft.column
  | constraint c => exact .none

theorem uniqueColumn? : e.uniqueColumn? = d.uniqueColumn? := by
  cases h <;> rfl

theorem primaryKey? : e.primaryKey? = d.primaryKey? := by
  cases h <;> rfl

theorem foreignKeys : e.foreignKeys = d.foreignKeys := by
  cases h with
  | column draft => rw [Declaration.foreignKeys, Declaration.foreignKeys, draft.reference]
  | constraint c => rfl

end Declaration.ReadsAlike

theorem Table.readsAlike_markUnique {cs es : List Column} (h : List.Forall₂ (Column.ReadsAlike V) cs es) (name : Text) :
    List.Forall₂ (Column.ReadsAlike V) (markUnique cs name) (markUnique es name) :=
  rel_modifyFirst (fun c e hce => by rw [hce.name]) (fun c e hce => { hce with isUnique := rfl }) h

/-- Tables that are made of alike declarations are alike. -/
theorem Table.readsAlike_ofDeclarations (name : Text) {s t : Text} (hst : V s t) (dialect : Dialect)
    {ds es : List Declaration} (h : List.Forall₂ (Declaration.ReadsAlike V) ds es) :
    (ofDeclarations name s dialect ds).ReadsAlike V (ofDeclarations name t dialect es) := by
  have hplain := List.rel_filterMap (fun _ _ hde => Declaration.ReadsAlike.column? hde) h
  have hunique : es.filterMap Declaration.uniqueColumn? = ds.filterMap Declaration.uniqueColumn? := by
    rw [← Function.id_comp Declaration.uniqueColumn?, ← List.filterMap_map, ← List.filterMap_map,
      map_eq_of_forall₂ (fun _ _ hde => Declaration.ReadsAlike.uniqueColumn? hde) h]
  have hprimary : es.findSome? Declaration.primaryKey? = ds.findSome? Declaration.primaryKey? := by
    rw [← Function.id_comp Declaration.primaryKey?, ← List.findSome?_map, ← List.findSome?_map,
      map_eq_of_forall₂ (fun _ _ hde => Declaration.ReadsAlike.primaryKey? hde) h]
  have hkeys : es.flatMap Declaration.foreignKeys = ds.flatMap Declaration.foreignKeys := by
    rw [List.flatMap_def, List.flatMap_def,
      map_eq_of_forall₂ (fun _ _ hde => Declaration.ReadsAlike.foreignKeys hde) h]
  have hcolumns : List.Forall₂ (Column.ReadsAlike V)
      ((ds.filterMap Declaration.uniqueColumn?).foldl markUnique (ds.filterMap Declaration.column?))
      ((ds.filterMap Declaration.uniqueColumn?).foldl markUnique (es.filterMap Declaration.column?)) := by
    refine List.rel_foldl (P := List.Forall₂ (Column.ReadsAlike V)) (R := Eq) (fun cs es hcs n m hnm => ?_) hplain
      (List.forall₂_refl _)
    obtain rfl := hnm
    exact readsAlike_markUnique hcs n
  have hmarked := rel_find? (p := Column.isPrimaryKey) (q := Column.isPrimaryKey)
    (fun _ _ hce => hce.isPrimaryKey) hcolumns
  refine ⟨rfl, ?_, ?_, hkeys, rfl, hst, rfl⟩
  · rw [ofDeclarations, ofDeclarations, hunique]
    exact hcolumns
  · have hname (x y : Option Column) (h : Option.Rel (Column.ReadsAlike V) x y) :
        y.map Column.name = x.map Column.name := by
      cases h with
      | none => rfl
      | some hce => exact congrArg some hce.name
    show (_ <|> _) = (_ <|> _)
    rw [hprimary, hunique, hname _ _ hmarked]

end DialectBridge
