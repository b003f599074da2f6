import DialectBridge.Proofs.Rename.Reading
import DialectBridge.Proofs.Schema.Parts

/-!
# Columns of renamed tokens

The definition of a column among renamed tokens reads as the renamed column: its name and the names that
its reference gives are replaced, and its type and default value are replaced as written
(`column_renamed`).
-/

namespace DialectBridge

open Token Reader

namespace Glossary

open ColumnDefinition

/-- A verbatim piece and what it becomes. -/
def RenamesVerbatim (g : Glossary) (s t : Text) : Prop :=
  t = g.replaceNames s

/-- The column with replaced words. -/
def renameColumn (g : Glossary) (c : Column) : Column :=
  { c with name := g.replace c.name, dataType := g.replaceNames c.dataType, default := c.default.map g.replaceNames }

/-- The reference with replaced words. -/
def renameKey (g : Glossary) (k : ForeignKey) : ForeignKey :=
  ⟨g.replace k.column, g.replace k.table, g.replace k.referencedColumn⟩

/-- A reference to known names and what it becomes. -/
structure RenamesKey (g : Glossary) (k l : ForeignKey) : Prop where
  table : g.Knows k.table
  referencedColumn : g.Knows k.referencedColumn
  eq : l = g.renameKey k

/-- What has been read of a column definition, and what it becomes. -/
structure RenamesDraft (g : Glossary) (d e : ColumnDefinition.Draft) : Prop where
  name : g.Knows d.column.name
  column : e.column = g.renameColumn d.column
  reference : Option.Rel g.RenamesKey d.reference e.reference

variable {g : Glossary}

/-- A verbatim piece among renamed tokens is the replaced piece. -/
theorem verbatim_taken_renamed (hg : g.KeepsApart) {ts us rest rest' : List Token} (h : g.Fresh ts us) (hts : Chain ts)
    (hrest : g.Anywhere rest rest') : verbatim (taken us rest') = g.replaceNames (verbatim (taken ts rest)) := by
  obtain ⟨inside, hrest⟩ := hrest
  have htaken := h.taken hrest.length_eq
  have hchain : Chain (taken ts rest) := by
    have hwhole : Chain (taken ts rest ++ ts.drop (ts.length - rest.length)) := by
      rwa [Token.taken, List.take_append_drop]
    exact hwhole.left
  rw [htaken.eq, verbatim_respellTokens hg hchain htaken.ascii]

/-! ## Types -/

theorem afterType_renamed (hg : g.KeepsApart) {continuations : List Text} (hwords : ∀ w ∈ continuations, w ∈ reservedWords)
    {ts us : List Token} (h : g.Fresh ts us) :
    Together g.Fresh (afterType continuations ts) (afterType continuations us) := by
  have hcontinues {joined : Bool} {t : Token}
      (hname : joined = false → ∀ n ∈ t.name?, g.Knows n ∧ (g.respellToken false t).name? = some (g.replace n)) :
      continuations.any (g.respellToken joined t).isWord = continuations.any t.isWord := by
    rw [Bool.eq_iff_iff, List.any_eq_true, List.any_eq_true]
    refine exists_congr fun w => and_congr_right fun hw => ?_
    rw [isWord_respellToken hg hname (hwords w hw)]
  fun_induction afterType continuations ts generalizing us with
  | case1 =>
    cases h
    rw [afterType]
    exact .ok (.nil _)
  | case2 t ts ht next hnext ih =>
    have ht : t.kind = .leftParen := by simpa using ht
    obtain ⟨vs, rfl, hgroup⟩ := Anywhere.group (Fresh.anywhere _ _ h) ht
    rw [hnext] at hgroup
    generalize hgap : afterGroup? 0 vs = x at hgroup
    cases hgroup with
    | some hfresh =>
      rw [afterType_group ht hgap]
      exact ih hfresh
  | case3 t ts ht hnone =>
    have ht : t.kind = .leftParen := by simpa using ht
    obtain ⟨vs, rfl, hgroup⟩ := Anywhere.group (Fresh.anywhere _ _ h) ht
    rw [hnone] at hgroup
    generalize hgap : afterGroup? 0 vs = x at hgroup
    cases hgroup
    rw [afterType_unclosed ht hgap]
    exact .error _ _
  | case4 t ts ht hword ih =>
    have hruns : t.runsOn = false := by
      obtain ⟨w, -, hw⟩ := List.any_eq_true.1 hword
      exact runsOn_of_isWord hw
    have ht : t.kind ≠ .leftParen := by simpa using ht
    cases h with
    | cons _ name hrest =>
      rw [afterType_word (mt (kind_respellToken_iff (by simp) (by simp)).1 ht) ((hcontinues name).trans hword)]
      rw [hruns] at hrest
      exact ih hrest
  | case5 t ts ht hword =>
    have ht : t.kind ≠ .leftParen := by simpa using ht
    have hword : continuations.any t.isWord = false := by simpa using hword
    cases id h with
    | cons _ name _ =>
      rw [afterType_stop (mt (kind_respellToken_iff (by simp) (by simp)).1 ht) ((hcontinues name).trans hword)]
      exact .ok h

theorem inStep_dataType (hg : g.KeepsApart) :
    InStep (Along Chain g.Fresh) g.RenamesVerbatim (Along Chain g.Fresh) dataType dataType := by
  refine InStep.keep (fun _ _ => Chain.suffix) ?_ leavesSuffix_dataType
  intro ts us h
  obtain ⟨hfresh, hchain⟩ := h
  have hstarts : startsType us = startsType ts := by
    rw [startsType, startsType, hfresh.atKind, hfresh.atKind]
  rw [dataType_eq, dataType_eq, hstarts]
  split
  · refine (inStep_word _ hfresh).bind fun p q hpq => ?_
    obtain ⟨⟨hbase, hname⟩, hrest⟩ := hpq
    rw [hname, typeContinuations_replace hg hbase]
    exact (afterType_renamed hg (fun w => mem_reserved_of_typeContinuations) hrest).bind fun next next' hnext =>
      .ok ⟨verbatim_taken_renamed hg hfresh hchain (Fresh.anywhere _ _ hnext), hnext⟩
  · exact .error _ _

/-! ## Default values -/

theorem afterAdjacent_renamed {ts us : List Token} (h : g.Anywhere ts us) :
    Together g.Anywhere (afterAdjacent ts) (afterAdjacent us) := by
  fun_induction afterAdjacent ts generalizing us with
  | case1 =>
    obtain ⟨inside, h⟩ := h
    cases h
    rw [afterAdjacent]
    exact .ok ⟨inside, .nil _⟩
  | case2 t ts hstop =>
    obtain ⟨inside, hrenamed⟩ := id h
    cases hrenamed with
    | cons _ _ _ =>
      rw [afterAdjacent_stop (by rwa [isEof_respellToken, gap_respellToken])]
      exact .ok h
  | case3 t ts hadjacent ht next hnext ih =>
    have ht : t.kind = .leftParen := by simpa using ht
    have hgap : t.gap = [] := by simpa [isEof, ht] using hadjacent
    obtain ⟨vs, rfl, hgroup⟩ := Anywhere.group h ht
    rw [hnext] at hgroup
    generalize hafter : afterGroup? 0 vs = x at hgroup
    cases hgroup with
    | some hfresh =>
      rw [afterAdjacent_group hgap ht hafter]
      exact ih (Fresh.anywhere _ _ hfresh)
  | case4 t ts hadjacent ht hnone =>
    have ht : t.kind = .leftParen := by simpa using ht
    have hgap : t.gap = [] := by simpa [isEof, ht] using hadjacent
    obtain ⟨vs, rfl, hgroup⟩ := Anywhere.group h ht
    rw [hnone] at hgroup
    generalize hafter : afterGroup? 0 vs = x at hgroup
    cases hgroup
    rw [afterAdjacent_unclosed hgap ht hafter]
    exact .error _ _
  | case5 t ts hadjacent ht ih =>
    have ht : t.kind ≠ .leftParen := by simpa using ht
    simp only [Bool.or_eq_true, not_or, Bool.not_eq_true, Bool.not_eq_false', List.isEmpty_iff] at hadjacent
    obtain ⟨heof, hgap⟩ := hadjacent
    have heof : t.kind ≠ .eof := by simpa [isEof] using heof
    obtain ⟨inside, h⟩ := h
    cases h with
    | cons _ _ hrest =>
      rw [afterAdjacent_cons ((gap_respellToken _ t).trans hgap)
        (mt (kind_respellToken_iff (by simp) (by simp)).1 heof) (mt (kind_respellToken_iff (by simp) (by simp)).1 ht)]
      exact ih ⟨_, hrest⟩

theorem afterItem_renamed {ts us : List Token} (h : g.Anywhere ts us) :
    Together g.Anywhere (afterItem ts) (afterItem us) := by
  obtain ⟨inside, hrenamed⟩ := id h
  rw [afterItem_eq, afterItem_eq, hrenamed.atKind]
  split
  · exact (inStep_skipGroup h).bind fun p q hpq => .ok (Fresh.anywhere _ _ hpq.2)
  · exact .ok h.drop

theorem inStep_defaultValue (hg : g.KeepsApart) :
    InStep (Along Chain g.Fresh) g.RenamesVerbatim (Along Chain g.Anywhere) defaultValue defaultValue := by
  refine InStep.keep (fun _ _ => Chain.suffix) ?_ leavesSuffix_defaultValue
  intro ts us h
  obtain ⟨hfresh, hchain⟩ := h
  rw [defaultValue_def, defaultValue_def, hfresh.atEnd]
  split
  · exact .error _ _
  · exact (afterItem_renamed (Fresh.anywhere _ _ hfresh)).bind fun _ _ hitem => (afterAdjacent_renamed hitem).bind
      fun next next' hnext => .ok ⟨verbatim_taken_renamed hg hfresh hchain hnext, hnext⟩

/-! ## Attributes -/

theorem inStep_reference (hg : g.KeepsApart) (column : Text) :
    InStep g.Fresh g.RenamesKey g.Fresh (reference column) (reference (g.replace column)) := by
  refine (inStep_name hg _).bind fun table table' htable => .look_bind (fun _ _ h => h.atKind _) fun named => ?_
  obtain ⟨hknows, rfl⟩ := htable
  cases named with
  | false =>
    refine (InStep.pure ⟨hknows, knows_nil, ?_⟩).start fun _ _ h => h.1
    rw [renameKey, replace_nil hg.toListsNames]
  | true =>
    refine (inStep_nameList.start fun _ _ h => Fresh.anywhere _ _ h.1).bind fun ns ms hnames => .pure ?_
    obtain ⟨hns, rfl⟩ := hnames
    cases ns with
    | nil => exact ⟨hknows, knows_nil, by rw [renameKey, List.headD_nil, replace_nil hg.toListsNames]; rfl⟩
    | cons n ns => exact ⟨hknows, hns n List.mem_cons_self, rfl⟩

section Drafts

variable {d e : Draft}

theorem RenamesDraft.setNotNull (h : g.RenamesDraft d e) : g.RenamesDraft d.setNotNull e.setNotNull :=
  ⟨h.name, by simp [Draft.setNotNull, h.column, renameColumn], h.reference⟩

theorem RenamesDraft.setPrimaryKey (h : g.RenamesDraft d e) : g.RenamesDraft d.setPrimaryKey e.setPrimaryKey :=
  ⟨h.name, by simp [Draft.setPrimaryKey, h.column, renameColumn], h.reference⟩

theorem RenamesDraft.setUnique (h : g.RenamesDraft d e) : g.RenamesDraft d.setUnique e.setUnique :=
  ⟨h.name, by simp [Draft.setUnique, h.column, renameColumn], h.reference⟩

theorem RenamesDraft.setDefault (h : g.RenamesDraft d e) {s t : Text} (hst : g.RenamesVerbatim s t) :
    g.RenamesDraft (d.setDefault s) (e.setDefault t) := by
  obtain rfl := hst
  exact ⟨h.name, by simp [Draft.setDefault, h.column, renameColumn], h.reference⟩

theorem RenamesDraft.setReference (h : g.RenamesDraft d e) {k l : ForeignKey} (hkl : g.RenamesKey k l) :
    g.RenamesDraft (d.setReference k) (e.setReference l) :=
  ⟨h.name, h.column, .some hkl⟩

end Drafts

/-- A keyword that goes on with another one. -/
theorem pair_renamed (keyword : Keyword) {d e d' e' : Draft} (h : g.RenamesDraft d e) (h' : g.RenamesDraft d' e')
    {ts us : List Token} (hplace : g.Fresh ts us) :
    Together (fun p q => g.RenamesDraft p.1 q.1 ∧ g.Fresh p.2 q.2)
      (if atKeyword keyword ts then (.ok (d', ts.drop 1) : Except ReadError (Draft × List Token)) else .ok (d, ts))
      (if atKeyword keyword us then (.ok (e', us.drop 1) : Except ReadError (Draft × List Token)) else .ok (e, us)) := by
  rw [hplace.atKeyword keyword]
  split
  · next hts => exact .ok ⟨h', (Fresh.anywhere _ _ hplace).dropKeyword hts⟩
  · exact .ok ⟨h, hplace⟩

theorem inStep_attributeStep (hg : g.KeepsApart) {d e : Draft} (h : g.RenamesDraft d e) :
    InStep (Along Chain g.Anywhere) g.RenamesDraft (Along Chain g.Anywhere) (attributeStep d) (attributeStep e) := by
  refine InStep.keep (fun _ _ => Chain.suffix) ?_ (leavesSuffix_attributeStep d)
  intro ts us hplace
  obtain ⟨⟨inside, hrenamed⟩, hchain⟩ := hplace
  cases id hrenamed with
  | nil => exact .ok ⟨h, ⟨inside, hrenamed⟩⟩
  | @cons _ t ts vs _ _ hrest =>
    -- behind a keyword no word goes on
    have hfresh {k : Keyword} (ht : t.keyword? = some k) : g.Fresh ts vs := by
      rw [runsOn_keyword (keyword?_eq_some.1 ht)] at hrest
      exact hrest
    have hleft : ((g.respellToken (t.isJoined inside) t).kind == .leftParen) = (t.kind == .leftParen) := by
      rw [Bool.eq_iff_iff, beq_iff_eq, beq_iff_eq]
      exact kind_respellToken_iff (by simp) (by simp)
    have hloose {p q : Draft × List Token} (hpq : g.RenamesDraft p.1 q.1 ∧ g.Fresh p.2 q.2) :
        g.RenamesDraft p.1 q.1 ∧ g.Anywhere p.2 q.2 := ⟨hpq.1, Fresh.anywhere _ _ hpq.2⟩
    simp only [attributeStep, keyword?_respellToken, hleft]
    split
    · next ht => exact (pair_renamed .null h h.setNotNull (hfresh ht)).mono fun _ _ => hloose
    · next ht => exact (pair_renamed .key h h.setPrimaryKey (hfresh ht)).mono fun _ _ => hloose
    · next ht => exact .ok ⟨h.setUnique, Fresh.anywhere _ _ (hfresh ht)⟩
    · next ht =>
      have hdefault : InStep (Along Chain g.Fresh) g.RenamesDraft (Along Chain g.Anywhere)
          (d.setDefault <$> defaultValue) (e.setDefault <$> defaultValue) :=
        (inStep_defaultValue hg).map fun _ _ hst => h.setDefault hst
      exact (hdefault ⟨hfresh ht, hchain.tail⟩).mono fun _ _ hpq => ⟨hpq.1, hpq.2.1⟩
    · next ht =>
      rw [h.column]
      exact (((inStep_reference hg _).map fun _ _ hkl => h.setReference hkl) (hfresh ht)).mono fun _ _ => hloose
    · next ht => exact (((inStep_word _).map fun _ _ _ => h) (hfresh ht)).mono fun _ _ => hloose
    · split
      · exact ((inStep_skipGroup.map fun _ _ _ => h) ⟨inside, hrenamed⟩).mono fun _ _ hpq =>
          ⟨hpq.1, Fresh.anywhere _ _ hpq.2⟩
      · exact .ok ⟨h, ⟨_, hrest⟩⟩

theorem attributes_renamed (hg : g.KeepsApart) {d e : Draft} (h : g.RenamesDraft d e) {ts us : List Token}
    (hplace : Along Chain g.Anywhere ts us) : Together g.RenamesDraft (attributes d ts) (attributes e us) := by
  have hend {ts us : List Token} (h : Along Chain g.Anywhere ts us) : atEnd us = atEnd ts := by
    obtain ⟨⟨inside, hrenamed⟩, -⟩ := h
    exact hrenamed.atEnd
  fun_induction attributes d ts generalizing e us with
  | case1 d ts hts =>
    rw [attributes_eq, hend hplace, if_pos hts]
    exact .ok h
  | case2 d ts hts error hstep =>
    have htogether := inStep_attributeStep hg h hplace
    rw [attributes_eq e us, hend hplace, if_neg hts]
    rw [hstep] at htogether
    generalize attributeStep e us = y at htogether ⊢
    cases htogether
    exact .error _ _
  | case3 d ts hts next rest hstep ih =>
    have htogether := inStep_attributeStep hg h hplace
    rw [attributes_eq e us, hend hplace, if_neg hts]
    rw [hstep] at htogether
    generalize attributeStep e us = y at htogether ⊢
    cases htogether with
    | ok related => exact ih related.1 related.2

/-- A column definition among renamed tokens is the definition of the renamed column. -/
theorem column_renamed (hg : g.KeepsApart) {ts us : List Token} (h : Along Chain g.Fresh ts us) :
    Together g.RenamesDraft (ColumnDefinition.read ts) (ColumnDefinition.read us) := by
  rw [read_eq, read_eq]
  refine ((inStep_word _).along (fun _ _ => Chain.suffix) (leavesSuffix_word _) h).bind fun p q hpq =>
    (inStep_dataType hg hpq.2).bind fun p' q' hpq' => attributes_renamed hg ⟨hpq.1.1, ?_, .none⟩
      ⟨Fresh.anywhere _ _ hpq'.2.1, hpq'.2.2⟩
  rw [hpq.1.2, hpq'.1]
  rfl

end Glossary

end DialectBridge
