import DialectBridge.Proofs.Rename.Columns

/-!
# Declarations of renamed tokens

A part of a table body among renamed tokens declares the renamed column or constraint
(`declarationOf?_renamed`), and the table of renamed declarations is the renamed table
(`renamesTable_ofDeclarations`).
-/

namespace DialectBridge

open Token Reader

namespace Glossary

/-- A constraint on known names and what it becomes. -/
inductive RenamesConstraint (g : Glossary) : Constraint → Constraint → Prop where
  | primaryKey {ns ms : List Text} (columns : g.RenamesAll ns ms) :
      RenamesConstraint g (.primaryKey ns) (.primaryKey ms)
  | foreignKey {ns ms rs ss : List Text} {t u : Text} (columns : g.RenamesAll ns ms) (table : g.Renames t u)
      (referenced : g.RenamesAll rs ss) : RenamesConstraint g (.foreignKey ns t rs) (.foreignKey ms u ss)
  | unique {ns ms : List Text} (columns : g.RenamesAll ns ms) : RenamesConstraint g (.unique ns) (.unique ms)
  | check : RenamesConstraint g .check .check

/-- What a fragment declares and what it becomes. -/
inductive RenamesDeclaration (g : Glossary) : Declaration → Declaration → Prop where
  | column {d e : ColumnDefinition.Draft} (draft : g.RenamesDraft d e) : RenamesDeclaration g (.column d) (.column e)
  | constraint {c k : Constraint} (constraint : g.RenamesConstraint c k) :
      RenamesDeclaration g (.constraint c) (.constraint k)

/-- The table with replaced words. -/
def renameTable (g : Glossary) (t : Table) : Table where
  name := g.replace t.name
  columns := t.columns.map g.renameColumn
  primaryKey := t.primaryKey.map g.replace
  foreignKeys := t.foreignKeys.map g.renameKey
  indexes := t.indexes.map g.replace
  statement := g.replaceNames t.statement
  dialect := t.dialect

/-- A column with a known name and what it becomes. -/
structure RenamesColumn (g : Glossary) (c e : Column) : Prop where
  name : g.Knows c.name
  eq : e = g.renameColumn c

/-- A table with known names and what it becomes. -/
structure RenamesTable (g : Glossary) (t u : Table) : Prop where
  name : g.Knows t.name
  foreignKeys : List.Forall₂ g.RenamesKey t.foreignKeys u.foreignKeys
  eq : u = g.renameTable t

variable {g : Glossary}

/-! ## Constraints -/

theorem inStep_readName : InStep g.Fresh (fun _ _ => True) g.Fresh Constraint.readName Constraint.readName := by
  refine (inStep_eatKeyword .constraint).bind fun named named' hnamed => ?_
  obtain rfl := hnamed
  cases named with
  | false => exact .pure trivial
  | true => exact (inStep_word _).bind fun _ _ _ => .pure trivial

theorem inStep_constraint (hg : g.KeepsApart) :
    InStep g.Fresh g.RenamesConstraint g.Fresh Constraint.read Constraint.read := by
  -- the keyword that both sides see is passed
  have hskip {k : Keyword} : InStep (fun ts us => g.Fresh ts us ∧ headKeyword? ts = some k) (fun _ _ => True) g.Fresh
      skip skip := by
    intro ts us h
    refine .ok ⟨trivial, (Fresh.anywhere _ _ h.1).dropKeyword (k := k) ?_⟩
    cases ts with
    | nil => cases h.2
    | cons t ts =>
      rw [atKeyword, headKind, keyword?_eq_some.1 h.2, beq_self_eq_true]
  have hexpect (k : Keyword) : InStep g.Fresh (fun _ _ => True) g.Fresh (expectKeyword k) (expectKeyword k) :=
    (inStep_expectKeyword k).start Fresh.anywhere
  have hlist : InStep g.Fresh g.RenamesAll g.Fresh nameList nameList := inStep_nameList.start Fresh.anywhere
  refine inStep_readName.bind fun _ _ _ => .look_bind (fun _ _ h => h.headKeyword?) fun keyword => ?_
  split
  · exact hskip.bind fun _ _ _ => (hexpect .key).bind fun _ _ _ => hlist.bind fun _ _ hcolumns =>
      .pure (.primaryKey hcolumns)
  · refine hskip.bind fun _ _ _ => (hexpect .key).bind fun _ _ _ => hlist.bind fun _ _ hcolumns =>
      (hexpect .references).bind fun _ _ _ => (inStep_name hg _).bind fun _ _ htable =>
        .look_bind (fun _ _ h => h.atKind _) fun named => .start ?_ fun _ _ h => h.1
    cases named with
    | false => exact .pure (.foreignKey hcolumns htable .nil)
    | true => exact hlist.bind fun _ _ hreferenced => .pure (.foreignKey hcolumns htable hreferenced)
  · have hcolumns : InStep g.Fresh g.RenamesConstraint g.Fresh (nameList >>= fun columns => pure (.unique columns))
        (nameList >>= fun columns => pure (.unique columns)) :=
      hlist.bind fun _ _ hcolumns => .pure (.unique hcolumns)
    have hunique : InStep g.Fresh g.RenamesConstraint g.Fresh
        (look (atKind .leftParen) >>= fun bare =>
          if bare then nameList >>= fun columns => pure (.unique columns)
          else word "constraint name" >>= fun _ => nameList >>= fun columns => pure (.unique columns))
        (look (atKind .leftParen) >>= fun bare =>
          if bare then nameList >>= fun columns => pure (.unique columns)
          else word "constraint name" >>= fun _ => nameList >>= fun columns => pure (.unique columns)) :=
      .look_bind (fun _ _ h => h.atKind _) fun bare => .start (P := g.Fresh) (by
        cases bare with
        | true => exact hcolumns
        | false => exact (inStep_word _).bind fun _ _ _ => hcolumns) fun _ _ h => h.1
    refine hskip.bind fun _ _ _ => (inStep_eatKeyword .key).bind fun key key' hkey => ?_
    obtain rfl := hkey
    cases key with
    | true => exact hunique
    | false => exact (inStep_eatKeyword .index).bind fun _ _ _ => hunique
  · exact InStep.start (.pure .check) fun _ _ h => h.1
  · exact .fail _

/-! ## Fragments -/

/-- Renamed tokens declare the renamed column or constraint. -/
theorem declarationOf?_renamed (hg : g.KeepsApart) {ts us : List Token} (h : Along Chain g.Fresh ts us) :
    Option.Rel g.RenamesDeclaration (Fragment.declarationOf? ts) (Fragment.declarationOf? us) := by
  have hstart : Fragment.isConstraint us = Fragment.isConstraint ts := by
    rw [Fragment.isConstraint, Fragment.isConstraint, h.1.headKeyword?]
  rw [Fragment.declarationOf?_eq, Fragment.declarationOf?_eq, hstart]
  apply Together.toOption
  split
  · exact (inStep_constraint hg h.1).bind fun p q hpq => .ok (.constraint hpq.1)
  · exact (column_renamed hg h).bind fun d e hde => .ok (.column hde)

/-! ## What a declaration gives to its table -/

theorem RenamesAll.forall₂ {ns ms : List Text} (h : g.RenamesAll ns ms) : List.Forall₂ g.Renames ns ms := by
  obtain ⟨hknows, rfl⟩ := h
  rw [List.forall₂_map_right_iff, List.forall₂_same]
  exact fun n hn => ⟨hknows n hn, rfl⟩

section Declarations

variable {d e : Declaration}

theorem RenamesDeclaration.column? (h : g.RenamesDeclaration d e) : Option.Rel g.RenamesColumn d.column? e.column? := by
  cases h with
  | column draft => exact .some ⟨draft.name, draft.column⟩
  | constraint _ => exact .none

theorem RenamesDeclaration.uniqueColumn? (h : g.RenamesDeclaration d e) :
    Option.Rel g.Renames d.uniqueColumn? e.uniqueColumn? := by
  cases h with
  | column _ => exact .none
  | constraint h =>
    cases h with
    | unique columns =>
      cases columns.forall₂ with
      | nil => exact .none
      | cons hnm hrest =>
        cases hrest with
        | nil => exact .some hnm
        | cons _ _ => exact .none
    | _ => exact .none

theorem RenamesDeclaration.primaryKey? (h : g.RenamesDeclaration d e) :
    Option.Rel g.Renames d.primaryKey? e.primaryKey? := by
  cases h with
  | column _ => exact .none
  | constraint h =>
    cases h with
    | primaryKey columns => exact rel_head? columns.forall₂
    | _ => exact .none

theorem renamesKey_pair (hg : g.KeepsApart) {t u : Text} (htable : g.Renames t u) {ns ms rs ss : List Text}
    (hcolumns : List.Forall₂ g.Renames ns ms) (hreferenced : List.Forall₂ g.Renames rs ss) :
    List.Forall₂ g.RenamesKey (Constraint.foreignKeys.pair t ns rs) (Constraint.foreignKeys.pair u ms ss) := by
  obtain ⟨htable, rfl⟩ := htable
  induction hcolumns generalizing rs ss with
  | nil => exact .nil
  | cons hcolumn _ ih =>
    obtain ⟨-, rfl⟩ := hcolumn
    cases hreferenced with
    | nil =>
      refine .cons ⟨htable, knows_nil, ?_⟩ (ih .nil)
      rw [renameKey, replace_nil hg.toListsNames]
    | cons hfirst hrest =>
      obtain ⟨hknows, rfl⟩ := hfirst
      exact .cons ⟨htable, hknows, rfl⟩ (ih hrest)

theorem RenamesDeclaration.foreignKeys (hg : g.KeepsApart) (h : g.RenamesDeclaration d e) :
    List.Forall₂ g.RenamesKey d.foreignKeys e.foreignKeys := by
  cases h with
  | @column c k draft =>
    have hkey := draft.reference
    rw [Declaration.foreignKeys, Declaration.foreignKeys]
    generalize c.reference = x at hkey ⊢
    generalize k.reference = y at hkey ⊢
    cases hkey with
    | none => exact .nil
    | some hkey => exact .cons hkey .nil
  | constraint h =>
    cases h with
    | foreignKey columns table referenced => exact renamesKey_pair hg table columns.forall₂ referenced.forall₂
    | _ => exact .nil

end Declarations

/-! ## Tables -/

theorem renamesColumn_markUnique (hg : g.KeepsApart) {cs es : List Column} (h : List.Forall₂ g.RenamesColumn cs es)
    {n m : Text} (hname : g.Renames n m) :
    List.Forall₂ g.RenamesColumn (Table.markUnique cs n) (Table.markUnique es m) := by
  obtain ⟨hknows, rfl⟩ := hname
  refine rel_modifyFirst (fun c e hce => ?_) (fun c e hce => ?_) h
  · obtain ⟨hname, rfl⟩ := hce
    exact replace_same hg hname hknows
  · obtain ⟨hname, rfl⟩ := hce
    exact ⟨hname, rfl⟩

/-- Renamed declarations make up the renamed table. -/
theorem renamesTable_ofDeclarations (hg : g.KeepsApart) {n m s t : Text} (hname : g.Renames n m)
    (hstatement : g.RenamesVerbatim s t) (dialect : Dialect) {ds es : List Declaration}
    (h : List.Forall₂ g.RenamesDeclaration ds es) :
    g.RenamesTable (Table.ofDeclarations n s dialect ds) (Table.ofDeclarations m t dialect es) := by
  obtain ⟨hknows, rfl⟩ := hname
  obtain rfl := hstatement
  have hplain := List.rel_filterMap (fun _ _ hde => RenamesDeclaration.column? hde) h
  have hunique := List.rel_filterMap (fun _ _ hde => RenamesDeclaration.uniqueColumn? hde) h
  have hcolumns := List.rel_foldl (P := List.Forall₂ g.RenamesColumn) (R := g.Renames)
    (fun _ _ hcs _ _ hname => renamesColumn_markUnique hg hcs hname) hplain hunique
  have hkeys : List.Forall₂ g.RenamesKey (ds.flatMap Declaration.foreignKeys) (es.flatMap Declaration.foreignKeys) :=
    List.rel_flatMap h fun _ _ hde => RenamesDeclaration.foreignKeys hg hde
  have hprimary := rel_findSome? (fun _ _ hde => RenamesDeclaration.primaryKey? hde) h
  have hmarked := rel_find? (p := Column.isPrimaryKey) (q := Column.isPrimaryKey) (fun c e hce => by rw [hce.eq]; rfl) hcolumns
  refine ⟨hknows, hkeys, ?_⟩
  rw [Table.ofDeclarations, renameTable, Table.mk.injEq]
  refine ⟨rfl, eq_map_of_forall₂ (fun _ _ hce => hce.eq) hcolumns, ?_, eq_map_of_forall₂ (fun _ _ hkl => hkl.eq) hkeys,
    rfl, rfl, rfl⟩
  show (_ <|> _) = Option.map g.replace (_ <|> _)
  generalize ds.findSome? Declaration.primaryKey? = x at hprimary ⊢
  generalize es.findSome? Declaration.primaryKey? = x' at hprimary ⊢
  cases hprimary with
  | some hkey =>
    obtain ⟨-, rfl⟩ := hkey
    rfl
  | none =>
    generalize List.find? _ _ = y at hmarked ⊢
    generalize List.find? _ _ = y' at hmarked ⊢
    cases hmarked with
    | none => rfl
    | some hce =>
      obtain ⟨-, rfl⟩ := hce
      rfl

end Glossary

end DialectBridge
