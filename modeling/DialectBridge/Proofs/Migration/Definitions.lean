import DialectBridge.Migration
import DialectBridge.Proofs.Schema.Written

/-!
# Reading back definitions

The lines of a statement that is built anew: a column, a primary key or a reference that can be
written down. Each line is read back as what it was built from (`exists_definesColumn`,
`definesPrimaryKey`, `exists_definesForeignKey`).
-/

namespace DialectBridge.Migration

open Token Reader Scan

/-! ## Gaps and words -/

/-- The gap in front of a definition: a line break and an indentation. -/
def lineGap : List Trivia :=
  [.blank "\n    "]

/-- The gap within a definition. -/
def blankGap : List Trivia :=
  [.blank " "]

theorem isSpace_lineGap : IsSpace lineGap := .some (by decide) (List.all_eq_true.1 (by decide))

theorem isSpace_blankGap : IsSpace blankGap := .some (by decide) (List.all_eq_true.1 (by decide))

/-- The text of tokens behind a blank starts with a break. -/
theorem startsWithBreak_blankGap {t : Token} (h : t.gap = blankGap) (ts : List Token) :
    StartsWithBreak (textOf (t :: ts)) := by
  rw [textOf_cons, text, gapText, h]
  exact .cons (by decide) _

theorem startsWithBreak_withGap {us : List Token} (h : us ≠ []) (ts : List Token) :
    StartsWithBreak (textOf (withGap blankGap us ++ ts)) := by
  obtain ⟨u, us, rfl⟩ := List.exists_cons_of_ne_nil h
  exact startsWithBreak_blankGap rfl (us ++ ts)

theorem startsWithBreak_sign {c : Char} (hc : c ∈ breaks) (ts : List Token) :
    StartsWithBreak (textOf (ofSign [] c :: ts)) := by
  rw [textOf_cons, text_ofSign]
  exact .cons hc _

theorem stops_of_break {s : Text} (h : StartsWithBreak s) : s.head?.any isIdentifierCharacter = false :=
  h.head?_any (by decide +kernel)

/-- A keyword as a token. -/
def ofKeyword (g : List Trivia) (keyword : Keyword) : Token :=
  ⟨g, .keyword keyword, keyword.text⟩

theorem textOf_lineGap : Trivia.textOf lineGap = "\n    ".toList := by decide

theorem textOf_blankGap : Trivia.textOf blankGap = [' '] := by decide

@[simp] theorem text_ofKeyword (g : List Trivia) (keyword : Keyword) :
    (ofKeyword g keyword).text = Trivia.textOf g ++ keyword.text := rfl

theorem ofWord_text (g : List Trivia) (keyword : Keyword) : ofWord g keyword.text = ofKeyword g keyword := by
  rw [ofWord, wordKind_text, ofKeyword]

theorem chain_ofKeyword {g : List Trivia} (hg : IsSpace g) (keyword : Keyword) {ts : List Token}
    (hts : Chain ts) (hbreak : StartsWithBreak (textOf ts)) : Chain (ofKeyword g keyword :: ts) := by
  rw [← ofWord_text]
  exact .word hg (isWord_text keyword) hts (stops_of_break hbreak)

@[simp] theorem name?_ofWord (g : List Trivia) (w : Text) : (ofWord g w).name? = some w := by
  rcases wordKind_cases w with ⟨k, hk⟩ | hk <;> simp [ofWord, name?, hk]

theorem isPlain_ofWord (g : List Trivia) (w : Text) : IsPlain (ofWord g w) :=
  isPlain_of_name? (name?_ofWord g w)

theorem isPlain_ofKeyword (g : List Trivia) (keyword : Keyword) : IsPlain (ofKeyword g keyword) := by
  simp [IsPlain, ofKeyword]

theorem word_ofWord (expected : Text) (g : List Trivia) (w : Text) (ts : List Token) :
    word expected (ofWord g w :: ts) = .ok (w, ts) := by
  simp [word]

/-! ## Names -/

/-- The tokens of a qualified name. -/
def qualifiedTokens (g : List Trivia) (w : Text) (ws : List Text) : List Token :=
  ofWord g w :: ws.flatMap fun v => [ofSign [] '.', ofWord [] v]

theorem textOf_qualifiedTokens (g : List Trivia) (w : Text) (ws : List Text) :
    textOf (qualifiedTokens g w ws) = Trivia.textOf g ++ Text.joinWith "." (w :: ws) := by
  induction ws generalizing g w with
  | nil => simp [qualifiedTokens, Text.joinWith]
  | cons v ws ih =>
    have hrest := ih [] v
    simp only [qualifiedTokens, textOf_cons, text_ofWord, List.flatMap_cons, textOf_append, Text.joinWith,
      List.intercalate_cons_cons] at hrest ⊢
    simp_all

theorem level_qualifiedTokens (g : List Trivia) (w : Text) (ws : List Text) : Level (qualifiedTokens g w ws) := by
  refine .plain (isPlain_ofWord g w) ?_
  induction ws with
  | nil => exact .nil
  | cons v ws ih => exact .plain (by simp [IsPlain, ofSign, token]) (.plain (isPlain_ofWord [] v) ih)

theorem chain_qualifiedTokens {g : List Trivia} (hg : IsSpace g) {w : Text} {ws : List Text}
    (hwords : ∀ v ∈ w :: ws, IsWord v) {ts : List Token} (hts : Chain ts)
    (hbreak : StartsWithBreak (textOf ts)) : Chain (qualifiedTokens g w ws ++ ts) := by
  induction ws generalizing g w with
  | nil => exact .word hg (hwords w List.mem_cons_self) hts (stops_of_break hbreak)
  | cons v ws ih =>
    have hrest := ih .none fun u hu => hwords u (List.mem_cons_of_mem _ hu)
    have hdot : Chain (ofSign [] '.' :: (qualifiedTokens [] v ws ++ ts)) := .sign .none (by decide) hrest
    show Chain (ofWord g w :: ofSign [] '.' :: (qualifiedTokens [] v ws ++ ts))
    refine .word hg (hwords w List.mem_cons_self) hdot ?_
    rw [textOf_cons, text_ofSign]
    exact (show isIdentifierCharacter '.' = false by decide +kernel)

/-- A qualified name is read back, where no dot follows it. -/
theorem name_qualifiedTokens (expected : Text) (g : List Trivia) (w : Text) (ws : List Text) {t : Token}
    (ht : t.kind ≠ .dot) (rest : List Token) :
    name expected (qualifiedTokens g w ws ++ t :: rest) = .ok (Text.joinWith "." (w :: ws), t :: rest) := by
  have hmore : wordsAfter .dot expected ((ws.flatMap fun v => [ofSign [] '.', ofWord [] v]) ++ t :: rest) =
      .ok (ws, t :: rest) := by
    induction ws with
    | nil => cases rest <;> simp [wordsAfter, ht]
    | cons v ws ih =>
      show wordsAfter .dot expected (ofSign [] '.' :: ofWord [] v ::
        ((ws.flatMap fun v => [ofSign [] '.', ofWord [] v]) ++ t :: rest)) = _
      rw [wordsAfter, if_pos (by rfl), name?_ofWord]
      simp only [ih]
      rfl
  have hparts : nameParts expected (qualifiedTokens g w ws ++ t :: rest) = .ok (w :: ws, t :: rest) := by
    rw [nameParts, qualifiedTokens, List.cons_append, bind_ok (word_ofWord expected g w _), bind_ok hmore]
    rfl
  rw [name, bind_ok hparts]
  rfl

/-- The tokens of one name in parentheses. -/
def nameTokens (g : List Trivia) (w : Text) : List Token :=
  [ofSign g '(', ofWord [] w, ofSign [] ')']

theorem textOf_nameTokens (g : List Trivia) (w : Text) :
    textOf (nameTokens g w) = Trivia.textOf g ++ '(' :: (w ++ [')']) := by
  simp [nameTokens]

theorem level_nameTokens (g : List Trivia) (w : Text) : Level (nameTokens g w) := by
  have hw := isPlain_ofWord [] w
  have hinside : afterGroup? 0 [ofWord [] w, ofSign [] ')'] = some [] := by
    rw [afterGroup?_cons_other hw.1 hw.2.1 hw.2.2.2]
    rfl
  show Level (ofSign g '(' :: ([ofWord [] w, ofSign [] ')'] ++ []))
  exact .group rfl (closes_of_afterGroup? hinside) .nil

theorem chain_nameTokens {g : List Trivia} (hg : IsSpace g) {w : Text} (hw : IsWord w) {ts : List Token}
    (hts : Chain ts) : Chain (nameTokens g w ++ ts) := by
  have hclose : Chain (ofSign [] ')' :: ts) := .sign .none (by decide) hts
  exact .sign hg (by decide) (.word .none hw hclose (stops_of_break (startsWithBreak_sign (by decide) ts)))

theorem nameList_nameTokens (g : List Trivia) (w : Text) (rest : List Token) :
    nameList (nameTokens g w ++ rest) = .ok ([w], rest) := by
  have hopen : expect .leftParen "'('" (nameTokens g w ++ rest) =
    .ok ((), ofWord [] w :: ofSign [] ')' :: rest) := rfl
  have hmore : wordsAfter .comma "column name" (ofSign [] ')' :: rest) = .ok ([], ofSign [] ')' :: rest) := by
    cases rest <;> rfl
  rw [nameList, bind_ok hopen, bind_ok (word_ofWord _ [] w _), bind_ok hmore]
  rfl

/-! ## Definitions -/

/-- The tokens are the definition `text` on a line of its own, and they are read as the declaration
`d`. -/
structure Defines (text : Text) (d : Declaration) (us : List Token) : Prop where
  chain : Chain us
  level : Level us
  nonempty : us ≠ []
  text : textOf us = '\n' :: text
  declares : Fragment.declarationOf? us = some d

theorem declarationOf?_constraint {us : List Token} {c : Constraint} (hstart : Fragment.isConstraint us = true)
    (h : Constraint.read us = .ok (c, [])) : Fragment.declarationOf? us = some (.constraint c) := by
  rw [Fragment.declarationOf?, Fragment.declaration?, Fragment.read]
  simp only [hstart, if_true, h]
  rfl

theorem declarationOf?_column {us : List Token} {d : ColumnDefinition.Draft}
    (hstart : Fragment.isConstraint us = false) (h : ColumnDefinition.read us = .ok d) :
    Fragment.declarationOf? us = some (.column d) := by
  rw [Fragment.declarationOf?, Fragment.declaration?, Fragment.read]
  simp only [hstart, Bool.false_eq_true, if_false, h]
  rfl

/-! ### Keys -/

/-- The tokens of a primary key. -/
def primaryKeyTokens (w : Text) : List Token :=
  ofKeyword lineGap .primary :: ofKeyword blankGap .key :: nameTokens blankGap w

theorem textOf_primaryKeyTokens (w : Text) : textOf (primaryKeyTokens w) = '\n' :: primaryKeyDefinition w := by
  have hstart : Trivia.textOf lineGap ++ (Keyword.primary.text ++ (Trivia.textOf blankGap ++
      (Keyword.key.text ++ (Trivia.textOf blankGap ++ ['('])))) = '\n' :: "    PRIMARY KEY (".toList := by
    decide +kernel
  have hend : [')'] = ")".toList := by decide
  calc textOf (primaryKeyTokens w)
    _ = Trivia.textOf lineGap ++ (Keyword.primary.text ++ (Trivia.textOf blankGap ++ (Keyword.key.text ++
          (Trivia.textOf blankGap ++ ['('])))) ++ w ++ [')'] := by
      simp [primaryKeyTokens, textOf_nameTokens]
    _ = '\n' :: "    PRIMARY KEY (".toList ++ w ++ ")".toList := by rw [hstart, hend]
    _ = '\n' :: primaryKeyDefinition w := rfl

theorem definesPrimaryKey {w : Text} (hw : IsWord w) :
    Defines (primaryKeyDefinition w) (.constraint (.primaryKey [w])) (primaryKeyTokens w) := by
  have hnames : Chain (nameTokens blankGap w ++ []) := chain_nameTokens isSpace_blankGap hw .nil
  have hlist : nameList (nameTokens blankGap w ++ []) = .ok ([w], []) := nameList_nameTokens blankGap w []
  rw [List.append_nil] at hnames hlist
  have hkey : Level (ofKeyword blankGap .key :: nameTokens blankGap w) :=
    .plain (isPlain_ofKeyword blankGap .key) (level_nameTokens blankGap w)
  have hread : (nameList >>= fun columns => pure (Constraint.primaryKey columns)) (nameTokens blankGap w) =
      .ok (.primaryKey [w], []) := by
    rw [bind_ok hlist]
    rfl
  have hstart : Fragment.isConstraint (primaryKeyTokens w) = true := rfl
  exact {
    chain := chain_ofKeyword isSpace_lineGap .primary
      (chain_ofKeyword isSpace_blankGap .key hnames (startsWithBreak_blankGap rfl _))
      (startsWithBreak_blankGap rfl _)
    level := .plain (isPlain_ofKeyword lineGap .primary) hkey
    nonempty := List.cons_ne_nil _ _
    text := textOf_primaryKeyTokens w
    declares := declarationOf?_constraint hstart hread }

/-- The tokens of a reference. -/
def foreignKeyTokens (column w : Text) (ws : List Text) (referenced : Text) : List Token :=
  ofKeyword lineGap .foreign :: ofKeyword blankGap .key :: (nameTokens blankGap column ++
    ofKeyword blankGap .references :: (qualifiedTokens blankGap w ws ++ nameTokens blankGap referenced))

theorem textOf_foreignKeyTokens (column w : Text) (ws : List Text) {referenced : Text} (h : referenced ≠ []) :
    textOf (foreignKeyTokens column w ws referenced) =
      '\n' :: foreignKeyDefinition ⟨column, Text.joinWith "." (w :: ws), referenced⟩ := by
  have hstart : Trivia.textOf lineGap ++ (Keyword.foreign.text ++ (Trivia.textOf blankGap ++
      (Keyword.key.text ++ (Trivia.textOf blankGap ++ ['('])))) = '\n' :: "    FOREIGN KEY (".toList := by
    decide +kernel
  have hmiddle : ')' :: (Trivia.textOf blankGap ++ (Keyword.references.text ++ Trivia.textOf blankGap)) =
      ") REFERENCES ".toList := by decide +kernel
  have hopen : Trivia.textOf blankGap ++ ['('] = " (".toList := by decide
  have hend : [')'] = ")".toList := by decide
  have hdefinition : foreignKeyDefinition ⟨column, Text.joinWith "." (w :: ws), referenced⟩ =
      "    FOREIGN KEY (".toList ++ column ++ ") REFERENCES ".toList ++
        (Text.joinWith "." (w :: ws) ++ " (".toList ++ referenced ++ ")".toList) :=
    congrArg ("    FOREIGN KEY (".toList ++ column ++ ") REFERENCES ".toList ++ ·) (if_neg (by simpa using h))
  calc textOf (foreignKeyTokens column w ws referenced)
    _ = Trivia.textOf lineGap ++ (Keyword.foreign.text ++ (Trivia.textOf blankGap ++ (Keyword.key.text ++
          (Trivia.textOf blankGap ++ ['('])))) ++ column ++
        ')' :: (Trivia.textOf blankGap ++ (Keyword.references.text ++ Trivia.textOf blankGap)) ++
          (Text.joinWith "." (w :: ws) ++ (Trivia.textOf blankGap ++ ['(']) ++ referenced ++ [')']) := by
      simp [foreignKeyTokens, textOf_nameTokens, textOf_qualifiedTokens]
    _ = '\n' :: "    FOREIGN KEY (".toList ++ column ++ ") REFERENCES ".toList ++
          (Text.joinWith "." (w :: ws) ++ " (".toList ++ referenced ++ ")".toList) := by
      rw [hstart, hmiddle, hopen, hend]
    _ = '\n' :: foreignKeyDefinition ⟨column, Text.joinWith "." (w :: ws), referenced⟩ := by
      rw [hdefinition]
      rfl

theorem read_foreignKeyTokens (column w : Text) (ws : List Text) (referenced : Text) :
    Constraint.read (foreignKeyTokens column w ws referenced) =
      .ok (.foreignKey [column] (Text.joinWith "." (w :: ws)) [referenced], []) := by
  have hlist : nameList (nameTokens blankGap referenced ++ []) = .ok ([referenced], []) :=
    nameList_nameTokens blankGap referenced []
  have hname : name "referenced table" (qualifiedTokens blankGap w ws ++ nameTokens blankGap referenced) =
      .ok (Text.joinWith "." (w :: ws), nameTokens blankGap referenced) :=
    name_qualifiedTokens "referenced table" blankGap w ws (by simp [ofSign, token]) _
  rw [List.append_nil] at hlist
  have hopen : look (atKind .leftParen) (nameTokens blankGap referenced) =
    .ok (true, nameTokens blankGap referenced) := rfl
  have hcolumns := nameList_nameTokens blankGap column
    (ofKeyword blankGap .references :: (qualifiedTokens blankGap w ws ++ nameTokens blankGap referenced))
  have hreferences : expectKeyword .references (ofKeyword blankGap .references ::
      (qualifiedTokens blankGap w ws ++ nameTokens blankGap referenced)) =
    .ok ((), qualifiedTokens blankGap w ws ++ nameTokens blankGap referenced) := rfl
  -- what is read after `FOREIGN KEY`
  have hread : (nameList >>= fun columns => expectKeyword .references >>= fun _ =>
      name "referenced table" >>= fun table => look (atKind .leftParen) >>= fun named =>
        if named = true then nameList >>= fun targets => pure (Constraint.foreignKey columns table targets)
        else pure (Constraint.foreignKey columns table []))
      (nameTokens blankGap column ++ ofKeyword blankGap .references ::
        (qualifiedTokens blankGap w ws ++ nameTokens blankGap referenced)) =
      .ok (.foreignKey [column] (Text.joinWith "." (w :: ws)) [referenced], []) := by
    rw [bind_ok hcolumns, bind_ok hreferences, bind_ok hname, bind_ok hopen, if_pos rfl, bind_ok hlist]
    rfl
  exact hread

/-- A reference is read back. -/
theorem definesForeignKey {k : ForeignKey} {w : Text} {ws : List Text} (hcolumn : IsWord k.column)
    (hwords : ∀ v ∈ w :: ws, IsWord v) (htable : k.table = Text.joinWith "." (w :: ws))
    (hreferenced : IsWord k.referencedColumn) :
    Defines (foreignKeyDefinition k) (.constraint (.foreignKey [k.column] k.table [k.referencedColumn]))
      (foreignKeyTokens k.column w ws k.referencedColumn) := by
  obtain ⟨column, table, referenced⟩ := k
  obtain rfl : table = Text.joinWith "." (w :: ws) := htable
  have hne : referenced ≠ [] := by
    obtain ⟨c, l, rfl, -⟩ := hreferenced.cases
    exact List.cons_ne_nil c l
  have hlast : Chain (nameTokens blankGap referenced ++ []) := chain_nameTokens isSpace_blankGap hreferenced .nil
  have hlist : nameList (nameTokens blankGap referenced ++ []) = .ok ([referenced], []) :=
    nameList_nameTokens blankGap referenced []
  rw [List.append_nil] at hlast hlist
  have hreferences : Chain (ofKeyword blankGap .references ::
      (qualifiedTokens blankGap w ws ++ nameTokens blankGap referenced)) :=
    chain_ofKeyword isSpace_blankGap .references
      (chain_qualifiedTokens isSpace_blankGap hwords hlast (startsWithBreak_blankGap rfl _))
      (startsWithBreak_blankGap rfl _)
  have hlevel : Level (qualifiedTokens blankGap w ws ++ nameTokens blankGap referenced) :=
    (level_qualifiedTokens blankGap w ws).append (level_nameTokens blankGap referenced)
  have hstart : Fragment.isConstraint (foreignKeyTokens column w ws referenced) = true := rfl
  exact {
    chain := chain_ofKeyword isSpace_lineGap .foreign
      (chain_ofKeyword isSpace_blankGap .key (chain_nameTokens isSpace_blankGap hcolumn hreferences)
        (startsWithBreak_blankGap rfl _)) (startsWithBreak_blankGap rfl _)
    level := .plain (isPlain_ofKeyword lineGap .foreign) (.plain (isPlain_ofKeyword blankGap .key)
      ((level_nameTokens blankGap column).append (.plain (isPlain_ofKeyword blankGap .references) hlevel)))
    nonempty := List.cons_ne_nil _ _
    text := textOf_foreignKeyTokens column w ws hne
    declares := declarationOf?_constraint hstart (read_foreignKeyTokens column w ws referenced) }

/-! ### Attributes -/

/-- The tokens are absent or start with a keyword behind a blank. -/
def Follows (us : List Token) : Prop :=
  ∀ t ∈ us.head?, (∃ keyword, t.kind = .keyword keyword) ∧ t.gap = blankGap

theorem Follows.nil : Follows [] := by
  intro t ht
  cases ht

theorem follows_ofKeyword (keyword : Keyword) (us : List Token) : Follows (ofKeyword blankGap keyword :: us) := by
  intro t ht
  obtain rfl := Option.some.inj ht
  exact ⟨⟨keyword, rfl⟩, rfl⟩

theorem Follows.append {us vs : List Token} (hu : Follows us) (hv : Follows vs) : Follows (us ++ vs) := by
  cases us with
  | nil => exact hv
  | cons u us => exact hu

theorem Follows.endsPart {us : List Token} (h : Follows us) : EndsPart us := by
  intro t ht
  obtain ⟨hkeyword, hgap⟩ := h t ht
  refine ⟨hkeyword, ?_⟩
  rw [hgap]
  exact List.cons_ne_nil _ _

theorem Follows.startsWithBreak {us : List Token} (h : Follows us) : StartsWithBreak (textOf us) := by
  cases us with
  | nil => exact .nil
  | cons u us => exact startsWithBreak_blankGap (h u rfl).2 us

/-- The tokens are the attributes `text` of a column, and reading them changes what has been read of
the column by `change`. -/
structure Attributes (text : Text) (change : ColumnDefinition.Draft → ColumnDefinition.Draft)
    (us : List Token) : Prop where
  chain : Chain us
  level : Level us
  follows : Follows us
  text : textOf us = text
  read : ∀ d rest, EndsPart rest →
    ColumnDefinition.attributes d (us ++ rest) = ColumnDefinition.attributes (change d) rest

theorem Attributes.none : Attributes [] id [] :=
  ⟨.nil, .nil, .nil, rfl, fun _ _ _ => rfl⟩

theorem Attributes.append {s t : Text} {f g : ColumnDefinition.Draft → ColumnDefinition.Draft}
    {us vs : List Token} (hu : Attributes s f us) (hv : Attributes t g vs) :
    Attributes (s ++ t) (g ∘ f) (us ++ vs) := by
  refine ⟨hu.chain.append hv.chain hv.follows.startsWithBreak, hu.level.append hv.level,
    hu.follows.append hv.follows, by rw [textOf_append, hu.text, hv.text], fun d rest hrest => ?_⟩
  have hmiddle : EndsPart (vs ++ rest) := by
    cases vs with
    | nil => exact hrest
    | cons v vs => exact hv.follows.endsPart
  rw [List.append_assoc, hu.read d _ hmiddle, hv.read _ rest hrest, Function.comp_apply]

theorem attributes_nil (d : ColumnDefinition.Draft) : ColumnDefinition.attributes d [] = .ok d := by
  rw [ColumnDefinition.attributes]
  rfl

theorem attributes_step {d e : ColumnDefinition.Draft} {ts rest : List Token} (hend : atEnd ts = false)
    (h : ColumnDefinition.attributeStep d ts = .ok (e, rest)) :
    ColumnDefinition.attributes d ts = ColumnDefinition.attributes e rest := by
  rw [ColumnDefinition.attributes, dif_neg (by simp [hend])]
  split
  · next heq => cases heq.symm.trans h
  · next heq =>
    cases heq.symm.trans h
    rfl

/-- The tokens of a default value. -/
def defaultTokens : Option (List Token) → List Token
  | some us => ofKeyword blankGap .default :: withGap blankGap us
  | none => []

/-- The tokens that refuse null values, or none. -/
def notNullTokens (nullable : Bool) : List Token :=
  if nullable then [] else [ofKeyword blankGap .not, ofKeyword blankGap .null]

/-- The tokens that ask for distinct values, or none. -/
def uniqueTokens (isUnique : Bool) : List Token :=
  if isUnique then [ofKeyword blankGap .unique] else []

theorem attributes_default {value : Text} {us : List Token} (h : Recites ColumnDefinition.defaultValue value us) :
    Attributes (" DEFAULT " ++ value) (·.setDefault value) (defaultTokens (some us)) := by
  have hstart : Trivia.textOf blankGap ++ (Keyword.default.text ++ Trivia.textOf blankGap) = " DEFAULT ".toList := by
    decide
  have hbreak : StartsWithBreak (textOf (withGap blankGap us)) := by
    simpa using startsWithBreak_withGap h.nonempty []
  refine ⟨chain_ofKeyword isSpace_blankGap .default (h.chain.withGap isSpace_blankGap) hbreak,
    .plain (isPlain_ofKeyword blankGap .default) (h.level.withGap blankGap), follows_ofKeyword .default _, ?_,
    fun d rest hrest => ?_⟩
  · calc textOf (defaultTokens (some us))
      _ = Trivia.textOf blankGap ++ (Keyword.default.text ++ Trivia.textOf blankGap) ++ value := by
        simp [defaultTokens, textOf_withGap h.nonempty, h.text]
      _ = " DEFAULT ".toList ++ value := by rw [hstart]
  · have hread := h.read blankGap rest hrest
    have hstep : (ColumnDefinition.Draft.setDefault d <$> ColumnDefinition.defaultValue)
        (withGap blankGap us ++ rest) = .ok (d.setDefault value, rest) := by
      change (ColumnDefinition.defaultValue _ >>= fun p => Except.ok (_, p.2)) = _
      rw [hread]
      rfl
    exact attributes_step rfl hstep

theorem attributes_notNull (nullable : Bool) :
    Attributes (if nullable then [] else " NOT NULL") (fun d => if nullable then d else d.setNotNull)
      (notNullTokens nullable) := by
  cases nullable with
  | true => exact .none
  | false =>
    have hnull : Chain [ofKeyword blankGap .null] := chain_ofKeyword isSpace_blankGap .null .nil .nil
    refine ⟨chain_ofKeyword isSpace_blankGap .not hnull (startsWithBreak_blankGap rfl _),
      .plain (isPlain_ofKeyword _ .not) (.plain (isPlain_ofKeyword _ .null) .nil), follows_ofKeyword .not _,
      by decide, fun d rest _ => ?_⟩
    exact attributes_step rfl rfl

theorem attributes_unique (isUnique : Bool) :
    Attributes (if isUnique then " UNIQUE" else []) (fun d => if isUnique then d.setUnique else d)
      (uniqueTokens isUnique) := by
  cases isUnique with
  | false => exact .none
  | true =>
    exact ⟨chain_ofKeyword isSpace_blankGap .unique .nil .nil, .plain (isPlain_ofKeyword _ .unique) .nil,
      follows_ofKeyword .unique _, by decide, fun d rest _ => attributes_step rfl rfl⟩

/-! ### Columns -/

/-- The default value of a column, as a definition has it. -/
def defaultClause : Option Text → Text
  | some value => " DEFAULT " ++ value
  | none => []

theorem exists_attributes_default {default : Option Text} (h : ∀ value ∈ default, IsValueText value) :
    ∃ us, Attributes (defaultClause default)
      (fun d => default.elim d d.setDefault) us := by
  cases default with
  | none => exact ⟨[], .none⟩
  | some value =>
    obtain ⟨us, hus⟩ := h value rfl
    exact ⟨_, attributes_default hus⟩

theorem columnDefinition_eq (c : Column) : columnDefinition c =
    "    ".toList ++ c.name ++ " ".toList ++ c.dataType ++ defaultClause c.default ++
      (if c.nullable then [] else " NOT NULL".toList) ++ (if c.isUnique then " UNIQUE".toList else []) := by
  obtain ⟨name, type, nullable, isPrimaryKey, isUnique, default⟩ := c
  cases default <;> rfl

/-- A column is read back; a key is no attribute of it. -/
theorem exists_definesColumn {c : Column} (h : c.IsWritten) :
    ∃ us, Defines (columnDefinition c) (.column ⟨{ c with isPrimaryKey := false }, none⟩) us := by
  obtain ⟨types, htypes⟩ := h.type
  obtain ⟨defaults, hdefaults⟩ := exists_attributes_default h.default
  have hattributes := hdefaults.append ((attributes_notNull c.nullable).append (attributes_unique c.isUnique))
  generalize hus : defaults ++ (notNullTokens c.nullable ++ uniqueTokens c.isUnique) = us at hattributes
  have htype : ColumnDefinition.dataType (withGap blankGap types ++ us) = .ok (c.dataType, us) :=
    htypes.read blankGap us hattributes.follows.endsPart
  have hchain : Chain (withGap blankGap types ++ us) :=
    (htypes.chain.withGap isSpace_blankGap).append hattributes.chain hattributes.follows.startsWithBreak
  have hread : ColumnDefinition.read (ofWord lineGap c.name :: (withGap blankGap types ++ us)) =
      .ok ⟨{ c with isPrimaryKey := false }, none⟩ := by
    have hrun := hattributes.read ⟨.plain c.name c.dataType, none⟩ [] .nil
    rw [List.append_nil, attributes_nil] at hrun
    rw [ColumnDefinition.read, word_ofWord]
    change (ColumnDefinition.dataType (withGap blankGap types ++ us) >>= fun p =>
      ColumnDefinition.attributes ⟨.plain c.name p.1, none⟩ p.2) = _
    rw [htype]
    refine hrun.trans (congrArg Except.ok ?_)
    obtain ⟨name, type, nullable, isPrimaryKey, isUnique, default⟩ := c
    cases nullable <;> cases isUnique <;> cases default <;> rfl
  have hline : Trivia.textOf lineGap = '\n' :: "    ".toList := by decide
  have hblank : Trivia.textOf blankGap = " ".toList := by decide
  have htext : textOf (ofWord lineGap c.name :: (withGap blankGap types ++ us)) = '\n' :: columnDefinition c := by
    calc textOf (ofWord lineGap c.name :: (withGap blankGap types ++ us))
      _ = Trivia.textOf lineGap ++ c.name ++ Trivia.textOf blankGap ++ c.dataType ++ textOf us := by
        simp [textOf_withGap htypes.nonempty, htypes.text]
      _ = '\n' :: ("    ".toList ++ c.name ++ " ".toList ++ c.dataType ++ (defaultClause c.default ++
            ((if c.nullable then [] else " NOT NULL".toList) ++ (if c.isUnique then " UNIQUE".toList else [])))) := by
        rw [hline, hblank, hattributes.text]
        rfl
      _ = '\n' :: columnDefinition c := by simp only [columnDefinition_eq, List.append_assoc]
  exact ⟨_, {
    chain := .word isSpace_lineGap h.name hchain (stops_of_break (startsWithBreak_withGap htypes.nonempty us))
    level := .plain (isPlain_ofWord lineGap c.name) ((htypes.level.withGap blankGap).append hattributes.level)
    nonempty := List.cons_ne_nil _ _
    text := htext
    declares := declarationOf?_column h.notConstraint hread }⟩

end DialectBridge.Migration
