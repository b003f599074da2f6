import DialectBridge.Proofs.Conversion.Items
import DialectBridge.Proofs.Reading.Group
import DialectBridge.Schema.Script

/-!
# Reading plain table definitions

A table definition whose names are no keywords and whose types are read as types declares one table,
with one column for each name and its type as written (`tables_createTable`).
-/

namespace DialectBridge

/-! ## Texts of tokens -/

namespace Item

theorem lexemes_append {is : List Item} (hne : is ≠ []) (hlast : is.getLast? ≠ some blank)
    (g : List Trivia) (js : List Item) : lexemes g (is ++ js) = lexemes g is ++ lexemes [] js := by
  induction is generalizing g with
  | nil => exact absurd rfl hne
  | cons i is ih =>
    cases is with
    | nil =>
      have hi : i ≠ blank := by simpa using hlast
      rw [List.singleton_append, lexemes_cons hi, lexemes_cons hi]
      rfl
    | cons j is =>
      have hrest := ih (List.cons_ne_nil j is) (getLast?_tail_ne hlast)
      by_cases hi : i = blank
      · subst hi
        exact hrest _
      · rw [List.cons_append, lexemes_cons hi, lexemes_cons hi, hrest, List.cons_append]

theorem textOf_lexemes {is : List Item} (hne : is ≠ []) (hlast : is.getLast? ≠ some blank)
    (g : List Trivia) : Token.textOf (lexemes g is) = g.flatMap Trivia.text ++ render is := by
  induction is generalizing g with
  | nil => exact absurd rfl hne
  | cons i is ih =>
    cases is with
    | nil =>
      have hi : i ≠ blank := by simpa using hlast
      rw [lexemes_cons hi]
      simp [lexemes, Token.text, Token.gapText]
    | cons j is =>
      have hrest := ih (List.cons_ne_nil j is) (getLast?_tail_ne hlast)
      by_cases hi : i = blank
      · subst hi
        rw [lexemes, hrest]
        simp [Item.text, Trivia.text]
      · rw [lexemes_cons hi, Token.textOf_cons, hrest]
        simp [Token.text, Token.gapText]

/-- Items without blanks are tokens without gaps. -/
theorem lexemes_of_no_blank {is : List Item} (h : ∀ i ∈ is, i ≠ blank) :
    lexemes [] is = is.map fun i => ⟨[], i.kind, i.text⟩ := by
  induction is with
  | nil => rfl
  | cons i is ih =>
    rw [lexemes_cons (h i List.mem_cons_self), ih fun j hj => h j (List.mem_cons_of_mem _ hj)]
    rfl

theorem ofSize_concat (y : Text) : ofSize (y ++ [')']) = ofSize y ++ [sign ')'] := by
  have hpush (c : Char) (is : List Item) : push c (is ++ [sign ')']) = push c is ++ [sign ')'] := by
    cases is with
    | nil =>
      simp only [List.nil_append, push]
      split <;> rfl
    | cons i is =>
      cases i <;> (simp only [List.cons_append, push]; split <;> rfl)
  induction y with
  | nil => rfl
  | cons c y ih =>
    show push c (ofSize (y ++ [')'])) = push c (ofSize y) ++ [sign ')']
    rw [ih, hpush]

/-- The tokens of items are the items as written. -/
theorem verbatim_lexemes {i : Item} {is : List Item} (hi : i ≠ blank) (hlast : (i :: is).getLast? ≠ some blank)
    (g : List Trivia) : Token.verbatim (lexemes g (i :: is)) = render (i :: is) := by
  have htext := textOf_lexemes (List.cons_ne_nil i is) hlast []
  rw [lexemes_cons hi] at htext ⊢
  simpa [Token.verbatim, Token.text, Token.gapText] using htext

end Item

/-! ## Types -/

namespace Spelling

open Item

/-- The words of the type are no keywords, and those behind the first one continue it. -/
structure IsReadable (s : Spelling) : Prop where
  first : Scan.wordKind s.first = .identifier s.first
  others : ∀ w ∈ s.others, Scan.wordKind w = .identifier w ∧
    (ColumnDefinition.typeContinuations s.first.upper).any w.same = true

/-- The token of a word behind a blank. -/
def wordToken (w : Text) : Token :=
  ⟨[.blank " "], Scan.wordKind w, w⟩

theorem lexemes_items (s : Spelling) (g : List Trivia) : lexemes g s.items =
    ⟨g, Scan.wordKind s.first, s.first⟩ :: (s.others.map wordToken ++ lexemes [] (ofSize s.size)) := by
  have hothers (ws : List Text) (js : List Item) : lexemes [] ((ws.flatMap fun w => [blank, word w]) ++ js) =
      ws.map wordToken ++ lexemes [] js := by
    induction ws with
    | nil => rfl
    | cons w ws ih =>
      rw [List.map_cons, List.cons_append, ← ih]
      rfl
  rw [← hothers]
  rfl

end Spelling

namespace Reader

/-- The token is a number or a comma. -/
def isSizeToken (t : Token) : Bool :=
  match t.kind with
  | .number _ | .comma => true
  | _ => false

/-- The tokens of a size. -/
inductive IsSizeTokens : List Token → Prop
  | none : IsSizeTokens []
  | some {ts : List Token} (h : ∀ t ∈ ts, isSizeToken t = true) :
      IsSizeTokens (⟨[], .leftParen, ['(']⟩ :: (ts ++ [⟨[], .rightParen, [')']⟩]))

open Item in
theorem isSizeTokens {size : Text} (h : IsSize size) : IsSizeTokens (lexemes [] (ofSize size)) := by
  have hblank : ∀ i ∈ ofSize size, i ≠ blank := by
    rintro i hi rfl
    cases mem_ofSize hi
  rw [lexemes_of_no_blank hblank]
  cases h with
  | none => exact .none
  | @some y hy =>
    have hsize : ofSize ('(' :: (y ++ [')'])) = sign '(' :: (ofSize y ++ [sign ')']) := by
      rw [← ofSize_concat]
      exact push_sign (by decide) _
    rw [hsize, List.map_cons, List.map_append]
    refine .some fun t ht => ?_
    obtain ⟨i, hi, rfl⟩ := List.mem_map.1 ht
    cases i with
    | number ds => rfl
    | word _ | blank => cases mem_ofSize hi
    | sign c =>
      have hc : c ∈ y := by
        rw [← render_ofSize y]
        exact List.mem_flatMap.2 ⟨sign c, hi, List.mem_cons_self⟩
      have hsign : (sign c).IsSound :=
        (plain_ofSize fun d hd => (sizeCharacter_cases (hy d hd)).imp_right (.inr ∘ .inr)).sound _ hi
      obtain rfl | rfl | rfl | rfl := hsign
      · exact absurd (hy _ hc) (by decide)
      · exact absurd (hy _ hc) (by decide)
      · rfl
      · exact absurd (hy _ hc) (by decide)

/-- The inside of a size holds no parentheses. -/
theorem afterGroup?_size {ts : List Token} (h : ∀ t ∈ ts, isSizeToken t = true) (depth : Nat)
    (rest : List Token) : afterGroup? depth (ts ++ rest) = afterGroup? depth rest := by
  induction ts with
  | nil => rfl
  | cons t ts ih =>
    have ht := h t List.mem_cons_self
    rw [List.cons_append, ← ih fun u hu => h u (List.mem_cons_of_mem _ hu)]
    conv_lhs => rw [afterGroup?.eq_def]
    unfold isSizeToken at ht
    split at ht
    · next hkind => simp only [hkind]
    · next hkind => simp only [hkind]
    · cases ht

end Reader

namespace ColumnDefinition

open Reader

/-- A type goes on over its continuing words. -/
theorem afterType_words {continuations : List Text} {ws : List Text}
    (h : ∀ w ∈ ws, Scan.wordKind w = .identifier w ∧ continuations.any w.same = true) (rest : List Token) :
    afterType continuations (ws.map Spelling.wordToken ++ rest) = afterType continuations rest := by
  induction ws with
  | nil => rfl
  | cons w ws ih =>
    obtain ⟨hkind, hany⟩ := h w List.mem_cons_self
    rw [List.map_cons, List.cons_append, afterType, ← ih fun v hv => h v (List.mem_cons_of_mem _ hv)]
    have hparen : ((Spelling.wordToken w).kind == .leftParen) = false := by
      rw [Spelling.wordToken, hkind]
      rfl
    have hword : (Spelling.wordToken w).isWord = w.same := by
      funext v
      rw [Token.isWord, Spelling.wordToken, hkind]
    rw [if_neg (by simp [hparen]), hword, if_pos hany]

/-- A type ends behind its size. -/
theorem afterType_size {continuations : List Text} {ts : List Token} (h : IsSizeTokens ts) :
    afterType continuations ts = .ok [] := by
  have hnil : afterType continuations [] = .ok [] := by rw [afterType]
  cases h with
  | none => exact hnil
  | @some ts h =>
    have hgroup : afterGroup? 0 (ts ++ [⟨[], .rightParen, [')']⟩]) = some [] := afterGroup?_size h 0 _
    rw [afterType, if_pos (by rfl)]
    split
    · next next hnext =>
      obtain rfl : [] = next := Option.some.inj (hgroup.symm.trans hnext)
      exact hnil
    · next hnext =>
      rw [hgroup] at hnext
      cases hnext

/-- A spelled type is read as it is written. -/
theorem dataType_lexemes {s : Spelling} (hs : s.IsSound) (hread : s.IsReadable) (g : List Trivia) :
    dataType (Item.lexemes g s.items) = .ok (s.text, []) := by
  have hverbatim : Token.verbatim (Item.lexemes g s.items) = s.text := by
    rw [← Spelling.render_items]
    exact Item.verbatim_lexemes (by simp) s.getLast?_items g
  have hrest : afterType (typeContinuations s.first.upper)
      (s.others.map Spelling.wordToken ++ Item.lexemes [] (Item.ofSize s.size)) = .ok [] := by
    rw [afterType_words hread.others, afterType_size (isSizeTokens hs.size)]
  have hstarts : startsType (Item.lexemes g s.items) = true := by
    rw [Spelling.lexemes_items, hread.first]
    rfl
  have hword : word "data type" (Item.lexemes g s.items) =
      .ok (s.first, s.others.map Spelling.wordToken ++ Item.lexemes [] (Item.ofSize s.size)) := by
    rw [Spelling.lexemes_items, hread.first]
    rfl
  rw [dataType, if_pos hstarts, hword]
  simp only [hrest]
  show Except.ok (Token.verbatim (Token.taken _ []), []) = _
  rw [Token.taken, List.length_nil, Nat.sub_zero, List.take_length, hverbatim]

/-- A plain column is read as its name and its type. -/
theorem read_column {s : Spelling} (hs : s.IsSound) (hread : s.IsReadable) (name : Text)
    (g : List Trivia) :
    read (⟨g, .identifier name, name⟩ :: Item.lexemes [.blank " "] s.items) =
      .ok ⟨.plain name s.text, none⟩ := by
  have hattributes (d : Draft) : attributes d [] = .ok d := by
    rw [attributes]
    rfl
  show (dataType (Item.lexemes [.blank " "] s.items) >>= _) = _
  rw [dataType_lexemes hs hread]
  exact hattributes _

end ColumnDefinition

/-! ## The pieces of a table body -/

namespace Reader

/-- A word stays in the current piece. -/
theorem Passes.word {t : Token} (ht : ∃ name, t.kind = .identifier name) (depth : Nat) : Passes depth [t] := by
  obtain ⟨name, hkind⟩ := ht
  intro rest
  rw [List.singleton_append]
  conv_lhs => rw [pieces?.eq_def]
  simp only [hkind]
  rfl

theorem Passes.words {ts : List Token} (h : ∀ t ∈ ts, ∃ name, t.kind = .identifier name) (depth : Nat) :
    Passes depth ts := by
  induction ts with
  | nil => exact .nil depth
  | cons t ts ih =>
    exact (Passes.word (h t List.mem_cons_self) depth).append (ih fun u hu => h u (List.mem_cons_of_mem _ hu))

/-- Within a size no comma ends the piece. -/
theorem Passes.sizeTokens {ts : List Token} (h : ∀ t ∈ ts, isSizeToken t = true) (depth : Nat) :
    Passes (depth + 1) ts := by
  induction ts with
  | nil => exact .nil _
  | cons t ts ih =>
    have hone : Passes (depth + 1) [t] := by
      intro rest
      have ht := h t List.mem_cons_self
      rw [List.singleton_append]
      conv_lhs => rw [pieces?.eq_def]
      unfold isSizeToken at ht
      split at ht
      · next hkind =>
        simp only [hkind]
        rfl
      · next hkind =>
        simp only [hkind]
        rfl
      · cases ht
    exact hone.append (ih fun u hu => h u (List.mem_cons_of_mem _ hu))

theorem Passes.size {ts : List Token} (h : IsSizeTokens ts) : Passes 0 ts := by
  cases h with
  | none => exact .nil 0
  | @some ts h =>
    intro rest
    have hinside := Passes.sizeTokens h 0 (⟨[], .rightParen, [')']⟩ :: rest)
    rw [List.cons_append, List.append_assoc, List.singleton_append, pieces?_open rfl, hinside, pieces?_close rfl]
    simp [Option.map_map, Function.comp_def]

end Reader

namespace Definition

open Item Reader

variable {columns : List (Text × Spelling)}

/-- The tokens of a column behind the gap `g`. -/
def columnTokens (g : List Trivia) (c : Text × Spelling) : List Token :=
  ⟨g, .identifier c.1, c.1⟩ :: lexemes [.blank " "] c.2.items

/-- The names of the columns are no keywords, and their types can be read. -/
structure IsReadable (columns : List (Text × Spelling)) : Prop where
  name : ∀ c ∈ columns, Scan.wordKind c.1 = .identifier c.1
  sound : ∀ c ∈ columns, c.2.IsSound
  type : ∀ c ∈ columns, c.2.IsReadable

theorem lexemes_columnItems {c : Text × Spelling} (hname : Scan.wordKind c.1 = .identifier c.1)
    (g : List Trivia) (is : List Item) :
    lexemes g (columnItems c ++ is) = columnTokens g c ++ lexemes [] is := by
  have hlast : (columnItems c).getLast? ≠ some blank := by
    have := c.2.getLast?_items
    rw [columnItems, List.getLast?_cons_of_ne_nil (by simp), List.getLast?_cons_of_ne_nil (by simp [Spelling.items])]
    exact this
  rw [lexemes_append (by simp [columnItems]) hlast, columnItems, lexemes_cons (by simp), lexemes]
  rw [columnTokens, kind, hname]
  rfl

theorem passes_columnTokens {c : Text × Spelling} (hsound : c.2.IsSound) (hread : c.2.IsReadable)
    (g : List Trivia) : Passes 0 (columnTokens g c) := by
  have hfirst : Passes 0 [⟨g, .identifier c.1, c.1⟩] := .word ⟨c.1, rfl⟩ 0
  have htype : Passes 0 (lexemes [.blank " "] c.2.items) := by
    rw [Spelling.lexemes_items]
    refine (Passes.word ⟨_, hread.first⟩ 0).append ((Passes.words ?_ 0).append (.size (isSizeTokens hsound.size)))
    intro t ht
    obtain ⟨w, hw, rfl⟩ := List.mem_map.1 ht
    exact ⟨w, (hread.others w hw).1⟩
  exact hfirst.append htype

/-- The body of a definition is cut into its columns. -/
theorem exists_pieces (h : IsReadable columns) (hne : columns ≠ []) (g : List Trivia) (rest : List Token) :
    ∃ ps : List Piece, pieces? 0 (lexemes g (columnsItems columns) ++ rest) = some (ps, rest) ∧
      List.Forall₂ (fun p c => ∃ g, p.tokens = columnTokens g c) ps columns := by
  induction columns generalizing g with
  | nil => exact absurd rfl hne
  | cons c columns ih =>
    have hname := h.name c List.mem_cons_self
    have hpass := passes_columnTokens (h.sound c List.mem_cons_self) (h.type c List.mem_cons_self) g
    cases columns with
    | nil =>
      refine ⟨[⟨columnTokens g c, ⟨[], .rightParen, [')']⟩⟩], ?_, .cons ⟨g, rfl⟩ .nil⟩
      have hclose : pieces? 0 (⟨[], .rightParen, [')']⟩ :: rest) = some ([⟨[], ⟨[], .rightParen, [')']⟩⟩], rest) :=
        rfl
      have hlexemes : lexemes g (columnsItems [c]) ++ rest = columnTokens g c ++ ⟨[], .rightParen, [')']⟩ :: rest := by
        rw [columnsItems_singleton, lexemes_columnItems hname]
        simp [lexemes, kind, Item.text]
      rw [hlexemes, hpass, hclose]
      simp only [Option.map_some, foldr_push, List.append_nil]
    | cons d columns =>
      have htail : IsReadable (d :: columns) :=
        ⟨fun e he => h.name e (List.mem_cons_of_mem _ he), fun e he => h.sound e (List.mem_cons_of_mem _ he),
          fun e he => h.type e (List.mem_cons_of_mem _ he)⟩
      obtain ⟨ps, hps, hcolumns⟩ := ih htail (List.cons_ne_nil d columns) [.blank " "]
      have hlexemes : lexemes g (columnsItems (c :: d :: columns)) ++ rest =
          columnTokens g c ++ ⟨[], .comma, [',']⟩ :: (lexemes [.blank " "] (columnsItems (d :: columns)) ++ rest) := by
        rw [columnsItems_cons_cons, lexemes_columnItems hname, List.append_assoc]
        rfl
      refine ⟨⟨columnTokens g c, ⟨[], .comma, [',']⟩⟩ :: ps, ?_, .cons ⟨g, rfl⟩ hcolumns⟩
      rw [hlexemes, hpass, pieces?_comma rfl, hps]
      simp only [Option.map_some, foldr_push, List.append_nil]

/-- A plain column is declared as its name and its type. -/
theorem declaration?_read {c : Text × Spelling} (hsound : c.2.IsSound) (hread : c.2.IsReadable)
    {part : Part} {g : List Trivia} (hpart : part.tokens = columnTokens g c) :
    (Fragment.read part).declaration? = some (.column ⟨.plain c.1 c.2.text, none⟩) := by
  have hcolumn : Fragment.isConstraint part.tokens = false := by
    rw [hpart]
    rfl
  have hdraft : ColumnDefinition.read part.tokens = .ok ⟨.plain c.1 c.2.text, none⟩ := by
    rw [hpart]
    exact ColumnDefinition.read_column hsound hread c.1 g
  rw [Fragment.declaration?, Fragment.read, hcolumn, hdraft]
  rfl

/-- The parts of a body are read column by column. -/
theorem declarations_read {ps : List Piece} (hsound : ∀ c ∈ columns, c.2.IsSound)
    (hread : ∀ c ∈ columns, c.2.IsReadable)
    (h : List.Forall₂ (fun p c => ∃ g, p.tokens = columnTokens g c) ps columns) (place : List Token) :
    ((partsFrom place ps).map Fragment.read).filterMap Fragment.declaration? =
      columns.map fun c => .column ⟨.plain c.1 c.2.text, none⟩ := by
  induction h generalizing place with
  | nil => rfl
  | @cons p c ps columns hp _ ih =>
    obtain ⟨g, hp⟩ := hp
    have hne : p.tokens.isEmpty = false := by
      rw [hp]
      rfl
    have hone : (Fragment.read ⟨p.tokens, place⟩).declaration? = some (.column ⟨.plain c.1 c.2.text, none⟩) :=
      declaration?_read (hsound c List.mem_cons_self) (hread c List.mem_cons_self) hp
    rw [partsFrom]
    simp only [hne, Bool.false_eq_true, if_false, List.map_cons, List.filterMap_cons, hone]
    rw [ih (fun d hd => hsound d (List.mem_cons_of_mem _ hd)) fun d hd => hread d (List.mem_cons_of_mem _ hd)]

/-! ## The table -/

/-- Plain columns make a table without keys and references. -/
theorem ofDeclarations_plain (table statement : Text) (dialect : Dialect) (columns : List (Text × Spelling)) :
    Table.ofDeclarations table statement dialect
        (columns.map fun c => .column ⟨.plain c.1 c.2.text, none⟩) =
      ⟨table, columns.map fun c => .plain c.1 c.2.text, none, [], [], statement, dialect⟩ := by
  have hunique : (columns.map fun c => Declaration.column ⟨.plain c.1 c.2.text, none⟩).filterMap
      Declaration.uniqueColumn? = [] := by
    simp [List.filterMap_map, Declaration.uniqueColumn?, Function.comp_def]
  have hcolumns : (columns.map fun c => Declaration.column ⟨.plain c.1 c.2.text, none⟩).filterMap
      Declaration.column? = columns.map fun c => Column.plain c.1 c.2.text := by
    simp [List.filterMap_map, Declaration.column?, Function.comp_def]
  have hkey : (columns.map fun c => Declaration.column ⟨.plain c.1 c.2.text, none⟩).findSome?
      Declaration.primaryKey? = none := by
    simp [List.findSome?_map, Declaration.primaryKey?, Function.comp_def]
  have hplain : (columns.map fun c => Column.plain c.1 c.2.text).find? Column.isPrimaryKey = none := by
    simp [Column.plain]
  have hforeign : (columns.map fun c => Declaration.column ⟨.plain c.1 c.2.text, none⟩).flatMap
      Declaration.foreignKeys = [] := by
    simp [List.flatMap_map, Declaration.foreignKeys]
  simp only [Table.ofDeclarations, hunique, hcolumns, hkey, List.foldl_nil, hplain, hforeign]
  rfl

/-- A plain table definition is read as a table with its columns. -/
theorem readTable_lexemes (table : Text) (hcolumns : IsReadable columns) (hne : columns ≠ [])
    (dialect : Dialect) (create : Token) (whole rest : List Token) (g g' : List Trivia) :
    ∃ fragments, Finding.readTable dialect create whole
        (⟨g, .identifier table, table⟩ :: ⟨g', .leftParen, ['(']⟩ :: (lexemes [] (columnsItems columns) ++ rest)) =
      .ok (.table ⟨table, columns.map fun c => .plain c.1 c.2.text, none, [], [],
        Token.verbatim (create :: Token.taken whole rest), dialect⟩ fragments, rest) := by
  obtain ⟨ps, hps, hread⟩ := exists_pieces hcolumns hne [] rest
  have hsplit : splitGroup (⟨g', .leftParen, ['(']⟩ :: (lexemes [] (columnsItems columns) ++ rest)) =
      .ok (partsFrom (lexemes [] (columnsItems columns) ++ rest) ps, rest) := by
    have hopen : expect .leftParen "'('" (⟨g', .leftParen, ['(']⟩ ::
        (lexemes [] (columnsItems columns) ++ rest)) = .ok ((), lexemes [] (columnsItems columns) ++ rest) := rfl
    unfold splitGroup
    rw [hopen]
    simp only [hps]
  have hname (ts : List Token) : name "table name" (⟨g, .identifier table, table⟩ ::
      ⟨g', .leftParen, ['(']⟩ :: ts) = .ok (table, ⟨g', .leftParen, ['(']⟩ :: ts) := by
    have hparts : nameParts "table name" (⟨g, .identifier table, table⟩ :: ⟨g', .leftParen, ['(']⟩ :: ts) =
        .ok ([table], ⟨g', .leftParen, ['(']⟩ :: ts) := by cases ts <;> rfl
    rw [name, bind_ok hparts, Text.joinWith, List.intercalate_singleton]
    rfl
  have hdeclared := declarations_read hcolumns.sound hcolumns.type hread
    (lexemes [] (columnsItems columns) ++ rest)
  refine ⟨(partsFrom (lexemes [] (columnsItems columns) ++ rest) ps).map Fragment.read, ?_⟩
  rw [← ofDeclarations_plain, ← hdeclared, Finding.readTable, bind_ok (a := ()) (by rfl),
    bind_ok (hname _), bind_ok hsplit]
  rfl

/-- A plain table definition declares its table and nothing else. -/
theorem tables_createTable {table : Text} (h : IsWellFormed table columns)
    (htable : Scan.wordKind table = .identifier table) (hcolumns : IsReadable columns) (dialect : Dialect) :
    Script.tables dialect (createTable table (written columns)) =
      [⟨table, columns.map fun c => .plain c.1 c.2.text, none, [], [],
        createTable table (written columns), dialect⟩] := by
  have hplain := plain_items h
  have hlast := getLast?_items table columns
  have hverbatim := verbatim_lexemes (i := word Keyword.create.text) (by simp) hlast []
  have hscan := scan_render hplain hlast
  rw [render_items table h.nonempty] at hscan
  rw [← items, render_items table h.nonempty] at hverbatim
  have hcreate : Scan.wordKind Keyword.create.text = .keyword .create := by decide +kernel
  have hkeyword : Scan.wordKind Keyword.table.text = .keyword .table := by decide +kernel
  have hitems : lexemes [] (items table columns) = ⟨[], .keyword .create, Keyword.create.text⟩ ::
      ⟨[.blank " "], .keyword .table, Keyword.table.text⟩ :: ⟨[.blank " "], .identifier table, table⟩ ::
        ⟨[.blank " "], .leftParen, ['(']⟩ :: lexemes [] (columnsItems columns) := by
    simp only [items, lexemes, kind, hcreate, hkeyword, htable]
    rfl
  generalize hbody : (⟨[.blank " "], .keyword .table, Keyword.table.text⟩ ::
    ⟨[.blank " "], .identifier table, table⟩ :: ⟨[.blank " "], .leftParen, ['(']⟩ ::
      lexemes [] (columnsItems columns) : List Token) = body at hitems
  have hstatement : Token.verbatim (⟨[], .keyword .create, Keyword.create.text⟩ ::
      Token.taken (body ++ [⟨[], .eof, []⟩]) [⟨[], .eof, []⟩]) = createTable table (written columns) := by
    rw [Token.taken_append, ← hitems, hverbatim]
  obtain ⟨fragments, hread⟩ := readTable_lexemes table hcolumns h.nonempty dialect
    ⟨[], .keyword .create, Keyword.create.text⟩ (body ++ [⟨[], .eof, []⟩]) [⟨[], .eof, []⟩]
    [.blank " "] [.blank " "]
  have hafter : Finding.afterCreate dialect ⟨[], .keyword .create, Keyword.create.text⟩
      (body ++ [⟨[], .eof, []⟩]) (body ++ [⟨[], .eof, []⟩]) =
        .ok (.table ⟨table, columns.map fun c => .plain c.1 c.2.text, none, [], [],
          createTable table (written columns), dialect⟩ fragments, [⟨[], .eof, []⟩]) := by
    rw [hstatement] at hread
    have hreplace : Finding.orReplace (body ++ [⟨[], .eof, []⟩]) = .ok ((), body ++ [⟨[], .eof, []⟩]) := by
      rw [← hbody]
      rfl
    have hglobal : eatKeyword .global (body ++ [⟨[], .eof, []⟩]) = .ok (false, body ++ [⟨[], .eof, []⟩]) := by
      rw [← hbody]
      rfl
    have htemporary : eatKeyword .temporary (body ++ [⟨[], .eof, []⟩]) =
        .ok (false, body ++ [⟨[], .eof, []⟩]) := by
      rw [← hbody]
      rfl
    rw [Finding.afterCreate, bind_ok hreplace, bind_ok hglobal, bind_ok htemporary]
    refine Eq.trans ?_ hread
    rw [← hbody]
    rfl
  have hend : Script.findings dialect [⟨[], .eof, []⟩] = [] := by
    rw [Script.findings]
    exact if_pos rfl
  have hfindings : Script.findings dialect (⟨[], .keyword .create, Keyword.create.text⟩ ::
      (body ++ [⟨[], .eof, []⟩])) = [.table ⟨table, columns.map fun c => .plain c.1 c.2.text, none, [], [],
        createTable table (written columns), dialect⟩ fragments] := by
    rw [Script.findings, if_neg (by decide), if_pos (by rfl)]
    split
    · next hstep =>
      rw [hafter] at hstep
      cases hstep
      rw [hend]
    · next hstep =>
      rw [hafter] at hstep
      cases hstep
  rw [Script.tables, hscan, hitems, List.cons_append, hfindings]
  rfl

end Definition

end DialectBridge
