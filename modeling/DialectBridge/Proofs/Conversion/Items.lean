import DialectBridge.Proofs.Conversion.Definition
import DialectBridge.Proofs.Types.Spelling

/-!
# Table definitions as plain texts

A table definition whose names are bare and whose types are spelled is a plain text. So its tokens and
its words can be told, and it is code as a whole.
-/

namespace DialectBridge

namespace Definition

open Item

/-! ## Definitions from the items of their columns -/

/-- The items of columns up to the end of the definition. -/
def bodyItems : List (List Item) → List Item
  | [] => [sign ')']
  | [is] => is ++ [sign ')']
  | is :: js :: body => is ++ sign ',' :: blank :: bodyItems (js :: body)

/-- The items of a definition with columns of these items. -/
def tableItems (table : Text) (body : List (List Item)) : List Item :=
  word Keyword.create.text :: blank :: word Keyword.table.text :: blank :: word table :: blank ::
    sign '(' :: bodyItems body

/-- The items make up the text of the column. -/
structure IsColumn (is : List Item) (c : Text × Text) : Prop where
  plain : Plain is
  render : render is = columnText c
  head : is.head? ≠ some blank

section

variable {table : Text} {body : List (List Item)} {columns : List (Text × Text)}

theorem render_bodyItems (h : List.Forall₂ (fun is c => render is = columnText c) body columns) :
    render (bodyItems body) = columnsText columns := by
  induction h with
  | nil => rfl
  | @cons is c body columns hcolumn hrest ih =>
    cases hrest with
    | nil =>
      rw [bodyItems, render_append, hcolumn]
      exact (columnsText_singleton c).symm
    | cons _ _ =>
      rw [bodyItems, render_append, hcolumn, render_cons, render_cons, ih]
      exact (columnsText_cons_cons ..).symm

theorem render_tableItems (table : Text) (h : List.Forall₂ (fun is c => render is = columnText c) body columns) :
    render (tableItems table body) = createTable table columns := by
  rw [createTable_eq, tableItems]
  simp [Item.text, render_bodyItems h]

theorem plain_bodyItems (h : ∀ is ∈ body, Plain is ∧ is.head? ≠ some blank) : Plain (bodyItems body) := by
  -- a sign other than a dot may stand behind any item
  have hsign {is js : List Item} {c : Char} (hc : c ≠ '.') (his : Plain is) (hjs : Plain (sign c :: js)) :
      Plain (is ++ sign c :: js) :=
    his.append hjs fun i _ j hj => by
      obtain rfl : sign c = j := Option.some.inj hj
      simp [Meets, isRun, hc]
  have hclose : Plain [sign ')'] := ⟨by simp [Item.IsSound], .singleton _⟩
  fun_induction bodyItems body with
  | case1 => exact hclose
  | case2 is => exact hsign (by decide) (h is List.mem_cons_self).1 hclose
  | case3 is js body ih =>
    have hrest := ih fun ks hks => h ks (List.mem_cons_of_mem _ hks)
    have hjs : js.head? ≠ some blank := (h js (by simp)).2
    have hhead : (bodyItems (js :: body)).head? ≠ some blank := by
      cases js <;> cases body <;> simp_all [bodyItems]
    exact hsign (by decide) (h is List.mem_cons_self).1
      ((hrest.blank_cons hhead).sign_cons (by simp [Item.IsSound]))

theorem plain_tableItems (htable : IsBareWord table) (h : List.Forall₂ IsColumn body columns) :
    Plain (tableItems table body) := by
  have hbody : ∀ is ∈ body, Plain is ∧ is.head? ≠ some blank := by
    intro is his
    obtain ⟨n, hn, rfl⟩ := List.getElem_of_mem his
    have hcolumn := h.get hn (h.length_eq ▸ hn)
    exact ⟨hcolumn.plain, hcolumn.head⟩
  have hopen : Plain (sign '(' :: bodyItems body) := (plain_bodyItems hbody).sign_cons (.inl rfl)
  have hname := hopen.word_cons htable (by simp)
  have hkeyword := hname.word_cons Keyword.table.isBareWord_text (by simp)
  exact hkeyword.word_cons Keyword.create.isBareWord_text (by simp)

/-- A definition ends with a parenthesis. -/
theorem getLast?_tableItems (table : Text) (body : List (List Item)) :
    (tableItems table body).getLast? ≠ some blank := by
  have hbody (body : List (List Item)) : (bodyItems body).getLast? = some (sign ')') := by
    fun_induction bodyItems body with
    | case1 => rfl
    | case2 is => simp
    | case3 is js body ih => simp [List.getLast?_append, List.getLast?_cons, ih]
  simp [tableItems, List.getLast?_cons, hbody]

/-- A definition is code. -/
theorem segments_tableItems (htable : IsBareWord table) (h : List.Forall₂ IsColumn body columns) :
    segments (createTable table columns) = [⟨.code, createTable table columns⟩] := by
  rw [← render_tableItems table (h.imp fun _ _ hcolumn => hcolumn.render)]
  exact segments_render (plain_tableItems htable h) (getLast?_tableItems table body) (by simp [tableItems])

theorem forall₂_map_map {α β γ : Type} {R : β → γ → Prop} {f : α → β} {g : α → γ} {cs : List α}
    (h : ∀ c ∈ cs, R (f c) (g c)) : List.Forall₂ R (cs.map f) (cs.map g) :=
  List.forall₂_map_left_iff.2 (List.forall₂_map_right_iff.2 (List.forall₂_same.2 h))

/-- The items of columns one by one. -/
theorem exists_body {α : Type} {cs : List α} (f : α → Text × Text) (p : List Item → Prop)
    (h : ∀ c ∈ cs, ∃ is, IsColumn is (f c) ∧ p is) :
    ∃ body, List.Forall₂ IsColumn body (cs.map f) ∧ ∀ is ∈ body, p is := by
  induction cs with
  | nil => exact ⟨[], .nil, by simp⟩
  | cons c cs ih =>
    obtain ⟨is, hcolumn, his⟩ := h c List.mem_cons_self
    obtain ⟨body, hbody, hall⟩ := ih fun d hd => h d (List.mem_cons_of_mem _ hd)
    exact ⟨is :: body, .cons hcolumn hbody, List.forall_mem_cons.2 ⟨his, hall⟩⟩

/-- A run of a body is a run of a column. -/
theorem run_of_bodyItems {i : Item} (h : i ∈ bodyItems body) (hi : i.isRun = true) : ∃ is ∈ body, i ∈ is := by
  fun_induction bodyItems body with
  | case1 =>
    obtain rfl := List.mem_singleton.1 h
    cases hi
  | case2 is =>
    rcases List.mem_append.1 h with h | h
    · exact ⟨is, List.mem_cons_self, h⟩
    · obtain rfl := List.mem_singleton.1 h
      cases hi
  | case3 is js body ih =>
    simp only [List.mem_append, List.mem_cons] at h
    rcases h with h | rfl | rfl | h
    · exact ⟨is, List.mem_cons_self, h⟩
    · cases hi
    · cases hi
    · obtain ⟨ks, hks, h⟩ := ih h
      exact ⟨ks, List.mem_cons_of_mem _ hks, h⟩

/-- A run of a definition is one of its words or a run of a column. -/
theorem run_of_tableItems {i : Item} (h : i ∈ tableItems table body) (hi : i.isRun = true) :
    i = word Keyword.create.text ∨ i = word Keyword.table.text ∨ i = word table ∨ ∃ is ∈ body, i ∈ is := by
  simp only [tableItems, List.mem_cons] at h
  rcases h with rfl | rfl | rfl | rfl | rfl | rfl | rfl | h
  · exact .inl rfl
  · cases hi
  · exact .inr (.inl rfl)
  · cases hi
  · exact .inr (.inr (.inl rfl))
  · cases hi
  · cases hi
  · exact .inr (.inr (.inr (run_of_bodyItems h hi)))

end

/-- A plain text holds a word in one of its runs. -/
theorem exists_run_of_holdsWord {is : List Item} (h : Plain is) {word : Text} (hholds : (render is).HoldsWord word) :
    ∃ i ∈ is, i.isRun = true ∧ Text.fold i.text = Text.fold word := by
  obtain ⟨w, hw, hfold⟩ := hholds
  rw [runs_render h] at hw
  obtain ⟨i, hi, rfl⟩ := List.mem_map.1 hw
  obtain ⟨hi, hrun⟩ := List.mem_filter.1 hi
  exact ⟨i, hi, hrun, hfold⟩

/-! ## Columns with spelled types -/

/-- The items of a column. -/
def columnItems (c : Text × Spelling) : List Item :=
  word c.1 :: blank :: c.2.items

/-- The items of the columns up to the end of the definition. -/
def columnsItems (columns : List (Text × Spelling)) : List Item :=
  bodyItems (columns.map columnItems)

theorem columnsItems_singleton (c : Text × Spelling) : columnsItems [c] = columnItems c ++ [sign ')'] := rfl

theorem columnsItems_cons_cons (c d : Text × Spelling) (columns : List (Text × Spelling)) :
    columnsItems (c :: d :: columns) = columnItems c ++ sign ',' :: blank :: columnsItems (d :: columns) := rfl

/-- The items of a table definition. -/
def items (table : Text) (columns : List (Text × Spelling)) : List Item :=
  word Keyword.create.text :: blank :: word Keyword.table.text :: blank :: word table :: blank ::
    sign '(' :: columnsItems columns

/-- The columns as they are written. -/
def written (columns : List (Text × Spelling)) : List (Text × Text) :=
  columns.map fun c => (c.1, c.2.text)

/-- The names are bare, and the types are spelled. -/
structure IsWellFormed (table : Text) (columns : List (Text × Spelling)) : Prop where
  nonempty : columns ≠ []
  table : IsBareWord table
  columns : ∀ c ∈ columns, IsBareWord c.1 ∧ c.2.IsSound

variable {table : Text} {columns : List (Text × Spelling)}

theorem items_eq (table : Text) (columns : List (Text × Spelling)) :
    items table columns = tableItems table (columns.map columnItems) := rfl

theorem render_columnItems (c : Text × Spelling) : render (columnItems c) = columnText (c.1, c.2.text) := by
  simp [columnItems, columnText, Spelling.render_items, Item.text]

theorem isColumn_columnItems {c : Text × Spelling} (hname : IsBareWord c.1) (htype : c.2.IsSound) :
    IsColumn (columnItems c) (c.1, c.2.text) where
  plain := (Spelling.plain_items htype).word_cons hname (by simp [Spelling.items])
  render := render_columnItems c
  head := by simp [columnItems]

theorem IsWellFormed.isColumn (h : IsWellFormed table columns) :
    List.Forall₂ IsColumn (columns.map columnItems) (written columns) :=
  forall₂_map_map fun c hc => isColumn_columnItems (h.columns c hc).1 (h.columns c hc).2

theorem render_items (table : Text) (_ : columns ≠ []) :
    render (items table columns) = createTable table (written columns) :=
  render_tableItems table (forall₂_map_map fun c _ => render_columnItems c)

theorem plain_items (h : IsWellFormed table columns) : Plain (items table columns) :=
  plain_tableItems h.table h.isColumn

/-- A definition ends with a parenthesis. -/
theorem getLast?_items (table : Text) (columns : List (Text × Spelling)) :
    (items table columns).getLast? ≠ some blank :=
  getLast?_tableItems table (columns.map columnItems)

/-- A definition is code. -/
theorem segments_createTable (h : IsWellFormed table columns) :
    segments (createTable table (written columns)) = [⟨.code, createTable table (written columns)⟩] :=
  segments_tableItems h.table h.isColumn

/-! ## The words of a definition -/

/-- A run of a type is one of its words or a number. -/
theorem run_of_spelling {s : Spelling} {i : Item} (h : i ∈ s.items) (hi : i.isRun = true) :
    i.text ∈ s.words ∨ ∃ ds, i = number ds := by
  simp only [Spelling.items, List.mem_append, List.mem_cons, List.mem_flatMap, List.not_mem_nil,
    or_false] at h
  rcases h with (rfl | ⟨w, hw, rfl | rfl⟩) | h
  · exact .inl List.mem_cons_self
  · cases hi
  · exact .inl (List.mem_cons_of_mem _ hw)
  · cases i with
    | number ds => exact .inr ⟨ds, rfl⟩
    | word _ | blank => cases mem_ofSize h
    | sign _ => cases hi

/-- A run of a column is its name, a word of its type or a number. -/
theorem run_of_column {c : Text × Spelling} {i : Item} (h : i ∈ columnItems c) (hi : i.isRun = true) :
    i.text = c.1 ∨ i.text ∈ c.2.words ∨ ∃ ds, i = number ds := by
  simp only [columnItems, List.mem_cons] at h
  rcases h with rfl | rfl | h
  · exact .inl rfl
  · cases hi
  · exact .inr (run_of_spelling h hi)

/-- A definition holds the words `CREATE` and `TABLE`, its names, the words of its types, and numbers. -/
theorem exists_of_holdsWord (h : IsWellFormed table columns) {word : Text}
    (hholds : (createTable table (written columns)).HoldsWord word) :
    ∃ w : Text, Text.fold w = Text.fold word ∧
      (w = Keyword.create.text ∨ w = Keyword.table.text ∨ w = table ∨
        (∃ c ∈ columns, w = c.1 ∨ w ∈ c.2.words) ∨ (w ≠ [] ∧ ∀ d ∈ w, d.isDigit = true)) := by
  have hplain := plain_items h
  rw [← render_items table h.nonempty] at hholds
  obtain ⟨i, hi, hrun, hfold⟩ := exists_run_of_holdsWord hplain hholds
  have hsound := hplain.sound i hi
  refine ⟨i.text, hfold, ?_⟩
  rw [items_eq] at hi
  rcases run_of_tableItems hi hrun with rfl | rfl | rfl | ⟨is, his, hi⟩
  · exact .inl rfl
  · exact .inr (.inl rfl)
  · exact .inr (.inr (.inl rfl))
  · obtain ⟨c, hc, rfl⟩ := List.mem_map.1 his
    rcases run_of_column hi hrun with hname | hword | ⟨ds, rfl⟩
    · exact .inr (.inr (.inr (.inl ⟨c, hc, .inl hname⟩)))
    · exact .inr (.inr (.inr (.inl ⟨c, hc, .inr hword⟩)))
    · exact .inr (.inr (.inr (.inr hsound)))

end Definition

end DialectBridge
