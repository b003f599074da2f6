import DialectBridge.Proofs.Conversion.Definition
import DialectBridge.Proofs.Types.Spelling

/-!
# Converting the types of columns

Within a table definition the type table finds the declared types and nothing else: no name is taken for
a type, and every type is converted in its own place as it is by itself.
-/

namespace DialectBridge

namespace TypeTable

open Pattern

variable {types : TypeTable} {before after stop name size u : Text} {fresh : Bool}

/-- What stands in the place of a piece of a text. -/
def replaced : Cut RuleMatch → Text
  | .copied c => [c]
  | .found m => ((change? m).map TypeChange.written).getD m.text

/-- The text after `before` with its types replaced. -/
def rewritten (types : TypeTable) (fresh : Bool) (before after : Text) : Text :=
  (Cut.pieces types.matcher 0 fresh before after).flatMap replaced

theorem convertText_eq (types : TypeTable) (t : Text) :
    (types.convertText t).text = types.rewritten true [] t := by
  show (cut types.matcher t).flatMap _ = (cut types.matcher t).flatMap replaced
  congr 1
  funext piece
  cases piece <;> rfl

/-- Where the table finds nothing, a character is copied. -/
theorem rewritten_cons {c : Char} (h : types.matcher before (c :: after) = none) :
    types.rewritten fresh before (c :: after) = c :: types.rewritten true (c :: before) after := by
  rw [rewritten, Cut.pieces_none h]
  rfl

theorem rewritten_nil (ht : types.IsOrderly) : types.rewritten fresh before [] = [] := by
  rw [rewritten, Cut.pieces_nil, List.flatMap_nil]
  refine matcher_none_of_word ht (.inr fun r hr hfold => ?_)
  exact (ht.shape hr).1 (List.map_eq_nil_iff.1 hfold.symm)

/-- A character that belongs to no word is copied. -/
theorem rewritten_sign (ht : types.IsOrderly) {c : Char} (hc : isWordCharacter c = false) :
    types.rewritten fresh before (c :: after) = c :: types.rewritten true (c :: before) after := by
  refine rewritten_cons (matcher_none_of_word ht (.inr fun r hr hfold => ?_))
  rw [List.takeWhile_cons_of_neg (by simp [hc])] at hfold
  exact (ht.shape hr).1 (List.map_eq_nil_iff.1 hfold.symm)

/-- A word that starts no type is copied. -/
theorem rewritten_word (ht : types.IsOrderly) {w : Text} (hne : w ≠ []) (hw : ∀ c ∈ w, isBare c = true)
    (hafter : after.head?.any isWordCharacter = false)
    (hword : ∀ r ∈ types.rules, Text.fold w ≠ Text.fold r.word) :
    types.rewritten fresh before (w ++ after) =
      w ++ types.rewritten true (w.reverse ++ before) after := by
  have hstart : types.matcher before (w ++ after) = none := by
    refine matcher_none_of_word ht (.inr fun r hr => ?_)
    rw [Text.takeWhile_run (fun d hd => wordCharacter_of_bare (hw d hd)) hafter]
    exact hword r hr
  rw [rewritten, Cut.pieces_word hne (fun c hc => wordCharacter_of_bare (hw c hc)) hstart fun _ _ hbefore _ =>
    matcher_none_of_word ht (.inl hbefore), List.flatMap_append, Cut.flatMap_copied fun _ => rfl]
  rfl

/-! ## The place of a type -/

/-- The place behind the name of a column is no place of a name, unless a dot follows. -/
theorem not_namePlace (h : types.IsFreeName name) (hbefore : before.head? = some '(' ∨ before.head? = some ' ')
    (hdot : (Text.trimStart stop).head? ≠ some '.') : isNamePlace (' ' :: (name.reverse ++ before)) stop = false := by
  have hapart : before.head?.any (fun c => isAlphanumeric c || c == '_') = false := by
    rcases hbefore with h | h <;> (rw [h]; decide +kernel)
  have hne : name.reverse ≠ [] := by simpa using h.ne_nil
  obtain ⟨c, w, hw⟩ := List.exists_cons_of_ne_nil hne
  have hc : isBare c = true := h.bare c (List.mem_reverse.1 (hw ▸ List.mem_cons_self))
  have htrim : Text.trimStart (' ' :: (name.reverse ++ before)) = name.reverse ++ before := by
    rw [Text.trimStart, List.dropWhile_cons_of_pos (by decide), hw, List.cons_append,
      List.dropWhile_cons_of_neg (by simp [not_blank_of_bare hc])]
  have hsign : c ≠ '.' ∧ c ≠ '(' ∧ c ≠ ',' := by
    refine ⟨?_, ?_, ?_⟩ <;> rintro rfl <;> exact absurd hc (by decide)
  have hhead : (name.reverse ++ before).head? = some c := by
    rw [hw]
    rfl
  have hword : wordBefore (name.reverse ++ before) = name := by
    have hname : ∀ d ∈ name.reverse, (isAlphanumeric d || d == '_') = true :=
      fun d hd => nameCharacter_of_bare (h.bare d (List.mem_reverse.1 hd))
    rw [wordBefore, Text.takeWhile_run hname hapart, List.reverse_reverse]
  have hfree : nameIntroducers.any (fun keyword => keyword.same name) = false := by
    refine Bool.eq_false_iff.2 fun hany => ?_
    obtain ⟨keyword, hmem, hsame⟩ := List.any_eq_true.1 hany
    have hreserved : keyword ∈ types.reservedWords := by simp [reservedWords, hmem]
    rw [Text.same_comm, h.free keyword hreserved] at hsame
    cases hsame
  unfold isNamePlace
  simp only [htrim, hhead, hword, Option.some.injEq, hsign, hdot, or_self, if_false, hfree]
  rw [if_neg (by simpa using h.ne_nil)]

/-- A size holds no blank. -/
theorem not_blank_of_isSize (h : IsSize size) : ∀ c ∈ size, isBlank c = false := by
  cases h with
  | none => simp
  | @some y hy =>
    intro c hc
    simp only [List.mem_cons, List.mem_append, List.not_mem_nil, or_false] at hc
    rcases hc with rfl | hc | rfl
    · decide
    · exact not_blank_of_size (hy c hc)
    · decide

/-- A size is carried over as it is. -/
theorem carriedSize_of_isSize (h : IsSize size) : carriedSize size = size := by
  have hblank := not_blank_of_isSize h
  have hstart : ∀ c ∈ size, lengthUnit.startsWith c = false := fun c hc => by
    simp [lengthUnit, startsWith, space, Pattern.some, Pattern.sequence, nullable, hblank c hc]
  rw [carriedSize, replaceFirst_of_hasMatch _ (hasMatch_of_start rfl hstart), List.filter_eq_self]
  exact fun c hc => by simp [hblank c hc]

/-! ## Declared types -/

/-- What a declared type becomes: a type with the words of a target, by itself and in its place. -/
structure Becomes (types : TypeTable) (t u : Text) : Prop where
  spelled : ∃ s : Spelling, s.IsSound ∧ s.text = u ∧
    ∃ r ∈ types.rules, s.words = (Spelling.ofText r.target).words
  alone : types.convertType? t = some u
  inPlace : ∀ ⦃fresh before stop⦄, before.head?.any isWordCharacter = false → EndsType stop →
    isNamePlace before stop = false → types.rewritten fresh before (t ++ stop) =
      u ++ types.rewritten false (t.reverse ++ before) stop

theorem Declares.exists_becomes (ht : types.IsOrderly) (hs : types.IsSpelled) {t : Text}
    (h : types.Declares t) : ∃ u, types.Becomes t u := by
  obtain ⟨m, hrule, harguments, hmatch⟩ := h.exists_match ht
  obtain ⟨s, hsound, rfl, -⟩ := h.exists_spelling ht hs
  have hne : s.text ≠ [] := hsound.text_ne_nil
  have hcut {fresh : Bool} {before stop : Text} (hbefore : before.head?.any isWordCharacter = false)
      (hstop : EndsType stop) : Cut.pieces types.matcher 0 fresh before (s.text ++ stop) =
        .found ⟨before, s.text, stop, m⟩ ::
          Cut.pieces types.matcher 0 false (s.text.reverse ++ before) stop :=
    Cut.pieces_some (hmatch hbefore hstop) hne
  have hchange {before stop : Text} (hplace : isNamePlace before stop = false) :
      change? ⟨before, s.text, stop, m⟩ = some ⟨s.text, m.written⟩ := by
    rw [change?, if_neg (by simp [hplace])]
  have hinPlace {fresh : Bool} {before stop : Text} (hbefore : before.head?.any isWordCharacter = false)
      (hstop : EndsType stop) (hplace : isNamePlace before stop = false) :
      types.rewritten fresh before (s.text ++ stop) =
        m.written ++ types.rewritten false (s.text.reverse ++ before) stop := by
    rw [rewritten, hcut hbefore hstop, List.flatMap_cons, replaced, hchange hplace]
    rfl
  refine ⟨m.written, hs.exists_spelling hrule ?_, ?_, fun fresh before stop => hinPlace⟩
  · rcases harguments with hnone | ⟨size, hsize, hsome⟩
    · exact .inl (by rw [RuleMatch.written, hnone])
    · rw [RuleMatch.written, hsome]
      simp only [carriedSize_of_isSize hsize]
      split
      · next hkeeps => exact .inr ⟨size, hsize, hkeeps, rfl⟩
      · exact .inl rfl
  · have hend : EndsType [] := by simp [EndsType]
    have hchanges : ⟨s.text, m.written⟩ ∈ (types.convertText s.text).changes := by
      have hfound := @hcut true [] [] rfl hend
      rw [List.append_nil] at hfound
      refine List.mem_filterMap.2 ⟨⟨[], s.text, [], m⟩, ?_, hchange rfl⟩
      rw [allMatches, cut, hfound]
      exact List.mem_cons_self
    have htext : (types.convertText s.text).text = m.written := by
      have hplace := @hinPlace true [] [] rfl hend rfl
      rw [List.append_nil, List.append_nil, rewritten_nil ht, List.append_nil] at hplace
      rw [convertText_eq, hplace]
    rw [convertType?, hsound.trim_text]
    simp only [htext]
    rw [if_neg]
    simpa using List.ne_nil_of_mem hchanges

/-! ## Table definitions -/

section

/-- The columns have one free name, and behind it the type of the first one is converted to that of the second one. -/
structure ConvertsColumn (types : TypeTable) (c d : Text × Text) : Prop where
  free : types.IsFreeName c.1
  name : d.1 = c.1
  type : ∀ ⦃fresh before stop⦄, before.head? = some '(' ∨ before.head? = some ' ' → EndsType stop →
    types.rewritten fresh (' ' :: (c.1.reverse ++ before)) (c.2 ++ stop) =
      d.2 ++ types.rewritten false (c.2.reverse ++ ' ' :: (c.1.reverse ++ before)) stop

theorem Becomes.convertsColumn {t u : Text} (h : types.Becomes t u) (hname : types.IsFreeName name) :
    types.ConvertsColumn (name, t) (name, u) := by
  refine ⟨hname, rfl, fun fresh before stop hbefore hstop => ?_⟩
  have hdot : (Text.trimStart stop).head? ≠ some '.' := hstop.head?_ne (by decide) (by decide)
  exact h.inPlace (not_wordCharacter_of_blank (by decide)) hstop (not_namePlace hname hbefore hdot)

/-- A name with its type is converted in its type alone. -/
theorem rewritten_column (fresh : Bool) (ht : types.IsOrderly) {c d : Text × Text}
    (hcolumn : types.ConvertsColumn c d) (hbefore : before.head? = some '(' ∨ before.head? = some ' ')
    (hstop : EndsType stop) :
    ∃ before', types.rewritten fresh before (columnText c ++ stop) =
      columnText d ++ types.rewritten false before' stop := by
  obtain ⟨hname, hsame, htype⟩ := hcolumn
  have hblank : isWordCharacter ' ' = false := not_wordCharacter_of_blank (by decide)
  have hword : types.rewritten fresh before (c.1 ++ ' ' :: (c.2 ++ stop)) =
      c.1 ++ types.rewritten true (c.1.reverse ++ before) (' ' :: (c.2 ++ stop)) :=
    rewritten_word ht hname.ne_nil hname.bare hblank fun r hr => hname.fold_ne hr (ht.shape hr).1
  refine ⟨c.2.reverse ++ ' ' :: (c.1.reverse ++ before), ?_⟩
  rw [columnText, List.append_assoc, List.cons_append, hword, rewritten_sign ht hblank, htype hbefore hstop, ← hsame]
  simp [columnText]

/-- The columns of a definition are converted one by one. -/
theorem rewritten_columns (fresh : Bool) (before : Text) (ht : types.IsOrderly) {columns converted : List (Text × Text)}
    (hcolumns : List.Forall₂ types.ConvertsColumn columns converted)
    (hbefore : before.head? = some '(' ∨ before.head? = some ' ') :
    types.rewritten fresh before (columnsText columns) = columnsText converted := by
  have hsign : isWordCharacter ' ' = false ∧ isWordCharacter ',' = false ∧ isWordCharacter ')' = false := by
    decide +kernel
  have hend (fresh : Bool) (before : Text) : types.rewritten fresh before [')'] = [')'] := by
    rw [rewritten_sign ht hsign.2.2, rewritten_nil ht]
  induction hcolumns generalizing before fresh with
  | nil => exact hend fresh before
  | @cons c d columns converted hcolumn hrest ih =>
    cases hrest with
    | nil =>
      have hstop : EndsType [')'] := fun d hd => .inr (Option.some.inj hd).symm
      obtain ⟨before', hrewritten⟩ := rewritten_column fresh ht hcolumn hbefore hstop
      rw [columnsText_singleton, columnsText_singleton, hrewritten, hend]
    | @cons e f columns converted _ _ =>
      have hstop : EndsType (',' :: ' ' :: columnsText (e :: columns)) :=
        fun e he => .inl (Option.some.inj he).symm
      obtain ⟨before', hrewritten⟩ := rewritten_column fresh ht hcolumn hbefore hstop
      rw [columnsText_cons_cons, columnsText_cons_cons, hrewritten, rewritten_sign ht hsign.2.1,
        rewritten_sign ht hsign.1, ih true (' ' :: ',' :: before') (.inr rfl)]

/-- A table definition is converted in the types of its columns alone. -/
theorem convertText_definition (ht : types.IsOrderly) (hs : types.IsSpelled) {table : Text}
    (htable : types.IsFreeName table) {columns converted : List (Text × Text)}
    (hcolumns : List.Forall₂ types.ConvertsColumn columns converted) :
    (types.convertText (createTable table columns)).text = createTable table converted := by
  have hblank : isWordCharacter ' ' = false := not_wordCharacter_of_blank (by decide)
  have hparen : isWordCharacter '(' = false := by decide +kernel
  have hkeyword {fresh : Bool} {keyword : Keyword} {before rest : Text} :
      types.rewritten fresh before (keyword.text ++ ' ' :: rest) =
        keyword.text ++ ' ' :: types.rewritten true (' ' :: (keyword.text.reverse ++ before)) rest := by
    have hbare := keyword.isBareWord_text
    have hstop : (' ' :: rest).head?.any isWordCharacter = false := hblank
    rw [rewritten_word ht hbare.ne_nil hbare.bare hstop fun r hr => hs.word_ne_keyword hr keyword,
      rewritten_sign ht hblank]
  have hname {before rest : Text} : types.rewritten true before (table ++ ' ' :: rest) =
      table ++ ' ' :: types.rewritten true (' ' :: (table.reverse ++ before)) rest := by
    have hstop : (' ' :: rest).head?.any isWordCharacter = false := hblank
    rw [rewritten_word ht htable.ne_nil htable.bare hstop fun r hr => htable.fold_ne hr (ht.shape hr).1,
      rewritten_sign ht hblank]
  have hbody (before : Text) := rewritten_columns true ('(' :: before) ht hcolumns (.inl rfl)
  rw [convertText_eq, createTable_eq, createTable_eq, hkeyword, hkeyword, hname, rewritten_sign ht hparen,
    hbody]

/-- Declared types are converted to what they become by themselves. -/
theorem convertText_createTable (ht : types.IsOrderly) (hs : types.IsSpelled) {table : Text}
    (htable : types.IsFreeName table) {becomes : Text → Text} {columns : List (Text × Text)}
    (_ : columns ≠ []) (hcolumns : ∀ c ∈ columns, types.IsFreeName c.1 ∧ types.Becomes c.2 (becomes c.2)) :
    (types.convertText (createTable table columns)).text =
      createTable table (columns.map fun c => (c.1, becomes c.2)) := by
  refine convertText_definition ht hs htable (List.forall₂_map_right_iff.2 (List.forall₂_same.2 fun c hc => ?_))
  exact (hcolumns c hc).2.convertsColumn (hcolumns c hc).1

end

end TypeTable

end DialectBridge
