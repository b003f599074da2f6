import DialectBridge.Proofs.Serial.Matching

/-!
# Serial columns in a definition

In a table definition the step for serial columns replaces the columns that sequences feed (`replaces_fed`), leaves
plain columns alone (`replaces_plain`), and changes nothing between them (`sequenced_createTable`).
-/

namespace DialectBridge

namespace SerialColumn

open Pattern

variable {before after rest w : Text}

/-! ## One place after the other -/

/-- What stands in the place of a piece of a text. -/
def put : Cut (List (Nat × Text)) → Text
  | .copied c => [c]
  | .found m => (ofMatch m).definition

/-- The text after `before` with serial columns in it. -/
def sequenced (before after : Text) : Text :=
  (Cut.pieces pattern.matcher 0 true before after).flatMap put

theorem replaceMatches_eq (t : Text) :
    replaceMatches pattern.matcher (fun m => (ofMatch m).definition) t = sequenced [] t := by
  show (cut pattern.matcher t).flatMap _ = (cut pattern.matcher t).flatMap put
  congr 1
  funext piece
  cases piece <;> rfl

theorem pattern_nullable : pattern.nullable = false := rfl

/-- Where nothing is found, a character is copied. -/
theorem sequenced_cons {c : Char} (h : pattern.matcher before (c :: after) = none) :
    sequenced before (c :: after) = c :: sequenced (c :: before) after := by
  rw [sequenced, Cut.pieces_none h]
  rfl

theorem sequenced_nil : sequenced before [] = [] := by
  have hnone : pattern.matcher before [] = none := by
    refine matcher_none fun t h => ?_
    obtain ⟨-, w, blanks, word, rest, heq, hne, -⟩ := reaches_pattern h
    exact hne (List.append_eq_nil_iff.1 heq.symm).1
  rw [sequenced, Cut.pieces_nil hnone, List.flatMap_nil]

/-- A run at which nothing is found is copied. -/
theorem sequenced_run {run : Text} (hne : run ≠ []) (h : ∀ front c back, run = front ++ c :: back →
    pattern.matcher (front.reverse ++ before) (c :: (back ++ rest)) = none) :
    sequenced before (run ++ rest) = run ++ sequenced (run.reverse ++ before) rest := by
  rw [sequenced, Cut.pieces_run hne h, List.flatMap_append, Cut.flatMap_copied fun _ => rfl]
  rfl

/-- What is found is replaced. -/
theorem sequenced_found {taken : Text} {captures : List (Nat × Text)}
    (h : pattern.matcher before (taken ++ rest) = .some (taken, captures)) :
    sequenced before (taken ++ rest) =
      (ofMatch ⟨before, taken, rest, captures⟩).definition ++ sequenced (taken.reverse ++ before) rest := by
  have hempty (before after : Text) (value : List (Nat × Text)) : pattern.matcher before after ≠ .some ([], value) := by
    intro hmatch
    obtain ⟨c, t, heq, -⟩ := matcher_start pattern_nullable hmatch
    cases heq
  have hne : taken ≠ [] := by
    rintro rfl
    exact hempty _ _ _ h
  rw [sequenced, Cut.pieces_some h hne, List.flatMap_cons, Cut.pieces_fresh pattern.matcher_takesPrefix hempty]
  rfl

/-- No sign belongs to a name, and a sign that is no blank is no whitespace. -/
theorem not_blank_of_sign {c : Char} (hc : c ∈ ['(', ')', ',', ' ']) (hne : c ≠ ' ') :
    isBlank c = false ∧ isNameCharacter c = false := by
  simp only [List.mem_cons, List.not_mem_nil, or_false] at hc
  rcases hc with rfl | rfl | rfl | rfl
  · exact ⟨by decide, not_nameCharacter_of_sign (by decide)⟩
  · exact ⟨by decide, not_nameCharacter_of_sign (by decide)⟩
  · exact ⟨by decide, not_nameCharacter_of_sign (by decide)⟩
  · exact absurd rfl hne

/-- Blanks, commas and parentheses are copied. -/
theorem sequenced_sign {c : Char} (hc : c ∈ ['(', ')', ',', ' ']) :
    sequenced before (c :: after) = c :: sequenced (c :: before) after := by
  refine sequenced_cons ?_
  by_cases hblank : c = ' '
  · rw [hblank]
    exact matcher_none_blank
  · obtain ⟨hnot, hname⟩ := not_blank_of_sign hc hblank
    exact @matcher_none_of_sign _ _ [c] (by simpa using hnot) ⟨c, List.mem_cons_self, hname⟩

/-- A word is copied if nothing is found at its start. -/
theorem sequenced_word (hw : IsBareWord w) (h : pattern.matcher before (w ++ rest) = none) :
    sequenced before (w ++ rest) = w ++ sequenced (w.reverse ++ before) rest := by
  rw [sequenced, Cut.pieces_word hw.ne_nil (fun c hc => wordCharacter_of_bare (hw.bare c hc)) h fun _ _ =>
    matcher_none_inside, List.flatMap_append, Cut.flatMap_copied fun _ => rfl]
  rfl

/-- A size is copied. -/
theorem sequenced_size {size : Text} (hsize : IsSize size) :
    sequenced before (size ++ rest) = size ++ sequenced (size.reverse ++ before) rest := by
  cases hsize with
  | none => rfl
  | @some y hy =>
    refine sequenced_run (List.cons_ne_nil _ _) fun front c back heq => ?_
    have hblank : ∀ d ∈ '(' :: (y ++ [')']), isBlank d = false := by
      intro d hd
      simp only [List.mem_cons, List.mem_append, List.not_mem_nil, or_false] at hd
      rcases hd with rfl | hd | rfl
      · decide
      · exact not_blank_of_size (hy d hd)
      · decide
    have hlast : ')' ∈ c :: back := by
      have hend : ('(' :: (y ++ [')'])).getLast? = .some ')' := by simp [List.getLast?_cons]
      rw [heq, Text.getLast?_append_right _ (List.cons_ne_nil c back)] at hend
      exact List.mem_of_getLast? hend
    rw [← List.cons_append]
    refine matcher_none_of_sign (fun d hd => hblank d ?_) ⟨')', hlast, not_nameCharacter_of_sign (by decide)⟩
    rw [heq]
    exact List.mem_append_right _ hd

/-! ## Plain columns -/

/-- The numeric types are types of one word. -/
structure IsPlainType (s : Spelling) : Prop where
  sound : s.IsSound
  others : ∀ w ∈ s.others, IsNotNumeric w
  first : s.others = [] ∨ IsNotNumeric s.first

/-- What stands behind a word of a type: the other words, the size, and the end of the column. -/
def afterWord (others : List Text) (size rest : Text) : Text :=
  others.flatMap (' ' :: ·) ++ (size ++ rest)

section

variable {others : List Text} {size stop : Text} {e : Char}

theorem exists_afterWord (hsize : IsSize size) (he : e = ',' ∨ e = ')') :
    ∃ d t, afterWord others size (e :: stop) = d :: t ∧ d ∈ ['(', ')', ',', ' '] ∧ (others = [] → d ≠ ' ') := by
  cases others with
  | nil =>
    cases hsize with
    | none =>
      have hsigns : e ∈ ['(', ')', ',', ' '] ∧ e ≠ ' ' := by rcases he with rfl | rfl <;> decide
      exact ⟨e, stop, rfl, hsigns.1, fun _ => hsigns.2⟩
    | some hy => exact ⟨'(', _, rfl, by decide, fun _ => by decide⟩
  | cons v others => exact ⟨' ', _, rfl, by decide, by simp⟩

theorem head?_afterWord (hsize : IsSize size) (he : e = ',' ∨ e = ')') :
    (afterWord others size (e :: stop)).head?.any isWordCharacter = false := by
  obtain ⟨d, t, heq, hd, -⟩ := @exists_afterWord others size stop e hsize he
  rw [heq]
  show isWordCharacter d = false
  simp only [List.mem_cons, List.not_mem_nil, or_false] at hd
  rcases hd with rfl | rfl | rfl | rfl
  · exact Item.not_wordCharacter_of_sign (.inl rfl)
  · exact Item.not_wordCharacter_of_sign (.inr (.inl rfl))
  · exact Item.not_wordCharacter_of_sign (.inr (.inr (.inl rfl)))
  · exact not_wordCharacter_of_blank (by decide)

/-- The words of a type are copied, with its size. -/
theorem sequenced_type {first : Text} (hfirst : IsBareWord first)
    (hothers : ∀ w ∈ others, IsBareWord w ∧ IsNotNumeric w) (hsize : IsSize size) (he : e = ',' ∨ e = ')')
    (before : Text) :
    ∃ before', sequenced before (first ++ afterWord others size (e :: stop)) =
      first ++ afterWord others size (sequenced before' (e :: stop)) := by
  induction others generalizing first before with
  | nil =>
    obtain ⟨d, t, heq, hd, hne⟩ := @exists_afterWord [] size stop e hsize he
    have hsign := not_blank_of_sign hd (hne rfl)
    have hnone : pattern.matcher before (first ++ afterWord [] size (e :: stop)) = none := by
      rw [heq, ← List.singleton_append, ← List.append_assoc]
      refine matcher_none_of_sign (fun c hc => ?_) ⟨d, by simp, hsign.2⟩
      rcases List.mem_append.1 hc with hc | hc
      · exact not_blank_of_bare (hfirst.bare c hc)
      · exact List.mem_singleton.1 hc ▸ hsign.1
    rw [sequenced_word hfirst hnone]
    exact ⟨_, congrArg (first ++ ·) (sequenced_size hsize)⟩
  | cons v others ih =>
    obtain ⟨⟨hv, hnot⟩, hothers⟩ := List.forall_mem_cons.1 hothers
    have hshape (rest : Text) : afterWord (v :: others) size rest = ' ' :: (v ++ afterWord others size rest) := by
      simp [afterWord]
    have hblank : (v ++ afterWord others size (e :: stop)).head?.any isBlank = false := by
      obtain ⟨c, v, rfl⟩ := List.exists_cons_of_ne_nil hv.ne_nil
      exact not_blank_of_bare (hv.bare c List.mem_cons_self)
    have hnone := @matcher_none_of_word before _ first v hfirst hv.bare (head?_afterWord hsize he) hblank (.inl hnot)
    obtain ⟨before', hrest⟩ := ih hv hothers (' ' :: (first.reverse ++ before))
    refine ⟨before', ?_⟩
    rw [hshape, hshape, sequenced_word hfirst hnone, sequenced_sign (by decide), hrest]

end

/-- The step changes the first column to the second one, wherever it stands in a definition. -/
def Replaces (c d : Text × Text) : Prop :=
  ∀ before e stop, before.head?.any isWordCharacter = false → e = ',' ∨ e = ')' → ∃ before',
    sequenced before (columnText c ++ e :: stop) = columnText d ++ sequenced before' (e :: stop)

/-- Plain columns are left alone. -/
theorem replaces_plain {name : Text} {s : Spelling} (hname : IsBareWord name) (htype : IsPlainType s) :
    Replaces (name, s.text) (name, s.text) := by
  obtain ⟨⟨hwords, hsize⟩, hothers, hfirst⟩ := htype
  have hs : IsBareWord s.first := hwords _ List.mem_cons_self
  intro before e stop _ he
  have hshape (rest : Text) : columnText (name, s.text) ++ rest =
      name ++ ' ' :: (s.first ++ afterWord s.others s.size rest) := by
    simp [columnText, Spelling.text, afterWord]
  have hblank : (s.first ++ afterWord s.others s.size (e :: stop)).head?.any isBlank = false := by
    obtain ⟨c, w, hw⟩ := List.exists_cons_of_ne_nil hs.ne_nil
    rw [hw]
    exact not_blank_of_bare (hs.bare c (hw ▸ List.mem_cons_self))
  have hend : EndsType (e :: stop) := fun c hc => Option.some.inj hc ▸ he
  have hnone := @matcher_none_of_word before _ name s.first hname hs.bare (head?_afterWord hsize he) hblank <|
    hfirst.symm.imp_right fun hnil => by
      rw [hnil, afterWord, List.flatMap_nil, List.nil_append]
      exact not_leadsToDefault_size hsize hend
  obtain ⟨before', hrest⟩ := @sequenced_type s.others s.size stop e s.first hs
    (fun w hw => ⟨hwords w (List.mem_cons_of_mem _ hw), hothers w hw⟩) hsize he (' ' :: (name.reverse ++ before))
  refine ⟨before', ?_⟩
  rw [hshape, hshape, sequenced_word hname hnone, sequenced_sign (by decide), hrest]

/-- Columns that sequences feed become serial. -/
theorem replaces_fed {name type sequence : Text} (hname : IsBareWord name) (htype : IsWritten type)
    (hsequence : IsSequenceName sequence) : Replaces (name, type ++ feed sequence) (name, "SERIAL") := by
  intro before e stop hbefore he
  have hend : EndsType (e :: stop) := fun c hc => Option.some.inj hc ▸ he
  refine ⟨(columnText (name, type ++ feed sequence)).reverse ++ before,
    (sequenced_found (matcher_fed hname htype hsequence hbefore hend)).trans ?_⟩
  simp [ofMatch, captured, definition, columnText]

/-! ## Definitions -/

theorem head?_blank (t : Text) : (' ' :: t).head?.any isWordCharacter = false :=
  not_wordCharacter_of_blank (c := ' ') (by decide)

theorem replaces_columns {columns replaced : List (Text × Text)} (h : List.Forall₂ Replaces columns replaced)
    (hbefore : before.head?.any isWordCharacter = false) :
    sequenced before (columnsText columns) = columnsText replaced := by
  have hclose (before : Text) : sequenced before [')'] = [')'] := by
    rw [sequenced_sign (by decide), sequenced_nil]
  induction h generalizing before with
  | nil => exact hclose before
  | @cons c d columns replaced hcolumn hrest ih =>
    cases hrest with
    | nil =>
      obtain ⟨before', hreplaced⟩ := hcolumn before ')' [] hbefore (.inr rfl)
      rw [columnsText_singleton, columnsText_singleton, hreplaced, hclose]
    | @cons e f columns replaced _ _ =>
      obtain ⟨before', hreplaced⟩ := hcolumn before ',' (' ' :: columnsText (e :: columns)) hbefore (.inl rfl)
      rw [columnsText_cons_cons, columnsText_cons_cons, hreplaced, sequenced_sign (by decide),
        sequenced_sign (by decide), ih (head?_blank _)]

/-- In a definition the columns are changed, and nothing else. The name of the table may be a numeric word. -/
theorem sequenced_createTable {table : Text} (htable : IsBareWord table) {columns replaced : List (Text × Text)}
    (h : List.Forall₂ Replaces columns replaced) (hnames : ∀ c ∈ columns, IsBareWord c.1) :
    sequenced [] (createTable table columns) = createTable table replaced := by
  have hbody : (columnsText columns).head?.any isBlank = false ∧
      (columnsText columns).head?.any isWordDigit = false := by
    cases columns with
    | nil => exact ⟨by decide, (isWordDigit_of_ascii (by decide)).trans (by decide)⟩
    | cons c columns =>
      obtain ⟨d, w, hd⟩ := List.exists_cons_of_ne_nil (hnames c List.mem_cons_self).ne_nil
      have hhead : (columnsText (c :: columns)).head? = .some d := by
        cases columns <;> simp [columnText, hd]
      have hstart : isBareStart d = true := by simpa [hd] using (hnames c List.mem_cons_self).start
      have hdigit : isWordDigit d = d.isDigit := isWordDigit_of_ascii (toNat_lt_of_bare (bare_of_start hstart))
      rw [hhead, Option.any_some, Option.any_some, hdigit]
      exact ⟨not_blank_of_bare (bare_of_start hstart), (start_cases hstart).1⟩
  have hparen (t : Text) : ('(' :: t).head?.any isWordCharacter = false :=
    Item.not_wordCharacter_of_sign (c := '(') (.inl rfl)
  obtain ⟨htableKeyword, hnil⟩ : IsNotNumeric Keyword.table.text ∧ IsNotNumeric [] := by decide +kernel
  have hfirst (t : Text) : (table ++ t).head?.any isBlank = false := by
    obtain ⟨c, w, rfl⟩ := List.exists_cons_of_ne_nil htable.ne_nil
    exact not_blank_of_bare (htable.bare c List.mem_cons_self)
  have hcreate (before rest : Text) :
      pattern.matcher before (Keyword.create.text ++ ' ' :: (Keyword.table.text ++ ' ' :: rest)) = none :=
    matcher_none_of_word Keyword.create.isBareWord_text Keyword.table.isBareWord_text.bare (head?_blank _) rfl
      (.inl htableKeyword)
  have hkeyword (before : Text) :
      pattern.matcher before (Keyword.table.text ++ ' ' :: (table ++ ' ' :: '(' :: columnsText columns)) = none :=
    matcher_none_of_word Keyword.table.isBareWord_text htable.bare (head?_blank _) (hfirst _)
      (.inr (not_leadsToDefault_open hbody.1 hbody.2))
  have hname (before : Text) : pattern.matcher before (table ++ ' ' :: '(' :: columnsText columns) = none :=
    matcher_none_of_word (v := []) htable (by simp) (hparen _) (show isBlank '(' = false by decide) (.inl hnil)
  rw [createTable_eq, createTable_eq, sequenced_word Keyword.create.isBareWord_text (hcreate _ _),
    sequenced_sign (by decide), sequenced_word Keyword.table.isBareWord_text (hkeyword _), sequenced_sign (by decide),
    sequenced_word htable (hname _), sequenced_sign (by decide), sequenced_sign (by decide),
    replaces_columns h (hparen _)]

end SerialColumn

end DialectBridge
