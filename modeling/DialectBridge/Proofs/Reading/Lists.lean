import DialectBridge.Proofs.Reading.Ahead

/-!
# Lists of names

Words with one separator between them (`SpellsWords`), such as the columns in the parentheses of a key. They are read
as these words, and only they are (`wordsAfter_spells`, `exists_spellsWords`).
-/

namespace DialectBridge.Reader

open Token

variable {separator : TokenKind} {expected : Text} {ws : List Text} {us ts rest : List Token}

/-- The tokens are words with separators between them. -/
inductive SpellsWords (separator : TokenKind) : List Text → List Token → Prop where
  | last {t : Token} {w : Text} (word : t.name? = some w) : SpellsWords separator [w] [t]
  | cons {t s : Token} {w : Text} {ws : List Text} {us : List Token} (word : t.name? = some w)
      (separates : s.kind = separator) (rest : SpellsWords separator ws us) :
      SpellsWords separator (w :: ws) (t :: s :: us)

theorem SpellsWords.ne_nil (h : SpellsWords separator ws us) : ws ≠ [] := by
  cases h <;> exact List.cons_ne_nil _ _

theorem wordsAfter_end (expected : Text) (hrest : ∀ t ∈ rest.head?, t.kind ≠ separator) :
    wordsAfter separator expected rest = .ok ([], rest) := by
  cases rest with
  | nil => rfl
  | cons t rest => exact wordsAfter_stop expected (by simpa using hrest t rfl) rest

/-- Words are read up to where no separator follows. -/
theorem wordsAfter_spells (expected : Text) (h : SpellsWords separator ws us) {s : Token} (hs : s.kind = separator)
    (hrest : ∀ t ∈ rest.head?, t.kind ≠ separator) :
    wordsAfter separator expected (s :: (us ++ rest)) = .ok (ws, rest) := by
  induction h generalizing s with
  | last hw => simp [wordsAfter, hs, hw, wordsAfter_end expected hrest, Bind.bind, Except.bind]
  | cons hw hseparates _ ih => simp [wordsAfter, hs, hw, ih hseparates, Bind.bind, Except.bind]

/-- What is read as words is spelled so. -/
theorem exists_spellsWords_wordsAfter (h : wordsAfter separator expected ts = .ok (ws, rest)) :
    (ws = [] ∧ ts = rest) ∨ ∃ s us, ts = s :: (us ++ rest) ∧ s.kind = separator ∧ SpellsWords separator ws us := by
  fun_induction wordsAfter separator expected ts generalizing ws with
  | case1 => cases h
  | case2 s t us hs w hw ih =>
    cases hmore : wordsAfter separator expected us with
    | error e => simp [hmore, Bind.bind, Except.bind] at h
    | ok p =>
      obtain ⟨more, next⟩ := p
      obtain ⟨rfl, rfl⟩ : w :: more = ws ∧ next = rest := by simpa [hmore, Bind.bind, Except.bind] using h
      refine .inr ?_
      rcases ih hmore with ⟨rfl, rfl⟩ | ⟨r, vs, rfl, hr, hvs⟩
      · exact ⟨s, [t], rfl, by simpa using hs, .last hw⟩
      · exact ⟨s, t :: r :: vs, rfl, by simpa using hs, .cons hw hr hvs⟩
  | case3 => cases h; exact .inl ⟨rfl, rfl⟩
  | case4 => cases h
  | case5 => cases h; exact .inl ⟨rfl, rfl⟩
  | case6 => cases h; exact .inl ⟨rfl, rfl⟩

/-- A word and the words behind it. -/
theorem exists_spellsWords {first : Text} {more : List Text} {mid : List Token}
    (hfirst : word expected ts = .ok (first, mid)) (hmore : wordsAfter separator expected mid = .ok (more, rest)) :
    ∃ us, ts = us ++ rest ∧ SpellsWords separator (first :: more) us := by
  obtain ⟨t, rfl, hw⟩ := word_eq_ok hfirst
  rcases exists_spellsWords_wordsAfter hmore with ⟨rfl, rfl⟩ | ⟨s, us, rfl, hs, hus⟩
  · exact ⟨[t], rfl, .last hw⟩
  · exact ⟨t :: s :: us, rfl, .cons hw hs hus⟩

theorem word_wordsAfter_spells (expected : Text) (h : SpellsWords separator ws us)
    (hrest : ∀ t ∈ rest.head?, t.kind ≠ separator) : ∃ first more mid, ws = first :: more ∧
      word expected (us ++ rest) = .ok (first, mid) ∧ wordsAfter separator expected mid = .ok (more, rest) := by
  cases h with
  | @last t w hw => exact ⟨w, [], rest, rfl, by simp [word, hw], wordsAfter_end expected hrest⟩
  | @cons t s w ws us hw hs h =>
    exact ⟨w, ws, s :: (us ++ rest), rfl, by simp [word, hw], wordsAfter_spells expected h hs hrest⟩

/-- A group of names is read as the list of these names. -/
theorem nameList_spells (h : SpellsWords .comma ws us) {o c : Token} (ho : o.kind = .leftParen)
    (hc : c.kind = .rightParen) (rest : List Token) : nameList (o :: (us ++ c :: rest)) = .ok (ws, rest) := by
  have hstop : ∀ t ∈ (c :: rest).head?, t.kind ≠ .comma := by simp [hc]
  obtain ⟨first, more, mid, rfl, hfirst, hmore⟩ := word_wordsAfter_spells "column name" h hstop
  have hopen : expect .leftParen "'('" (o :: (us ++ c :: rest)) = .ok ((), us ++ c :: rest) := by
    simp [expect, atLeftParen_cons.2 ho]
  have hclose : expect .rightParen "')'" (c :: rest) = .ok ((), rest) := by
    simp [expect, atKind, headKind, hc, TokenKind.sameKind]
  rw [nameList, bind_ok hopen, bind_ok hfirst, bind_ok hmore, bind_ok hclose]
  rfl

/-- What is read as a list of names is spelled so. -/
theorem exists_spellsWords_nameList (h : nameList ts = .ok (ws, rest)) : ∃ o us c, ts = o :: (us ++ c :: rest) ∧
    o.kind = .leftParen ∧ SpellsWords .comma ws us ∧ c.kind = .rightParen := by
  obtain ⟨_, inside, hopen, h⟩ := bind_eq_ok h
  obtain ⟨first, mid, hfirst, h⟩ := bind_eq_ok h
  obtain ⟨more, last, hmore, h⟩ := bind_eq_ok h
  obtain ⟨_, after, hclose, h⟩ := bind_eq_ok h
  cases h
  obtain ⟨o, rfl, ho⟩ := expect_eq_ok (.inl rfl) hopen
  obtain ⟨c, rfl, hc⟩ := expect_eq_ok (.inr rfl) hclose
  obtain ⟨us, rfl, hus⟩ := exists_spellsWords hfirst hmore
  exact ⟨o, us, c, rfl, ho, hus, hc⟩

end DialectBridge.Reader
