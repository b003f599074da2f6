import Mathlib.Data.List.Chain
import DialectBridge.Procedure.Naming
import DialectBridge.Proofs.Text.Lowercase
import DialectBridge.Proofs.Text.Run

/-!
# Snake case

The snake case of a name is the lower case of its characters with other underscores: one at most in each place, and
none at an end (`snakeCase_normalises`). Whether an underscore is left out depends on what has been written, and
whether one is put in on the character in front. The two agree on underscores, and that carries the induction
(`isChain_snakePieces`).
-/

namespace DialectBridge.Naming

/-! ## Pieces -/

/-- Not both characters are underscores. -/
def Apart (c d : Char) : Prop :=
  ¬(c = '_' ∧ d = '_')

theorem isChain_apart {t : Text} (h : '_' ∉ t) (c : Char) : (c :: t).IsChain Apart := by
  induction t generalizing c with
  | nil => exact .singleton c
  | cons d t ih =>
    obtain ⟨hd, ht⟩ := List.ne_and_not_mem_of_not_mem_cons h
    exact .cons_cons (fun hboth => hd hboth.2.symm) (ih ht d)

theorem lowercaseOf_underscore : lowercaseOf '_' = ['_'] := by decide

/-- An underscore comes in front of a character only between two characters that are none. -/
theorem piece_cases (previous : Option Char) (c : Char) (next : Option Char) :
    piece previous c next = lowercaseOf c ∨
      (piece previous c next = '_' :: lowercaseOf c ∧ c ≠ '_' ∧ previous ≠ some '_') := by
  have hnone (next : Option Char) : startsWord '_' next = false := by
    have hfixed : isLowercase '_' = false ∧ '_'.isDigit = false ∧ isUppercase '_' = false := by decide
    simp [startsWord, hfixed]
  unfold piece
  split
  · next h =>
    rw [Bool.and_eq_true] at h
    refine .inr ⟨rfl, ?_, ?_⟩
    · rintro rfl
      exact absurd h.1 (by decide)
    · rintro rfl
      rw [Option.any_some, hnone] at h
      cases h.2
  · exact .inl rfl

theorem piece_ne_nil (previous : Option Char) (c : Char) (next : Option Char) : piece previous c next ≠ [] := by
  rcases piece_cases previous c next with h | ⟨h, -⟩
  · exact h ▸ lowercaseOf_ne_nil c
  · simp [h]

/-- A piece ends with an underscore if it is one. -/
theorem getLast?_piece (previous : Option Char) (c : Char) (next : Option Char) :
    (piece previous c next).getLast? = some '_' ↔ c = '_' := by
  have hlower : (lowercaseOf c).getLast? = some '_' ↔ c = '_' := by
    refine ⟨fun h => eq_of_underscore_mem_lowercaseOf (List.mem_of_getLast? h), ?_⟩
    rintro rfl
    rfl
  rcases piece_cases previous c next with h | ⟨h, -⟩
  · rw [h, hlower]
  · rw [h, ← hlower, ← List.singleton_append, Text.getLast?_append_right _ (lowercaseOf_ne_nil c)]

theorem isChain_piece (previous : Option Char) (c : Char) (next : Option Char) :
    (piece previous c next).IsChain Apart := by
  have hlower (hc : c ≠ '_') : '_' ∉ lowercaseOf c := fun h => hc (eq_of_underscore_mem_lowercaseOf h)
  rcases piece_cases previous c next with h | ⟨h, hc, -⟩
  · rw [h]
    by_cases hc : c = '_'
    · subst hc
      exact .singleton '_'
    · exact (isChain_apart (hlower hc) '_').tail
  · rw [h]
    exact isChain_apart (hlower hc) '_'

theorem filter_piece (previous : Option Char) (c : Char) (next : Option Char) :
    (piece previous c next).filter (· != '_') = (lowercaseOf c).filter (· != '_') := by
  rcases piece_cases previous c next with h | ⟨h, -⟩
  · rw [h]
  · rw [h, List.filter_cons_of_neg (by decide)]

/-! ## Names in pieces -/

theorem snakePieces_skip {last : Option Char} (h : last = some '_') (previous : Option Char) (t : Text) :
    snakePieces last previous ('_' :: t) = snakePieces last (some '_') t := by
  rw [snakePieces, if_pos (by simp [h])]

theorem snakePieces_write {last : Option Char} {c : Char} (h : ¬(c = '_' ∧ last = some '_')) (previous : Option Char)
    (t : Text) : snakePieces last previous (c :: t) =
      piece previous c t.head? ++ snakePieces (piece previous c t.head?).getLast? (some c) t := by
  rw [snakePieces, if_neg (by simpa using h)]

/-- Two underscores never meet, as long as an underscore was written last exactly behind an underscore. -/
theorem isChain_snakePieces {last previous : Option Char} (h : last = some '_' ↔ previous = some '_') (t : Text) :
    (snakePieces last previous t).IsChain Apart ∧
      (previous = some '_' → (snakePieces last previous t).head? ≠ some '_') := by
  induction t generalizing last previous with
  | nil => exact ⟨.nil, fun _ => by simp [snakePieces]⟩
  | cons c t ih =>
    by_cases hskip : c = '_' ∧ last = some '_'
    · obtain ⟨rfl, hlast⟩ := hskip
      have hstep : last = some '_' ↔ some '_' = some '_' := iff_of_true hlast rfl
      obtain ⟨hchain, hhead⟩ := ih hstep
      rw [snakePieces_skip hlast]
      exact ⟨hchain, fun _ => hhead rfl⟩
    · have hstep : (piece previous c t.head?).getLast? = some '_' ↔ some c = some '_' := by
        rw [getLast?_piece, Option.some.injEq]
      obtain ⟨hchain, hhead⟩ := ih hstep
      rw [snakePieces_write hskip]
      refine ⟨List.isChain_append.2 ⟨isChain_piece .., hchain, ?_⟩, ?_⟩
      · rintro d hd e he ⟨rfl, rfl⟩
        obtain rfl := (getLast?_piece ..).1 hd
        exact hhead rfl he
      · intro hprevious hunderscore
        rw [List.head?_append_of_ne_nil _ (piece_ne_nil previous c t.head?)] at hunderscore
        have hc : c ≠ '_' := fun hc => hskip ⟨hc, h.2 hprevious⟩
        rcases piece_cases previous c t.head? with hpiece | ⟨-, -, hne⟩
        · rw [hpiece] at hunderscore
          exact hc (eq_of_underscore_mem_lowercaseOf (List.mem_of_head? hunderscore))
        · exact hne hprevious

theorem filter_snakePieces (last previous : Option Char) (t : Text) :
    (snakePieces last previous t).filter (· != '_') = (t.flatMap lowercaseOf).filter (· != '_') := by
  induction t generalizing last previous with
  | nil => rfl
  | cons c t ih =>
    rw [List.flatMap_cons, List.filter_append]
    by_cases hskip : c = '_' ∧ last = some '_'
    · obtain ⟨rfl, hlast⟩ := hskip
      rw [snakePieces_skip hlast, ih, lowercaseOf_underscore]
      rfl
    · rw [snakePieces_write hskip, List.filter_append, filter_piece, ih]

theorem mem_snakePieces {last previous : Option Char} {t : Text} {d : Char} (h : d ∈ snakePieces last previous t) :
    d = '_' ∨ ∃ c ∈ t, d ∈ lowercaseOf c := by
  by_cases hd : d = '_'
  · exact .inl hd
  · have hmem : d ∈ (snakePieces last previous t).filter (· != '_') := List.mem_filter.2 ⟨h, by simpa using hd⟩
    rw [filter_snakePieces] at hmem
    exact .inr (List.mem_flatMap.1 (List.mem_filter.1 hmem).1)

/-- A text in lower case in which no two underscores meet is its own pieces. -/
theorem snakePieces_eq_self {t : Text} (hlower : ∀ c ∈ t, isUppercase c = false ∧ lowercaseOf c = [c])
    (hchain : t.IsChain Apart) {last : Option Char} (hhead : last = some '_' → t.head? ≠ some '_')
    (previous : Option Char) : snakePieces last previous t = t := by
  induction t generalizing last previous with
  | nil => rfl
  | cons c t ih =>
    obtain ⟨⟨hupper, hc⟩, ht⟩ := List.forall_mem_cons.1 hlower
    have hpiece : piece previous c t.head? = [c] := by rw [piece, if_neg (by simp [hupper]), hc]
    have hnext : some c = some '_' → t.head? ≠ some '_' := by
      intro hunderscore hmeet
      obtain ⟨rest, rfl⟩ := List.head?_eq_some_iff.1 hmeet
      exact (List.isChain_cons_cons.1 hchain).1 ⟨Option.some.inj hunderscore, rfl⟩
    rw [snakePieces_write (fun ⟨hunderscore, hlast⟩ => hhead hlast (by rw [hunderscore]; rfl)), hpiece,
      List.getLast?_singleton, ih ht hchain.tail hnext]
    rfl

/-! ## Underscores at the ends -/

/-- The text without the underscores at its ends. -/
def inner (t : Text) : Text :=
  Text.dropEndWhile (· == '_') (t.dropWhile (· == '_'))

theorem inner_eq (t : Text) : ∃ front back : Text, t = front ++ inner t ++ back ∧
    (∀ c ∈ front, c = '_') ∧ (∀ c ∈ back, c = '_') := by
  have hend (u : Text) : u = Text.dropEndWhile (· == '_') u ++ (u.reverse.takeWhile (· == '_')).reverse := by
    rw [Text.dropEndWhile, ← List.reverse_append, List.takeWhile_append_dropWhile, List.reverse_reverse]
  refine ⟨t.takeWhile (· == '_'), ((t.dropWhile (· == '_')).reverse.takeWhile (· == '_')).reverse, ?_, ?_, ?_⟩
  · rw [inner, List.append_assoc, ← hend, List.takeWhile_append_dropWhile]
  · exact fun c hc => by simpa using Text.forall_mem_takeWhile _ _ c hc
  · exact fun c hc => by simpa using Text.forall_mem_takeWhile _ _ c (List.mem_reverse.1 hc)

theorem inner_isInfix (t : Text) : inner t <:+: t := by
  obtain ⟨front, back, h, -⟩ := inner_eq t
  exact ⟨front, back, h.symm⟩

theorem filter_inner (t : Text) : (inner t).filter (· != '_') = t.filter (· != '_') := by
  obtain ⟨front, back, h, hfront, hback⟩ := inner_eq t
  have hnone {u : Text} (hu : ∀ c ∈ u, c = '_') : u.filter (· != '_') = [] :=
    List.filter_eq_nil_iff.2 fun c hc => by simp [hu c hc]
  conv_rhs => rw [h]
  rw [List.filter_append, List.filter_append, hnone hfront, hnone hback, List.nil_append, List.append_nil]

theorem getLast?_inner (t : Text) : (inner t).getLast? ≠ some '_' := by
  intro h
  have hstop := Text.head?_any_dropWhile (· == '_') (t.dropWhile (· == '_')).reverse
  rw [inner, Text.dropEndWhile, List.getLast?_reverse] at h
  simp [h] at hstop

theorem head?_inner (t : Text) : (inner t).head? ≠ some '_' := by
  intro h
  have hstop := Text.head?_any_dropWhile (· == '_') t
  obtain ⟨rest, hrest⟩ : inner t <+: t.dropWhile (· == '_') := by
    rw [inner, Text.dropEndWhile, ← List.reverse_suffix, List.reverse_reverse]
    exact List.dropWhile_suffix _
  rw [← hrest, List.head?_append, h] at hstop
  cases hstop

theorem inner_eq_self {t : Text} (hhead : t.head? ≠ some '_') (hlast : t.getLast? ≠ some '_') : inner t = t := by
  have hdrop {u : Text} (hu : u.head? ≠ some '_') : u.dropWhile (· == '_') = u := by
    cases u with
    | nil => rfl
    | cons c u => exact List.dropWhile_cons_of_neg (by simpa using hu)
  rw [inner, hdrop hhead, Text.dropEndWhile, hdrop (by rwa [List.head?_reverse]), List.reverse_reverse]

/-! ## Snake case -/

theorem snakeCase_eq (name : Text) : snakeCase name = inner (snakePieces none none name) := rfl

theorem isChain_snakeCase (name : Text) : (snakeCase name).IsChain Apart :=
  List.IsChain.infix (isChain_snakePieces (by simp) name).1 (inner_isInfix _)

theorem filter_snakeCase (name : Text) :
    (snakeCase name).filter (· != '_') = (name.flatMap lowercaseOf).filter (· != '_') := by
  rw [snakeCase_eq, filter_inner, filter_snakePieces]

/-- A snake case in which each character is its own lower case is its own snake case. -/
theorem snakeCase_snakeCase {name : Text}
    (h : ∀ c ∈ snakeCase name, isUppercase c = false ∧ lowercaseOf c = [c]) :
    snakeCase (snakeCase name) = snakeCase name := by
  rw [snakeCase_eq (snakeCase name), snakePieces_eq_self h (isChain_snakeCase name) (by simp) none]
  exact inner_eq_self (head?_inner _) (getLast?_inner _)

theorem lower_of_mem_snakeCase {name : Text} (h : ∀ c ∈ name, c.toNat < 128) :
    ∀ c ∈ snakeCase name, isUppercase c = false ∧ lowercaseOf c = [c] := by
  intro d hd
  rcases mem_snakePieces ((inner_isInfix _).subset hd) with rfl | ⟨c, hc, hmem⟩
  · decide
  · rw [lowercaseOf, if_pos (h c hc), List.mem_singleton] at hmem
    subst hmem
    exact forall_ascii (P := fun c => isUppercase c.toLower = false ∧ lowercaseOf c.toLower = [c.toLower]) (by decide)
      (h c hc)

/-- Nothing is left of underscores alone. -/
theorem snakeCase_eq_nil_iff {name : Text} : snakeCase name = [] ↔ ∀ c ∈ name, c = '_' := by
  constructor
  · intro h c hc
    have hfilter := filter_snakeCase name
    rw [h, List.filter_nil, eq_comm, List.filter_eq_nil_iff] at hfilter
    obtain ⟨d, hd⟩ := List.exists_mem_of_ne_nil _ (lowercaseOf_ne_nil c)
    have hd' : d = '_' := by simpa using hfilter d (List.mem_flatMap.2 ⟨c, hc, hd⟩)
    exact eq_of_underscore_mem_lowercaseOf (hd' ▸ hd)
  · intro h
    by_contra hne
    obtain ⟨d, rest, hcons⟩ := List.exists_cons_of_ne_nil hne
    have hmem : d ∈ snakeCase name := hcons ▸ List.mem_cons_self
    have hd : d = '_' := by
      rcases mem_snakePieces ((inner_isInfix _).subset hmem) with hd | ⟨c, hc, hmem⟩
      · exact hd
      · rw [h c hc, lowercaseOf_underscore] at hmem
        exact List.mem_singleton.1 hmem
    exact head?_inner (snakePieces none none name) (by rw [← snakeCase_eq, hcons, hd]; rfl)

/-- A snake case has no two adjacent underscores and none at an end, and but for underscores it is the lower case of
the characters of the name. For a name in ASCII it has no capitals and is its own snake case. -/
theorem snakeCase_normalises (name : Text) :
    ¬['_', '_'] <:+: snakeCase name ∧ (snakeCase name).head? ≠ some '_' ∧ (snakeCase name).getLast? ≠ some '_' ∧
    (snakeCase name).filter (· != '_') = (name.flatMap lowercaseOf).filter (· != '_') ∧
    ((∀ c ∈ name, c.toNat < 128) →
      (∀ c ∈ snakeCase name, isUppercase c = false) ∧ snakeCase (snakeCase name) = snakeCase name) := by
  refine ⟨fun hmeet => ?_, head?_inner _, getLast?_inner _, filter_snakeCase name, fun hascii => ?_⟩
  · have hpair : ['_', '_'].IsChain Apart := List.IsChain.infix (isChain_snakeCase name) hmeet
    exact (List.isChain_cons_cons.1 hpair).1 ⟨rfl, rfl⟩
  · have hlower := lower_of_mem_snakeCase hascii
    exact ⟨fun c hc => (hlower c hc).1, snakeCase_snakeCase hlower⟩

/-- Acronyms, a digit in front of a capital, and underscores at every place. -/
theorem snakeCase_normalises_words :
    let name : Text := "_getHTTP__Response2FA_"
    (∀ c ∈ name, c.toNat < 128) ∧ snakeCase name = "get_http_response2_fa" ∧
      (∀ c ∈ snakeCase name, isUppercase c = false) ∧ snakeCase "get_http_response2_fa" = "get_http_response2_fa" := by
  intro name
  have hall : (name.all fun c => c.toNat < 128) = true := by decide
  have hascii : ∀ c ∈ name, c.toNat < 128 := fun c hc => of_decide_eq_true (List.all_eq_true.1 hall c hc)
  have hsnake : snakeCase name = "get_http_response2_fa" := by decide +kernel
  obtain ⟨hupper, hagain⟩ := (snakeCase_normalises name).2.2.2.2 hascii
  rw [hsnake] at hagain
  exact ⟨hascii, hsnake, hupper, hagain⟩

end DialectBridge.Naming
