import DialectBridge.Schema.Statement

/-!
# Readers in front of a stop

The semicolon behind a statement stops every reader, as the end of the text does. So a reader that
starts in front of a semicolon does what it would do at the end of the text, whatever stands behind
the semicolon, as long as the groups that it meets close before (`Reader.Confined`).
-/

namespace DialectBridge

/-! ## Groups and stops -/

/-- Every group that opens among the tokens closes among them. -/
def Token.GroupsClose (ts : List Token) : Prop :=
  ∀ ⦃t rest⦄, t :: rest <:+ ts → t.kind = .leftParen → (Reader.afterGroup? 0 rest).isSome = true

theorem Token.GroupsClose.suffix {ts us : List Token} (h : GroupsClose ts) (hu : us <:+ ts) :
    GroupsClose us :=
  fun _ _ hsuffix hkind => h (hsuffix.trans hu) hkind

theorem Token.groupsClose_nil : GroupsClose [] := by
  intro t rest h
  simp at h

theorem Token.groupsClose_cons {t : Token} {ts : List Token} : GroupsClose (t :: ts) ↔
    (t.kind = .leftParen → (Reader.afterGroup? 0 ts).isSome = true) ∧ GroupsClose ts := by
  constructor
  · exact fun h => ⟨h (List.suffix_refl _), h.suffix (List.suffix_cons t ts)⟩
  · rintro ⟨ht, hts⟩ u rest hsuffix hkind
    rcases List.suffix_cons_iff.1 hsuffix with heq | hsuffix
    · cases heq
      exact ht hkind
    · exact hts hsuffix hkind

instance Token.decidableGroupsClose : (ts : List Token) → Decidable (GroupsClose ts)
  | [] => isTrue groupsClose_nil
  | _ :: ts =>
    haveI := decidableGroupsClose ts
    decidable_of_iff' _ groupsClose_cons

/-- The place is the end of the text or a semicolon. -/
def Token.IsStop (ts : List Token) : Prop :=
  ∃ t rest, ts = t :: rest ∧ (t.kind = .eof ∨ t.kind = .semicolon)

namespace Reader

open Token

/-! ## Confined readers -/

/-- The readers do the same in front of every stop: either all of them read up to one place before
the stop, and their results look alike, or all of them fail. -/
def Confined {α β : Type} (view : α → β) (r : List Token → Reader α) (front : List Token) : Prop :=
  (∃ (a : List Token → α) (b : β) (after : List Token), after <:+ front ∧
    ∀ tail, IsStop tail → r tail (front ++ tail) = .ok (a tail, after ++ tail) ∧ view (a tail) = b) ∨
  ∀ tail, IsStop tail → ∃ e, r tail (front ++ tail) = .error e

variable {α β γ δ : Type} {view : α → β} {view' : γ → δ} {front : List Token}

/-- A reader goes on where the one before it stopped. -/
theorem bind_ok {r : Reader α} {f : α → Reader β} {ts rest : List Token} {a : α}
    (h : r ts = .ok (a, rest)) : (r >>= f) ts = f a rest := by
  show (r ts >>= fun p => f p.1 p.2) = _
  rw [h]
  rfl

theorem bind_error {r : Reader α} {f : α → Reader β} {ts : List Token} {e : ReadError}
    (h : r ts = .error e) : (r >>= f) ts = .error e := by
  show (r ts >>= fun p => f p.1 p.2) = _
  rw [h]
  rfl

theorem Confined.ok {r : List Token → Reader α} (a : List Token → α) (b : β) {after : List Token}
    (hafter : after <:+ front)
    (h : ∀ tail, IsStop tail → r tail (front ++ tail) = .ok (a tail, after ++ tail) ∧ view (a tail) = b) :
    Confined view r front :=
  .inl ⟨a, b, after, hafter, h⟩

theorem Confined.pure {a : List Token → α} (b : β) (h : ∀ tail, IsStop tail → view (a tail) = b) :
    Confined view (fun tail => Pure.pure (a tail)) front :=
  .ok a b (List.suffix_refl _) fun tail htail => ⟨rfl, h tail htail⟩

/-- Confined readers one after the other are confined. -/
theorem Confined.bind {r : List Token → Reader α} {f : List Token → α → Reader γ}
    (hr : Confined view r front)
    (hf : ∀ (a : List Token → α) (b : β) (after : List Token), after <:+ front →
      (∀ tail, IsStop tail → view (a tail) = b) → Confined view' (fun tail => f tail (a tail)) after) :
    Confined view' (fun tail => r tail >>= f tail) front := by
  rcases hr with ⟨a, b, after, hafter, hok⟩ | herror
  · have hstart tail (htail : IsStop tail) : (r tail >>= f tail) (front ++ tail) =
        f tail (a tail) (after ++ tail) := bind_ok (hok tail htail).1
    rcases hf a b after hafter fun tail htail => (hok tail htail).2 with
      ⟨c, d, last, hlast, hrest⟩ | hrest
    · exact .ok c d (hlast.trans hafter) fun tail htail =>
        ⟨(hstart tail htail).trans (hrest tail htail).1, (hrest tail htail).2⟩
    · refine .inr fun tail htail => ?_
      obtain ⟨e, he⟩ := hrest tail htail
      exact ⟨e, (hstart tail htail).trans he⟩
  · refine .inr fun tail htail => ?_
    obtain ⟨e, he⟩ := herror tail htail
    exact ⟨e, bind_error he⟩

theorem Confined.congr {r s : List Token → Reader α} (hr : Confined view r front)
    (h : ∀ tail, IsStop tail → r tail (front ++ tail) = s tail (front ++ tail)) : Confined view s front := by
  rcases hr with ⟨a, b, after, hafter, hok⟩ | herror
  · exact .ok a b hafter fun tail htail => ⟨(h tail htail).symm.trans (hok tail htail).1, (hok tail htail).2⟩
  · refine .inr fun tail htail => ?_
    obtain ⟨e, he⟩ := herror tail htail
    exact ⟨e, (h tail htail).symm.trans he⟩

/-- The result of the first reader does not depend on what stands behind the stop. -/
theorem Confined.bind_same {r : Reader α} {f : List Token → α → Reader γ}
    (hr : Confined id (fun _ => r) front)
    (hf : ∀ (a : α) (after : List Token), after <:+ front → Confined view' (fun tail => f tail a) after) :
    Confined view' (fun tail => r >>= f tail) front := by
  refine hr.bind fun a b after hafter hb => (hf b after hafter).congr fun tail htail => ?_
  rw [show a tail = b from hb tail htail]

/-! ## Single tokens -/

theorem atKeyword_stop {tail : List Token} (h : IsStop tail) (keyword : Keyword) :
    atKeyword keyword tail = false := by
  obtain ⟨t, rest, rfl, hkind | hkind⟩ := h <;> simp [atKeyword, headKind, hkind]

theorem atWord_stop {tail : List Token} (h : IsStop tail) (word : Text) : atWord word tail = false := by
  obtain ⟨t, rest, rfl, hkind | hkind⟩ := h <;> simp [atWord, isWord, hkind]

theorem atLeftParen_stop {tail : List Token} (h : IsStop tail) : atKind .leftParen tail = false := by
  obtain ⟨t, rest, rfl, hkind | hkind⟩ := h <;> (rw [atKind, headKind, hkind]; rfl)

theorem atLeftParen_cons {t : Token} {ts : List Token} :
    atKind .leftParen (t :: ts) = true ↔ t.kind = .leftParen := by
  rw [atKind, headKind]
  cases t.kind <;> simp [TokenKind.sameKind, TokenKind.ctorIdx]

theorem name?_stop {t : Token} {rest : List Token} (h : IsStop (t :: rest)) : t.name? = none := by
  obtain ⟨u, us, heq, hkind | hkind⟩ := h <;> cases heq <;> simp [name?, hkind]

theorem confined_eatKeyword (keyword : Keyword) (front : List Token) :
    Confined id (fun _ => eatKeyword keyword) front := by
  cases front with
  | nil =>
    refine .ok (fun _ => false) false (List.suffix_refl _) fun tail htail => ⟨?_, rfl⟩
    simp [eatKeyword, atKeyword_stop htail]
  | cons t front =>
    by_cases ht : t.kind = .keyword keyword
    · exact .ok (fun _ => true) true (List.suffix_cons t front) fun tail _ =>
        ⟨by simp [eatKeyword, atKeyword, headKind, ht], rfl⟩
    · exact .ok (fun _ => false) false (List.suffix_refl _) fun tail _ =>
        ⟨by simp [eatKeyword, atKeyword, headKind, ht], rfl⟩

theorem confined_expectKeyword (keyword : Keyword) (front : List Token) :
    Confined id (fun _ => expectKeyword keyword) front := by
  cases front with
  | nil => exact .inr fun tail htail => ⟨_, by simp [expectKeyword, atKeyword_stop htail]; rfl⟩
  | cons t front =>
    by_cases ht : t.kind = .keyword keyword
    · exact .ok (fun _ => ()) () (List.suffix_cons t front) fun tail _ =>
        ⟨by simp [expectKeyword, atKeyword, headKind, ht], rfl⟩
    · exact .inr fun tail _ => ⟨_, by simp [expectKeyword, atKeyword, headKind, ht]; rfl⟩

theorem confined_word (expected : Text) (front : List Token) :
    Confined id (fun _ => word expected) front := by
  cases front with
  | nil =>
    refine .inr fun tail htail => ?_
    obtain ⟨t, rest, rfl, -⟩ := id htail
    exact ⟨_, by simp [word, name?_stop htail]; rfl⟩
  | cons t front =>
    cases hname : t.name? with
    | none => exact .inr fun tail _ => ⟨_, by simp [word, hname]; rfl⟩
    | some name =>
      exact .ok (fun _ => name) name (List.suffix_cons t front) fun tail _ => ⟨by simp [word, hname], rfl⟩

/-! ## Names -/

/-- A list of words ends in front of a stop. -/
theorem confined_wordsAfter {separator : TokenKind} (hsep : separator ≠ .eof ∧ separator ≠ .semicolon)
    (expected : Text) (front : List Token) :
    Confined id (fun _ => wordsAfter separator expected) front := by
  have hstop {t : Token} {rest : List Token} (h : IsStop (t :: rest)) : (t.kind == separator) = false := by
    obtain ⟨u, us, heq, hkind | hkind⟩ := h <;> cases heq <;> rw [hkind, beq_eq_false_iff_ne]
    · exact hsep.1.symm
    · exact hsep.2.symm
  fun_induction wordsAfter separator expected front with
  | case1 t u us ht hu => exact .inr fun tail _ => ⟨_, by simp [wordsAfter, ht, hu]; rfl⟩
  | case2 t u us ht part hu ih =>
    rcases ih with ⟨a, b, after, hafter, hok⟩ | herror
    · refine .ok (fun tail => part :: a tail) (part :: b)
        (hafter.trans ((List.suffix_cons u us).trans (List.suffix_cons t (u :: us)))) fun tail htail => ?_
      obtain ⟨hrest, hb⟩ := hok tail htail
      exact ⟨by simp [wordsAfter, ht, hu, hrest]; rfl, congrArg (part :: ·) hb⟩
    · refine .inr fun tail htail => ?_
      obtain ⟨e, he⟩ := herror tail htail
      exact ⟨e, by simp [wordsAfter, ht, hu, he]; rfl⟩
  | case3 t u us ht =>
    exact .ok (fun _ => []) [] (List.suffix_refl _) fun tail _ => ⟨by simp [wordsAfter, ht], rfl⟩
  | case4 t ht =>
    refine .inr fun tail htail => ?_
    obtain ⟨u, us, rfl, -⟩ := id htail
    exact ⟨_, by simp [wordsAfter, ht, name?_stop htail]; rfl⟩
  | case5 t ht =>
    refine .ok (fun _ => []) [] (List.suffix_refl _) fun tail htail => ⟨?_, rfl⟩
    obtain ⟨u, us, rfl, -⟩ := id htail
    simp [wordsAfter, ht]
  | case6 =>
    refine .ok (fun _ => []) [] (List.suffix_refl _) fun tail htail => ⟨?_, rfl⟩
    obtain ⟨t, rest, rfl, -⟩ := id htail
    cases rest <;> simp [wordsAfter, hstop htail]

theorem confined_name (expected : Text) (front : List Token) :
    Confined id (fun _ => name expected) front := by
  have hparts : Confined id (fun _ => nameParts expected) front :=
    (confined_word expected front).bind_same fun first after _ =>
      (confined_wordsAfter (by simp) expected after).bind_same fun more _ _ =>
        .pure (first :: more) fun _ _ => rfl
  exact hparts.bind_same fun parts _ _ => .pure (Text.joinWith "." parts) fun _ _ => rfl

/-! ## Groups -/

theorem afterGroup?_open {t : Token} (h : t.kind = .leftParen) (depth : Nat) (ts : List Token) :
    afterGroup? depth (t :: ts) = afterGroup? (depth + 1) ts := by
  rw [afterGroup?.eq_def]
  simp only [h]

theorem afterGroup?_close {t : Token} (h : t.kind = .rightParen) (depth : Nat) (ts : List Token) :
    afterGroup? (depth + 1) (t :: ts) = afterGroup? depth ts := by
  rw [afterGroup?.eq_def]
  simp only [h]

theorem afterGroup?_last {t : Token} (h : t.kind = .rightParen) (ts : List Token) :
    afterGroup? 0 (t :: ts) = some ts := by
  rw [afterGroup?.eq_def]
  simp only [h]

theorem afterGroup?_end {t : Token} (h : t.kind = .eof) (depth : Nat) (ts : List Token) :
    afterGroup? depth (t :: ts) = none := by
  rw [afterGroup?.eq_def]
  simp only [h]

theorem afterGroup?_cons_other {depth : Nat} {t : Token} {ts : List Token} (hleft : t.kind ≠ .leftParen)
    (hright : t.kind ≠ .rightParen) (heof : t.kind ≠ .eof) :
    afterGroup? depth (t :: ts) = afterGroup? depth ts := by
  rw [afterGroup?.eq_def depth (t :: ts)]
  cases hkind : t.kind <;> simp_all

theorem afterGroup?_append {depth : Nat} {ts rest : List Token} (h : afterGroup? depth ts = some rest)
    (tail : List Token) : afterGroup? depth (ts ++ tail) = some (rest ++ tail) := by
  fun_induction afterGroup? depth ts with
  | case1 => cases h
  | case2 depth t ts hkind ih | case4 t ts hkind depth ih =>
    rw [List.cons_append, afterGroup?.eq_def]
    simp only [hkind]
    exact ih h
  | case3 t ts hkind =>
    cases h
    rw [List.cons_append, afterGroup?.eq_def]
    simp only [hkind]
  | case5 => cases h
  | case6 depth t ts hleft hright heof ih =>
    rw [List.cons_append, afterGroup?_cons_other hleft hright heof]
    exact ih h

/-- A group that does not close before the end of the text does not close. -/
theorem afterGroup?_eof {depth : Nat} {ts : List Token} (h : afterGroup? depth ts = none) {e : Token}
    (he : e.kind = .eof) (tail : List Token) : afterGroup? depth (ts ++ e :: tail) = none := by
  fun_induction afterGroup? depth ts with
  | case1 =>
    rw [List.nil_append, afterGroup?.eq_def]
    simp only [he]
  | case2 depth t ts hkind ih | case4 t ts hkind depth ih =>
    rw [List.cons_append, afterGroup?.eq_def]
    simp only [hkind]
    exact ih h
  | case3 => cases h
  | case5 depth t ts hkind =>
    rw [List.cons_append, afterGroup?.eq_def]
    simp only [hkind]
  | case6 depth t ts hleft hright heof ih =>
    rw [List.cons_append, afterGroup?_cons_other hleft hright heof]
    exact ih h

theorem groupsClose_of_eof {ts tail : List Token} {e : Token} (he : e.kind = .eof)
    (h : GroupsClose (ts ++ e :: tail)) : GroupsClose ts := by
  rintro t rest ⟨us, rfl⟩ hkind
  rw [Option.isSome_iff_ne_none]
  intro hnone
  have hsuffix : t :: (rest ++ e :: tail) <:+ us ++ t :: rest ++ e :: tail := ⟨us, by simp⟩
  have hsome := h hsuffix hkind
  rw [afterGroup?_eof hnone he] at hsome
  cases hsome

/-- A group is cut into pieces exactly if it closes, and what follows it is the same. -/
theorem pieces?_map_snd (depth : Nat) (ts : List Token) :
    (pieces? depth ts).map Prod.snd = afterGroup? depth ts := by
  fun_induction pieces? depth ts with
  | case1 => rfl
  | case2 depth t ts hkind ih | case4 t ts depth hkind ih | case5 t ts hkind ih =>
    rw [afterGroup?.eq_def _ (t :: ts)]
    simp only [hkind, ← ih, Option.map_map]
    rfl
  | case3 t ts hkind | case6 depth t ts hkind =>
    rw [afterGroup?.eq_def]
    simp only [hkind]
    rfl
  | case7 depth t ts hleft heof hclose hnested hcomma ih =>
    have hright : t.kind ≠ .rightParen := fun hkind => by
      cases depth with
      | zero => exact hclose hkind rfl
      | succ depth => exact hnested depth hkind rfl
    rw [afterGroup?_cons_other hleft hright heof, ← ih, Option.map_map]
    rfl

theorem pieces?_append {depth : Nat} {ts rest : List Token} {ps : List Piece}
    (h : pieces? depth ts = some (ps, rest)) (tail : List Token) :
    pieces? depth (ts ++ tail) = some (ps, rest ++ tail) := by
  fun_induction pieces? depth ts generalizing ps with
  | case1 => cases h
  | case2 depth t ts hkind ih | case4 t ts depth hkind ih | case5 t ts hkind ih =>
    obtain ⟨⟨qs, r⟩, hq, he⟩ := Option.map_eq_some_iff.1 h
    cases he
    rw [List.cons_append, pieces?.eq_def]
    simp only [hkind, ih hq, Option.map_some]
  | case3 t ts hkind =>
    cases h
    rw [List.cons_append, pieces?.eq_def]
    simp only [hkind]
  | case6 => cases h
  | case7 depth t ts hleft heof hclose hnested hcomma ih =>
    obtain ⟨⟨qs, r⟩, hq, he⟩ := Option.map_eq_some_iff.1 h
    cases he
    rw [List.cons_append, pieces?.eq_def]
    simp only [ih hq, Option.map_some]

theorem taken_append_append (whole rest tail : List Token) :
    taken (whole ++ tail) (rest ++ tail) = taken whole rest := by
  simp only [taken, List.length_append, Nat.add_sub_add_right]
  exact List.take_append_of_le_length (Nat.sub_le _ _)

/-- The group at the head of `t :: front` closes before the stop, so the place behind it is known. -/
theorem confined_skipGroup (hclose : GroupsClose front) : Confined id (fun _ => skipGroup) front := by
  cases front with
  | nil => exact .inr fun tail htail => ⟨_, by simp [skipGroup, expect, atLeftParen_stop htail]; rfl⟩
  | cons t front =>
    by_cases ht : t.kind = .leftParen
    · obtain ⟨rest, hrest⟩ := Option.isSome_iff_exists.1 (hclose (List.suffix_refl _) ht)
      have hsuffix := (afterGroup?_suffix hrest).1.trans (List.suffix_cons t front)
      refine .ok (fun _ => taken (t :: front) rest) (taken (t :: front) rest) hsuffix fun tail _ => ⟨?_, rfl⟩
      have hopen : atKind .leftParen (t :: (front ++ tail)) = true := atLeftParen_cons.2 ht
      have htaken := taken_append_append (t :: front) rest tail
      rw [List.cons_append] at htaken ⊢
      simp [skipGroup, expect, hopen, afterGroup?_append hrest, htaken]
    · refine .inr fun tail _ => ?_
      have hopen : ¬atKind .leftParen (t :: (front ++ tail)) = true := mt atLeftParen_cons.1 ht
      exact ⟨_, by simp [skipGroup, expect, hopen]; rfl⟩

theorem tokens_partsFrom (place : List Token) (ps : List Piece) :
    (partsFrom place ps).map Part.tokens = (ps.map Piece.tokens).filter fun ts => !ts.isEmpty := by
  induction ps generalizing place with
  | nil => rfl
  | cons piece ps ih =>
    rw [partsFrom, List.map_cons]
    split
    · next h => simp [h, ih]
    · next h => simp [h, ih]

/-- The parts of a closed group are the same in front of every stop, except for the places where they
are found. -/
theorem confined_splitGroup (hclose : GroupsClose front) :
    Confined (List.map Part.tokens) (fun _ => splitGroup) front := by
  cases front with
  | nil => exact .inr fun tail htail => ⟨_, by simp [splitGroup, expect, atLeftParen_stop htail]; rfl⟩
  | cons t front =>
    by_cases ht : t.kind = .leftParen
    · obtain ⟨rest, hrest⟩ := Option.isSome_iff_exists.1 (hclose (List.suffix_refl _) ht)
      have hsuffix := (afterGroup?_suffix hrest).1.trans (List.suffix_cons t front)
      rw [← pieces?_map_snd] at hrest
      obtain ⟨⟨ps, rest'⟩, hpieces, rfl⟩ := Option.map_eq_some_iff.1 hrest
      refine .ok (fun tail => partsFrom (front ++ tail) ps)
        ((ps.map Piece.tokens).filter fun ts => !ts.isEmpty) hsuffix fun tail _ => ⟨?_, tokens_partsFrom _ _⟩
      have hopen : atKind .leftParen (t :: (front ++ tail)) = true := atLeftParen_cons.2 ht
      rw [List.cons_append]
      simp [splitGroup, expect, hopen, pieces?_append hpieces]
    · refine .inr fun tail _ => ?_
      have hopen : ¬atKind .leftParen (t :: (front ++ tail)) = true := mt atLeftParen_cons.1 ht
      exact ⟨_, by simp [splitGroup, expect, hopen]; rfl⟩

end Reader

end DialectBridge
