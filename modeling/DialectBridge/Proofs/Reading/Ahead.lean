import DialectBridge.Proofs.Reading.InStep
import DialectBridge.Proofs.Reading.Names

/-!
# Readers that look one token ahead

The head of a statement is read word by word, and where it ends is seen from the next token. So a reader of
plain tokens reads the same in front of every text that goes on with this token (`TakesPlain`). A group even
shows its own end: it is cut into the same pieces whatever follows (`splitGroup_append`).
-/

namespace DialectBridge.Reader

open Token

variable {α β : Type}

/-- The reader takes plain tokens, and of what follows it looks at the next token at most. -/
def TakesPlain (r : Reader α) : Prop :=
  ∀ ⦃ts a t rest⦄, r ts = .ok (a, t :: rest) → ∃ us, ts = us ++ t :: rest ∧ (∀ u ∈ us, IsPlain u) ∧
    ∀ tail, r (us ++ t :: tail) = .ok (a, t :: tail)

theorem TakesPlain.pure (a : α) : TakesPlain (pure a : Reader α) := by
  intro ts b t rest h
  cases h
  exact ⟨[], rfl, by simp, fun tail => rfl⟩

/-- What the second reader sees next starts with its own tokens, or with the token that follows both. -/
theorem TakesPlain.bind {r : Reader α} {f : α → Reader β} (hr : TakesPlain r) (hf : ∀ a, TakesPlain (f a)) :
    TakesPlain (r >>= f) := by
  intro ts b t rest h
  obtain ⟨a, mid, hfirst, hsecond⟩ := bind_eq_ok h
  obtain ⟨vs, rfl, hvs, hlater⟩ := hf a hsecond
  cases vs with
  | nil =>
    obtain ⟨us, rfl, hus, hfront⟩ := hr hfirst
    exact ⟨us, rfl, hus, fun tail => (bind_ok (hfront tail)).trans (hlater tail)⟩
  | cons v vs =>
    obtain ⟨us, rfl, hus, hfront⟩ := hr hfirst
    refine ⟨us ++ v :: vs, by simp, List.forall_mem_append.2 ⟨hus, hvs⟩, fun tail => ?_⟩
    rw [List.append_assoc]
    exact (bind_ok (hfront (vs ++ t :: tail))).trans (hlater tail)

/-! ## Keywords -/

theorem isPlain_of_keyword {t : Token} {keyword : Keyword} (h : t.kind = .keyword keyword) : IsPlain t := by
  simp [IsPlain, h]

theorem takesPlain_eatKeyword (keyword : Keyword) : TakesPlain (eatKeyword keyword) := by
  intro ts eaten t rest h
  unfold eatKeyword at h
  split at h
  · next hat =>
    cases ts with
    | nil => cases hat
    | cons u us =>
      obtain ⟨rfl, rfl⟩ : true = eaten ∧ us = t :: rest := by simpa using h
      obtain ⟨v, vs, heq, hv⟩ := atKeyword_cons hat
      cases heq
      refine ⟨[u], rfl, by simpa using isPlain_of_keyword hv, fun tail => ?_⟩
      simp [eatKeyword, atKeyword, headKind, hv]
  · next hat =>
    cases h
    refine ⟨[], rfl, by simp, fun tail => ?_⟩
    rw [List.nil_append, eatKeyword, if_neg (by simpa [atKeyword, headKind] using hat)]

/-- A keyword that was expected is there. -/
theorem expectKeyword_eq_ok {keyword : Keyword} {ts rest : List Token} {a : Unit}
    (h : expectKeyword keyword ts = .ok (a, rest)) : ∃ t, ts = t :: rest ∧ t.kind = .keyword keyword := by
  unfold expectKeyword at h
  split at h
  · next hat =>
    obtain ⟨t, us, rfl, ht⟩ := atKeyword_cons hat
    exact ⟨t, congrArg (List.cons t) (by simpa using h), ht⟩
  · cases h

theorem takesPlain_expectKeyword (keyword : Keyword) : TakesPlain (expectKeyword keyword) := by
  intro ts a t rest h
  obtain ⟨u, rfl, hu⟩ := expectKeyword_eq_ok h
  refine ⟨[u], rfl, by simpa using isPlain_of_keyword hu, fun tail => ?_⟩
  simp [expectKeyword, atKeyword, headKind, hu]

/-! ## Names -/

theorem takesPlain_word (expected : Text) : TakesPlain (word expected) := by
  intro ts w t rest h
  obtain ⟨u, rfl, hname⟩ := word_eq_ok h
  exact ⟨[u], rfl, by simpa using isPlain_of_name? hname, fun tail => by simp [word, hname]⟩

theorem wordsAfter_stop {separator : TokenKind} (expected : Text) {t : Token} (ht : (t.kind == separator) = false)
    (ts : List Token) : wordsAfter separator expected (t :: ts) = .ok ([], t :: ts) := by
  cases ts <;> simp [wordsAfter, ht]

theorem takesPlain_wordsAfter_dot (expected : Text) : TakesPlain (wordsAfter .dot expected) := by
  intro ts
  fun_induction wordsAfter .dot expected ts with
  | case1 =>
    intro ws v rest h
    cases h
  | case2 t u us ht part hpart ih =>
    intro ws v rest h
    cases hrec : wordsAfter .dot expected us with
    | error e => simp [hrec, Bind.bind, Except.bind] at h
    | ok p =>
      obtain ⟨more, next⟩ := p
      obtain ⟨rfl, rfl⟩ : part :: more = ws ∧ next = v :: rest := by simpa [hrec, Bind.bind, Except.bind] using h
      obtain ⟨vs, rfl, hvs, hread⟩ := ih hrec
      have hdot : t.kind = .dot := by simpa using ht
      refine ⟨t :: u :: vs, rfl, ?_, fun tail => ?_⟩
      · exact List.forall_mem_cons.2 ⟨by simp [IsPlain, hdot], List.forall_mem_cons.2 ⟨isPlain_of_name? hpart, hvs⟩⟩
      · rw [List.cons_append, List.cons_append, wordsAfter, if_pos ht]
        simp only [hpart, hread tail]
        rfl
  | case3 t u us ht =>
    intro ws v rest h
    cases h
    exact ⟨[], rfl, by simp, fun tail => wordsAfter_stop expected (by simpa using ht) tail⟩
  | case4 =>
    intro ws v rest h
    cases h
  | case5 t ht =>
    intro ws v rest h
    cases h
    exact ⟨[], rfl, by simp, fun tail => wordsAfter_stop expected (by simpa using ht) tail⟩
  | case6 =>
    intro ws v rest h
    cases h

theorem takesPlain_name (expected : Text) : TakesPlain (name expected) :=
  ((takesPlain_word expected).bind fun _ => (takesPlain_wordsAfter_dot expected).bind fun _ => .pure _).bind fun _ =>
    .pure _

/-! ## Groups -/

/-- The tokens of a group with its parentheses: the first one opens it, and it closes with the last one. -/
def IsGroup (us : List Token) : Prop :=
  ∃ o inside, us = o :: inside ∧ o.kind = .leftParen ∧ afterGroup? 0 inside = some []

/-- What is passed of a group are its tokens. -/
theorem exists_afterGroup? {depth : Nat} {ts rest : List Token} (h : afterGroup? depth ts = some rest) :
    ∃ us, ts = us ++ rest ∧ afterGroup? depth us = some [] := by
  obtain ⟨us, rfl, hus⟩ := exists_closes h
  have hself := (hus []).1
  rw [List.append_nil] at hself
  exact ⟨us, rfl, hself⟩

/-- A group is cut into the same parts whatever follows it. -/
theorem splitGroup_append {ts rest : List Token} {parts : List Part} (h : splitGroup ts = .ok (parts, rest)) :
    ∃ us, ts = us ++ rest ∧ IsGroup us ∧ ∀ tail, ∃ parts', splitGroup (us ++ tail) = .ok (parts', tail) ∧
      parts'.map Part.tokens = parts.map Part.tokens := by
  unfold splitGroup at h
  split at h
  · cases h
  · next inside hopen =>
    split at h
    · next ps after hpieces =>
      cases h
      obtain ⟨o, rfl, ho⟩ := expect_eq_ok (.inl rfl) hopen
      have hgroup : afterGroup? 0 inside = some rest := by rw [← pieces?_map_snd, hpieces, Option.map_some]
      obtain ⟨us, rfl, hus⟩ := exists_afterGroup? hgroup
      -- the pieces of the group alone are those in front of `rest`
      obtain ⟨⟨qs, none⟩, hqs, hnone⟩ : ∃ p, pieces? 0 us = some p ∧ p.2 = [] := by
        rw [← Option.map_eq_some_iff, pieces?_map_snd, hus]
      obtain rfl : none = [] := hnone
      have hboth := pieces?_append hqs rest
      rw [hpieces, List.nil_append] at hboth
      obtain rfl : ps = qs := by cases hboth; rfl
      refine ⟨o :: us, rfl, ⟨o, us, rfl, ho, hus⟩, fun tail => ⟨partsFrom (us ++ tail) ps, ?_, ?_⟩⟩
      · exact splitGroup_cons ho (pieces?_append hqs tail)
      · rw [tokens_partsFrom, tokens_partsFrom]
    · cases h

end DialectBridge.Reader
