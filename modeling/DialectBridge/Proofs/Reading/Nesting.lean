import DialectBridge.Proofs.Reading.Group

/-!
# Nesting

The parentheses of a run of tokens are counted. The run balances if each one has its counterpart (`Token.Balances`). A
group closes with the first parenthesis that a balanced run stands in front of (`afterGroup?_eq_some_iff`), and it is
cut into balanced pieces that hold no comma outside of the groups in them (`isCut_of_pieces?`).
-/

namespace DialectBridge

namespace Token

variable {depth inner : Nat} {t : Token} {ts us : List Token}

/-! ## Counting parentheses -/

/-- How many groups open among the tokens, less those that close. -/
def nesting (ts : List Token) : Int :=
  ts.countP (·.kind == .leftParen) - ts.countP (·.kind == .rightParen)

/-- The tokens close `depth` groups that are open in front of them and all groups that open among them, and at no
place they close more than is open. -/
structure Balances (depth : Nat) (ts : List Token) : Prop where
  opened : ∀ front, front <+: ts → 0 ≤ depth + nesting front
  closed : depth + nesting ts = 0

theorem nesting_cons (t : Token) (ts : List Token) : nesting (t :: ts) = nesting [t] + nesting ts := by
  simp only [nesting, List.countP_cons, List.countP_nil]
  omega

theorem nesting_open (h : t.kind = .leftParen) (depth : Nat) : depth + nesting [t] = (depth + 1 : Nat) := by
  simp [nesting, h]

theorem nesting_close (h : t.kind = .rightParen) (depth : Nat) : (depth + 1 : Nat) + nesting [t] = depth := by
  have hone : nesting [t] = -1 := by simp [nesting, h]
  omega

theorem nesting_other (hleft : t.kind ≠ .leftParen) (hright : t.kind ≠ .rightParen) (depth : Nat) :
    depth + nesting [t] = depth := by
  simp [nesting, hleft, hright]

theorem balances_nil : Balances depth [] ↔ depth = 0 := by
  constructor
  · intro h
    have hclosed := h.closed
    simp only [nesting, List.countP_nil] at hclosed
    omega
  · rintro rfl
    refine ⟨fun front hfront => ?_, rfl⟩
    rw [List.prefix_nil.1 hfront]
    exact Int.le_refl 0

/-- One token opens a group, closes one, or leaves the groups as they are. -/
theorem balances_cons (h : depth + nesting [t] = inner) : Balances depth (t :: ts) ↔ Balances inner ts := by
  have hshift (us : List Token) : depth + nesting (t :: us) = inner + nesting us := by
    rw [nesting_cons, ← Int.add_assoc, h]
  constructor
  · rintro ⟨hopened, hclosed⟩
    exact ⟨fun front hfront => hshift front ▸ hopened _ ((List.prefix_cons_inj t).2 hfront), hshift ts ▸ hclosed⟩
  · rintro ⟨hopened, hclosed⟩
    refine ⟨fun front hfront => ?_, (hshift ts).trans hclosed⟩
    rcases List.prefix_cons_iff.1 hfront with rfl | ⟨us, rfl, hus⟩
    · simp [nesting]
    · exact hshift us ▸ hopened us hus

theorem balances_open (h : t.kind = .leftParen) : Balances depth (t :: ts) ↔ Balances (depth + 1) ts :=
  balances_cons (nesting_open h depth)

theorem balances_close (h : t.kind = .rightParen) : Balances (depth + 1) (t :: ts) ↔ Balances depth ts :=
  balances_cons (nesting_close h depth)

theorem not_balances_close (h : t.kind = .rightParen) : ¬ Balances 0 (t :: ts) := by
  intro hbalances
  have hopened := hbalances.opened [t] ⟨ts, rfl⟩
  have hclose := nesting_close h 0
  omega

theorem balances_other (hleft : t.kind ≠ .leftParen) (hright : t.kind ≠ .rightParen) :
    Balances depth (t :: ts) ↔ Balances depth ts :=
  balances_cons (nesting_other hleft hright depth)

/-- Groups that close among the first tokens are no matter for what follows. -/
theorem Balances.append_iff (h : Balances inner us) (depth : Nat) :
    Balances (depth + inner) (us ++ ts) ↔ Balances depth ts := by
  induction us generalizing inner with
  | nil =>
    obtain rfl := balances_nil.1 h
    rfl
  | cons t us ih =>
    have hopened := h.opened [t] ⟨us, rfl⟩
    obtain ⟨next, hnext⟩ : ∃ next : Nat, inner + nesting [t] = next := ⟨(inner + nesting [t]).toNat, by omega⟩
    have hboth : ((depth + inner : Nat) : Int) + nesting [t] = (depth + next : Nat) := by omega
    rw [List.cons_append, balances_cons hboth]
    exact ih ((balances_cons hnext).1 h)

end Token

namespace Reader

open Token

variable {depth inner : Nat} {t : Token} {ts us rest : List Token} {ps : List Piece}

/-! ## Where a group closes -/

/-- The closing parenthesis is the one behind a balanced run. -/
theorem afterGroup?_eq_some_iff : afterGroup? depth ts = some rest ↔
    ∃ us c, ts = us ++ c :: rest ∧ c.kind = .rightParen ∧ Balances depth us ∧ ∀ t ∈ us, t.kind ≠ .eof := by
  induction ts generalizing depth with
  | nil => simp [afterGroup?]
  | cons t ts ih =>
    -- the run in front of the parenthesis is empty, or it starts with `t`
    have hcons : (∃ us c, t :: ts = us ++ c :: rest ∧ c.kind = .rightParen ∧ Balances depth us ∧
          ∀ u ∈ us, u.kind ≠ .eof) ↔
        (ts = rest ∧ t.kind = .rightParen ∧ depth = 0) ∨ t.kind ≠ .eof ∧
          ∃ us c, ts = us ++ c :: rest ∧ c.kind = .rightParen ∧ Balances depth (t :: us) ∧ ∀ u ∈ us, u.kind ≠ .eof := by
      constructor
      · rintro ⟨us, c, heq, hc, hbalances, heof⟩
        cases us with
        | nil =>
          cases heq
          exact .inl ⟨rfl, hc, balances_nil.1 hbalances⟩
        | cons u us =>
          cases heq
          obtain ⟨hu, hus⟩ := List.forall_mem_cons.1 heof
          exact .inr ⟨hu, us, c, rfl, hc, hbalances, hus⟩
      · rintro (⟨rfl, hright, rfl⟩ | ⟨ht, us, c, rfl, hc, hbalances, heof⟩)
        · exact ⟨[], t, rfl, hright, balances_nil.2 rfl, by simp⟩
        · exact ⟨t :: us, c, rfl, hc, hbalances, List.forall_mem_cons.2 ⟨ht, heof⟩⟩
    rw [hcons]
    by_cases hleft : t.kind = .leftParen
    · rw [afterGroup?_open hleft, ih]
      simp [hleft, balances_open hleft]
    · by_cases hright : t.kind = .rightParen
      · cases depth with
        | zero => simp [afterGroup?_last hright, hright, not_balances_close hright]
        | succ depth =>
          rw [afterGroup?_close hright, ih]
          simp [hright, balances_close hright]
      · by_cases heof : t.kind = .eof
        · simp [afterGroup?_end heof, heof]
        · rw [afterGroup?_cons_other hleft hright heof, ih]
          simp [hright, heof, balances_other hleft hright]

/-! ## Pieces -/

/-- The tokens balance, and outside of groups they hold no comma. -/
structure IsUndivided (depth : Nat) (ts : List Token) : Prop where
  balances : Balances depth ts
  inGroup : ∀ ⦃front c back⦄, ts = front ++ c :: back → c.kind = .comma → ¬ Balances depth front

theorem isUndivided_nil : IsUndivided 0 [] where
  balances := balances_nil.2 rfl
  inGroup front c back h := by simp at h

theorem IsUndivided.cons (h : depth + nesting [t] = inner) (hcomma : t.kind = .comma → depth ≠ 0)
    (hts : IsUndivided inner ts) : IsUndivided depth (t :: ts) where
  balances := (balances_cons h).2 hts.balances
  inGroup front c back heq hc := by
    cases front with
    | nil =>
      cases heq
      exact mt balances_nil.1 (hcomma hc)
    | cons u front =>
      cases heq
      rw [balances_cons h]
      exact hts.inGroup rfl hc

/-- Tokens up to a closing parenthesis are cut at commas into undivided pieces, and `rest` follows them. The first
piece closes the groups that are open in front of it. -/
inductive IsCut : Nat → List Token → List Piece → List Token → Prop where
  | last {depth : Nat} {us rest : List Token} {c : Token} (undivided : IsUndivided depth us)
      (closes : c.kind = .rightParen) : IsCut depth (us ++ c :: rest) [⟨us, c⟩] rest
  | cons {depth : Nat} {us ts rest : List Token} {c : Token} {ps : List Piece} (undivided : IsUndivided depth us)
      (comma : c.kind = .comma) (cut : IsCut 0 ts ps rest) : IsCut depth (us ++ c :: ts) (⟨us, c⟩ :: ps) rest

theorem IsCut.push (h : depth + nesting [t] = inner) (hcomma : t.kind = .comma → depth ≠ 0)
    (hcut : IsCut inner ts ps rest) : IsCut depth (t :: ts) (Piece.push t ps) rest := by
  cases hcut with
  | last undivided closes => exact .last (undivided.cons h hcomma) closes
  | cons undivided comma cut => exact .cons (undivided.cons h hcomma) comma cut

theorem IsCut.length_lt (h : IsCut depth ts ps rest) : rest.length < ts.length := by
  induction h with
  | last _ _ =>
    rw [List.length_append, List.length_cons]
    omega
  | cons _ _ _ ih =>
    rw [List.length_append, List.length_cons]
    omega

theorem isCut_of_pieces? (h : pieces? depth ts = some (ps, rest)) : IsCut depth ts ps rest := by
  fun_induction pieces? depth ts generalizing ps with
  | case1 => cases h
  | case2 depth t ts hkind ih =>
    obtain ⟨⟨qs, after⟩, hqs, heq⟩ := Option.map_eq_some_iff.1 h
    cases heq
    exact (ih hqs).push (nesting_open hkind depth) (by simp [hkind])
  | case3 t ts hkind =>
    cases h
    exact .last isUndivided_nil hkind
  | case4 t ts depth hkind ih =>
    obtain ⟨⟨qs, after⟩, hqs, heq⟩ := Option.map_eq_some_iff.1 h
    cases heq
    exact (ih hqs).push (nesting_close hkind depth) (by simp)
  | case5 t ts hkind ih =>
    obtain ⟨⟨qs, after⟩, hqs, heq⟩ := Option.map_eq_some_iff.1 h
    cases heq
    exact .cons isUndivided_nil hkind (ih hqs)
  | case6 => cases h
  | case7 depth t ts hleft heof hclose hnested hcomma ih =>
    obtain ⟨⟨qs, after⟩, hqs, heq⟩ := Option.map_eq_some_iff.1 h
    cases heq
    have hright : t.kind ≠ .rightParen := fun hkind => by
      cases depth with
      | zero => exact hclose hkind rfl
      | succ depth => exact hnested depth hkind rfl
    exact (ih hqs).push (nesting_other hleft hright depth) hcomma

end Reader

end DialectBridge
