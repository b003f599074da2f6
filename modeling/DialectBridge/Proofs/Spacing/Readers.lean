import DialectBridge.Proofs.Reading.InStep

/-!
# Reading tokens behind other gaps

Readers decide by the tokens and hardly ever by the gaps in front of them: only the end of a default
value depends on whether there is a gap at all. So two runs of tokens that are the same but for their
gaps are read in step by all other readers (`Respacing`), and by this one as well if no gap comes or goes
between two tokens (`TightRespacing`). The readers of names and groups return the same.
-/

namespace DialectBridge

open Reader

/-! ## Tokens behind other gaps -/

namespace Token

/-- The token `u` is the token `t` behind another gap. A quotation that is left open may hold another
text. -/
structure AgreeUpToGap (t u : Token) : Prop where
  kind : u.kind = t.kind
  lexeme : (∀ cause, t.kind ≠ .error cause) → u.lexeme = t.lexeme

/-- Moreover, the gap is empty where that of `t` is. In front of the end any gap may stand. -/
structure AgreeUpToSpacing (t u : Token) : Prop extends AgreeUpToGap t u where
  gap : t.kind ≠ .eof → (u.gap = [] ↔ t.gap = [])

theorem AgreeUpToSpacing.refl (t : Token) : AgreeUpToSpacing t t :=
  ⟨⟨rfl, fun _ => rfl⟩, fun _ => Iff.rfl⟩

namespace AgreeUpToGap

variable {t u : Token}

theorem keyword? (h : AgreeUpToGap t u) : u.keyword? = t.keyword? := by
  rw [Token.keyword?, Token.keyword?, h.kind]

theorem isWord (h : AgreeUpToGap t u) (word : Text) : u.isWord word = t.isWord word := by
  rw [Token.isWord, Token.isWord, h.kind]

/-- The spelling of a keyword is its name, and only open quotations are spelled differently. -/
theorem name? (h : AgreeUpToGap t u) : u.name? = t.name? := by
  rw [Token.name?, Token.name?, h.kind]
  split
  · rfl
  · rfl
  · next keyword hkind => rw [h.lexeme (by simp [hkind])]
  · rfl

end AgreeUpToGap

variable {ts us : List Token}

theorem headKind_agree (h : List.Forall₂ AgreeUpToGap ts us) : headKind us = headKind ts := by
  cases h with
  | nil => rfl
  | cons htu _ => exact htu.kind

end Token

open Token

/-- The relation holds between corresponding places, and parts, of two runs of tokens that are the same
but for their gaps. What is written down of the one and of the other is related by `V`. -/
structure Respacing (R : List Token → List Token → Prop) (V : Text → Text → Prop) : Prop where
  agree : ∀ ⦃ts us⦄, R ts us → List.Forall₂ AgreeUpToGap ts us
  tail : ∀ ⦃t u ts us⦄, R (t :: ts) (u :: us) → R ts us
  front : ∀ ⦃ts us ts' us'⦄, R ts us → ts' <+: ts → us' <+: us → ts'.length = us'.length → R ts' us'
  verbatim : ∀ ⦃ts us⦄, R ts us → Chain ts → V (verbatim ts) (verbatim us)

/-- Moreover, no gap between two tokens comes or goes. -/
structure TightRespacing (R : List Token → List Token → Prop) (V : Text → Text → Prop) : Prop
    extends Respacing R V where
  gap : ∀ ⦃t u t' u' ts us⦄, R (t :: t' :: ts) (u :: u' :: us) → t'.kind ≠ .eof → (u'.gap = [] ↔ t'.gap = [])

/-- The places behind two tokens, from which on the runs are related. -/
def Behind (R : List Token → List Token → Prop) (ts us : List Token) : Prop :=
  ∃ t u, R (t :: ts) (u :: us)

namespace Respacing

variable {R : List Token → List Token → Prop} {V : Text → Text → Prop} (hR : Respacing R V)
include hR

theorem tight (h : ∀ ts us, R ts us → List.Forall₂ AgreeUpToSpacing ts us) : TightRespacing R V where
  toRespacing := hR
  gap _ _ _ _ _ _ hplace := by
    cases h _ _ hplace with
    | cons _ hrest =>
      cases hrest with
      | cons hnext _ => exact hnext.gap

theorem of_behind {ts us : List Token} (h : Behind R ts us) : R ts us := by
  obtain ⟨t, u, h⟩ := h
  exact hR.tail h

theorem behind : Respacing (Behind R) V where
  agree _ _ h := hR.agree (hR.of_behind h)
  tail _ _ _ _ h := ⟨_, _, hR.of_behind h⟩
  front ts us ts' us' := by
    rintro ⟨t, u, h⟩ hts hus hlen
    exact ⟨t, u, hR.front h (List.cons_prefix_cons.2 ⟨rfl, hts⟩) (List.cons_prefix_cons.2 ⟨rfl, hus⟩)
      (congrArg (· + 1) hlen)⟩
  verbatim _ _ h := hR.verbatim (hR.of_behind h)

theorem along {S : List Token → Prop} (htail : ∀ ⦃t ts⦄, S (t :: ts) → S ts)
    (hfront : ∀ ⦃ts' ts⦄, S ts → ts' <+: ts → S ts') : Respacing (Along S R) V where
  agree _ _ h := hR.agree h.1
  tail _ _ _ _ h := ⟨hR.tail h.1, htail h.2⟩
  front _ _ _ _ h hts hus hlen := ⟨hR.front h.1 hts hus hlen, hfront h.2 hts⟩
  verbatim _ _ h := hR.verbatim h.1

/-! ## Single tokens -/

section Places

variable {ts us : List Token} {t : Token}

theorem length_eq (h : R ts us) : us.length = ts.length :=
  (hR.agree h).length_eq.symm

theorem nil_right (h : R [] us) : us = [] := by
  cases hR.agree h
  rfl

/-- A token on one side has its counterpart on the other. -/
theorem exists_cons (h : R (t :: ts) us) : ∃ u vs, us = u :: vs ∧ AgreeUpToGap t u ∧ R ts vs := by
  cases hR.agree h with
  | cons htu _ => exact ⟨_, _, rfl, htu, hR.tail h⟩

theorem drop (h : R ts us) : R (ts.drop 1) (us.drop 1) := by
  cases ts with
  | nil =>
    obtain rfl := hR.nil_right h
    exact h
  | cons t ts =>
    obtain ⟨u, vs, rfl, -, hrest⟩ := hR.exists_cons h
    exact hrest

theorem headKind (h : R ts us) : headKind us = Token.headKind ts :=
  headKind_agree (hR.agree h)

theorem atKind (h : R ts us) (kind : TokenKind) : atKind kind us = Token.atKind kind ts := by
  rw [Token.atKind, Token.atKind, hR.headKind h]

theorem atKeyword (h : R ts us) (keyword : Keyword) : atKeyword keyword us = Token.atKeyword keyword ts := by
  rw [Token.atKeyword, Token.atKeyword, hR.headKind h]

theorem atEnd (h : R ts us) : atEnd us = Token.atEnd ts := by
  rw [Token.atEnd, Token.atEnd, hR.headKind h]

theorem headKeyword? (h : R ts us) : headKeyword? us = Token.headKeyword? ts := by
  cases ts with
  | nil => rw [hR.nil_right h]
  | cons t ts =>
    obtain ⟨u, vs, rfl, htu, -⟩ := hR.exists_cons h
    exact htu.keyword?

theorem atWord (h : R ts us) (word : Text) : atWord word us = Token.atWord word ts := by
  cases ts with
  | nil => rw [hR.nil_right h]
  | cons t ts =>
    obtain ⟨u, vs, rfl, htu, -⟩ := hR.exists_cons h
    exact htu.isWord word

/-- What is taken up to corresponding places corresponds. -/
theorem taken (h : R ts us) {rest rest' : List Token} (hrest : R rest rest') :
    R (taken ts rest) (Token.taken us rest') := by
  refine hR.front h (List.take_prefix _ _) (List.take_prefix _ _) ?_
  rw [Token.taken, Token.taken, List.length_take, List.length_take, hR.length_eq h, hR.length_eq hrest]

theorem verbatim_taken (h : R ts us) (hchain : Chain ts) {rest rest' : List Token} (hrest : R rest rest') :
    V (Token.verbatim (Token.taken ts rest)) (Token.verbatim (Token.taken us rest')) := by
  refine hR.verbatim (hR.taken h hrest) ?_
  rw [← List.take_append_drop (ts.length - rest.length) ts] at hchain
  exact hchain.left

end Places

theorem inStep_skip : InStep R Eq R skip skip :=
  fun _ _ h => .ok ⟨rfl, hR.drop h⟩

theorem inStep_eatKeyword (keyword : Keyword) : InStep R Eq R (eatKeyword keyword) (eatKeyword keyword) := by
  intro ts us h
  rw [eatKeyword, eatKeyword, hR.atKeyword h]
  split
  · exact .ok ⟨rfl, hR.drop h⟩
  · exact .ok ⟨rfl, h⟩

theorem inStep_expectKeyword (keyword : Keyword) :
    InStep R Eq R (expectKeyword keyword) (expectKeyword keyword) := by
  intro ts us h
  rw [expectKeyword, expectKeyword, hR.atKeyword h]
  split
  · exact .ok ⟨rfl, hR.drop h⟩
  · exact .error _ _

theorem inStep_expect (kind : TokenKind) (expected : Text) :
    InStep R Eq R (expect kind expected) (expect kind expected) := by
  intro ts us h
  rw [expect, expect, hR.atKind h]
  split
  · exact .ok ⟨rfl, hR.drop h⟩
  · exact .error _ _

/-! ## Names -/

theorem inStep_word (expected : Text) : InStep R Eq R (word expected) (word expected) := by
  intro ts us h
  cases ts with
  | nil =>
    rw [hR.nil_right h]
    exact .error _ _
  | cons t ts =>
    obtain ⟨u, vs, rfl, htu, hrest⟩ := hR.exists_cons h
    rw [word, word, htu.name?]
    split
    · exact .ok ⟨rfl, hrest⟩
    · exact .error _ _

theorem inStep_wordsAfter (separator : TokenKind) (expected : Text) :
    InStep R Eq R (wordsAfter separator expected) (wordsAfter separator expected) := by
  intro ts us h
  fun_induction wordsAfter separator expected ts generalizing us with
  | case1 t v ts ht hname =>
    obtain ⟨t', vs, rfl, htt, hrest⟩ := hR.exists_cons h
    obtain ⟨v', ws, rfl, hvv, -⟩ := hR.exists_cons hrest
    rw [wordsAfter, htt.kind, if_pos ht, hvv.name?, hname]
    exact .error _ _
  | case2 t v ts ht part hname ih =>
    obtain ⟨t', vs, rfl, htt, hrest⟩ := hR.exists_cons h
    obtain ⟨v', ws, rfl, hvv, hrest⟩ := hR.exists_cons hrest
    rw [wordsAfter, htt.kind, if_pos ht, hvv.name?, hname]
    exact (ih hrest).bind fun p q hpq => .ok ⟨congrArg (part :: ·) hpq.1, hpq.2⟩
  | case3 t v ts ht =>
    obtain ⟨t', vs, rfl, htt, hrest⟩ := hR.exists_cons h
    obtain ⟨v', ws, rfl, -, -⟩ := hR.exists_cons hrest
    rw [wordsAfter, htt.kind, if_neg ht]
    exact .ok ⟨rfl, h⟩
  | case4 t ht =>
    obtain ⟨t', vs, rfl, htt, hrest⟩ := hR.exists_cons h
    rw [hR.nil_right hrest, wordsAfter, htt.kind, if_pos ht]
    exact .error _ _
  | case5 t ht =>
    obtain ⟨t', vs, rfl, htt, hrest⟩ := hR.exists_cons h
    obtain rfl := hR.nil_right hrest
    rw [wordsAfter, htt.kind, if_neg ht]
    exact .ok ⟨rfl, h⟩
  | case6 =>
    obtain rfl := hR.nil_right h
    exact .ok ⟨rfl, h⟩

theorem inStep_name (expected : Text) : InStep R Eq R (name expected) (name expected) := by
  have hparts : InStep R Eq R (nameParts expected) (nameParts expected) :=
    (hR.inStep_word expected).bind fun _ _ hfirst => (hR.inStep_wordsAfter .dot expected).bind fun _ _ hmore =>
      .pure (by rw [hfirst, hmore])
  exact hparts.bind fun _ _ hequal => .pure (by rw [hequal])

theorem inStep_nameList : InStep R Eq R nameList nameList :=
  (hR.inStep_expect _ _).bind fun _ _ _ => (hR.inStep_word _).bind fun _ _ hfirst =>
    (hR.inStep_wordsAfter _ _).bind fun _ _ hmore => (hR.inStep_expect _ _).bind fun _ _ _ =>
      .pure (by rw [hfirst, hmore])

/-! ## Groups -/

theorem afterGroup? {ts us : List Token} (h : R ts us) (depth : Nat) :
    Option.Rel R (afterGroup? depth ts) (Reader.afterGroup? depth us) := by
  fun_induction Reader.afterGroup? depth ts generalizing us with
  | case1 =>
    rw [hR.nil_right h]
    exact .none
  | case2 depth t ts hkind ih =>
    obtain ⟨u, vs, rfl, htu, hrest⟩ := hR.exists_cons h
    rw [afterGroup?_open (htu.kind.trans hkind)]
    exact ih hrest
  | case3 t ts hkind =>
    obtain ⟨u, vs, rfl, htu, hrest⟩ := hR.exists_cons h
    rw [afterGroup?_last (htu.kind.trans hkind)]
    exact .some hrest
  | case4 t ts hkind depth ih =>
    obtain ⟨u, vs, rfl, htu, hrest⟩ := hR.exists_cons h
    rw [afterGroup?_close (htu.kind.trans hkind)]
    exact ih hrest
  | case5 depth t ts hkind =>
    obtain ⟨u, vs, rfl, htu, hrest⟩ := hR.exists_cons h
    rw [afterGroup?_end (htu.kind.trans hkind)]
    exact .none
  | case6 depth t ts hleft hright heof ih =>
    obtain ⟨u, vs, rfl, htu, hrest⟩ := hR.exists_cons h
    rw [afterGroup?_cons_other (htu.kind ▸ hleft) (htu.kind ▸ hright) (htu.kind ▸ heof)]
    exact ih hrest

theorem inStep_open (expected : Text) :
    InStep R Eq (Behind R) (expect .leftParen expected) (expect .leftParen expected) := by
  intro ts us h
  cases ts with
  | nil =>
    rw [hR.nil_right h]
    exact .error _ _
  | cons t ts =>
    obtain ⟨u, vs, rfl, -, -⟩ := hR.exists_cons h
    rw [expect, expect, hR.atKind h]
    split
    · exact .ok ⟨rfl, t, u, h⟩
    · exact .error _ _

theorem inStep_skipGroup_behind : InStep R (fun _ _ => True) (Behind R) skipGroup skipGroup := by
  intro ts us h
  rw [skipGroup_eq, skipGroup_eq]
  refine (hR.inStep_open _ h).bind fun p q hpq => ?_
  have hrest := hR.behind.afterGroup? hpq.2 0
  generalize Reader.afterGroup? 0 p.2 = x at hrest ⊢
  generalize Reader.afterGroup? 0 q.2 = y at hrest ⊢
  cases hrest with
  | none => exact .error _ _
  | some hrest => exact .ok ⟨trivial, hrest⟩

theorem inStep_skipGroup : InStep R (fun _ _ => True) R skipGroup skipGroup :=
  hR.inStep_skipGroup_behind.finish fun _ _ => hR.of_behind

end Respacing

/-- The pieces of two groups correspond, and so do the places behind the groups. The first piece starts
where its group does. -/
structure CutAlike (R : List Token → List Token → Prop) (ts us : List Token)
    (p q : List Piece × List Token) : Prop where
  first : ∃ a b ps qs, p.1 = a :: ps ∧ q.1 = b :: qs ∧ a.tokens <+: ts ∧ b.tokens <+: us ∧
    a.tokens.length = b.tokens.length ∧ List.Forall₂ (fun a b => R a.tokens b.tokens) ps qs
  rest : R p.2 q.2

/-- A token in front of a group goes into its first piece. -/
theorem CutAlike.push {R : List Token → List Token → Prop} {t u : Token} {ts us : List Token}
    {x y : Option (List Piece × List Token)} (h : Option.Rel (CutAlike R ts us) x y) :
    Option.Rel (CutAlike R (t :: ts) (u :: us)) (x.map fun p => (Piece.push t p.1, p.2))
      (y.map fun p => (Piece.push u p.1, p.2)) := by
  cases h with
  | none => exact .none
  | @some p q hpq =>
    obtain ⟨⟨a, b, ps, qs, hp, hq, ha, hb, hlen, hpieces⟩, hrest⟩ := hpq
    exact .some ⟨⟨⟨t :: a.tokens, a.delimiter⟩, ⟨u :: b.tokens, b.delimiter⟩, ps, qs,
      congrArg (Piece.push t) hp, congrArg (Piece.push u) hq, List.cons_prefix_cons.2 ⟨rfl, ha⟩,
      List.cons_prefix_cons.2 ⟨rfl, hb⟩, congrArg (· + 1) hlen, hpieces⟩, hrest⟩

namespace Respacing

variable {R : List Token → List Token → Prop} {V : Text → Text → Prop} (hR : Respacing R V)
include hR

theorem pieces {ts us : List Token} {p q : List Piece × List Token} (h : R ts us) (hpq : CutAlike R ts us p q) :
    List.Forall₂ (fun a b => R a.tokens b.tokens) p.1 q.1 := by
  obtain ⟨a, b, ps, qs, hp, hq, ha, hb, hlen, hpieces⟩ := hpq.first
  rw [hp, hq]
  exact .cons (hR.front h ha hb hlen) hpieces

theorem pieces? {ts us : List Token} (h : R ts us) (depth : Nat) :
    Option.Rel (CutAlike R ts us) (pieces? depth ts) (Reader.pieces? depth us) := by
  fun_induction Reader.pieces? depth ts generalizing us with
  | case1 =>
    rw [hR.nil_right h]
    exact .none
  | case2 depth t ts hkind ih =>
    obtain ⟨u, vs, rfl, htu, hrest⟩ := hR.exists_cons h
    rw [pieces?_open (htu.kind.trans hkind)]
    exact CutAlike.push (ih hrest)
  | case3 t ts hkind =>
    obtain ⟨u, vs, rfl, htu, hrest⟩ := hR.exists_cons h
    rw [pieces?_last (htu.kind.trans hkind)]
    exact .some ⟨⟨⟨[], t⟩, ⟨[], u⟩, [], [], rfl, rfl, List.nil_prefix, List.nil_prefix, rfl, .nil⟩, hrest⟩
  | case4 t ts depth hkind ih =>
    obtain ⟨u, vs, rfl, htu, hrest⟩ := hR.exists_cons h
    rw [pieces?_close (htu.kind.trans hkind)]
    exact CutAlike.push (ih hrest)
  | case5 t ts hkind ih =>
    obtain ⟨u, vs, rfl, htu, hrest⟩ := hR.exists_cons h
    rw [pieces?_comma (htu.kind.trans hkind)]
    have hcut := ih hrest
    generalize Reader.pieces? 0 ts = x at hcut ⊢
    generalize Reader.pieces? 0 vs = y at hcut ⊢
    cases hcut with
    | none => exact .none
    | some hpq =>
      exact .some ⟨⟨⟨[], t⟩, ⟨[], u⟩, _, _, rfl, rfl, List.nil_prefix, List.nil_prefix, rfl,
        hR.pieces hrest hpq⟩, hpq.rest⟩
  | case6 depth t ts hkind =>
    obtain ⟨u, vs, rfl, htu, hrest⟩ := hR.exists_cons h
    rw [pieces?_end (htu.kind.trans hkind)]
    exact .none
  | case7 depth t ts hleft heof hlast hclose hcomma ih =>
    have hright : t.kind ≠ .rightParen := fun hkind => by
      cases depth with
      | zero => exact hlast hkind rfl
      | succ depth => exact hclose depth hkind rfl
    obtain ⟨u, vs, rfl, htu, hrest⟩ := hR.exists_cons h
    rw [pieces?_other (htu.kind ▸ hleft) (htu.kind ▸ hright) (fun hkind => hcomma (htu.kind ▸ hkind))
      (htu.kind ▸ heof)]
    exact CutAlike.push (ih hrest)

/-- The parts of two groups correspond, their places apart. -/
theorem parts {ps qs : List Piece} (h : List.Forall₂ (fun a b => R a.tokens b.tokens) ps qs)
    (place place' : List Token) :
    List.Forall₂ R ((partsFrom place ps).map Part.tokens) ((partsFrom place' qs).map Part.tokens) := by
  rw [tokens_partsFrom, tokens_partsFrom]
  refine List.rel_filter (fun ts us hts => ?_) (List.forall₂_map_left_iff.2 (List.forall₂_map_right_iff.2 h))
  have hempty : us.isEmpty = ts.isEmpty := by
    rw [Bool.eq_iff_iff, List.isEmpty_iff_length_eq_zero, List.isEmpty_iff_length_eq_zero, hR.length_eq hts]
  show (!ts.isEmpty) = true ↔ (!us.isEmpty) = true
  rw [hempty]

theorem inStep_splitGroup :
    InStep R (fun ps qs => List.Forall₂ R (ps.map Part.tokens) (qs.map Part.tokens)) R splitGroup splitGroup := by
  intro ts us h
  rw [splitGroup_eq, splitGroup_eq]
  refine (hR.inStep_expect _ _ h).bind fun p q hpq => ?_
  have hcut := hR.pieces? hpq.2 0
  generalize Reader.pieces? 0 p.2 = x at hcut ⊢
  generalize Reader.pieces? 0 q.2 = y at hcut ⊢
  cases hcut with
  | none => exact .error _ _
  | some hcut => exact .ok ⟨hR.parts (hR.pieces hpq.2 hcut) _ _, hcut.rest⟩

end Respacing

end DialectBridge
