import DialectBridge.Proofs.Reading.InStep
import DialectBridge.Proofs.Reading.Names
import DialectBridge.Proofs.Rename.Renamed

/-!
# Reading renamed tokens

Readers that walk over tokens and over renamed tokens stay in step: both fail, or both succeed with
related results at places that correspond again (`InStep`). The relation is closed under `bind`, so that
each reader is followed part by part.
-/

namespace DialectBridge

namespace Glossary

open Token Reader

variable {g : Glossary}

/-! ## Places and names -/

/-- Corresponding places at which no word goes on. -/
abbrev Fresh (g : Glossary) : List Token → List Token → Prop :=
  g.Renamed false

/-- Corresponding places. -/
def Anywhere (g : Glossary) (ts us : List Token) : Prop :=
  ∃ inside, g.Renamed inside ts us

theorem Fresh.anywhere (ts us : List Token) (h : g.Fresh ts us) : g.Anywhere ts us :=
  ⟨false, h⟩

/-- A known name and what it becomes. -/
def Renames (g : Glossary) (n m : Text) : Prop :=
  g.Knows n ∧ m = g.replace n

/-- Known names and what they become. -/
def RenamesAll (g : Glossary) (ns ms : List Text) : Prop :=
  (∀ n ∈ ns, g.Knows n) ∧ ms = ns.map g.replace

theorem RenamesAll.nil : g.RenamesAll [] [] :=
  ⟨by simp, rfl⟩

theorem Renames.cons {n m : Text} {ns ms : List Text} (h : g.Renames n m) (hs : g.RenamesAll ns ms) :
    g.RenamesAll (n :: ns) (m :: ms) := by
  obtain ⟨hn, rfl⟩ := h
  obtain ⟨hns, rfl⟩ := hs
  exact ⟨List.forall_mem_cons.2 ⟨hn, hns⟩, rfl⟩

/-- The place behind a token other than a number or a sign. -/
theorem Anywhere.behind {t : Token} {ts us : List Token} (h : g.Anywhere (t :: ts) us) (hruns : t.runsOn = false) :
    ∃ joined vs, us = g.respellToken joined t :: vs ∧ g.Fresh ts vs := by
  obtain ⟨inside, h⟩ := h
  cases h with
  | @cons _ _ _ vs _ _ hrest =>
    rw [hruns] at hrest
    exact ⟨_, vs, rfl, hrest⟩

theorem Anywhere.drop {ts us : List Token} (h : g.Anywhere ts us) : g.Anywhere (ts.drop 1) (us.drop 1) := by
  obtain ⟨inside, h⟩ := h
  cases h with
  | nil => exact ⟨inside, .nil _⟩
  | cons _ _ hrest => exact ⟨_, hrest⟩

/-! ## Single tokens -/

theorem runsOn_keyword {t : Token} {k : Keyword} (h : t.kind = .keyword k) : t.runsOn = false := by
  rw [runsOn, h]

theorem runsOn_of_isWord {t : Token} {w : Text} (h : t.isWord w = true) : t.runsOn = false := by
  unfold isWord at h
  unfold runsOn
  split at h <;> simp_all

theorem Anywhere.dropKeyword {k : Keyword} {ts us : List Token} (h : g.Anywhere ts us)
    (hts : Token.atKeyword k ts = true) : g.Fresh (ts.drop 1) (us.drop 1) := by
  obtain ⟨t, rest, rfl, hkind⟩ := atKeyword_cons hts
  obtain ⟨joined, vs, rfl, hrest⟩ := h.behind (runsOn_keyword hkind)
  exact hrest

theorem inStep_eatKeyword (k : Keyword) : InStep g.Fresh Eq g.Fresh (eatKeyword k) (eatKeyword k) := by
  intro ts us h
  have hat := h.atKeyword k
  unfold eatKeyword
  cases hts : Token.atKeyword k ts with
  | false =>
    rw [hts] at hat
    rw [if_neg (by simp), hat, if_neg (by simp)]
    exact .ok ⟨rfl, h⟩
  | true =>
    rw [hts] at hat
    rw [if_pos rfl, hat, if_pos rfl]
    exact .ok ⟨rfl, (Fresh.anywhere _ _ h).dropKeyword hts⟩

theorem inStep_expectKeyword (k : Keyword) :
    InStep g.Anywhere (fun _ _ => True) g.Fresh (expectKeyword k) (expectKeyword k) := by
  intro ts us h
  obtain ⟨inside, hrenamed⟩ := id h
  have hat := hrenamed.atKeyword k
  unfold expectKeyword
  cases hts : Token.atKeyword k ts with
  | false =>
    rw [hts] at hat
    rw [if_neg (by simp), hat, if_neg (by simp)]
    exact .error _ _
  | true =>
    rw [hts] at hat
    rw [if_pos rfl, hat, if_pos rfl]
    exact .ok ⟨trivial, h.dropKeyword hts⟩

/-- A parenthesis is passed on both sides. -/
theorem inStep_expect {kind : TokenKind} (hkind : kind = .leftParen ∨ kind = .rightParen) (expected : Text) :
    InStep g.Anywhere (fun _ _ => True) g.Fresh (expect kind expected) (expect kind expected) := by
  intro ts us h
  obtain ⟨inside, hrenamed⟩ := id h
  have hat := hrenamed.atKind kind
  cases hts : Token.atKind kind ts with
  | false =>
    rw [hts] at hat
    rw [expect, expect, if_neg (by simp [hts]), if_neg (by simp [hat])]
    exact .error _ _
  | true =>
    rw [hts] at hat
    have hstep : expect kind expected ts = .ok ((), ts.drop 1) := if_pos hts
    obtain ⟨t, hcons, ht⟩ := expect_eq_ok hkind hstep
    rw [hstep, expect, if_pos hat]
    rw [hcons] at h
    have hruns : t.runsOn = false := by
      rw [runsOn, ht]
      rcases hkind with rfl | rfl <;> rfl
    obtain ⟨joined, vs, rfl, hrest⟩ := h.behind hruns
    exact .ok ⟨trivial, hrest⟩

theorem runsOn_of_name? {t : Token} {n : Text} (h : t.name? = some n) : t.runsOn = false := by
  unfold name? at h
  unfold runsOn
  split at h <;> simp_all

/-- A name at a place of its own is replaced. -/
theorem Fresh.name? {t : Token} {ts us : List Token} (h : g.Fresh (t :: ts) us) :
    ∃ u vs, us = u :: vs ∧ (t.name? = none ∧ u.name? = none ∨
      ∃ n m, t.name? = some n ∧ u.name? = some m ∧ g.Renames n m ∧ g.Fresh ts vs) := by
  cases h with
  | @cons _ _ _ vs _ name rest =>
    refine ⟨_, vs, rfl, ?_⟩
    cases hn : t.name? with
    | none => exact .inl ⟨rfl, (name?_respellToken_eq_none).2 hn⟩
    | some n =>
      obtain ⟨hknows, hrename⟩ := name rfl n hn
      rw [runsOn_of_name? hn] at rest
      exact .inr ⟨n, _, rfl, hrename, ⟨hknows, rfl⟩, rest⟩

theorem inStep_word (expected : Text) : InStep g.Fresh g.Renames g.Fresh (word expected) (word expected) := by
  intro ts us h
  cases ts with
  | nil =>
    cases h
    exact .error _ _
  | cons t ts =>
    obtain ⟨u, vs, rfl, ⟨ht, hu⟩ | ⟨n, m, ht, hu, hrenames, hrest⟩⟩ := Fresh.name? h
    · simp only [word, ht, hu]
      exact .error _ _
    · simp only [word, ht, hu]
      exact .ok ⟨hrenames, hrest⟩

/-! ## Names -/

/-- The sign stands between names. -/
def separates (kind : TokenKind) : Prop :=
  kind = .dot ∨ kind = .comma

theorem inStep_wordsAfter {separator : TokenKind} (hsep : separates separator) (expected : Text) :
    InStep g.Fresh g.RenamesAll g.Fresh (wordsAfter separator expected) (wordsAfter separator expected) := by
  have hkind {joined : Bool} {t : Token} : ((g.respellToken joined t).kind == separator) = (t.kind == separator) := by
    rw [Bool.eq_iff_iff, beq_iff_eq, beq_iff_eq]
    rcases hsep with rfl | rfl <;> exact kind_respellToken_iff nofun nofun
  have hruns {t : Token} (ht : (t.kind == separator) = true) : t.runsOn = false := by
    rw [runsOn, beq_iff_eq.1 ht]
    rcases hsep with rfl | rfl <;> rfl
  -- behind the sign both sides are at a name
  have hpass {t : Token} {ts us : List Token} (h : g.Fresh (t :: ts) us) (ht : (t.kind == separator) = true) :
      ∃ u vs, us = u :: vs ∧ (u.kind == separator) = true ∧ g.Fresh ts vs := by
    obtain ⟨joined, vs, rfl, hrest⟩ := (Fresh.anywhere _ _ h).behind (hruns ht)
    exact ⟨_, vs, rfl, hkind.trans ht, hrest⟩
  -- where no sign follows both sides stop
  have hstop {t : Token} {ts us : List Token} (h : g.Fresh (t :: ts) us) (ht : ¬(t.kind == separator) = true) :
      Together (fun p q => g.RenamesAll p.1 q.1 ∧ g.Fresh p.2 q.2) (.ok ([], t :: ts))
        (wordsAfter separator expected us) := by
    have hresult : wordsAfter separator expected us = .ok ([], us) := by
      cases h with
      | @cons _ _ _ vs _ _ _ =>
        have hu : ¬((g.respellToken (t.isJoined false) t).kind == separator) = true := by rwa [hkind]
        cases vs <;> rw [wordsAfter, if_neg hu]
    rw [hresult]
    exact .ok ⟨.nil, h⟩
  intro ts us h
  fun_induction wordsAfter separator expected ts generalizing us with
  | case1 t u ts ht hname =>
    obtain ⟨t', vs, rfl, ht', hrest⟩ := hpass h ht
    obtain ⟨u', ws, rfl, ⟨-, hu⟩ | ⟨n, m, hn, -⟩⟩ := Fresh.name? hrest
    · rw [wordsAfter, if_pos ht', hu]
      exact .error _ _
    · rw [hname] at hn
      cases hn
  | case2 t u ts ht part hname ih =>
    obtain ⟨t', vs, rfl, ht', hrest⟩ := hpass h ht
    obtain ⟨u', ws, rfl, ⟨hn, -⟩ | ⟨n, m, hn, hm, hrenames, hfresh⟩⟩ := Fresh.name? hrest
    · rw [hname] at hn
      cases hn
    · obtain rfl : part = n := by simpa [hname] using hn
      rw [wordsAfter, if_pos ht', hm]
      exact (ih hfresh).bind fun p q hpq => .ok ⟨hrenames.cons hpq.1, hpq.2⟩
  | case3 t u ts ht => exact hstop h ht
  | case4 t ht =>
    obtain ⟨t', vs, rfl, ht', hrest⟩ := hpass h ht
    cases hrest
    rw [wordsAfter, if_pos ht']
    exact .error _ _
  | case5 t ht => exact hstop h ht
  | case6 =>
    cases h
    exact .ok ⟨.nil, .nil _⟩

theorem inStep_name (hg : g.KeepsApart) (expected : Text) :
    InStep g.Fresh g.Renames g.Fresh (name expected) (name expected) := by
  have hparts : InStep g.Fresh g.RenamesAll g.Fresh (nameParts expected) (nameParts expected) :=
    (inStep_word expected).bind fun _ _ hnm => (inStep_wordsAfter (.inl rfl) expected).bind fun _ _ hs =>
      .pure (hnm.cons hs)
  refine hparts.bind fun ns ms ⟨hknows, hms⟩ => .pure ?_
  obtain ⟨hjoin, hjoined⟩ := replace_joinWith hg.toListsNames hknows
  rw [hms, ← hjoin]
  exact ⟨hjoined, rfl⟩

theorem inStep_nameList : InStep g.Anywhere g.RenamesAll g.Fresh nameList nameList :=
  (inStep_expect (.inl rfl) _).bind fun _ _ _ => (inStep_word _).bind fun _ _ hnm =>
    (inStep_wordsAfter (.inr rfl) _).bind fun _ _ hs =>
      ((inStep_expect (.inr rfl) _).start Fresh.anywhere).bind fun _ _ _ => .pure (hnm.cons hs)

/-! ## Groups -/

theorem afterGroup?_renamed {inside : Bool} {ts us : List Token} (h : g.Renamed inside ts us) (depth : Nat) :
    Option.Rel g.Fresh (afterGroup? depth ts) (afterGroup? depth us) := by
  fun_induction afterGroup? depth ts generalizing inside us with
  | case1 =>
    cases h
    exact .none
  | case2 depth t ts hkind ih =>
    obtain ⟨joined, vs, rfl, hrest⟩ := Anywhere.behind ⟨_, h⟩ (by rw [runsOn, hkind])
    rw [respellToken_of_isPlain (by rw [hkind]; rfl), afterGroup?_open hkind]
    exact ih hrest
  | case3 t ts hkind =>
    obtain ⟨joined, vs, rfl, hrest⟩ := Anywhere.behind ⟨_, h⟩ (by rw [runsOn, hkind])
    rw [respellToken_of_isPlain (by rw [hkind]; rfl), afterGroup?_last hkind]
    exact .some hrest
  | case4 t ts hkind depth ih =>
    obtain ⟨joined, vs, rfl, hrest⟩ := Anywhere.behind ⟨_, h⟩ (by rw [runsOn, hkind])
    rw [respellToken_of_isPlain (by rw [hkind]; rfl), afterGroup?_close hkind]
    exact ih hrest
  | case5 depth t ts hkind =>
    obtain ⟨joined, vs, rfl, hrest⟩ := Anywhere.behind ⟨_, h⟩ (by rw [runsOn, hkind])
    rw [respellToken_of_isPlain (by rw [hkind]; rfl), afterGroup?_end hkind]
    exact .none
  | case6 depth t ts hleft hright heof ih =>
    cases h with
    | cons _ _ hrest =>
      rw [afterGroup?_cons_other (mt (kind_respellToken_iff (by simp) (by simp)).1 hleft)
        (mt (kind_respellToken_iff (by simp) (by simp)).1 hright)
        (mt (kind_respellToken_iff (by simp) (by simp)).1 heof)]
      exact ih hrest

/-- A group opens on both sides, and it ends on both or on none. -/
theorem Anywhere.group {t : Token} {ts us : List Token} (h : g.Anywhere (t :: ts) us) (ht : t.kind = .leftParen) :
    ∃ vs, us = t :: vs ∧ Option.Rel g.Fresh (afterGroup? 0 ts) (afterGroup? 0 vs) := by
  obtain ⟨joined, vs, rfl, hrest⟩ := h.behind (by rw [runsOn, ht])
  rw [respellToken_of_isPlain (by rw [ht]; rfl)]
  exact ⟨vs, rfl, afterGroup?_renamed hrest 0⟩

/-- The tokens of pieces are renamed; the first piece stands behind a word or not. -/
inductive RenamedPieces (g : Glossary) : Bool → List Piece → List Piece → Prop where
  | nil (inside : Bool) : RenamedPieces g inside [] []
  | cons {inside : Bool} {p q : Piece} {ps qs : List Piece} (tokens : g.Renamed inside p.tokens q.tokens)
      (rest : RenamedPieces g false ps qs) : RenamedPieces g inside (p :: ps) (q :: qs)

theorem RenamedPieces.push {inside : Bool} {t u : Token} {ts us : List Token} {ps qs : List Piece}
    (h : g.Renamed inside (t :: ts) (u :: us)) (hps : g.RenamedPieces t.runsOn ps qs) :
    g.RenamedPieces inside (Piece.push t ps) (Piece.push u qs) := by
  cases hps with
  | nil => exact .nil _
  | cons htokens hrest =>
    cases h with
    | cons ascii name _ => exact .cons (.cons ascii name htokens) hrest

/-- Pieces of a group and the places behind it. -/
def PiecesRest (g : Glossary) (inside : Bool) (p q : List Piece × List Token) : Prop :=
  g.RenamedPieces inside p.1 q.1 ∧ g.Fresh p.2 q.2

theorem pieces?_renamed {inside : Bool} {ts us : List Token} (h : g.Renamed inside ts us) (depth : Nat) :
    Option.Rel (g.PiecesRest inside) (pieces? depth ts) (pieces? depth us) := by
  -- a token in front goes into the first piece
  have hpush {t u : Token} {ts us : List Token} {inside : Bool} {x y : Option (List Piece × List Token)}
      (h : g.Renamed inside (t :: ts) (u :: us)) (hxy : Option.Rel (g.PiecesRest t.runsOn) x y) :
      Option.Rel (g.PiecesRest inside) (x.map fun p => (Piece.push t p.1, p.2))
        (y.map fun p => (Piece.push u p.1, p.2)) := by
    cases hxy with
    | none => exact .none
    | some hpq => exact .some ⟨hpq.1.push h, hpq.2⟩
  fun_induction pieces? depth ts generalizing inside us with
  | case1 =>
    cases h
    exact .none
  | case2 depth t ts hkind ih =>
    have hruns : t.runsOn = false := by rw [runsOn, hkind]
    obtain ⟨joined, vs, rfl, hrest⟩ := Anywhere.behind ⟨_, h⟩ hruns
    rw [respellToken_of_isPlain (by rw [hkind]; rfl)] at h ⊢
    rw [pieces?_open hkind]
    exact hpush h (hruns.symm ▸ ih hrest)
  | case3 t ts hkind =>
    obtain ⟨joined, vs, rfl, hrest⟩ := Anywhere.behind ⟨_, h⟩ (by rw [runsOn, hkind])
    rw [respellToken_of_isPlain (by rw [hkind]; rfl), pieces?_last hkind]
    exact .some ⟨.cons (.nil _) (.nil _), hrest⟩
  | case4 t ts depth hkind ih =>
    have hruns : t.runsOn = false := by rw [runsOn, hkind]
    obtain ⟨joined, vs, rfl, hrest⟩ := Anywhere.behind ⟨_, h⟩ hruns
    rw [respellToken_of_isPlain (by rw [hkind]; rfl)] at h ⊢
    rw [pieces?_close hkind]
    exact hpush h (hruns.symm ▸ ih hrest)
  | case5 t ts hkind ih =>
    obtain ⟨joined, vs, rfl, hrest⟩ := Anywhere.behind ⟨_, h⟩ (by rw [runsOn, hkind])
    rw [respellToken_of_isPlain (by rw [hkind]; rfl), pieces?_comma hkind]
    have hpieces := ih hrest
    generalize pieces? 0 ts = x at hpieces ⊢
    generalize pieces? 0 vs = y at hpieces ⊢
    cases hpieces with
    | none => exact .none
    | some hpq => exact .some ⟨.cons (.nil _) hpq.1, hpq.2⟩
  | case6 depth t ts hkind =>
    obtain ⟨joined, vs, rfl, hrest⟩ := Anywhere.behind ⟨_, h⟩ (by rw [runsOn, hkind])
    rw [respellToken_of_isPlain (by rw [hkind]; rfl), pieces?_end hkind]
    exact .none
  | case7 depth t ts hleft heof hlast hclose hcomma ih =>
    have hright : t.kind ≠ .rightParen := fun hkind => by
      cases depth with
      | zero => exact hlast hkind rfl
      | succ depth => exact hclose depth hkind rfl
    cases h with
    | @cons _ _ _ us ascii name hrest =>
      rw [pieces?_other (mt (kind_respellToken_iff (by simp) (by simp)).1 hleft)
        (mt (kind_respellToken_iff (by simp) (by simp)).1 hright)
        (fun hkind => hcomma ((kind_respellToken_iff (by simp) (by simp)).1 hkind))
        (mt (kind_respellToken_iff (by simp) (by simp)).1 heof)]
      exact hpush (.cons ascii name hrest) (ih hrest)

theorem inStep_skipGroup : InStep g.Anywhere (fun _ _ => True) g.Fresh skipGroup skipGroup := by
  intro ts us h
  rw [skipGroup_eq, skipGroup_eq]
  refine (inStep_expect (.inl rfl) _ h).bind fun p q hpq => ?_
  have hrest := afterGroup?_renamed hpq.2 0
  generalize afterGroup? 0 p.2 = x at hrest ⊢
  generalize afterGroup? 0 q.2 = y at hrest ⊢
  cases hrest with
  | none => exact .error _ _
  | some hrest => exact .ok ⟨trivial, hrest⟩

/-- The parts of a group hold renamed tokens. -/
def PartsRenamed (g : Glossary) (parts parts' : List Part) : Prop :=
  List.Forall₂ g.Fresh (parts.map Part.tokens) (parts'.map Part.tokens)

theorem RenamedPieces.parts {ps qs : List Piece} (h : g.RenamedPieces false ps qs) (place place' : List Token) :
    g.PartsRenamed (partsFrom place ps) (partsFrom place' qs) := by
  rw [PartsRenamed, tokens_partsFrom, tokens_partsFrom]
  generalize hinside : false = inside at h
  induction h with
  | nil => exact .nil
  | @cons inside p q ps qs htokens _ ih =>
    subst hinside
    have hempty : q.tokens.isEmpty = p.tokens.isEmpty := by
      rw [Bool.eq_iff_iff, List.isEmpty_iff_length_eq_zero, List.isEmpty_iff_length_eq_zero, htokens.length_eq]
    rw [List.map_cons, List.map_cons, List.filter_cons, List.filter_cons, hempty]
    split
    · exact .cons htokens (ih rfl)
    · exact ih rfl

theorem inStep_splitGroup : InStep g.Anywhere g.PartsRenamed g.Fresh splitGroup splitGroup := by
  intro ts us h
  rw [splitGroup_eq, splitGroup_eq]
  refine (inStep_expect (.inl rfl) _ h).bind fun p q hpq => ?_
  have hpieces := pieces?_renamed hpq.2 0
  generalize pieces? 0 p.2 = x at hpieces ⊢
  generalize pieces? 0 q.2 = y at hpieces ⊢
  cases hpieces with
  | none => exact .error _ _
  | some hpieces => exact .ok ⟨hpieces.1.parts _ _, hpieces.2⟩

end Glossary

end DialectBridge
