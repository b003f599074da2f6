import Mathlib.Data.List.Chain
import Mathlib.Data.List.Infix
import DialectBridge.Proofs.Layout.Scan
import DialectBridge.Proofs.Spacing.Trim

/-!
# The tables of a tidied script

A tidied script declares the same tables, and what is kept as written of them is tidied (`tables_tidy`),
as long as no quotation in a group comes loose: behind a semicolon, the blanks and tabs in front of it
vanish, and a default value goes on where no gap ends it.
-/

namespace DialectBridge

open Reader

namespace Token

/-- No quotation stands loose behind a semicolon. -/
def HoldsTogether (ts : List Token) : Prop :=
  ts.IsChain fun t u => t.kind = .semicolon → u.isLoose = false

instance (ts : List Token) : Decidable (HoldsTogether ts) :=
  inferInstanceAs (Decidable (ts.IsChain fun t u => t.kind = .semicolon → u.isLoose = false))

/-- In the parts of the groups of a script, no quotation stands loose behind a semicolon. -/
def GroupsHold (ts : List Token) : Prop :=
  ∀ place ∈ ts.tails, ∀ split ∈ (splitGroup place).toOption, ∀ part ∈ split.1, HoldsTogether part.tokens

instance (ts : List Token) : Decidable (GroupsHold ts) :=
  inferInstanceAs (Decidable (∀ place ∈ ts.tails, ∀ split ∈ (splitGroup place).toOption, ∀ part ∈ split.1,
    HoldsTogether part.tokens))

theorem HoldsTogether.tail {t : Token} {ts : List Token} (h : HoldsTogether (t :: ts)) : HoldsTogether ts :=
  List.IsChain.tail h

theorem HoldsTogether.front {ts' ts : List Token} (h : HoldsTogether ts) (hts : ts' <+: ts) : HoldsTogether ts' :=
  List.IsChain.prefix h hts

theorem GroupsHold.part {ts place rest : List Token} {parts : List Part} (h : GroupsHold ts) (hplace : place <:+ ts)
    (hsplit : splitGroup place = .ok (parts, rest)) : ∀ part ∈ parts, HoldsTogether part.tokens :=
  h place ((List.mem_tails _ _).2 hplace) (parts, rest) (by rw [hsplit]; rfl)

end Token

namespace Layout

open Scan Token

theorem Tidied.textOf {behind : Bool} {ts us : List Token} (h : Tidied behind ts us) :
    Token.textOf us = tidyTokens behind ts := by
  induction h with
  | nil => rfl
  | cons _ _ text _ ih => rw [textOf_cons, text, ih, tidyTokens]

theorem Tidied.take {behind : Bool} {ts us : List Token} (h : Tidied behind ts us) (n : Nat) :
    Tidied behind (ts.take n) (us.take n) := by
  induction h generalizing n with
  | nil => simpa using Tidied.nil _
  | cons agree gap text _ ih =>
    cases n with
    | zero => exact .nil _
    | succ n => exact .cons agree gap text (ih n)

/-- The end of a script adds nothing to the tokens in front of it. -/
theorem tidyTokens_append_eof (behind : Bool) (ts : List Token) :
    tidyTokens behind (ts ++ [⟨[], .eof, []⟩]) = tidyTokens behind ts := by
  induction ts generalizing behind with
  | nil => rfl
  | cons t ts ih => rw [List.cons_append, tidyTokens, ih, tidyTokens]

/-- The tokens `us` are the tidied tokens `ts`. -/
def IsTidied (ts us : List Token) : Prop :=
  ∃ behind, Tidied behind ts us

/-- What is written down of tidied tokens is what tidying makes of what was written down. -/
theorem respacing_tidied : Respacing IsTidied fun s t => t = changeCode tidyCode s where
  agree _ _ := fun ⟨_, h⟩ => h.agree
  tail _ _ _ _ := by
    rintro ⟨behind, h⟩
    cases h with
    | cons _ _ _ hrest => exact ⟨_, hrest⟩
  front ts us ts' us' := by
    rintro ⟨behind, h⟩ hts hus hlen
    refine ⟨behind, ?_⟩
    have htake := h.take ts'.length
    rwa [← List.prefix_iff_eq_take.1 hts, hlen, ← List.prefix_iff_eq_take.1 hus] at htake
  verbatim ts us := by
    rintro ⟨behind, h⟩ hchain
    rw [changeCode_tidyCode, scan_verbatim hchain, tidyTokens_append_eof]
    cases h with
    | nil => rfl
    | @cons _ t u ts us agree _ text rest =>
      have hclosed := (hchain.closed t List.mem_cons_self).2
      have hbare : tidyToken false { t with gap := [] } = t.lexeme := tidyLexeme_of_closed hclosed
      show u.lexeme ++ Token.textOf us = tidyToken false { t with gap := [] } ++ tidyTokens (t.kind == .semicolon) ts
      rw [hbare, agree.lexeme hclosed, rest.textOf]

/-- Where no quotation comes loose, no gap vanishes. -/
theorem tight_tidied : TightRespacing (Along HoldsTogether IsTidied) fun s t => t = changeCode tidyCode s where
  toRespacing := respacing_tidied.along (fun _ _ => HoldsTogether.tail) fun _ _ => HoldsTogether.front
  gap _ _ _ _ _ _ := by
    rintro ⟨⟨behind, h⟩, hholds⟩
    cases h with
    | cons _ _ _ hrest =>
      cases hrest with
      | cons _ gap _ _ =>
        exact gap fun hkind => (List.isChain_cons_cons.1 hholds).1 (beq_iff_eq.1 hkind)

theorem splitsInto_tidied {script : Text} (h : GroupsHold (scan script)) :
    SplitsInto script IsTidied (Along HoldsTogether IsTidied) := by
  have hparts := (respacing_tidied.splitsInto script).also (A := fun parts => ∀ part ∈ parts, HoldsTogether part.tokens)
    (B := fun _ => True) fun ts us parts rest hplace hrun => ⟨h.part hplace.2 hrun, trivial⟩
  -- that the parts hold together is known of the first run only, which is enough
  refine fun ts us hplace => (hparts hplace).mono fun p q hpq => ⟨?_, hpq.2.1⟩
  have hholds : ∀ ts ∈ p.1.map Part.tokens, HoldsTogether ts := List.forall_mem_map.2 hpq.1.2
  exact ((List.forall₂_and_left _ _).2 ⟨hholds, hpq.1.1⟩).imp fun _ _ hpart => hpart.symm

/-- A tidied script declares the same tables, with tidied types and default values, if in its groups no
semicolon has nothing but blanks and tabs between itself and a literal or a quoted name. -/
theorem tables_tidy {script : Text} (hholds : GroupsHold (scan script)) (dialect : Dialect) :
    List.Forall₂ (Table.ReadsAlike fun s t => t = changeCode tidyCode s) (Script.tables dialect script)
      (Script.tables dialect (tidy script)) := by
  have hscan := tidied_scan script false
  rw [← changeCode_tidyCode] at hscan
  rw [tidy, tables_trim]
  exact respacing_tidied.tablesOf tight_tidied (splitsInto_tidied hholds) dialect ⟨false, hscan⟩

end Layout

end DialectBridge
