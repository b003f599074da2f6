import DialectBridge.Proofs.Reading.Group
import Mathlib.Data.List.Forall2

/-!
# Readings in step

Two readers stay in step if both fail, or both succeed with related results at places that correspond
(`InStep`). The relation is closed under `bind`, so that two runs are followed reader by reader.
-/

namespace DialectBridge

/-! ## Outcomes -/

/-- Two readings fail together, or succeed with related results. -/
inductive Together {ε α β : Type} (T : α → β → Prop) : Except ε α → Except ε β → Prop where
  | ok {a : α} {b : β} (related : T a b) : Together T (.ok a) (.ok b)
  | error (e f : ε) : Together T (.error e) (.error f)

theorem Together.mono {ε α β : Type} {T U : α → β → Prop} {x : Except ε α} {y : Except ε β} (h : Together T x y)
    (hTU : ∀ a b, T a b → U a b) : Together U x y := by
  cases h with
  | ok related => exact .ok (hTU _ _ related)
  | error e f => exact .error e f

theorem Together.bind {ε α β γ δ : Type} {T : α → β → Prop} {U : γ → δ → Prop} {x : Except ε α} {y : Except ε β}
    {f : α → Except ε γ} {f' : β → Except ε δ} (h : Together T x y) (hf : ∀ a b, T a b → Together U (f a) (f' b)) :
    Together U (x >>= f) (y >>= f') := by
  cases h with
  | ok related => exact hf _ _ related
  | error e f => exact .error e f

theorem Together.toOption {ε α β : Type} {T : α → β → Prop} {x : Except ε α} {y : Except ε β} (h : Together T x y) :
    Option.Rel T x.toOption y.toOption := by
  cases h with
  | ok related => exact .some related
  | error e f => exact .none

theorem exists_of_bind_eq_ok {ε α β : Type} {x : Except ε α} {f : α → Except ε β} {b : β} (h : x >>= f = .ok b) :
    ∃ a, x = .ok a ∧ f a = .ok b := by
  cases x with
  | error e => cases h
  | ok a => exact ⟨a, rfl, h⟩

namespace Token

theorem atKeyword_cons {k : Keyword} {ts : List Token} (h : atKeyword k ts = true) :
    ∃ t rest, ts = t :: rest ∧ t.kind = .keyword k := by
  cases ts with
  | nil => simp [atKeyword, headKind] at h
  | cons t rest => exact ⟨t, rest, rfl, by simpa [atKeyword, headKind] using h⟩

theorem keyword?_eq_some {t : Token} {k : Keyword} : t.keyword? = some k ↔ t.kind = .keyword k := by
  unfold keyword?
  split <;> simp_all

end Token

/-! ## Readers -/

namespace Reader

open Token

variable {α β γ δ : Type} {P Q R : List Token → List Token → Prop} {T : α → β → Prop} {U : γ → δ → Prop}

/-- From places that are related by `P`, the readers fail together or get to places that are related by
`Q`, with results that are related by `T`. -/
def InStep (P : List Token → List Token → Prop) (T : α → β → Prop) (Q : List Token → List Token → Prop)
    (r : Reader α) (s : Reader β) : Prop :=
  ∀ ⦃ts us⦄, P ts us → Together (fun p q => T p.1 q.1 ∧ Q p.2 q.2) (r ts) (s us)

theorem InStep.pure {a : α} {b : β} (h : T a b) : InStep P T P (pure a) (pure b) :=
  fun _ _ hP => .ok ⟨h, hP⟩

theorem InStep.fail (expected : Text) : InStep P T Q (fail expected) (fail expected) :=
  fun _ _ _ => .error _ _

theorem InStep.bind {r : Reader α} {s : Reader β} {f : α → Reader γ} {f' : β → Reader δ} (hr : InStep P T Q r s)
    (hf : ∀ a b, T a b → InStep Q U R (f a) (f' b)) : InStep P U R (r >>= f) (s >>= f') :=
  fun _ _ hP => (hr hP).bind fun p q h => hf p.1 q.1 h.1 h.2

theorem InStep.map {r : Reader α} {s : Reader β} {f : α → γ} {f' : β → δ} (hr : InStep P T Q r s)
    (hf : ∀ a b, T a b → U (f a) (f' b)) : InStep P U Q (f <$> r) (f' <$> s) :=
  fun _ _ hP => (hr hP).bind fun p q h => .ok ⟨hf p.1 q.1 h.1, h.2⟩

/-- Both sides see the same and go on in the same way. -/
theorem InStep.look_bind {f : List Token → α} {r : α → Reader γ} {s : α → Reader δ}
    (hf : ∀ ts us, P ts us → f us = f ts)
    (h : ∀ a, InStep (fun ts us => P ts us ∧ f ts = a) U R (r a) (s a)) :
    InStep P U R (look f >>= r) (look f >>= s) := by
  intro ts us hP
  show Together _ (r (f ts) ts) (s (f us) us)
  rw [hf ts us hP]
  exact h _ ⟨hP, rfl⟩

theorem InStep.start {P' : List Token → List Token → Prop} {r : Reader α} {s : Reader β} (hr : InStep P T Q r s)
    (hP : ∀ ts us, P' ts us → P ts us) : InStep P' T Q r s :=
  fun ts us h => hr (hP ts us h)

theorem InStep.finish {Q' : List Token → List Token → Prop} {r : Reader α} {s : Reader β} (hr : InStep P T Q r s)
    (hQ : ∀ ts us, Q ts us → Q' ts us) : InStep P T Q' r s :=
  fun _ _ h => (hr h).mono fun _ _ hpq => ⟨hpq.1, hQ _ _ hpq.2⟩

/-- Related places of which the first one satisfies `S`. -/
def Along (S : List Token → Prop) (P : List Token → List Token → Prop) (ts us : List Token) : Prop :=
  P ts us ∧ S ts

/-- What the results of the first reader satisfy is known of the results of both. -/
theorem InStep.also {A : α → Prop} {B : List Token → Prop} {r : Reader α} {s : Reader β} (hr : InStep P T Q r s)
    (h : ∀ ⦃ts us a rest⦄, P ts us → r ts = .ok (a, rest) → A a ∧ B rest) :
    InStep P (fun a b => T a b ∧ A a) (Along B Q) r s := by
  intro ts us hP
  have htogether := hr hP
  cases hrun : r ts with
  | error e =>
    rw [hrun] at htogether
    generalize s us = y at htogether ⊢
    cases htogether
    exact .error _ _
  | ok p =>
    rw [hrun] at htogether
    generalize s us = y at htogether ⊢
    cases htogether with
    | ok related =>
      obtain ⟨hA, hB⟩ := h hP hrun
      exact .ok ⟨⟨related.1, hA⟩, related.2, hB⟩

section Along

variable {S : List Token → Prop} (hS : ∀ ⦃ts us⦄, S ts → us <:+ ts → S us)
include hS

/-- What holds of all ends of a place stays true. -/
theorem InStep.keep {r : Reader α} {s : Reader β} (hr : InStep (Along S P) T Q r s) (hleaves : LeavesSuffix r) :
    InStep (Along S P) T (Along S Q) r s := by
  have halso := hr.also (A := fun _ => True) fun _ _ _ _ hP hrun => ⟨trivial, hS hP.2 (hleaves hrun)⟩
  exact fun _ _ hP => (halso hP).mono fun _ _ h => ⟨h.1.1, h.2⟩

theorem InStep.along {r : Reader α} {s : Reader β} (hr : InStep P T Q r s) (hleaves : LeavesSuffix r) :
    InStep (Along S P) T (Along S Q) r s :=
  (hr.start fun _ _ h => h.1).keep hS hleaves

end Along

/-! ## Groups -/

theorem skipGroup_eq (ts : List Token) : skipGroup ts = (expect .leftParen "'('" ts >>= fun p =>
    match afterGroup? 0 p.2 with
    | some rest => .ok (taken ts rest, rest)
    | none => .error (unclosed ts)) := by
  unfold skipGroup
  cases expect .leftParen "'('" ts <;> rfl

theorem splitGroup_eq (ts : List Token) : splitGroup ts = (expect .leftParen "'('" ts >>= fun p =>
    match pieces? 0 p.2 with
    | some (pieces, rest) => .ok (partsFrom p.2 pieces, rest)
    | none => .error (unclosed ts)) := by
  unfold splitGroup
  cases expect .leftParen "'('" ts <;> rfl

/-- The place stands behind a parenthesis of the statement. -/
def BehindGroup (whole rest : List Token) : Prop :=
  ∃ us c, whole = us ++ c :: rest ∧ c.kind = .rightParen

theorem BehindGroup.chain {whole rest : List Token} (h : BehindGroup whole rest) {create : Token} {script : Text}
    (hscript : create :: whole <:+ scan script) :
    Chain (create :: taken whole rest) := by
  obtain ⟨us, c, rfl, hc⟩ := h
  have htaken : taken (us ++ c :: rest) rest = us ++ [c] := by
    rw [← List.singleton_append, ← List.append_assoc, taken_append]
  rw [← List.cons_append] at hscript
  rw [htaken, ← List.cons_append]
  exact .of_scan_through hscript (by simp [hc]) (by simp [hc])

end Reader

end DialectBridge
