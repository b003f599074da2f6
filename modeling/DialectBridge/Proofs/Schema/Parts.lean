import DialectBridge.Proofs.Reading.InStep
import DialectBridge.Proofs.Schema.Statements

/-!
# Definitions part by part

The readers of columns and declarations as one part after another, and the lists that they build side by
side.
-/

namespace DialectBridge

open Token Reader

/-! ## Readers part by part -/

namespace ColumnDefinition

theorem dataType_eq (ts : List Token) : dataType ts =
    if startsType ts then word "data type" ts >>= fun p => afterType (typeContinuations p.1.upper) p.2 >>= fun next =>
      .ok (verbatim (taken ts next), next)
    else .error (.unexpected "data type" ts) := by
  unfold dataType
  cases word "data type" ts <;> rfl

theorem leavesSuffix_dataType : LeavesSuffix dataType := by
  intro ts type rest h
  rw [dataType_eq] at h
  split at h
  · obtain ⟨base, hword, h⟩ := exists_of_bind_eq_ok h
    obtain ⟨next, hafter, h⟩ := exists_of_bind_eq_ok h
    cases h
    exact (afterType_suffix hafter).trans (leavesSuffix_word _ hword)
  · cases h

theorem afterItem_eq (ts : List Token) : afterItem ts =
    if atKind .leftParen ts then skipGroup ts >>= fun p => .ok p.2 else .ok (ts.drop 1) :=
  rfl

theorem defaultValue_def (ts : List Token) : defaultValue ts =
    if atEnd ts then .error (.unexpected "default value" ts)
    else afterItem ts >>= fun item => afterAdjacent item >>= fun next => .ok (verbatim (taken ts next), next) :=
  rfl

theorem leavesSuffix_attributeStep (d : Draft) : LeavesSuffix (attributeStep d) := by
  intro ts e rest h
  cases ts with
  | nil =>
    cases h
    exact List.suffix_refl _
  | cons t ts => exact (attributeStep_suffix h).trans (List.suffix_cons t ts)

theorem attributes_eq (d : Draft) (ts : List Token) : attributes d ts =
    if atEnd ts then .ok d else attributeStep d ts >>= fun p => attributes p.1 p.2 := by
  rw [attributes]
  cases hend : atEnd ts with
  | true => rfl
  | false =>
    rw [dif_neg (by simp), if_neg (by simp)]
    split
    · next hstep => rw [hstep]; rfl
    · next hstep => rw [hstep]; rfl

theorem read_eq (ts : List Token) : read ts = word "column name" ts >>= fun p => dataType p.2 >>= fun q =>
    attributes ⟨.plain p.1 q.1, none⟩ q.2 :=
  rfl

end ColumnDefinition

namespace Fragment

theorem declarationOf?_eq (ts : List Token) : declarationOf? ts =
    (if isConstraint ts then Constraint.read ts >>= fun p => .ok (.constraint p.1)
      else ColumnDefinition.read ts >>= fun d => .ok (.column d) : Except ReadError Declaration).toOption :=
  rfl

end Fragment

/-! ## Lists side by side -/

section Lists

variable {α β γ δ : Type} {R : α → β → Prop} {T : γ → δ → Prop} {as : List α} {bs : List β}

theorem rel_head? (h : List.Forall₂ R as bs) : Option.Rel R as.head? bs.head? := by
  cases h with
  | nil => exact .none
  | cons hab _ => exact .some hab

theorem rel_find? {p : α → Bool} {q : β → Bool} (hpq : ∀ a b, R a b → q b = p a) (h : List.Forall₂ R as bs) :
    Option.Rel R (as.find? p) (bs.find? q) := by
  have hsame : ∀ ⦃a b⦄, R a b → (p a = true ↔ q b = true) := fun a b hab => by rw [hpq a b hab]
  rw [← List.head?_filter, ← List.head?_filter]
  exact rel_head? (List.rel_filter hsame h)

theorem rel_findSome? {f : α → Option γ} {f' : β → Option δ} (hf : ∀ ⦃a b⦄, R a b → Option.Rel T (f a) (f' b))
    (h : List.Forall₂ R as bs) : Option.Rel T (as.findSome? f) (bs.findSome? f') := by
  rw [← List.head?_filterMap, ← List.head?_filterMap]
  exact rel_head? (List.rel_filterMap hf h)

theorem eq_map_of_forall₂ {f : α → β} (hR : ∀ a b, R a b → b = f a) (h : List.Forall₂ R as bs) : bs = as.map f := by
  have heq : List.Forall₂ (· = ·) (as.map f) bs :=
    List.forall₂_map_left_iff.2 (h.imp fun a b hab => (hR a b hab).symm)
  rw [List.forall₂_eq_eq_eq] at heq
  exact heq.symm

theorem map_eq_of_forall₂ {f : α → γ} {f' : β → γ} (hf : ∀ a b, R a b → f' b = f a) (h : List.Forall₂ R as bs) :
    bs.map f' = as.map f := by
  induction h with
  | nil => rfl
  | cons hab _ ih => rw [List.map_cons, List.map_cons, hf _ _ hab, ih]

theorem rel_modifyFirst {p : α → Bool} {q : β → Bool} {change : α → α} {change' : β → β}
    (hpq : ∀ a b, R a b → q b = p a) (hchange : ∀ a b, R a b → R (change a) (change' b))
    (h : List.Forall₂ R as bs) : List.Forall₂ R (Table.modifyFirst p change as) (Table.modifyFirst q change' bs) := by
  induction h with
  | nil => exact .nil
  | cons hab hrest ih =>
    rw [Table.modifyFirst, Table.modifyFirst, hpq _ _ hab]
    split
    · exact .cons (hchange _ _ hab) hrest
    · exact .cons hab ih

end Lists

end DialectBridge
