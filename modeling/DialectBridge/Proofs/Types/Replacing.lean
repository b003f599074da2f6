import DialectBridge.Proofs.Types.Template

/-!
# Replacing in a masked text

A matcher respects the parts of a masked text if what it takes is made of whole parts. Then replacing
its matches leaves a masked text, and the placeholders that get lost are those that some match drops.
-/

namespace DialectBridge

namespace Masked

variable {α : Type} {matcher : Matcher α}

/-- What the matcher takes of a masked text is made of whole parts, and it never starts in a
placeholder. -/
structure Respects (matcher : Matcher α) : Prop where
  nil (before : Text) : matcher before [] = none
  start {before after : Text} {c : Char} {found : Text × α} :
    matcher before (c :: after) = some found → c ≠ mark ∧ c.isDigit = false
  parts {before : Text} {ps : List Part} {taken : Text} {value : α} :
    Sound ps → matcher before (render ps) = some (taken, value) →
      taken ≠ [] ∧ ∃ qs rs, ps = qs ++ rs ∧ taken = render qs

/-- The match is replaced by whole parts; its placeholders stay but for those that it drops. -/
def Replaces (write : Match α → Text) (dropped : Match α → List Nat) (m : Match α) (qs : List Part) :
    Prop :=
  dropped m ⊆ numbers qs ∧
    ∃ ws, Sound ws ∧ write m = render ws ∧ numbers ws = (numbers qs).filter (· ∉ dropped m)

/-- What one piece of a cut text is replaced by. -/
def writeCut (write : Match α → Text) : Cut α → Text
  | .copied c => [c]
  | .found m => write m

theorem filter_append_disjoint {as bs das dbs : List Nat} (h : (as ++ bs).Nodup) (ha : das ⊆ as)
    (hb : dbs ⊆ bs) :
    (as ++ bs).filter (· ∉ das ++ dbs) = as.filter (· ∉ das) ++ bs.filter (· ∉ dbs) := by
  rw [List.nodup_append] at h
  rw [List.filter_append]
  congr 1
  · refine List.filter_congr fun n hn => ?_
    have : n ∉ dbs := fun hd => h.2.2 n hn n (hb hd) rfl
    simp [this]
  · refine List.filter_congr fun n hn => ?_
    have : n ∉ das := fun hd => h.2.2 n (ha hd) n hn rfl
    simp [this]

/-- Pieces of a cut text are written as whole parts; the placeholders stay but for the dropped ones. -/
def Writes (write : Match α → Text) (dropped : Match α → List Nat) (pieces : List (Cut α))
    (ps : List Part) : Prop :=
  let lost := (pieces.filterMap Cut.match?).flatMap dropped
  lost ⊆ numbers ps ∧ ∃ ws, Sound ws ∧ pieces.flatMap (writeCut write) = render ws ∧
    numbers ws = (numbers ps).filter (· ∉ lost)

namespace Writes

variable {write : Match α → Text} {dropped : Match α → List Nat}

theorem nil : Writes write dropped [] [] :=
  ⟨List.nil_subset _, [], List.not_mem_nil, rfl, rfl⟩

theorem append {pieces pieces' : List (Cut α)} {ps qs : List Part} (h : Writes write dropped pieces ps)
    (h' : Writes write dropped pieces' qs) (hn : (numbers (ps ++ qs)).Nodup) :
    Writes write dropped (pieces ++ pieces') (ps ++ qs) := by
  obtain ⟨hlost, ws, hws, htext, hnumbers⟩ := h
  obtain ⟨hlost', ws', hws', htext', hnumbers'⟩ := h'
  rw [numbers_append] at hn
  unfold Writes
  simp only [List.filterMap_append, List.flatMap_append, numbers_append]
  refine ⟨?_, ws ++ ws', sound_append.2 ⟨hws, hws'⟩, by rw [htext, htext', render_append], ?_⟩
  · exact List.append_subset.2 ⟨List.Subset.trans hlost (List.subset_append_left _ _),
      List.Subset.trans hlost' (List.subset_append_right _ _)⟩
  · rw [numbers_append, hnumbers, hnumbers', filter_append_disjoint hn hlost hlost']

theorem code {c : Char} (hc : c ≠ mark) : Writes write dropped [.copied c] [.code c] :=
  ⟨List.nil_subset _, [.code c], by simpa [Sound] using fun h => hc h.symm, rfl, rfl⟩

theorem held (n : Nat) : Writes write dropped ((placeholder n).map .copied) [.held n] := by
  have hmatches (t : Text) : (t.map Cut.copied).filterMap Cut.match? = ([] : List (Match α)) := by
    induction t with
    | nil => rfl
    | cons c t ih => exact ih
  have htext (t : Text) : (t.map Cut.copied).flatMap (writeCut write) = t := by
    induction t with
    | nil => rfl
    | cons c t ih => simpa [writeCut] using ih
  unfold Writes
  rw [hmatches, htext]
  exact ⟨List.nil_subset _, [.held n], by simp [Sound], by simp [Part.text], rfl⟩

theorem found {m : Match α} {qs : List Part} (h : Replaces write dropped m qs) :
    Writes write dropped [.found m] qs := by
  obtain ⟨hlost, ws, hws, htext, hnumbers⟩ := h
  have hdropped : ([Cut.found m].filterMap Cut.match?).flatMap dropped = dropped m := by
    simp [Cut.match?]
  unfold Writes
  rw [hdropped]
  exact ⟨hlost, ws, hws, by simpa [writeCut] using htext, hnumbers⟩

end Writes

/-- A matcher that starts in no placeholder copies them. -/
theorem pieces_placeholder (hstart : ∀ {before after : Text} {c : Char} {found : Text × α},
    matcher before (c :: after) = some found → c ≠ mark ∧ c.isDigit = false) (n : Nat) (fresh : Bool)
    (before rest : Text) :
    Cut.pieces matcher 0 fresh before (placeholder n ++ rest) =
      (placeholder n).map .copied ++ Cut.pieces matcher 0 true ((placeholder n).reverse ++ before) rest := by
  refine Cut.pieces_copied (fun c hc before after => ?_) (List.cons_ne_nil _ _) rest
  cases hmatch : matcher before (c :: after) with
  | none => rfl
  | some found =>
    obtain ⟨hmark, hdigit⟩ := hstart hmatch
    rcases mem_placeholder hc with hc | hc
    · exact absurd hc hmark
    · rw [hdigit] at hc
      cases hc

theorem writes_pieces (hM : Respects matcher) {write : Match α → Text} {dropped : Match α → List Nat}
    (hwrite : ∀ {before : Text} {qs rs : List Part} {value : α}, Sound (qs ++ rs) →
      matcher before (render (qs ++ rs)) = some (render qs, value) →
        Replaces write dropped ⟨before, render qs, render rs, value⟩ qs)
    (ps : List Part) (h : Sound ps) (hn : (numbers ps).Nodup) (fresh : Bool) (before : Text) :
    Writes write dropped (Cut.pieces matcher 0 fresh before (render ps)) ps := by
  induction hlen : ps.length using Nat.strongRecOn generalizing ps fresh before with
  | ind len ih =>
    cases ps with
    | nil =>
      rw [render_nil, Cut.pieces_nil (hM.nil before)]
      exact .nil
    | cons p ps =>
      obtain ⟨hp, hps⟩ := sound_cons.1 h
      have hnps : (numbers ps).Nodup := by
        rw [← List.singleton_append, numbers_append] at hn
        exact (List.nodup_append.1 hn).2.1
      have hrest (fresh : Bool) (before : Text) :=
        ih ps.length (by simp [← hlen]) ps hps hnps fresh before rfl
      cases p with
      | held n =>
        rw [render_cons, Part.text, pieces_placeholder hM.start]
        exact .append (.held n) (hrest _ _) hn
      | code c =>
        cases hmatch : matcher before (render (.code c :: ps)) with
        | none =>
          have hc : c ≠ mark := fun hc => hp (congrArg Part.code hc)
          have htext : render (.code c :: ps) = c :: render ps := rfl
          rw [htext] at hmatch ⊢
          rw [Cut.pieces_none hmatch]
          exact .append (.code hc) (hrest _ _) hn
        | some found =>
          obtain ⟨taken, value⟩ := found
          obtain ⟨hne, qs, rs, hqs, rfl⟩ := hM.parts h hmatch
          rw [hqs] at h hn hmatch ⊢
          have hlength : rs.length < len := by
            have := congrArg List.length hqs
            have hpos : 0 < qs.length := List.length_pos_iff.2 fun hnil => hne (by rw [hnil]; rfl)
            simp only [List.length_cons, List.length_append] at this hlen
            omega
          have hnrs : (numbers rs).Nodup := by
            rw [numbers_append] at hn
            exact (List.nodup_append.1 hn).2.1
          have hreplace := hwrite h hmatch
          rw [render_append] at hmatch ⊢
          rw [Cut.pieces_some hmatch hne]
          exact .append (.found hreplace) (ih _ hlength rs (sound_append.1 h).2 hnrs _ _ rfl) hn

/-- Replacing matches in a masked text leaves a masked text without the dropped placeholders. -/
theorem replaceMatches_render (hM : Respects matcher) {write : Match α → Text}
    {dropped : Match α → List Nat}
    (hwrite : ∀ {before : Text} {qs rs : List Part} {value : α}, Sound (qs ++ rs) →
      matcher before (render (qs ++ rs)) = some (render qs, value) →
        Replaces write dropped ⟨before, render qs, render rs, value⟩ qs)
    {ps : List Part} (h : Sound ps) (hn : (numbers ps).Nodup) :
    ∃ ws, Sound ws ∧ replaceMatches matcher write (render ps) = render ws ∧
      numbers ws = (numbers ps).filter (· ∉ (allMatches matcher (render ps)).flatMap dropped) := by
  obtain ⟨-, ws, hws, htext, hnumbers⟩ := writes_pieces hM hwrite ps h hn true []
  refine ⟨ws, hws, ?_, hnumbers⟩
  rw [← htext]
  rfl

end Masked

end DialectBridge
