import DialectBridge.Proofs.Lexical.Insertion
import DialectBridge.Proofs.Types.Renumbering

/-!
# The mask of a script with a new comment

A script that is cut behind a sign is masked piece by piece. With a comment put at the cut, the mask in
front of it stays, the comment gets the next number, and every placeholder behind it a number more
(`exists_cutMask`). Filled with the texts that are held, both masks give the same (`fill_front`, `fill_later`).
-/

namespace DialectBridge

open Segment

namespace Masked

/-! ## Masks of pieces -/

theorem scriptParts_append (n : Nat) (ps qs : List Segment) :
    scriptParts n (ps ++ qs) = scriptParts n ps ++ scriptParts (n + (shielded ps).length) qs := by
  induction ps generalizing n with
  | nil => rfl
  | cons p ps ih =>
    rw [List.cons_append, scriptParts, scriptParts]
    by_cases hp : p.kind = .code
    · simp [hp, ih, shielded]
    · simp [hp, ih, shielded, Nat.add_assoc, Nat.add_comm]

theorem scriptParts_push {s : Segment} (h : s.kind ≠ .code → s.text ≠ []) (n : Nat) (ps : List Segment) :
    scriptParts n (push s ps) = scriptParts n (s :: ps) := by
  by_cases hs : s.text = []
  · have hk : s.kind = .code := Decidable.byContradiction fun hk => h hk hs
    rw [push_of_empty hs]
    simp [scriptParts, hk, hs]
  · by_cases hj : Joins s ps
    · obtain ⟨f, b, more, rfl, rfl⟩ := joins_cases hj
      simp [push_code, scriptParts]
    · rw [push_apart hs hj]

/-- Merging code does not change the mask. -/
theorem scriptParts_merge {ps : List Segment} (h : ∀ p ∈ ps, p.kind ≠ .code → p.text ≠ []) (n : Nat) :
    scriptParts n (merge ps) = scriptParts n ps := by
  induction ps generalizing n with
  | nil => rfl
  | cons p ps ih =>
    obtain ⟨hp, hps⟩ := List.forall_mem_cons.1 h
    rw [merge_cons, scriptParts_push hp, scriptParts, scriptParts, ih hps, ih hps]

theorem cell_text_ne_nil {t : Text} {p : Segment} (hp : p ∈ cells t) (hk : p.kind ≠ .code) : p.text ≠ [] := by
  intro htext
  rcases cell_cases hp with hcode | ⟨-, hlen⟩ | ⟨q, v, -, hquoted⟩
  · exact hk hcode
  · simp [htext] at hlen
  · simp [htext] at hquoted

theorem shielded_segments (t : Text) : shielded (segments t) = shielded (cells t) := by
  rw [← merge_cells, shielded_merge fun p => cell_text_ne_nil]

/-- The mask of a script is that of its pieces before neighbouring code is joined. -/
theorem ofScript_eq_cells (t : Text) :
    ofScript t = ⟨render (scriptParts 0 (cells t)), (shielded (cells t)).map Segment.text⟩ := by
  rw [ofScript, ofSegments_eq, shielded_segments, ← merge_cells, scriptParts_merge fun p => cell_text_ne_nil]

theorem scriptParts_space (n : Nat) (rest : Text) :
    scriptParts n (cells (' ' :: rest)) = .code ' ' :: scriptParts n (cells rest) ∧
      shielded (cells (' ' :: rest)) = shielded (cells rest) := by
  rcases cells_space rest with heq | ⟨run, more, hrest, heq⟩
  · rw [heq]
    exact ⟨rfl, rfl⟩
  · rw [heq, hrest]
    exact ⟨rfl, rfl⟩

/-! ## Masks of a cut script -/

/-- The parts of a comment between spaces. -/
def commentParts (n : Nat) : List Part :=
  [.code ' ', .held n, .code ' ']

/-- The parts of the mask in front of the cut and behind it, with the texts that are held. A comment at the
cut moves the numbers behind it. -/
structure CutMask (front rest comment : Text) (fs rs : List Part) (held heldBehind : List Segment) : Prop where
  ahead : ofScript front = ⟨render fs, held.map Segment.text⟩
  whole : ofScript (front ++ rest) = ⟨render (fs ++ rs), (held ++ heldBehind).map Segment.text⟩
  commented : ofScript (front ++ ' ' :: (comment ++ ' ' :: rest)) =
    ⟨render (fs ++ (commentParts held.length ++ rs.map Part.later)),
      (held ++ ⟨.comment, comment⟩ :: heldBehind).map Segment.text⟩
  sign : ∃ gs c, fs = gs ++ [.code c] ∧ (c = '(' ∨ c = ',')
  sound : Sound fs ∧ Sound rs
  numbering : Masked.numbers fs = List.range' 0 held.length ∧ Masked.numbers rs = List.range' held.length heldBehind.length

theorem exists_cutMask {front rest comment : Text} (hcut : CutBehindSign front rest)
    (hmark : mark ∉ front ++ rest) (hcomment : IsBlockComment comment) :
    ∃ fs rs held heldBehind, CutMask front rest comment fs rs held heldBehind := by
  obtain ⟨xs, c, hc, rfl, hcells⟩ := exists_cells_of_cut hcut
  rw [List.mem_append, not_or] at hmark
  let k := (shielded xs).length
  have hshielded (ys : List Segment) : shielded (xs ++ ⟨.code, [c]⟩ :: ys) = shielded xs ++ shielded ys := by
    rw [shielded_append]
    rfl
  have hparts (ys : List Segment) : scriptParts 0 (xs ++ ⟨.code, [c]⟩ :: ys) =
      scriptParts 0 xs ++ [.code c] ++ scriptParts k ys := by
    rw [scriptParts_append, Nat.zero_add, List.append_assoc]
    rfl
  have hsound : Sound (scriptParts 0 xs ++ [.code c]) := by
    have hfront : Sound (scriptParts 0 (xs ++ [⟨.code, [c]⟩])) :=
      sound_scriptParts (by simpa using hmark.1) 0
    rw [hparts] at hfront
    exact (sound_append.1 hfront).1
  refine ⟨scriptParts 0 xs ++ [.code c], scriptParts k (cells rest), shielded xs, shielded (cells rest),
    ?_, ?_, ?_, ⟨_, c, rfl, hc⟩, ⟨hsound, ?_⟩, ?_, ?_⟩
  · rw [ofScript_eq_cells, ← List.append_nil (textOf xs ++ [c]), hcells, cells_nil, hparts, hshielded]
    simp [scriptParts]
  · rw [ofScript_eq_cells, hcells, hparts, hshielded]
  · rw [ofScript_eq_cells, hcells, cells_comment hcomment, hparts, hshielded]
    have hheld : shielded (⟨.code, [' ']⟩ :: ⟨.comment, comment⟩ :: cells (' ' :: rest)) =
        ⟨.comment, comment⟩ :: shielded (cells rest) :=
      congrArg (_ :: ·) (scriptParts_space 0 rest).2
    have hbehind : scriptParts k (⟨.code, [' ']⟩ :: ⟨.comment, comment⟩ :: cells (' ' :: rest)) =
        commentParts k ++ (scriptParts k (cells rest)).map Part.later := by
      have hspace := (scriptParts_space (k + 1) rest).1
      rw [← scriptParts_succ]
      exact congrArg (fun ps => .code ' ' :: .held k :: ps) hspace
    rw [hheld, hbehind]
  · refine sound_scriptParts ?_ k
    rw [textOf_cells]
    exact hmark.2
  · rw [numbers_append, numbers_scriptParts]
    exact List.append_nil _
  · exact numbers_scriptParts k (cells rest)

section

variable {front rest comment : Text} {fs rs : List Part} {held heldBehind : List Segment}

theorem CutMask.number_lt (h : CutMask front rest comment fs rs held heldBehind) :
    ∀ n ∈ Masked.numbers fs, n < held.length := by
  intro n hn
  rw [h.numbering.1, List.mem_range'_1] at hn
  omega

theorem CutMask.number_behind (h : CutMask front rest comment fs rs held heldBehind) :
    ∀ n ∈ Masked.numbers rs, held.length ≤ n ∧ n < held.length + heldBehind.length := by
  intro n hn
  rwa [h.numbering.2, List.mem_range'_1] at hn

theorem CutMask.nodup (h : CutMask front rest comment fs rs held heldBehind) :
    (Masked.numbers fs).Nodup ∧ (Masked.numbers rs).Nodup := by
  rw [h.numbering.1, h.numbering.2]
  exact ⟨List.nodup_range', List.nodup_range'⟩

end

/-! ## Filling the mask -/

section

variable {held heldBehind : List Segment}

/-- In front of the cut only texts from there are filled in. -/
theorem fill_front {ps : List Part} (h : ∀ n ∈ numbers ps, n < held.length) (more : List Segment) :
    ps.map (Part.fill (held ++ more)) = ps.map (Part.fill held) := by
  refine List.map_congr_left fun p hp => ?_
  cases p with
  | code c => rfl
  | held n =>
    have hn : n < held.length := h n (List.mem_filterMap.2 ⟨_, hp, rfl⟩)
    simp only [Part.fill, List.getElem?_append_left hn]

/-- Behind the cut the same texts are filled in, whatever is put in front of them. -/
theorem fill_later {ps : List Part}
    (h : ∀ n ∈ numbers ps, held.length ≤ n ∧ n < held.length + heldBehind.length) (s : Segment) :
    (ps.map Part.later).map (Part.fill (held ++ s :: heldBehind)) = ps.map (Part.fill (held ++ heldBehind)) := by
  rw [List.map_map]
  refine List.map_congr_left fun p hp => ?_
  cases p with
  | code c => rfl
  | held n =>
    obtain ⟨hle, hlt⟩ := h n (List.mem_filterMap.2 ⟨_, hp, rfl⟩)
    have hshift : n + 1 - held.length = (n - held.length) + 1 := by omega
    have hget : n - held.length < heldBehind.length := by omega
    show Part.fill _ (.held (n + 1)) = _
    simp only [Part.fill]
    rw [List.getElem?_append_right hle, List.getElem?_append_right (by omega), hshift, List.getElem?_cons_succ,
      List.getElem?_eq_getElem hget, Option.getD_some, Option.getD_some]

end

end Masked

end DialectBridge
