import DialectBridge.Proofs.Types.Filling

/-!
# Placeholders with later numbers

When something shielded is put into a script, the placeholders behind it get the next numbers. A matcher
that does not look into placeholders finds the same matches then, each with its placeholders renumbered
(`pieces_later`).
-/

namespace DialectBridge

namespace Masked

/-! ## Renumbered parts -/

/-- The part with the next number, if it is a placeholder. -/
def Part.later : Part → Part
  | code c => .code c
  | held n => .held (n + 1)

@[simp] theorem Part.later_code (c : Char) : (code c).later = code c := rfl

@[simp] theorem Part.later_held (n : Nat) : (held n).later = held (n + 1) := rfl

@[simp] theorem Part.isSpace_later (p : Part) : p.later.isSpace = p.isSpace := by
  cases p <;> rfl

theorem Part.later_eq_code {p : Part} {c : Char} : p.later = code c ↔ p = code c := by
  cases p <;> simp

@[simp] theorem Part.later_comp_code : Part.later ∘ Part.code = Part.code := rfl

theorem sound_later {ps : List Part} : Sound (ps.map Part.later) ↔ Sound ps := by
  refine not_congr ?_
  simp [Part.later_eq_code]

theorem scriptParts_succ (n : Nat) (ss : List Segment) :
    scriptParts (n + 1) ss = (scriptParts n ss).map Part.later := by
  induction ss generalizing n with
  | nil => rfl
  | cons s ss ih =>
    unfold scriptParts
    split
    · rw [ih, List.map_append, List.map_map, Part.later_comp_code]
    · rw [ih, List.map_cons, Part.later_held]

/-- Renumbering changes only digits. -/
theorem mem_render_later {c : Char} (hc : c.isDigit = false) (ps : List Part) :
    c ∈ render (ps.map Part.later) ↔ c ∈ render ps := by
  induction ps with
  | nil => rfl
  | cons p ps ih =>
    rw [List.map_cons, render_cons, render_cons, List.mem_append, List.mem_append, ih]
    cases p with
    | code d => rfl
    | held n =>
      show c ∈ placeholder (n + 1) ∨ _ ↔ c ∈ placeholder n ∨ _
      rw [mem_placeholder_iff hc, mem_placeholder_iff hc]

/-- Only texts without placeholders are the same with later numbers. -/
theorem render_later_eq_iff {ps : List Part} (h : Sound ps) :
    render (ps.map Part.later) = render ps ↔ mark ∉ render ps := by
  constructor
  · intro heq hmem
    have hparts : ps.map Part.later = ps.map id := by
      rw [List.map_id]
      exact render_inj (sound_later.2 h) h heq
    obtain ⟨p, hp, hmark⟩ := List.mem_flatMap.1 hmem
    cases p with
    | code c =>
      obtain rfl : mark = c := by simpa [Part.text] using hmark
      exact h hp
    | held n => simpa using List.map_inj_left.1 hparts _ hp
  · intro hnot
    rw [eq_map_code hnot, List.map_map, Part.later_comp_code]

/-! ## Filling with later numbers -/

/-- The placeholder with the next number. -/
def laterPlaceholder (n : Nat) : Text :=
  placeholder (n + 1)

theorem blank_laterPlaceholder {n : Nat} {c : Char} (hc : c ∈ laterPlaceholder n) : isBlank c = false := by
  rcases mem_placeholder hc with rfl | hdigit
  · decide
  · exact not_blank_of_digit hdigit

theorem spell_later (ps : List Part) : spell laterPlaceholder ps = render (ps.map Part.later) := by
  induction ps with
  | nil => rfl
  | cons p ps ih => cases p <;> simp [ih, laterPlaceholder, Part.text]

theorem areStops_mark : AreStops [mark] where
  mark := List.mem_singleton_self mark
  word := List.forall_mem_singleton.2 (by decide)
  blank := List.forall_mem_singleton.2 (by decide)

/-- Placeholders with later numbers start and end with marks, too. -/
theorem fills_later {ps : List Part} : Fills [mark] laterPlaceholder ps ↔ Sound ps := by
  refine ⟨Fills.sound, fun h => ⟨h, fun n _ => ?_, fun n _ => ?_, fun xs n ys _ => .inl ?_⟩⟩
  · exact ⟨mark, List.mem_singleton_self mark, Text.ofNat (n + 1) ++ [mark], rfl⟩
  · rw [laterPlaceholder, mem_placeholder_iff (by decide), mem_placeholder_iff (by decide)]
    decide
  · exact ⟨mark, List.getLast?_concat, List.mem_singleton_self mark⟩

end Masked

open Masked

/-! ## Runs over renumbered parts -/

namespace Pattern

/-- The texts behind the sites are the same up to the numbers of their placeholders. What was captured is
related by `C`. -/
structure Renumbered (C : List (Nat × Text) → List (Nat × Text) → Prop) (s s' : Site) : Prop where
  edge : s.before.head?.any isWordCharacter = s'.before.head?.any isWordCharacter
  captured : C s.captured s'.captured
  after : ∃ ps, Sound ps ∧ s.after = render ps ∧ s'.after = render (ps.map Part.later)

variable {C : List (Nat × Text) → List (Nat × Text) → Prop}

/-- Later numbers are other texts in the place of the placeholders. -/
theorem renumbered_iff {s s' : Site} : Renumbered C s s' ↔ Refilled [mark] laterPlaceholder C s s' := by
  constructor
  · rintro ⟨hedge, hcaptured, ps, hps, hs, hs'⟩
    exact ⟨hedge, hcaptured, ps, fills_later.2 hps, hs, hs'.trans (spell_later ps).symm⟩
  · rintro ⟨hedge, hcaptured, ps, hps, hs, hs'⟩
    exact ⟨hedge, hcaptured, ps, fills_later.1 hps, hs, hs'.trans (spell_later ps)⟩

/-- A pattern that does not look for marks stays outside the placeholders. -/
theorem inStep_renumbered : InStep [mark] (Renumbered C) := by
  have heq : Renumbered C = Refilled [mark] laterPlaceholder C :=
    funext fun s => funext fun s' => propext renumbered_iff
  rw [heq]
  exact inStep_refilled areStops_mark

end Pattern

/-! ## Cutting renumbered parts -/

namespace Masked

variable {α : Type} {matcher : Matcher α} {V : List Part → α → α → Prop}

/-- The pieces of the parts `ps` behind `done`, and the pieces where the placeholders have the next
numbers. The parts follow `before` and `before'`. -/
inductive SameCuts (V : List Part → α → α → Prop) (before before' : Text) :
    List Part → List Part → List (Cut α) → List (Cut α) → Prop
  | nil (done : List Part) : SameCuts V before before' done [] [] []
  | kept {done ps : List Part} {cs cs' : List (Cut α)} (p : Part)
      (h : SameCuts V before before' (done ++ [p]) ps cs cs') :
      SameCuts V before before' done (p :: ps) (p.text.map .copied ++ cs) (p.later.text.map .copied ++ cs')
  | found {done qs rs : List Part} {v v' : α} {cs cs' : List (Cut α)} (hv : V qs v v')
      (h : SameCuts V before before' (done ++ qs) rs cs cs') :
      SameCuts V before before' done (qs ++ rs)
        (.found ⟨(render done).reverse ++ before, render qs, render rs, v⟩ :: cs)
        (.found ⟨(render (done.map Part.later)).reverse ++ before', render (qs.map Part.later),
          render (rs.map Part.later), v'⟩ :: cs')

/-- What is found is made of whole parts. -/
theorem SameCuts.text_parts {before before' : Text} {done ps : List Part} {cs cs' : List (Cut α)}
    (h : SameCuts V before before' done ps cs cs') {m : Match α} (hm : Cut.found m ∈ cs) :
    ∃ qs, qs ⊆ ps ∧ m.text = render qs := by
  induction h with
  | nil done => cases hm
  | kept p h ih =>
    obtain ⟨qs, hqs, htext⟩ := ih ((List.mem_append.1 hm).resolve_left (by simp))
    exact ⟨qs, List.Subset.trans hqs (List.subset_cons_self p _), htext⟩
  | @found done qs rs v v' cs cs' hv h ih =>
    rcases List.mem_cons.1 hm with heq | hm
    · cases heq
      exact ⟨qs, List.subset_append_left qs rs, rfl⟩
    · obtain ⟨ps, hps, htext⟩ := ih hm
      exact ⟨ps, List.Subset.trans hps (List.subset_append_right qs rs), htext⟩

theorem FilledCuts.same {Q : Part → Prop} {before before' : Text} {done ps : List Part} {cs cs' : List (Cut α)}
    (h : FilledCuts laterPlaceholder V Q before before' done ps cs cs') : SameCuts V before before' done ps cs cs' := by
  induction h with
  | nil done => exact .nil done
  | @kept done ps cs cs' p hp h ih =>
    have hlater : p.spelled laterPlaceholder = p.later.text := by cases p <;> rfl
    rw [hlater]
    exact .kept p ih
  | found hv h ih =>
    simp only [spell_later]
    exact .found hv ih

/-- Nothing is found in placeholders. -/
theorem RespectsFilling.quiet_placeholder {stops : List Char} {f : Nat → Text}
    (hM : RespectsFilling stops f matcher V) (n : Nat) : Quiet stops matcher (placeholder n) := by
  intro x y before rest hsplit hy _
  obtain ⟨c, y, rfl⟩ := List.exists_cons_of_ne_nil hy
  cases hfound : matcher (x.reverse ++ before) (c :: y ++ rest) with
  | none => rfl
  | some found =>
    obtain ⟨hmark, hdigit⟩ := hM.start hfound
    rcases mem_placeholder (n := n) (c := c) (by rw [hsplit]; simp) with hc | hc
    · exact absurd hc hmark
    · rw [hdigit] at hc
      cases hc

/-- Cutting a masked text commutes with renumbering its placeholders. -/
theorem pieces_later (hM : RespectsFilling [mark] laterPlaceholder matcher V) {before before' : Text}
    (hedge : before.head?.any isWordCharacter = before'.head?.any isWordCharacter) {ps : List Part} (hps : Sound ps)
    (fresh fresh' : Bool) : SameCuts V before before' [] ps (Cut.pieces matcher 0 fresh before (render ps))
      (Cut.pieces matcher 0 fresh' before' (render (ps.map Part.later))) := by
  obtain ⟨ks, -, -, -, hcuts⟩ := pieces_filled (Q := fun _ => True) areStops_mark hM (fun _ => trivial) hedge []
    (fills_later.2 hps) (fun n _ _ => hM.quiet_placeholder (n + 1)) fresh fresh'
  rw [← spell_later]
  exact (hcuts fun _ _ => trivial).same

end Masked

end DialectBridge
