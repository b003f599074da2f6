import DialectBridge.Proofs.Lexical.Tiling

/-!
# Shielded pieces

Literals, quoted names and comments are shielded: a change of code copies them. They are the shielded
pieces of the changed script again exactly if the pieces stand apart (`segments_changeCode_iff`).
-/

namespace DialectBridge

namespace Segment

/-- The literals, quoted names and comments among pieces. -/
def shielded (ps : List Segment) : List Segment :=
  ps.filter fun p => p.kind != .code

@[simp] theorem shielded_nil : shielded [] = [] := rfl

@[simp] theorem shielded_append (ps qs : List Segment) :
    shielded (ps ++ qs) = shielded ps ++ shielded qs := by
  simp [shielded]

theorem shielded_push {s : Segment} (h : s.kind ≠ .code → s.text ≠ []) (ps : List Segment) :
    shielded (push s ps) = shielded [s] ++ shielded ps := by
  by_cases hs : s.text = []
  · have hk : s.kind = .code := Decidable.byContradiction fun hk => h hk hs
    rw [push_of_empty hs]
    simp [shielded, hk]
  · by_cases hj : Joins s ps
    · obtain ⟨f, b, more, rfl, rfl⟩ := joins_cases hj
      rfl
    · rw [push_apart hs hj]
      exact shielded_append [s] ps

/-- Merging code does not touch the shielded pieces. -/
theorem shielded_merge {ps : List Segment} (h : ∀ p ∈ ps, p.kind ≠ .code → p.text ≠ []) :
    shielded (merge ps) = shielded ps := by
  induction ps with
  | nil => rfl
  | cons p ps ih =>
    rw [merge_cons, shielded_push (h p List.mem_cons_self),
      ih fun q hq => h q (List.mem_cons_of_mem _ hq)]
    exact (shielded_append [p] ps).symm

/-! ## Changing code -/

/-- The piece with its text changed, if it is code. -/
def recode (change : Text → Text) (p : Segment) : Segment :=
  if p.kind = .code then ⟨.code, change p.text⟩ else p

theorem kind_recode (change : Text → Text) (p : Segment) : (recode change p).kind = p.kind := by
  unfold recode
  split <;> simp_all

theorem recode_of_ne {change : Text → Text} {p : Segment} (h : p.kind ≠ .code) :
    recode change p = p :=
  if_neg h

/-- The pieces of a script with changed code. -/
def recoded (change : Text → Text) (script : Text) : List Segment :=
  merge ((segments script).map (recode change))

theorem textOf_recoded (change : Text → Text) (script : Text) :
    textOf (recoded change script) = changeCode change script := by
  have hpieces (ps : List Segment) : textOf (ps.map (recode change)) =
      ps.flatMap fun s => if s.kind == .code then change s.text else s.text := by
    induction ps with
    | nil => rfl
    | cons p ps ih =>
      rw [List.map_cons, textOf_cons, ih, List.flatMap_cons]
      by_cases hp : p.kind = .code <;> simp [recode, hp]
  rw [recoded, textOf_merge, hpieces]
  rfl

theorem shielded_map_recode (change : Text → Text) (ps : List Segment) :
    shielded (ps.map (recode change)) = shielded ps := by
  induction ps with
  | nil => rfl
  | cons p ps ih =>
    by_cases hp : p.kind = .code
    · simpa [shielded, kind_recode, hp] using ih
    · simpa [shielded, recode_of_ne, hp] using ih

/-- A change of code keeps the shielded pieces among the pieces that it puts together. -/
theorem shielded_recoded (change : Text → Text) (script : Text) :
    shielded (recoded change script) = shielded (segments script) := by
  rw [recoded, shielded_merge, shielded_map_recode]
  intro p hp hk
  obtain ⟨q, hq, rfl⟩ := List.mem_map.1 hp
  rw [kind_recode] at hk
  rw [recode_of_ne hk]
  rw [← merge_cells] at hq
  exact mem_merge_text_ne_nil hq

/-- The segments after a change of code are the pieces that it put together, exactly if these stand
apart. -/
theorem segments_changeCode_iff (change : Text → Text) (script : Text) :
    segments (changeCode change script) = recoded change script ↔
      StandApart (recoded change script) := by
  rw [← textOf_recoded]
  exact segments_textOf_iff _

theorem changeCode_eq_textOf (change : Text → Text) (t : Text) : changeCode change t = textOf ((segments t).map (recode change)) := by
  rw [← textOf_recoded, recoded, textOf_merge]

theorem text_recode_eq_nil {change : Text → Text} (hnil : ∀ x, change x = [] ↔ x = []) (p : Segment) :
    (recode change p).text = [] ↔ p.text = [] := by
  unfold recode
  split
  · exact hnil p.text
  · rfl

/-- Where no code vanishes, merged pieces stay apart. -/
theorem merge_map_recode {change : Text → Text} (hnil : ∀ x, change x = [] ↔ x = []) {xs ps : List Segment}
    (h : merge xs = ps) : merge (ps.map (recode change)) = ps.map (recode change) := by
  induction ps generalizing xs with
  | nil => rfl
  | cons p ps ih =>
    have hsplit : merge xs = [p] ++ ps := h
    have hmem : p ∈ merge xs := by rw [h]; exact List.mem_cons_self
    have hp : p.text ≠ [] := mem_merge_text_ne_nil hmem
    obtain ⟨ys, zs, -, -, hzs⟩ := merge_split hsplit
    have hapart : ¬Joins (recode change p) (ps.map (recode change)) := fun ⟨hk, q, hq, hqk⟩ => by
      cases ps with
      | nil => cases hq
      | cons r ps =>
        obtain rfl : recode change r = q := Option.some.inj hq
        rw [kind_recode] at hk hqk
        exact merge_code_apart h hk hqk
    rw [List.map_cons, merge_cons, ih hzs, push_apart (mt (text_recode_eq_nil hnil p).1 hp) hapart]

theorem recoded_eq_map {change : Text → Text} (hnil : ∀ x, change x = [] ↔ x = []) (script : Text) :
    recoded change script = (segments script).map (recode change) :=
  merge_map_recode hnil (merge_cells script)

end Segment

end DialectBridge
