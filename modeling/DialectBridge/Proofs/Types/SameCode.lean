import DialectBridge.Proofs.Types.Holes
import DialectBridge.Proofs.Types.UnmaskedChanges
import Mathlib.Data.List.Forall2

/-!
# Scripts with the same code

What is converted in a script does not depend on its literals, quoted names and comments. Scripts with the same code
have the same mask, and the mask alone decides which stretches are replaced, by which rule, and by what
(`exists_plan`). The held texts are only filled in: into the stretches, the changes and the converted text
(`convertScript_of_sameCode`).
-/

namespace DialectBridge

open Masked Segment

/-- The scripts have segments of the same kinds in the same order, and the same code. -/
def SameCode (script script' : Text) : Prop :=
  List.Forall₂ (fun s s' : Segment => s.kind = s'.kind ∧ (s.kind = .code → s.text = s'.text)) (segments script)
    (segments script')

instance (script script' : Text) : Decidable (SameCode script script') :=
  inferInstanceAs (Decidable (List.Forall₂ _ _ _))

theorem SameCode.refl (script : Text) : SameCode script script :=
  List.forall₂_same.2 fun _ _ => ⟨rfl, fun _ => rfl⟩

/-- The texts that a mask holds. -/
def shieldedTexts (script : Text) : List Text :=
  (shielded (segments script)).map Segment.text

namespace Masked

/-- Where the same is filled in, the same is spelled. -/
theorem spell_congr {f g : Nat → Text} {ps : List Part} (h : ∀ n, .held n ∈ ps → f n = g n) : spell f ps = spell g ps := by
  induction ps with
  | nil => rfl
  | cons p ps ih =>
    rw [spell_cons, spell_cons, ih fun n hn => h n (List.mem_cons_of_mem p hn)]
    cases p with
    | code c => rfl
    | held n => rw [Part.spelled_held, Part.spelled_held, h n List.mem_cons_self]

/-- Filled with the texts that it holds, a mask gives the script back. -/
theorem spell_shieldedTexts (script : Text) :
    spell (heldAt (shieldedTexts script)) (scriptParts 0 (segments script)) = script := by
  refine Eq.trans (spell_congr fun n hn => ?_) ((spell_scriptParts [] (segments script)).trans (segments_text script))
  obtain ⟨p, hp, hfill⟩ := TypeTable.exists_filling hn
  rw [List.nil_append, hfill, heldAt, shieldedTexts, List.getElem?_map, hp]
  rfl

theorem ofScript_eq (script : Text) :
    ofScript script = ⟨render (scriptParts 0 (segments script)), shieldedTexts script⟩ :=
  ofSegments_eq 0 (segments script)

/-- The mask of a script is made of its code alone. -/
theorem scriptParts_of_sameCode {ss ss' : List Segment}
    (h : List.Forall₂ (fun s s' : Segment => s.kind = s'.kind ∧ (s.kind = .code → s.text = s'.text)) ss ss') (n : Nat) :
    scriptParts n ss = scriptParts n ss' ∧ (shielded ss).length = (shielded ss').length := by
  induction h generalizing n with
  | nil => exact ⟨rfl, rfl⟩
  | @cons s s' ss ss' hs _ ih =>
    by_cases hcode : s.kind = .code
    · simp [scriptParts, shielded, hcode, hs.1 ▸ hcode, hs.2 hcode, (ih n).1]
      exact (ih n).2
    · have hcode' : s'.kind ≠ .code := hs.1 ▸ hcode
      simp [scriptParts, shielded, hcode, hcode', (ih (n + 1)).1]
      exact (ih (n + 1)).2

end Masked

namespace TypeTable

/-! ## Replaced stretches of a mask -/

/-- A stretch of a mask that is replaced, with the parts in front of it and behind it, and what matched there. -/
structure Replacement where
  front : List Part
  stretch : List Part
  back : List Part
  value : RuleMatch

namespace Replacement

/-- The match of the stretch in the mask. -/
def inMask (r : Replacement) : Match RuleMatch :=
  ⟨(render r.front).reverse, render r.stretch, render r.back, r.value⟩

/-- The change that is recorded for it when these texts are held. -/
def change (texts : List Text) (r : Replacement) : TypeChange :=
  ⟨spell (heldAt texts) (holes texts.length (render r.stretch)), r.value.written⟩

end Replacement

/-- The matches in a text that are replaced. -/
def replacedMatches (types : TypeTable) (t : Text) : List (Match RuleMatch) :=
  (allMatches types.matcher t).filter fun m => (change? m).isSome

/-- A change writes what its match writes. -/
theorem eq_of_change {m : Match RuleMatch} {c : TypeChange} (h : change? m = some c) : c = ⟨m.text, m.value.written⟩ := by
  rw [change?_eq] at h
  split at h
  · cases h
  · exact (Option.some.inj h).symm

theorem changes_replacedMatches (types : TypeTable) (t : Text) :
    (types.convertText t).changes = (types.replacedMatches t).map fun m => ⟨m.text, m.value.written⟩ := by
  have hmatches (ms : List (Match RuleMatch)) : ms.filterMap change? =
      (ms.filter fun m => (change? m).isSome).map fun m => ⟨m.text, m.value.written⟩ := by
    induction ms with
    | nil => rfl
    | cons m ms ih =>
      cases hchange : change? m with
      | none => simp [hchange, ih]
      | some c => simp [hchange, ih, eq_of_change hchange]
  exact hmatches _

theorem matcher_ne_nil {types : TypeTable} (ht : types.IsRegular) {before after taken : Text} {m : RuleMatch}
    (h : types.matcher before after = some (taken, m)) : taken ≠ [] := by
  rw [← render_map_code after] at h
  exact (matcher_splits ht h).1

/-- A match in a mask stands between whole parts. -/
theorem exists_parts_of_match {types : TypeTable} (ht : types.IsRegular) {ps : List Part} {m : Match RuleMatch}
    (h : m ∈ allMatches types.matcher (render ps)) :
    ∃ r : Replacement, ps = r.front ++ (r.stretch ++ r.back) ∧ r.inMask = m := by
  obtain ⟨hmatch, front, hbefore, hsplit⟩ :=
    Cut.exists_front_of_found types.matcher_takesPrefix (Cut.mem_filterMap_match?.1 h)
  obtain ⟨before, text, after, value⟩ := m
  simp only [List.append_nil] at hmatch hbefore hsplit
  -- the match starts with a character of code
  obtain ⟨c, rest, rfl⟩ := List.exists_cons_of_ne_nil (matcher_ne_nil ht hmatch)
  obtain ⟨hmark, hdigit⟩ := (matcher_respects ht).start hmatch
  obtain ⟨fs, behind, rfl, rfl, hbehind⟩ := render_eq_append_cons hmark hdigit hsplit
  have hrender : render (.code c :: behind) = (c :: rest) ++ after := congrArg (c :: ·) hbehind.symm
  rw [← hrender] at hmatch
  obtain ⟨-, qs, rs, hqs, htaken⟩ := matcher_splits ht hmatch
  refine ⟨⟨fs, qs, rs, value⟩, by rw [hqs], ?_⟩
  have hafter : render rs = after := by
    rw [hqs, render_append, htaken] at hrender
    exact List.append_cancel_left hrender
  rw [Replacement.inMask, hbefore, htaken, hafter]

/-- The replaced stretches of a mask. -/
theorem exists_replacements {types : TypeTable} (ht : types.IsRegular) (ps : List Part) :
    ∃ rs : List Replacement, rs.map Replacement.inMask = types.replacedMatches (render ps) ∧
      ∀ r ∈ rs, r.front ++ (r.stretch ++ r.back) = ps := by
  have hmatches (ms : List (Match RuleMatch)) (hms : ∀ m ∈ ms, m ∈ allMatches types.matcher (render ps)) :
      ∃ rs : List Replacement, rs.map Replacement.inMask = ms ∧ ∀ r ∈ rs, r.front ++ (r.stretch ++ r.back) = ps := by
    induction ms with
    | nil => exact ⟨[], rfl, by simp⟩
    | cons m ms ih =>
      rw [List.forall_mem_cons] at hms
      obtain ⟨r, hparts, hr⟩ := exists_parts_of_match ht hms.1
      obtain ⟨rs, hrs, hall⟩ := ih hms.2
      exact ⟨r :: rs, by rw [List.map_cons, hr, hrs], List.forall_mem_cons.2 ⟨hparts.symm, hall⟩⟩
  exact hmatches _ fun m hm => (List.mem_filter.1 hm).1

/-! ## Converting scripts with the same code -/

/-- The script is converted in this way: exactly these stretches of its mask are replaced, each is recorded with the
held texts in its holes, and the converted text is the template with the held texts in its holes. -/
structure IsConvertedBy (types : TypeTable) (rs : List Replacement) (template : List Part) (script : Text) : Prop where
  replaced : types.replacedMatches (Masked.ofScript script).text = rs.map Replacement.inMask
  places : ∀ r ∈ rs, spell (heldAt (shieldedTexts script)) (r.front ++ (r.stretch ++ r.back)) = script
  changes : (types.convertScript script).changes = rs.map (Replacement.change (shieldedTexts script))
  text : (types.convertScript script).text = spell (heldAt (shieldedTexts script)) template
  holes : ∀ n, .held n ∈ template → n < (shieldedTexts script).length

/-- Scripts with the same code are converted in the same way: the same stretches are replaced by the same rules, and
the converted texts are one template with the texts of each script in its holes. -/
theorem convertScript_of_sameCode {types : TypeTable} (ht : types = oracleTypes ∨ types = mysqlTypes) (script : Text) :
    ∃ rs template, ∀ script', SameCode script script' → types.IsConvertedBy rs template script' := by
  obtain ⟨rs, hrs, hplaces⟩ := exists_replacements (isRegular_of_eq ht).1 (scriptParts 0 (segments script))
  refine ⟨rs, holes (shieldedTexts script).length (types.convertText (Masked.ofScript script).text).text,
    fun script' hcode => ?_⟩
  obtain ⟨hparts, hlength⟩ := scriptParts_of_sameCode hcode 0
  have hmask : (Masked.ofScript script').text = (Masked.ofScript script).text := by
    rw [ofScript_eq, ofScript_eq, hparts]
  have hheld : (Masked.ofScript script').held = shieldedTexts script' := by
    rw [ofScript_eq]
  have hcount : (shieldedTexts script).length = (shieldedTexts script').length := by
    rw [shieldedTexts, List.length_map, hlength, shieldedTexts, List.length_map]
  have hreplaced : types.replacedMatches (Masked.ofScript script').text = rs.map Replacement.inMask := by
    rw [hmask, ofScript_eq, hrs]
  constructor
  · exact hreplaced
  · intro r hr
    rw [hplaces r hr, hparts, spell_shieldedTexts]
  · rw [convertScript, hheld, changes_replacedMatches, hreplaced, List.map_map, List.map_map]
    refine List.map_congr_left fun r _ => ?_
    exact congrArg (TypeChange.mk · r.value.written) (restore_eq_spell _ _)
  · rw [convertScript, hheld, hcount, ← restore_eq_spell, hmask]
  · intro n hn
    rw [← hcount]
    exact number_lt_of_holes hn

theorem convertScript_of_sameCode_size :
    SameCode "a VARCHAR2(10 /* b */)" "a VARCHAR2(10 /* \x010\x01 DATE */)" ∧
      ∃ rs template, oracleTypes.IsConvertedBy rs template "a VARCHAR2(10 /* b */)" ∧
        oracleTypes.IsConvertedBy rs template "a VARCHAR2(10 /* \x010\x01 DATE */)" := by
  have hcode : SameCode "a VARCHAR2(10 /* b */)" "a VARCHAR2(10 /* \x010\x01 DATE */)" := by decide +kernel
  obtain ⟨rs, template, h⟩ := convertScript_of_sameCode (.inl rfl) "a VARCHAR2(10 /* b */)"
  exact ⟨hcode, rs, template, h _ (.refl _), h _ hcode⟩

end TypeTable

end DialectBridge
