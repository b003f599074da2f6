import DialectBridge.Proofs.Types.FilledTypes

/-!
# Types behind a new placeholder

Type rules do not look into placeholders. So with later numbers in the placeholders the same types are
found, with the same arguments up to these numbers (`matcher_respectsLater`).
-/

namespace DialectBridge

open Masked

namespace TypeRule

/-- No size of its own holds a mark, so the rule takes marks among captured arguments alone. -/
theorem keepsOff_mark {r : TypeRule} (hshape : r.Shape) (hsteady : r.isSteady = true) :
    r.keepsOff [mark] = true := by
  have hmiddle {q : Pattern} (hq : IsMiddle q) (hfree : q.captureFree = true) : q.avoids mark = true := by
    cases hq with
    | size hy => exact (sizePattern_spec hy).2.1
    | scale | any | optional => cases hfree
  have hscale : scaleArguments.avoids mark = true := by decide +kernel
  have hwords := (isSteady_iff.1 hsteady).1 mark (by simp)
  exact keepsOff_iff.2 (List.forall_mem_singleton.2 ⟨⟨hwords, hscale⟩, hmiddle (isMiddle hshape)⟩)

end TypeRule

namespace TypeTable

/-- The same match up to the numbers of the placeholders in its arguments. -/
structure SameMatch (types : TypeTable) (qs : List Part) (m m' : RuleMatch) : Prop where
  mem : m.rule ∈ types.rules
  rule : m'.rule = m.rule
  solid : ∃ p ∈ qs, p.isSpace = false
  arguments : (m.arguments = none ∧ m'.arguments = none) ∨ ∃ as, Sound as ∧ numbers as = numbers qs ∧
    m.arguments = some (render as) ∧ m'.arguments = some (render (as.map Part.later))

variable {types : TypeTable} {qs : List Part} {m m' : RuleMatch}

theorem FilledMatch.sameMatch (h : types.FilledMatch [mark] laterPlaceholder qs m m') :
    types.SameMatch qs m m' where
  mem := h.mem
  rule := h.rule
  solid := h.solid
  arguments := by
    refine h.arguments.imp_right ?_
    rintro ⟨as, has, hnumbers, hm, hm'⟩
    exact ⟨as, has.sound, hnumbers, hm, by rw [hm', spell_later]⟩

/-- The table finds the same matches in renumbered texts. -/
theorem matcher_respectsLater (ht : types.IsSteady) :
    RespectsFilling [mark] laterPlaceholder types.matcher types.SameMatch :=
  (matcher_respectsFilling ht areStops_mark fun r hr =>
    TypeRule.keepsOff_mark (ht.shape r hr).2 (ht.steady r hr)).mono FilledMatch.sameMatch

end TypeTable

end DialectBridge
