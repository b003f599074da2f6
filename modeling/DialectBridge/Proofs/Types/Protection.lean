import DialectBridge.Proofs.Types.RuleMatch

/-!
# What converting types keeps

Literals, quoted names and comments stand behind placeholders while types are converted. They come
back in order, but for those in arguments that a type drops with its size. The converted text has them
as its segments exactly if its pieces stand apart. A size loses its whitespace, so a line comment in
the arguments of a type can swallow the code behind it.
-/

namespace DialectBridge

open Masked Segment

namespace TypeTable

/-- The placeholders in the arguments of a match that its target does not take over. -/
def droppedNumbers (m : Match RuleMatch) : List Nat :=
  if m.value.rule.keepsSize then [] else numbers (parts (m.value.arguments.getD []))

/-- The numbers of the shielded pieces of a script that stand in dropped arguments. -/
def dropped (types : TypeTable) (script : Text) : List Nat :=
  (allMatches types.matcher (Masked.ofScript script).text).flatMap droppedNumbers

/-- The shielded pieces of a script but for those in dropped arguments. -/
def kept (types : TypeTable) (script : Text) : List Segment :=
  ((shielded (segments script)).zipIdx.filter fun entry => entry.2 ∉ types.dropped script).map Prod.fst

/-- The pieces that a converted script is put together from. -/
def convertedPieces (types : TypeTable) (script : Text) : List Segment :=
  merge ((parts (types.convertText (Masked.ofScript script).text).text).map
    (Part.fill (shielded (segments script))))

/-- A match is replaced by whole parts and keeps the placeholders in a size that it carries over. -/
theorem replaces_match {types : TypeTable} (ht : types.IsRegular) {before : Text} {qs rs : List Part}
    {m : RuleMatch} (hsound : Sound (qs ++ rs))
    (h : types.matcher before (render (qs ++ rs)) = some (render qs, m)) :
    Replaces (fun found => ((change? found).map TypeChange.written).getD found.text) droppedNumbers
      ⟨before, render qs, render rs, m⟩ qs := by
  obtain ⟨hr, -⟩ := matcher_rule h
  obtain ⟨-, qs', rs', hqs, htaken, hcases⟩ := matcher_parts ht hsound h
  obtain rfl : qs = qs' := by
    rw [← parts_render (sound_append.1 hsound).1, htaken, parts_render]
    rw [hqs] at hsound
    exact (sound_append.1 hsound).1
  have htarget : Sound (m.rule.target.map .code) := by
    have := ht _ hr
    simp only [TypeRule.isRegular, Bool.and_eq_true, Bool.not_eq_true'] at this
    simpa [Sound] using this.2
  rcases hcases with ⟨hnone, hnumbers⟩ | ⟨as, has, hsome, hnumbers⟩
  · -- without arguments there is nothing to drop
    have hdropped : droppedNumbers ⟨before, render qs, render rs, m⟩ = [] := by
      unfold droppedNumbers
      split
      · rfl
      · rw [hnone]
        rfl
    rw [Replaces, hdropped, hnumbers]
    refine ⟨List.nil_subset _, ?_⟩
    by_cases hplace : (change? ⟨before, render qs, render rs, m⟩).isNone
    · refine ⟨qs, (sound_append.1 hsound).1, ?_, by simpa using hnumbers⟩
      rw [Option.isNone_iff_eq_none.1 hplace]
      rfl
    · refine ⟨m.rule.target.map .code, htarget, ?_, by simp⟩
      have hchange : change? ⟨before, render qs, render rs, m⟩ = some ⟨render qs, m.written⟩ := by
        unfold change? at hplace ⊢
        split
        · next hname => exact absurd (by simp [hname]) hplace
        · rfl
      rw [hchange, render_map_code]
      simp [RuleMatch.written, hnone]
  · -- arguments make the word a type
    have hchange : change? ⟨before, render qs, render rs, m⟩ = some ⟨render qs, m.written⟩ := by
      simp [change?, hsome]
    rw [Replaces, hchange, ← hnumbers]
    cases hkeeps : m.rule.keepsSize with
    | false =>
      have hdropped : droppedNumbers ⟨before, render qs, render rs, m⟩ = numbers as := by
        simp [droppedNumbers, hkeeps, hsome, parts_render has]
      rw [hdropped]
      refine ⟨List.Subset.refl _, m.rule.target.map .code, htarget, ?_, ?_⟩
      · simp [RuleMatch.written, hsome, hkeeps, render_map_code]
      · rw [numbers_map_code, List.filter_eq_nil_iff.2 (by simp)]
    | true =>
      have hdropped : droppedNumbers ⟨before, render qs, render rs, m⟩ = [] := by
        simp [droppedNumbers, hkeeps]
      obtain ⟨ws, hws, hws', hcarried, -⟩ := carriedSize_later has
      rw [hdropped]
      refine ⟨List.nil_subset _, m.rule.target.map .code ++ ws, sound_append.2 ⟨htarget, hws⟩, ?_, ?_⟩
      · simp [RuleMatch.written, hsome, hkeeps, render_map_code, hcarried]
      · rw [List.filter_eq_self.2 (by simp), numbers_append, numbers_map_code, List.nil_append, hws']

/-- The shielded pieces among filled parts are those whose placeholders are left. -/
theorem shielded_map_fill {held : List Segment} (h : ∀ p ∈ held, p.kind ≠ .code) (ps : List Part) :
    shielded (ps.map (Part.fill held)) = (numbers ps).filterMap (held[·]?) := by
  induction ps with
  | nil => rfl
  | cons p ps ih =>
    rw [List.map_cons, ← List.singleton_append, shielded_append, ih]
    cases p with
    | code c => rfl
    | held n =>
      cases hn : held[n]? with
      | none => simp [Part.fill, hn, shielded, numbers, Part.number?]
      | some p =>
        have hp := h p (List.mem_of_getElem? hn)
        simp [Part.fill, hn, shielded, numbers, Part.number?, hp]

/-- Selecting entries by their numbers is selecting them by their places. -/
theorem filterMap_getElem? {β : Type} (q : Nat → Bool) (front back : List β) :
    ((List.range' front.length back.length).filter q).filterMap ((front ++ back)[·]?) =
      ((back.zipIdx front.length).filter fun entry => q entry.2).map Prod.fst := by
  induction back generalizing front with
  | nil => rfl
  | cons b back ih =>
    have ih := ih (front ++ [b])
    simp only [List.length_append, List.length_singleton, List.append_assoc, List.singleton_append] at ih
    rw [List.length_cons, List.range'_succ, List.zipIdx_cons, List.filter_cons, List.filter_cons]
    by_cases hq : q front.length = true
    · simp [hq, ih]
    · simp [hq, ih]

/-- The pieces make up the converted script, and the shielded ones are those that are kept. -/
theorem convertedPieces_spec {types : TypeTable} (ht : types.IsRegular) {script : Text}
    (hmark : mark ∉ script) :
    textOf (types.convertedPieces script) = (types.convertScript script).text ∧
      shielded (types.convertedPieces script) = types.kept script := by
  have hmasked : Masked.ofScript script =
      ⟨render (scriptParts 0 (segments script)), (shielded (segments script)).map Segment.text⟩ :=
    ofSegments_eq 0 (segments script)
  have hshielded : ∀ p ∈ shielded (segments script), p.kind ≠ .code := by simp [shielded]
  have hne : ∀ p ∈ shielded (segments script), p.text ≠ [] := fun p hp => by
    have hmem : p ∈ merge (cells script) := by
      rw [merge_cells]
      exact (List.mem_filter.1 hp).1
    exact mem_merge_text_ne_nil hmem
  have hsound : Sound (scriptParts 0 (segments script)) :=
    sound_scriptParts (by rwa [segments_text]) 0
  have hnodup : (numbers (scriptParts 0 (segments script))).Nodup := by
    rw [numbers_scriptParts]
    exact List.nodup_range'
  obtain ⟨ws, hws, hconverted, hnumbers⟩ :=
    replaceMatches_render (matcher_respects ht) (replaces_match ht) hsound hnodup
  have htext : (types.convertText (Masked.ofScript script).text).text = render ws := by
    rw [hmasked]
    exact hconverted
  have hpieces : types.convertedPieces script =
      merge (ws.map (Part.fill (shielded (segments script)))) := by
    rw [convertedPieces, htext, parts_render hws]
  constructor
  · have hrestore := restore_render hws (shielded (segments script))
    have hheld : (Masked.ofScript script).held = (shielded (segments script)).map Segment.text := by
      rw [hmasked]
    rw [hpieces, textOf_merge, ← hrestore, ← hheld, ← htext]
    rfl
  · rw [hpieces, shielded_merge, shielded_map_fill hshielded, hnumbers, numbers_scriptParts, kept]
    · have := filterMap_getElem? (· ∉ types.dropped script) [] (shielded (segments script))
      simpa [dropped, hmasked] using this
    · intro p hp hk
      obtain ⟨part, -, rfl⟩ := List.mem_map.1 hp
      cases part with
      | code c => exact absurd rfl hk
      | held n =>
        cases hn : (shielded (segments script))[n]? with
        | none => simp [Part.fill, hn] at hk
        | some q =>
          rw [Part.fill, hn]
          exact hne q (List.mem_of_getElem? hn)

/-- Converting the types of a script keeps its literals, quoted names and comments, but for those in
dropped arguments, among the pieces that it puts together. These are the segments of the converted
script exactly if no two neighbouring ones run into each other. -/
theorem convertScript_keeps_shielded {types : TypeTable} (ht : types = oracleTypes ∨ types = mysqlTypes)
    {script : Text} (hmark : mark ∉ script) :
    (segments (types.convertScript script).text = types.convertedPieces script ↔
      StandApart (types.convertedPieces script)) ∧
    shielded (types.convertedPieces script) = types.kept script ∧
    (StandApart (types.convertedPieces script) →
      shielded (segments (types.convertScript script).text) = types.kept script) := by
  have hregular : types.IsRegular := by
    rcases ht with rfl | rfl
    · exact TypeRule.oracle_regular
    · exact TypeRule.mysql_regular
  obtain ⟨htext, hkept⟩ := convertedPieces_spec hregular hmark
  have hiff : segments (types.convertScript script).text = types.convertedPieces script ↔
      StandApart (types.convertedPieces script) := by
    rw [← htext]
    exact segments_textOf_iff _
  exact ⟨hiff, hkept, fun h => by rw [hiff.2 h, hkept]⟩

theorem convertScript_keeps_default :
    mark ∉ ("a NUMBER(10) DEFAULT '1' -- c".toList : Text) ∧
      shielded (segments (oracleTypes.convertScript "a NUMBER(10) DEFAULT '1' -- c").text) =
        oracleTypes.kept "a NUMBER(10) DEFAULT '1' -- c" :=
  ⟨by decide, (convertScript_keeps_shielded (.inl rfl) (by decide)).2.2 (by decide +kernel)⟩

/-- A size drops the line break behind a comment in it, and the code behind the size becomes a part of
the comment. -/
theorem convertScript_extends_comment :
    oracleTypes.kept "a VARCHAR2(10 -- c\n) b" = [⟨.comment, "-- c"⟩] ∧
      shielded (segments (oracleTypes.convertScript "a VARCHAR2(10 -- c\n) b").text) =
        [⟨.comment, "-- c) b"⟩] := by
  decide +kernel

end TypeTable

end DialectBridge
