import DialectBridge.Proofs.Types.FilledChanges

/-!
# Types with and without a mask

A script is converted behind a mask, and a declared type is mapped as it stands. Both find the same types and write the
same text, if what the mask hides shows nothing of a type: no parenthesis at all, no type and no place of a name outside
of all arguments, and no blank in a size that is carried over; and if no code looks like the mask itself
(`convertText_unmasked`).
-/

namespace DialectBridge

open Masked Segment

namespace TypeTable

/-! ## What a mask may hide -/

/-- The shielded pieces of a text outside of all arguments. -/
def loose (types : TypeTable) (t : Text) : List Segment :=
  (numbers (parts (replaceMatches types.matcher (fun _ => []) (Masked.ofScript t).text))).filterMap
    ((shielded (segments t))[·]?)

/-- The shielded pieces of a text in the sizes that are carried over. -/
def carried (types : TypeTable) (t : Text) : List Segment :=
  ((allMatches types.matcher (Masked.ofScript t).text).flatMap carriedNumbers).filterMap ((shielded (segments t))[·]?)

/-- The literals, quoted names and comments in a text show nothing of a type, and the code shows no placeholder for
one of them. -/
structure ShowsNoType (types : TypeTable) (t : Text) : Prop where
  marks : shielded (segments t) ≠ [] → ∀ s ∈ segments t, s.kind = .code → mark ∉ s.text
  parens : ∀ p ∈ shielded (segments t), '(' ∉ p.text ∧ ')' ∉ p.text
  /-- Outside of arguments they name no type, and no name is expected behind them. -/
  loose : ∀ p ∈ types.loose t, types.namesType p.text = false ∧ isNamePlace p.text.reverse [] = false
  carried : ∀ p ∈ types.carried t, ∀ c ∈ p.text, isBlank c = false

/-- What is written in quotes is the first piece of the text, or it stands behind a parenthesis. -/
def QuotesFirst (t : Text) : Prop :=
  ∀ xs p ys, cells t = xs ++ p :: ys → p.kind = .literal ∨ p.kind = .quoted → xs = [] ∨ ⟨.code, ['(']⟩ ∈ xs

/-! ## The mask filled again -/

/-- What is filled in was held. -/
theorem exists_filling {ss : List Segment} {n : Nat} (hn : .held n ∈ scriptParts 0 ss) :
    ∃ p, (shielded ss)[n]? = some p ∧ filling (shielded ss) n = p.text := by
  have hlt : n < (shielded ss).length := by
    have hmem := mem_numbers.2 hn
    rw [numbers_scriptParts, List.mem_range'_1] at hmem
    omega
  exact ⟨_, List.getElem?_eq_getElem hlt, by simp [filling, Part.fill, hlt]⟩

theorem QuotesFirst.apart {t : Text} (h : QuotesFirst t) :
    QuotedApart (filling (shielded (cells t))) (scriptParts 0 (cells t)) := by
  intro xs n ys hsplit hhead
  obtain ⟨as, s, bs, hcells, hs, hfill, rfl, -⟩ := filling_held hsplit
  have hkind : s.kind = .literal ∨ s.kind = .quoted := by
    obtain ⟨c, -, u, hu, -, hcomment⟩ := (shielded_ends hcells hs).1
    rw [hfill, hu] at hhead
    have hnot : s.kind ≠ .comment := fun h => hcomment h (Option.some.inj hhead)
    cases hkind : s.kind with
    | code => exact absurd hkind hs
    | comment => exact absurd hkind hnot
    | literal => exact .inl rfl
    | quoted => exact .inr rfl
  refine (h as s bs hcells hkind).imp (fun hnil => by rw [hnil]; rfl) fun hmem => ?_
  obtain ⟨front, back, rfl⟩ := List.append_of_mem hmem
  rw [scriptParts_append]
  simp [scriptParts]

/-- A text is converted with and without a mask alike, if its shielded pieces show nothing of a type. -/
theorem convertText_unmasked {types : TypeTable} (ht : types = oracleTypes ∨ types = mysqlTypes) {t : Text}
    (hshows : types.ShowsNoType t) (hquotes : QuotesFirst t) :
    (types.convertText t).text = (types.convertScript t).text ∧
      (types.convertText t).changes.length = (types.convertScript t).changes.length := by
  by_cases hheld : shielded (segments t) = []
  · rw [convertScript_of_unmasked types hheld]
    exact ⟨rfl, rfl⟩
  obtain ⟨hmark, hparens, hloose, hcarried⟩ := hshows
  unfold TypeTable.loose at hloose
  unfold TypeTable.carried at hcarried
  rw [shielded_segments, ofScript_eq_cells] at hloose hcarried
  rw [shielded_segments] at hparens
  have hps := fills_scriptParts (hmark hheld) hparens
  have hspell : spell (filling (shielded (cells t))) (scriptParts 0 (cells t)) = t :=
    (spell_scriptParts [] (cells t)).trans (textOf_cells t)
  have hcalm (n : Nat) (hn : .held n ∈ scriptParts 0 (cells t))
      (hleft : .held n ∈ parts (replaceMatches types.matcher (fun _ => []) (render (scriptParts 0 (cells t))))) :
      Calm types (filling (shielded (cells t))) (.held n) := by
    rintro m heq
    obtain rfl := Part.held.inj heq
    obtain ⟨p, hp, hfill⟩ := exists_filling hn
    rw [hfill]
    exact hloose p (List.mem_filterMap.2 ⟨n, mem_numbers.2 hleft, hp⟩)
  have hblank : ∀ m ∈ allMatches types.matcher (render (scriptParts 0 (cells t))), ∀ n ∈ carriedNumbers m,
      ∀ c ∈ filling (shielded (cells t)) n, isBlank c = false := by
    intro m hm n hn
    cases hp : (shielded (cells t))[n]? with
    | some p =>
      rw [filling, Part.fill, hp]
      exact hcarried p (List.mem_filterMap.2 ⟨n, List.mem_flatMap.2 ⟨m, hm, hn⟩, hp⟩)
    | none =>
      rw [filling, Part.fill, hp]
      intro c hc
      rcases mem_placeholder hc with rfl | hdigit
      · decide
      · exact not_blank_of_digit hdigit
  obtain ⟨ws, hws, htext, htext', hlength⟩ := convertText_filled ht hps hquotes.apart hcalm hblank
  rw [hspell] at htext' hlength
  have hscript : (types.convertScript t).text = spell (filling (shielded (cells t))) ws := by
    rw [spell_filling, ← restore_render hws, ← htext, convertScript, ofScript_eq_cells]
  have hchanges : (types.convertScript t).changes.length =
      (types.convertText (render (scriptParts 0 (cells t)))).changes.length := by
    rw [convertScript, ofScript_eq_cells]
    exact List.length_map _
  exact ⟨htext'.trans hscript.symm, (hchanges.trans hlength).symm⟩

end TypeTable

end DialectBridge
