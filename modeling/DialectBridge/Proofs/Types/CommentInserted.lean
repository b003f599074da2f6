import DialectBridge.Proofs.Types.CutMask
import DialectBridge.Proofs.Types.Protection
import DialectBridge.Proofs.Types.TypesAhead

/-!
# Comments behind an opening parenthesis or a comma

A block comment that is put between spaces behind an opening parenthesis or a comma, outside the arguments
of a type, appears in the same place of the converted script, and nothing else changes, unless a bare type
word follows the sign: such a word is a name behind the sign, but not behind the comment
(`convertScript_comment`).
-/

namespace DialectBridge

open Masked Segment

namespace TypeTable

/-! ## Where the sign stands -/

/-- A changed type goes on over the end of `front`. -/
def SplitsType (types : TypeTable) (front rest : Text) : Prop :=
  ∃ m ∈ allMatches types.matcher (Masked.ofScript (front ++ rest)).text, (change? m).isSome = true ∧
    m.before.length < (Masked.ofScript front).text.length ∧
    (Masked.ofScript front).text.length < m.before.length + m.text.length

/-- The next thing behind `front` is a bare type word that only its place makes a name. -/
def NamesNext (types : TypeTable) (front rest : Text) : Prop :=
  ∃ m ∈ allMatches types.matcher (Masked.ofScript (front ++ rest)).text,
    NamedAt (Masked.ofScript front).text.reverse m

/-- A type behind `front` takes over a size with a placeholder in it. -/
def CarriesBehind (types : TypeTable) (front rest : Text) : Prop :=
  ∃ m ∈ allMatches types.matcher (Masked.ofScript (front ++ rest)).text,
    (Masked.ofScript front).text.length ≤ m.before.length ∧ (change? m).any (fun c => c.written.contains mark) = true

instance (types : TypeTable) (front rest : Text) : Decidable (types.SplitsType front rest) :=
  inferInstanceAs (Decidable (∃ m ∈ _, _))

instance (types : TypeTable) (front rest : Text) : Decidable (types.NamesNext front rest) :=
  inferInstanceAs (Decidable (∃ m ∈ _, _))

instance (types : TypeTable) (front rest : Text) : Decidable (types.CarriesBehind front rest) :=
  inferInstanceAs (Decidable (∃ m ∈ _, _))

section

variable {types : TypeTable}

/-- A bare match holds no sign. -/
theorem bare_avoids (ht : types.IsSteady) {before after taken x : Text} {m : RuleMatch}
    (h : types.matcher before after = some (taken, m)) (hbare : isBareMatch ⟨before, taken, x, m⟩ = true) :
    ∀ c ∈ ['(', ','], c ∉ taken := by
  intro c hc
  obtain ⟨hr, captures, hmatch, harguments⟩ := matcher_rule h
  obtain ⟨hnone, hsource⟩ : m.arguments = none ∧ m.rule.sourceHasArguments = false := by
    simpa [isBareMatch] using hbare
  obtain ⟨havoids, hleadFree, hbackFree⟩ := TypeRule.isSteady_iff.1 (ht.steady _ hr)
  obtain ⟨hlead, hback⟩ := havoids c (List.mem_append_left [mark] hc)
  rw [TypeRule.lead, if_neg (by simp [hsource])] at hlead hleadFree
  obtain ⟨t, hreach, htaken, -, hcaptured⟩ := Pattern.matcher_reaches hmatch
  obtain ⟨u, v, hu, hv, ht⟩ := TypeRule.reaches_pattern hreach
  obtain ⟨f, hf, -, hfront⟩ := hu.avoids hlead
  obtain ⟨b, hb, -, hbehind⟩ := ht.avoids hback
  rcases TypeRule.reaches_arguments hv with rfl | ⟨y, -, hy⟩
  · obtain rfl : taken = f ++ b := by
      refine List.append_cancel_right (htaken.symm.trans (hf.trans ?_))
      rw [hb, List.append_assoc]
    simp [hfront, hbehind]
  · -- arguments would have been found
    have hfree : u.captured = [] := hu.captured hleadFree
    rw [← hcaptured, ht.captured hbackFree, hy, hfree] at harguments
    have hne : (y ++ [')']).isEmpty = false := by simp
    simp [hnone, captured, Option.filter, hne] at harguments

/-- What goes on over a sign is a type with arguments. -/
theorem changed_of_over (ht : types.IsSteady) {f back : Text} (hf : EndsInSign f) {m : Match RuleMatch}
    (hm : Cut.found m ∈ cut types.matcher (f ++ back)) (hlt : m.before.length < f.length)
    (hover : f.length < m.before.length + m.text.length) : (change? m).isSome = true := by
  obtain ⟨hmatch, htext⟩ := Cut.matcher_of_found (matcher_takesPrefix types) hm
  rw [List.reverse_nil, List.nil_append] at htext
  obtain ⟨u, rfl, hu⟩ : ∃ u, f = m.before.reverse ++ u ∧ m.text ++ m.after = u ++ back := by
    rcases List.append_eq_append_iff.1 htext with ⟨u, hf, hu⟩ | ⟨u, hbefore, -⟩
    · exact ⟨u, hf, hu⟩
    · have := congrArg List.length hbefore
      simp only [List.length_reverse, List.length_append] at this
      omega
  obtain ⟨v, hv⟩ : ∃ v, m.text = u ++ v := by
    rcases List.append_eq_append_iff.1 hu with ⟨v, hv, -⟩ | ⟨v, hv, -⟩
    · have := congrArg List.length hv
      simp only [List.length_reverse, List.length_append] at this hlt hover
      omega
    · exact ⟨v, hv⟩
  have hsign : '(' ∈ m.text ∨ ',' ∈ m.text := by
    have hne : u ≠ [] := by
      rintro rfl
      simp at hlt
    rw [hv, List.mem_append, List.mem_append]
    exact (hf.right hne).mem.imp .inl .inl
  have hbare : isBareMatch m = false := by
    rw [Bool.eq_false_iff]
    intro hbare
    have hnot := bare_avoids ht hmatch hbare
    exact hsign.elim (hnot '(' (by simp)) (hnot ',' (by simp))
  rw [change?_eq, hbare]
  rfl

/-! ## Pieces in front of the comment and behind it -/

theorem not_paren_comment (k : Nat) : ')' ∉ render (commentParts k) := by
  simp [commentParts, Part.text, mem_placeholder_iff (c := ')') (by decide) k]
  decide

/-- Behind the comment arguments are closed where they are without it. -/
theorem detached_comment {rs : List Part} (hrs : Sound rs) (k : Nat) :
    TypeRule.Detached (render rs) (render (commentParts k ++ rs.map Part.later)) where
  start := by
    intro c hc
    obtain rfl : mark = c := Option.some.inj hc
    rfl
  closes {y z} h hopen hclose := by
    rw [render_append] at h
    obtain ⟨y, rfl, hbehind⟩ := TypeRule.append_paren_behind h (not_paren_comment k)
    obtain ⟨as', zs', hsplit, rfl, rfl⟩ := render_eq_append_cons (by decide) (by decide) hbehind
    obtain ⟨as, rest, rfl, rfl, hrest⟩ := List.map_eq_append_iff.1 hsplit
    obtain ⟨p, zs, rfl, hp, rfl⟩ := List.map_eq_cons_iff.1 hrest
    obtain rfl := Part.later_eq_code.1 hp
    rw [List.mem_append, not_or, mem_render_later (by decide)] at hopen hclose
    exact ⟨as, zs, (sound_cons.1 (sound_append.1 hrs).2).2, by simp [Part.text], hopen.2, hclose.2, rfl⟩

/-- No type starts in the comment. -/
theorem pieces_comment (ht : types.IsSteady) (k : Nat) (fresh : Bool) (before rest : Text) :
    Cut.pieces types.matcher 0 fresh before (render (commentParts k) ++ rest) =
      (render (commentParts k)).map .copied ++
        Cut.pieces types.matcher 0 true ((render (commentParts k)).reverse ++ before) rest := by
  refine Cut.pieces_copied (fun c hc before after => ?_) (List.cons_ne_nil _ _) rest
  have hplaceholder (hc : c ∈ placeholder k) : types.matcher before (c :: after) = none := by
    cases hmatch : types.matcher before (c :: after) with
    | none => rfl
    | some found =>
      obtain ⟨hmark, hdigit⟩ := (matcher_respects ht.regular).start hmatch
      rcases mem_placeholder hc with hc | hc
      · exact absurd hc hmark
      · rw [hdigit] at hc
        cases hc
  have hparts : c = ' ' ∨ c ∈ placeholder k := by
    simpa [commentParts, Part.text, or_comm] using hc
  rcases hparts with rfl | hc
  · exact matcher_blank ht (by decide) before after
  · exact hplaceholder hc

/-- The comment stands between the sign and what follows. -/
theorem commentBetween {f : Text} (hf : EndsInSign f) (k : Nat) :
    CommentBetween f.reverse ((render (commentParts k)).reverse ++ f.reverse) := by
  have hplaceholder : ∃ u, (render (commentParts k)).reverse ++ f.reverse = ' ' :: mark :: u := by
    simp [commentParts, Part.text, placeholder]
  obtain ⟨u, hu⟩ := hplaceholder
  have hword {c : Char} (hc : (isAlphanumeric c || c == '_') = false) (t : Text) : wordBefore (c :: t) = [] := by
    rw [wordBefore, List.takeWhile_cons_of_neg (by simp [hc])]
    rfl
  obtain ⟨c, t, hreverse, hc⟩ := hf.reverse
  have hblank : isBlank c = false := by rcases hc with rfl | rfl <;> decide
  have hsign : (isAlphanumeric c || c == '_') = false := by rcases hc with rfl | rfl <;> decide +kernel
  constructor
  · rw [hreverse, trimStart_cons hblank]
    exact hc.imp (congrArg some) (congrArg some)
  · rw [hu, trimStart_blank (by decide), trimStart_cons (by decide)]
    rfl
  · rw [SameWord, hu, hreverse, hword hsign, hword (by decide +kernel)]

/-- The pieces of a masked script that is cut behind a sign, `cs` in front of the cut and `ds` behind it, and
those of the script with the comment. The pieces in front of the cut are converted to `ws`. -/
structure CommentedCut (types : TypeTable) (fs rs : List Part) (k : Nat) (cs ds cs' ds' : List (Cut RuleMatch))
    (ws : List Part) : Prop where
  whole : cut types.matcher (render (fs ++ rs)) = cs ++ ds
  commented : cut types.matcher (render (fs ++ (commentParts k ++ rs.map Part.later))) =
    cs' ++ ((render (commentParts k)).map .copied ++ ds')
  ahead : ∀ m, Cut.found m ∈ cs → m.before.length < (render fs).length
  behind : ∀ m, Cut.found m ∈ ds → (render fs).length ≤ m.before.length
  alone : (types.convertText (render fs)).text = render ws
  sound : Sound ws ∧ numbers ws ⊆ numbers fs
  text : cs.flatMap convertedPiece = render ws ∧ cs'.flatMap convertedPiece = render ws
  changes : changesOf cs' = changesOf cs
  found : ∀ c ∈ changesOf cs, ∃ qs, Sound qs ∧ numbers qs ⊆ numbers fs ∧ c.found = render qs
  same : SameCuts types.SameMatch (render fs).reverse ((render (commentParts k)).reverse ++ (render fs).reverse) [] rs
    ds ds'
  converted : ∃ vs, Sound vs ∧ numbers vs ⊆ numbers rs ∧ ds.flatMap convertedPiece = render vs

theorem flatMap_writeCut (cs : List (Cut RuleMatch)) :
    cs.flatMap (writeCut fun found => ((change? found).map TypeChange.written).getD found.text) =
      cs.flatMap convertedPiece :=
  congrArg (fun f => cs.flatMap f) (funext fun piece => by cases piece <;> rfl)

theorem exists_commentedCut (ht : types.IsSteady) {fs rs : List Part} (hsign : EndsInSign (render fs))
    (hfs : Sound fs) (hrs : Sound rs) (hnodup : (numbers fs).Nodup ∧ (numbers rs).Nodup) (k : Nat)
    (hsplit : ∀ m, Cut.found m ∈ cut types.matcher (render (fs ++ rs)) → (change? m).isSome = true →
      m.before.length < (render fs).length → m.before.length + m.text.length ≤ (render fs).length) :
    ∃ cs ds cs' ds' ws, CommentedCut types fs rs k cs ds cs' ds' ws := by
  rw [render_append] at hsplit
  have hprefix := matcher_takesPrefix types
  have hover : ∀ m, Cut.found m ∈ Cut.pieces types.matcher 0 true [] (render fs ++ render rs) →
      m.before.length < (render fs).length → m.before.length + m.text.length ≤ (render fs).length := by
    intro m hm hlt
    refine Decidable.byContradiction fun hlong => ?_
    exact hlong (hsplit m hm (changed_of_over ht hsign hm hlt (by omega)) hlt)
  obtain ⟨cs, fresh, hcut, hsame⟩ := pieces_ahead ht (.inr hsign) true [] (by simpa using hover)
  obtain ⟨cs₀, hsame₀, hcut₀⟩ := hsame [] (detached_nil _)
  obtain ⟨cs', hsame', hcut'⟩ := hsame _ (detached_comment hrs k)
  rw [List.append_nil] at hcut hcut₀ hcut'
  rw [Cut.pieces_nil ((matcher_respects ht.regular).nil _), List.append_nil] at hcut₀
  rw [render_append, pieces_comment ht] at hcut'
  obtain ⟨ws, hws, hconverted, hnumbers⟩ :=
    replaceMatches_render (matcher_respects ht.regular) (replaces_match ht.regular) hfs hnodup.1
  have halone : (types.convertText (render fs)).text = render ws := hconverted
  have htext : cs₀.flatMap convertedPiece = render ws := by
    rw [← halone, text_convertText, cut, hcut₀]
  obtain ⟨-, vs, hvs, hbehind, hkept⟩ :=
    writes_pieces (matcher_respects ht.regular) (replaces_match ht.regular) rs hrs hnodup.2 fresh (render fs).reverse
  rw [flatMap_writeCut] at hbehind
  have hedge : (render fs).reverse.head?.any isWordCharacter =
      ((render (commentParts k)).reverse ++ (render fs).reverse).head?.any isWordCharacter := by
    obtain ⟨c, t, hreverse, hc⟩ := hsign.reverse
    have hspace : ((render (commentParts k)).reverse ++ (render fs).reverse).head? = some ' ' := by
      simp [commentParts, Part.text]
    have hword : isWordCharacter c = false := by rcases hc with rfl | rfl <;> decide +kernel
    rw [hspace, hreverse]
    exact hword.trans (by decide +kernel)
  refine ⟨cs, Cut.pieces types.matcher 0 fresh (render fs).reverse (render rs), cs', Cut.pieces types.matcher 0 true
    ((render (commentParts k)).reverse ++ (render fs).reverse) (render (rs.map Part.later)), ws, ?_⟩
  constructor
  case whole =>
    rw [render_append]
    exact hcut
  case commented =>
    rw [render_append, render_append]
    exact hcut'
  case ahead =>
    intro m hm
    obtain ⟨g, hg, hafter⟩ := hsame₀.after hm
    have hmem : Cut.found m ∈ cut types.matcher (render fs ++ render rs) := by
      rw [cut, hcut]
      exact List.mem_append_left _ hm
    have hlength := congrArg List.length (Cut.matcher_of_found hprefix hmem).2
    have hpos := List.length_pos_iff.2 hg.ne_nil
    simp only [hafter, List.length_append, List.length_reverse, List.length_nil] at hlength
    omega
  case behind =>
    intro m hm
    obtain ⟨-, front, hbefore, -⟩ := Cut.exists_front_of_found hprefix hm
    simp [hbefore]
  case alone => exact halone
  case sound =>
    refine ⟨hws, fun n hn => ?_⟩
    rw [hnumbers] at hn
    exact (List.mem_filter.1 hn).1
  case text =>
    rw [← hsame'.converted.1, hsame₀.converted.1]
    exact ⟨htext, htext⟩
  case changes => exact hsame'.converted.2.symm
  case found =>
    intro c hc
    rw [hsame₀.converted.2, ← hcut₀] at hc
    obtain ⟨m, hm, hchange⟩ := mem_changesOf.1 hc
    have hcuts : SameCuts types.SameMatch [] [] [] fs (Cut.pieces types.matcher 0 true [] (render fs)) _ :=
      pieces_later (matcher_respectsLater ht) rfl hfs true true
    obtain ⟨qs, hqs, htext⟩ := hcuts.text_parts hm
    refine ⟨qs, fun hmem => hfs (hqs hmem), fun n hn => ?_, (found_of_change hchange).trans htext⟩
    obtain ⟨p, hp, hnumber⟩ := List.mem_filterMap.1 hn
    exact List.mem_filterMap.2 ⟨p, hqs hp, hnumber⟩
  case same => exact pieces_later (matcher_respectsLater ht) hedge hrs fresh true
  case converted =>
    refine ⟨vs, hvs, fun n hn => ?_, hbehind⟩
    rw [hkept] at hn
    exact (List.mem_filter.1 hn).1

/-! ## Converted scripts -/

section

variable {front rest comment : Text} {fs rs ws : List Part} {held heldBehind : List Segment}
  {cs ds cs' ds' : List (Cut RuleMatch)}

theorem CommentedCut.text_front (h : CommentedCut types fs rs held.length cs ds cs' ds' ws)
    (hmask : CutMask front rest comment fs rs held heldBehind) :
    (types.convertScript front).text = textOf (ws.map (Part.fill held)) := by
  show restore (Masked.ofScript front).held (types.convertText (Masked.ofScript front).text).text = _
  rw [hmask.ahead, h.alone, restore_render h.sound.1]

theorem CommentedCut.fill_front (h : CommentedCut types fs rs held.length cs ds cs' ds' ws)
    (hmask : CutMask front rest comment fs rs held heldBehind) (more : List Segment) :
    ws.map (Part.fill (held ++ more)) = ws.map (Part.fill held) :=
  Masked.fill_front (fun n hn => hmask.number_lt n (h.sound.2 hn)) more

/-- The script is converted in front of the cut and behind it. -/
theorem CommentedCut.text_whole (h : CommentedCut types fs rs held.length cs ds cs' ds' ws)
    (hmask : CutMask front rest comment fs rs held heldBehind) {vs : List Part} (hvs : Sound vs)
    (hbehind : ds.flatMap convertedPiece = render vs) :
    (types.convertScript (front ++ rest)).text =
      (types.convertScript front).text ++ textOf (vs.map (Part.fill (held ++ heldBehind))) := by
  have htext : (types.convertText (render (fs ++ rs))).text = render (ws ++ vs) := by
    rw [text_convertText, h.whole, List.flatMap_append, h.text.1, hbehind, render_append]
  show restore (Masked.ofScript (front ++ rest)).held (types.convertText (Masked.ofScript (front ++ rest)).text).text = _
  rw [hmask.whole, htext, restore_render (sound_append.2 ⟨h.sound.1, hvs⟩), List.map_append, textOf_append,
    h.fill_front hmask, h.text_front hmask]

/-- Where the same is converted behind the comment, it comes to stand behind the same comment. -/
theorem CommentedCut.text_commented (h : CommentedCut types fs rs held.length cs ds cs' ds' ws)
    (hmask : CutMask front rest comment fs rs held heldBehind) {vs : List Part} (hvs : Sound vs)
    (hnumbers : numbers vs ⊆ numbers rs) (hbehind : ds'.flatMap convertedPiece = render (vs.map Part.later)) :
    (types.convertScript (front ++ ' ' :: (comment ++ ' ' :: rest))).text =
      (types.convertScript front).text ++
        ' ' :: (comment ++ ' ' :: textOf (vs.map (Part.fill (held ++ heldBehind)))) := by
  let k := held.length
  let commented := front ++ ' ' :: (comment ++ ' ' :: rest)
  have htext : (types.convertText (render (fs ++ (commentParts k ++ rs.map Part.later)))).text =
      render (ws ++ (commentParts k ++ vs.map Part.later)) := by
    rw [text_convertText, h.commented, List.flatMap_append, List.flatMap_append, h.text.2, flatMap_copied, hbehind,
      render_append, render_append]
  have hsound : Sound (ws ++ (commentParts k ++ vs.map Part.later)) := by
    refine sound_append.2 ⟨h.sound.1, sound_append.2 ⟨?_, sound_later.2 hvs⟩⟩
    simp [Sound, commentParts]
    decide
  have hcomment : (commentParts k).map (Part.fill (held ++ ⟨.comment, comment⟩ :: heldBehind)) =
      [⟨.code, [' ']⟩, ⟨.comment, comment⟩, ⟨.code, [' ']⟩] := by
    simp [commentParts, Part.fill, k]
  show restore (Masked.ofScript commented).held (types.convertText (Masked.ofScript commented).text).text = _
  rw [hmask.commented, htext, restore_render hsound, List.map_append, List.map_append, hcomment,
    fill_later fun n hn => hmask.number_behind n (hnumbers hn), h.fill_front hmask, h.text_front hmask]
  simp

/-- The found text of a change with what is held given back. -/
def restoreFound (held : List Segment) (c : TypeChange) : TypeChange :=
  { c with found := restore (held.map Segment.text) c.found }

theorem CommentedCut.changes_whole (h : CommentedCut types fs rs held.length cs ds cs' ds' ws)
    (hmask : CutMask front rest comment fs rs held heldBehind) :
    (types.convertScript (front ++ rest)).changes =
      (changesOf cs).map (restoreFound (held ++ heldBehind)) ++
        (changesOf ds).map (restoreFound (held ++ heldBehind)) := by
  have hchanges : (types.convertText (render (fs ++ rs))).changes = changesOf cs ++ changesOf ds := by
    rw [← changesOf_append, ← h.whole]
    rfl
  rw [← List.map_append, ← hchanges]
  show ((types.convertText (Masked.ofScript (front ++ rest)).text).changes).map _ = _
  rw [hmask.whole]
  rfl

/-- In front of the comment the changes are the same. -/
theorem CommentedCut.changes_commented (h : CommentedCut types fs rs held.length cs ds cs' ds' ws)
    (hmask : CutMask front rest comment fs rs held heldBehind) :
    (types.convertScript (front ++ ' ' :: (comment ++ ' ' :: rest))).changes =
      (changesOf cs).map (restoreFound (held ++ heldBehind)) ++
        (changesOf ds').map (restoreFound (held ++ ⟨.comment, comment⟩ :: heldBehind)) := by
  have hchanges : (types.convertText (render (fs ++ (commentParts held.length ++ rs.map Part.later)))).changes =
      changesOf cs ++ changesOf ds' := by
    rw [← h.changes, ← changesOf_copied (render (commentParts held.length)) ds', ← changesOf_append, ← h.commented]
    rfl
  have hfront : (changesOf cs).map (restoreFound (held ++ heldBehind)) =
      (changesOf cs).map (restoreFound (held ++ ⟨.comment, comment⟩ :: heldBehind)) := by
    refine List.map_congr_left fun c hc => ?_
    obtain ⟨qs, hqs, hnumbers, hfound⟩ := h.found c hc
    have hfill (more : List Segment) :=
      Masked.fill_front (fun n hn => hmask.number_lt n (hnumbers hn)) more
    rw [restoreFound, restoreFound, hfound, restore_render hqs, restore_render hqs, hfill, hfill]
  rw [hfront, ← List.map_append, ← hchanges]
  show ((types.convertText (Masked.ofScript (front ++ ' ' :: (comment ++ ' ' :: rest))).text).changes).map _ = _
  rw [hmask.commented]
  rfl

/-- Where the same is converted behind the comment, the changes are the same, unless one of them writes a
placeholder. -/
theorem changes_eq_iff (hmask : CutMask front rest comment fs rs held heldBehind) {vs : List Part}
    {us : List PartChange} (h : ConvertsAlike rs ds ds' vs us) :
    (changesOf ds').map (restoreFound (held ++ ⟨.comment, comment⟩ :: heldBehind)) =
        (changesOf ds).map (restoreFound (held ++ heldBehind)) ↔ ∀ c ∈ changesOf ds, mark ∉ c.written := by
  rw [h.changes, h.changes', List.map_map, List.map_map, List.map_inj_left, List.forall_mem_map]
  refine forall₂_congr fun u hu => ?_
  obtain ⟨⟨hfound, hnumbers⟩, hwritten, -⟩ := h.within u hu
  have hsame : restore ((held ++ ⟨.comment, comment⟩ :: heldBehind).map Segment.text)
      (render (u.found.map Part.later)) = restore ((held ++ heldBehind).map Segment.text) (render u.found) := by
    rw [restore_render (sound_later.2 hfound), restore_render hfound,
      fill_later fun n hn => hmask.number_behind n (hnumbers hn)]
  simp only [Function.comp_apply, restoreFound, PartChange.now, PartChange.next, hsame, TypeChange.mk.injEq,
    true_and]
  exact render_later_eq_iff hwritten

theorem CommentedCut.namesNext_iff (h : CommentedCut types fs rs held.length cs ds cs' ds' ws)
    (hmask : CutMask front rest comment fs rs held heldBehind) :
    types.NamesNext front rest ↔ ∃ m, Cut.found m ∈ ds ∧ NamedAt (render fs).reverse m := by
  unfold NamesNext allMatches
  simp only [Cut.mem_filterMap_match?, hmask.whole, hmask.ahead, h.whole]
  refine exists_congr fun m => ?_
  rw [List.mem_append]
  refine and_congr_left fun hnamed => ⟨fun hm => hm.resolve_left fun hm => ?_, .inr⟩
  -- in front of the cut nothing follows it
  obtain ⟨blanks, hbefore, -⟩ := hnamed.first
  have hlt := h.ahead m hm
  have hlength := congrArg List.length hbefore
  rw [List.length_append, List.length_reverse] at hlength
  omega

theorem CommentedCut.carriesBehind_iff (h : CommentedCut types fs rs held.length cs ds cs' ds' ws)
    (hmask : CutMask front rest comment fs rs held heldBehind) :
    types.CarriesBehind front rest ↔ ∃ c ∈ changesOf ds, mark ∈ c.written := by
  unfold CarriesBehind allMatches
  simp only [Cut.mem_filterMap_match?, Option.any_eq_true, List.contains_iff_mem, hmask.whole, hmask.ahead, h.whole]
  constructor
  · rintro ⟨m, hm, hle, c, hc, hmark⟩
    refine ⟨c, mem_changesOf.2 ⟨m, (List.mem_append.1 hm).resolve_left fun hm => ?_, hc⟩, hmark⟩
    have hlt := h.ahead m hm
    omega
  · rintro ⟨c, hc, hmark⟩
    obtain ⟨m, hm, hchange⟩ := mem_changesOf.1 hc
    exact ⟨m, List.mem_append_right cs hm, h.behind m hm, c, hchange, hmark⟩

end

end

/-- A block comment between spaces behind an opening parenthesis or a comma that does not stand in the
arguments of a type changes the converted script by this comment alone, unless a bare type word follows
directly. The list of changes stays the same if neither that happens nor a size with a placeholder in it is
taken over behind the comment. -/
theorem convertScript_comment {types : TypeTable} (h : types = oracleTypes ∨ types = mysqlTypes)
    {front rest comment : Text} (hmark : mark ∉ front ++ rest) (hcut : CutBehindSign front rest)
    (hsplit : ¬ types.SplitsType front rest) (hcomment : IsBlockComment comment) :
    ∃ back, (types.convertScript (front ++ rest)).text = (types.convertScript front).text ++ back ∧
      (¬ types.NamesNext front rest →
        (types.convertScript (front ++ ' ' :: (comment ++ ' ' :: rest))).text =
          (types.convertScript front).text ++ ' ' :: (comment ++ ' ' :: back)) ∧
      ((types.convertScript (front ++ ' ' :: (comment ++ ' ' :: rest))).changes =
          (types.convertScript (front ++ rest)).changes ↔
        ¬ types.NamesNext front rest ∧ ¬ types.CarriesBehind front rest) := by
  have ht := isSteady_of_eq h
  obtain ⟨fs, rs, held, heldBehind, hmask⟩ := exists_cutMask hcut hmark hcomment
  have hsign : EndsInSign (render fs) := by
    obtain ⟨gs, c, rfl, hc⟩ := hmask.sign
    unfold EndsInSign
    rcases hc with rfl | rfl <;> simp [Part.text]
  obtain ⟨cs, ds, cs', ds', ws, hpieces⟩ := exists_commentedCut ht hsign hmask.sound.1 hmask.sound.2 hmask.nodup
    held.length fun m hm hsome hlt => by
      refine Decidable.byContradiction fun hlong => hsplit ⟨m, ?_, hsome, ?_, ?_⟩
      · rw [hmask.whole]
        exact Cut.mem_filterMap_match?.2 hm
      · rwa [hmask.ahead]
      · rw [hmask.ahead]
        exact Nat.lt_of_not_le hlong
  have hbetween := commentBetween hsign held.length
  have hnext := hpieces.namesNext_iff hmask
  obtain ⟨vs, hvs, hnumbers, hbehind⟩ := hpieces.converted
  refine ⟨_, hpieces.text_whole hmask hvs hbehind, fun hnot => ?_, ?_⟩
  · obtain ⟨vs', us, halike⟩ := changes_later ht hbetween hpieces.same hmask.sound.2 fun m hm hnamed =>
      hnot (hnext.2 ⟨m, hm, hnamed⟩)
    obtain rfl := render_inj hvs halike.sound (hbehind.symm.trans halike.text)
    exact hpieces.text_commented hmask hvs hnumbers halike.text'
  · rw [hpieces.changes_whole hmask, hpieces.changes_commented hmask, List.append_cancel_left_eq,
      hpieces.carriesBehind_iff hmask, hnext]
    by_cases hnamed : ∃ m, Cut.found m ∈ ds ∧ NamedAt (render fs).reverse m
    · -- what is named by its place becomes a change behind the comment
      refine iff_of_false (fun heq => ?_) fun hnot => hnot.1 hnamed
      have hlt := (length_changes_lt hbetween hpieces.same).2 hnamed
      have hlength := congrArg List.length heq
      rw [List.length_map, List.length_map] at hlength
      omega
    · obtain ⟨vs', us, halike⟩ := changes_later ht hbetween hpieces.same hmask.sound.2 fun m hm hm' =>
        hnamed ⟨m, hm, hm'⟩
      rw [changes_eq_iff hmask halike]
      simp [hnamed]

/-- A script up to its first column. -/
def tableHead : Text :=
  "CREATE TABLE t ("

theorem convertScript_comment_column :
    mark ∉ tableHead ++ "id NUMBER(10))".toList ∧ CutBehindSign tableHead "id NUMBER(10))" ∧
      ¬ oracleTypes.SplitsType tableHead "id NUMBER(10))" ∧ IsBlockComment "/* c */" ∧
      ∃ back, (oracleTypes.convertScript (tableHead ++ "id NUMBER(10))".toList)).text =
          (oracleTypes.convertScript tableHead).text ++ back ∧
        (oracleTypes.convertScript (tableHead ++ ' ' :: ("/* c */".toList ++ ' ' :: "id NUMBER(10))".toList))).text =
          (oracleTypes.convertScript tableHead).text ++ ' ' :: ("/* c */".toList ++ ' ' :: back) ∧
        (oracleTypes.convertScript (tableHead ++ ' ' :: ("/* c */".toList ++ ' ' :: "id NUMBER(10))".toList))).changes =
          (oracleTypes.convertScript (tableHead ++ "id NUMBER(10))".toList)).changes := by
  have hmark : mark ∉ tableHead ++ "id NUMBER(10))".toList := by decide
  have hcut : CutBehindSign tableHead "id NUMBER(10))".toList := by decide +kernel
  have hsplit : ¬ oracleTypes.SplitsType tableHead "id NUMBER(10))".toList := by decide +kernel
  have hcomment : IsBlockComment "/* c */".toList := by decide +kernel
  have hnext : ¬ oracleTypes.NamesNext tableHead "id NUMBER(10))".toList := by decide +kernel
  have hcarries : ¬ oracleTypes.CarriesBehind tableHead "id NUMBER(10))".toList := by decide +kernel
  obtain ⟨back, htext, hcommented, hchanges⟩ := convertScript_comment (.inl rfl) hmark hcut hsplit hcomment
  exact ⟨hmark, hcut, hsplit, hcomment, back, htext, hcommented hnext, hchanges.2 ⟨hnext, hcarries⟩⟩

/-- A column that is named like its type loses its name behind a comment. -/
theorem convertScript_takes_column :
    mark ∉ tableHead ++ "date DATE)".toList ∧ CutBehindSign tableHead "date DATE)" ∧
      ¬ oracleTypes.SplitsType tableHead "date DATE)" ∧ IsBlockComment "/* c */" ∧
      oracleTypes.convertScript (tableHead ++ "date DATE)".toList) =
        ⟨"CREATE TABLE t (date TIMESTAMP)", [⟨"DATE", "TIMESTAMP"⟩]⟩ ∧
      oracleTypes.convertScript (tableHead ++ ' ' :: ("/* c */".toList ++ ' ' :: "date DATE)".toList)) =
        ⟨"CREATE TABLE t ( /* c */ TIMESTAMP TIMESTAMP)", [⟨"date", "TIMESTAMP"⟩, ⟨"DATE", "TIMESTAMP"⟩]⟩ := by
  decide +kernel

end TypeTable

end DialectBridge
