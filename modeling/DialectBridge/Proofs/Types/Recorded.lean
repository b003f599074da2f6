import DialectBridge.Proofs.Types.SameCode

/-!
# What the recorded changes tell

A change says what was found and what was written in its place. If the changes of a script tell everything, replacing
the one by the other from left to right makes the converted script (`Replays`). That holds of the texts as they are
read with the held texts in their holes (`replays_restored`). The recorded changes have holes left where a size holds
a literal, a quoted name or a comment, and the script has none for a placeholder that its code shows
(`convertScript_replays`).
-/

namespace DialectBridge

open Masked Segment

/-- The one text becomes the other when, from left to right, one occurrence of what each change found is replaced by
what it wrote. -/
inductive Replays : List TypeChange → Text → Text → Prop where
  | done (t : Text) : Replays [] t t
  | step (front : Text) {c : TypeChange} {cs : List TypeChange} {t u : Text} (h : Replays cs t u) :
      Replays (c :: cs) (front ++ (c.found ++ t)) (front ++ (c.written ++ u))

namespace Replays

/-- Without a change nothing is replaced. -/
theorem eq_of_nil {t u : Text} (h : Replays [] t u) : t = u := by
  cases h
  rfl

/-- What is written is there in the place of what was found, also for the number of characters of a kind. -/
theorem countP (p : Char → Bool) {cs : List TypeChange} {t u : Text} (h : Replays cs t u) :
    t.countP p + (cs.flatMap TypeChange.written).countP p = u.countP p + (cs.flatMap TypeChange.found).countP p := by
  induction h with
  | done t => rfl
  | step front h ih =>
    simp only [List.countP_append, List.flatMap_cons]
    omega

end Replays

/-! ## Restored texts -/

namespace Masked

/-- The script as it reads when the held texts are given back to its mask. -/
def unmasked (script : Text) : Text :=
  restore (shieldedTexts script) (ofScript script).text

/-- A character that a literal, a quoted name or a comment starts with. -/
def isShieldSign (c : Char) : Bool :=
  shieldStops.contains c && c != mark

theorem shieldedTexts_sign {script t : Text} (ht : t ∈ shieldedTexts script) :
    ∃ c u, t = c :: u ∧ isShieldSign c = true := by
  obtain ⟨p, hp, rfl⟩ := List.mem_map.1 ht
  rw [shielded_segments] at hp
  obtain ⟨hcell, hkind⟩ := List.mem_filter.1 hp
  obtain ⟨xs, ys, hcells⟩ := List.append_of_mem hcell
  obtain ⟨c, hc, u, hu, hmark, -⟩ := (shielded_ends hcells (by simpa using hkind)).1
  exact ⟨c, u, hu, by simp [isShieldSign, hc, hmark]⟩

theorem countP_placeholder {before taken after : Text} {captures : List (Nat × Text)}
    (h : placeholderPattern.matcher before after = some (taken, captures)) : taken.countP isShieldSign = 0 := by
  have havoids : ∀ c ∈ shieldStops, isShieldSign c = true → placeholderPattern.avoids c = true :=
    List.all_iff_forall_prop.1 (by decide +kernel)
  refine List.countP_eq_zero.2 fun c hc hsign => ?_
  have hstop : c ∈ shieldStops := by
    simp only [isShieldSign, Bool.and_eq_true, List.contains_iff_mem] at hsign
    exact hsign.1
  exact Pattern.matcher_avoids (havoids c hstop hsign) h hc

theorem replaceMatches_eq_writeCut {α : Type} (matcher : Matcher α) (write : Match α → Text) (t : Text) :
    replaceMatches matcher write t = (cut matcher t).flatMap (writeCut write) := by
  refine congrArg (List.flatMap · _) (funext fun piece => ?_)
  cases piece <;> rfl

theorem heldText_cases (held : List Text) (m : Match (List (Nat × Text))) :
    heldText held m = m.text ∨ heldText held m ∈ held := by
  unfold heldText
  cases htext : ((captured 1 m.value).bind number?).bind (held[·]?) with
  | none => exact .inl rfl
  | some t =>
    obtain ⟨n, -, hn⟩ := Option.bind_eq_some_iff.1 htext
    exact .inr (List.mem_of_getElem? hn)

/-- Restoring a text with holes brings in signs that no placeholder has. -/
theorem countP_restore {held : List Text} (hheld : ∀ t ∈ held, ∃ c u, t = c :: u ∧ isShieldSign c = true) (t : Text) :
    t.countP isShieldSign ≤ (restore held t).countP isShieldSign ∧
      ((restore held t).countP isShieldSign ≤ t.countP isShieldSign → restore held t = t) := by
  have hpieces (cs : List (Cut (List (Nat × Text)))) (hcs : ∀ m, .found m ∈ cs → m.text.countP isShieldSign = 0) :
      (cs.flatMap Cut.text).countP isShieldSign ≤ (cs.flatMap (writeCut (heldText held))).countP isShieldSign ∧
        ((cs.flatMap (writeCut (heldText held))).countP isShieldSign ≤ (cs.flatMap Cut.text).countP isShieldSign →
          cs.flatMap (writeCut (heldText held)) = cs.flatMap Cut.text) := by
    induction cs with
    | nil => exact ⟨Nat.le_refl _, fun _ => rfl⟩
    | cons piece cs ih =>
      obtain ⟨hle, heq⟩ := ih fun m hm => hcs m (List.mem_cons_of_mem _ hm)
      have hpiece : piece.text.countP isShieldSign ≤ (writeCut (heldText held) piece).countP isShieldSign ∧
          ((writeCut (heldText held) piece).countP isShieldSign ≤ piece.text.countP isShieldSign →
            writeCut (heldText held) piece = piece.text) := by
        cases piece with
        | copied c => exact ⟨Nat.le_refl _, fun _ => rfl⟩
        | found m =>
          have hnone := hcs m List.mem_cons_self
          rw [Cut.text, writeCut, hnone]
          refine ⟨Nat.zero_le _, fun hsigns => ?_⟩
          rcases heldText_cases held m with hsame | hmem
          · exact hsame
          · obtain ⟨c, u, hu, hc⟩ := hheld _ hmem
            rw [hu, List.countP_cons_of_pos hc] at hsigns
            omega
      simp only [List.flatMap_cons, List.countP_append]
      refine ⟨Nat.add_le_add hpiece.1 hle, fun h => ?_⟩
      rw [hpiece.2 (by omega), heq (by omega)]
  have hcut := hpieces (cut placeholderPattern.matcher t) fun m hm =>
    countP_placeholder (Cut.matcher_of_found placeholderPattern.matcher_takesPrefix hm).1
  rw [textOf_cut placeholderPattern.matcher_takesPrefix] at hcut
  rwa [restore, replaceMatches_eq_writeCut]

/-- The same for several texts: if there are no more signs in all, none of them has a hole. -/
theorem countP_flatMap_restore {held : List Text} (hheld : ∀ t ∈ held, ∃ c u, t = c :: u ∧ isShieldSign c = true)
    (ts : List Text) :
    ts.flatten.countP isShieldSign ≤ (ts.flatMap (restore held)).countP isShieldSign ∧
      ((ts.flatMap (restore held)).countP isShieldSign ≤ ts.flatten.countP isShieldSign →
        ∀ t ∈ ts, restore held t = t) := by
  induction ts with
  | nil => exact ⟨Nat.le_refl _, fun _ => by simp⟩
  | cons t ts ih =>
    obtain ⟨hle, heq⟩ := countP_restore hheld t
    simp only [List.flatten_cons, List.flatMap_cons, List.countP_append]
    refine ⟨Nat.add_le_add hle ih.1, fun h => List.forall_mem_cons.2 ⟨heq ?_, ih.2 ?_⟩⟩
    · have := ih.1
      omega
    · omega

end Masked

/-! ## Changes of whole texts -/

namespace TypeRule

open Pattern

/-- Only an ASCII digit is a digit and equal to an ASCII character up to case. -/
theorem isDigit_of_sameLetter {c d : Char} (hc : c.toNat < 128) (h : sameLetter c d = true) (hd : isWordDigit d = true) :
    d.isDigit = true := by
  rcases sameLetter_ascii hc h with ⟨hascii, -⟩ | hmem
  · rwa [isWordDigit_of_ascii hascii] at hd
  · simp only [foldsToAscii, List.mem_cons, List.not_mem_nil, or_false] at hmem
    revert hd
    rcases hmem with rfl | rfl <;> decide +kernel

/-- A match starts outside of placeholders. -/
theorem isOutside_of_match {r : TypeRule} (hr : r.isRegular = true) (hshape : r.word ≠ [] ∧ r.Shape)
    {before after : Text} {c : Char} {found : Text × List (Nat × Text)}
    (h : r.pattern.matcher before (c :: after) = some found) : IsOutside c := by
  obtain ⟨hmark, hdigit⟩ := match_start hr h
  refine ⟨hmark, Bool.eq_false_iff.2 fun hword => ?_⟩
  -- the word of the rule starts with the same letter
  obtain ⟨taken, captures⟩ := found
  obtain ⟨t, hreach, -⟩ := matcher_reaches h
  obtain ⟨-, hfold⟩ := reaches_word_of_shape hshape.1 hshape.2 hreach
  obtain ⟨d, ds, hds⟩ := List.exists_cons_of_ne_nil hshape.1
  have hbare : isBare d = true := r.bare_word d (hds ▸ List.mem_cons_self)
  have hsame : sameLetter d c = true := by
    rw [hds, List.takeWhile_cons] at hfold
    split at hfold
    · exact beq_iff_eq.2 (List.cons.inj hfold).1.symm
    · cases hfold
  rw [isDigit_of_sameLetter (toNat_lt_of_bare hbare) hsame hword] at hdigit
  cases hdigit

/-- No placeholder reaches into a match or out of it. -/
theorem isWhole_of_match {r : TypeRule} (hr : r.isRegular = true) (hshape : r.word ≠ [] ∧ r.Shape)
    {before after taken : Text} {captures : List (Nat × Text)}
    (h : r.pattern.matcher before after = some (taken, captures)) : IsWhole taken := by
  obtain ⟨t, hreach, htaken, -⟩ := matcher_reaches h
  obtain ⟨c, rest, rfl⟩ : ∃ c rest, taken = c :: rest := by
    rw [← render_map_code after] at h
    exact List.exists_cons_of_ne_nil (match_splits hr h).1
  rw [List.cons_append] at htaken
  have houtside := isOutside_of_match hr hshape (htaken ▸ h)
  refine ⟨⟨c, rest, rfl, houtside⟩, ?_⟩
  have hfree := hr
  simp only [isRegular, Bool.and_eq_true, Bool.not_eq_true'] at hfree
  obtain ⟨⟨⟨⟨⟨⟨hfront, -⟩, hback⟩, -⟩, -⟩, -⟩, -⟩ := hfree
  obtain ⟨u, v, hu, hv, hb⟩ := reaches_pattern hreach
  obtain ⟨f, hf, -, hfmark⟩ := hu.avoids hfront
  obtain ⟨b, hb, -, hbmark⟩ := hb.avoids hback
  simp only at hf
  rcases reaches_arguments hv with rfl | ⟨x, hx, -⟩
  · -- without arguments there is no mark at all
    have hmark : mark ∉ c :: rest := by
      have hsplit : c :: (rest ++ t.after) = (f ++ b) ++ t.after := by rw [← htaken, hf, hb, List.append_assoc]
      rw [show c :: rest = f ++ b from List.append_cancel_right hsplit, List.mem_append, not_or]
      exact ⟨hfmark, hbmark⟩
    exact ⟨[], c, rest, rfl, houtside, fun hmem => hmark (List.mem_cons_of_mem c hmem)⟩
  · -- the arguments are closed by a parenthesis
    have hsplit : c :: (rest ++ t.after) = ((f ++ x) ++ ')' :: b) ++ t.after := by
      rw [← htaken, hf, hx, hb]
      simp
    exact ⟨f ++ x, ')', b, List.append_cancel_right hsplit, ⟨by decide, by decide +kernel⟩, hbmark⟩

end TypeRule

namespace TypeTable

/-- Where a text ends in a character, it still does when a match in it is replaced by this character. -/
theorem exists_replaceFirst_concat {α : Type} {matcher : Matcher α} (hm : matcher.TakesPrefix) (c : Char) (x : Text) :
    ∃ y, replaceFirst matcher [c] (x ++ [c]) = y ++ [c] := by
  unfold replaceFirst
  split
  · next m hfind =>
    obtain ⟨-, hsplit⟩ := Cut.matcher_of_found hm (List.mem_of_find?_eq_some hfind)
    rcases List.eq_nil_or_concat m.after with hnil | ⟨y, d, hafter⟩
    · exact ⟨m.before.reverse, by rw [hnil, List.append_nil]⟩
    · rw [hafter] at hsplit ⊢
      have hd : d = c := by
        have hlast := congrArg List.getLast? hsplit
        simpa using hlast
      exact ⟨m.before.reverse ++ [c] ++ y, by simp [hd]⟩
  · exact ⟨x, rfl⟩

/-- A size that is carried over still ends in a parenthesis. -/
theorem exists_carriedSize_closing (x : Text) : ∃ y, carriedSize (x ++ [')']) = y ++ [')'] := by
  obtain ⟨y, hy⟩ := exists_replaceFirst_concat lengthUnit.matcher_takesPrefix ')' x
  refine ⟨y.filter fun c => !isBlank c, ?_⟩
  rw [carriedSize, hy, List.filter_append]
  rfl

/-- The arguments of a match are closed by a parenthesis. -/
theorem arguments_closing {types : TypeTable} (ht : types.IsRegular) {before after taken : Text} {m : RuleMatch}
    (h : types.matcher before after = some (taken, m)) :
    m.arguments = none ∨ ∃ x, m.arguments = some (x ++ [')']) := by
  obtain ⟨hr, captures, hmatch, harguments⟩ := matcher_rule h
  obtain ⟨t, hreach, -, -, rfl⟩ := Pattern.matcher_reaches hmatch
  obtain ⟨u, v, hu, hv, hback⟩ := TypeRule.reaches_pattern hreach
  have hfree := ht _ hr
  simp only [TypeRule.isRegular, Bool.and_eq_true] at hfree
  obtain ⟨⟨⟨⟨⟨⟨-, hfrontFree⟩, -⟩, hbackFree⟩, -⟩, -⟩, -⟩ := hfree
  have hufree : u.captured = [] := hu.captured hfrontFree
  rw [hback.captured hbackFree] at harguments
  rcases TypeRule.reaches_arguments hv with rfl | ⟨x, -, hx⟩
  · exact .inl (by simp [harguments, hufree, captured])
  · exact .inr ⟨x, by simp [harguments, hx, captured]⟩

/-- The targets start outside of placeholders. -/
def StartsOutside (types : TypeTable) : Prop :=
  ∀ r ∈ types.rules, (r.target.head?.any fun c => c != mark && !isWordDigit c) = true

theorem startsOutside_of_eq {types : TypeTable} (h : types = oracleTypes ∨ types = mysqlTypes) : types.StartsOutside := by
  rcases h with rfl | rfl
  · exact List.all_iff_forall_prop.1 (by decide +kernel)
  · exact List.all_iff_forall_prop.1 (by decide +kernel)

/-- No placeholder reaches into what is written for a match or out of it. -/
theorem isWhole_written {types : TypeTable} (ht : types.IsRegular) (hstarts : types.StartsOutside)
    {before after taken : Text} {m : RuleMatch} (h : types.matcher before after = some (taken, m)) :
    IsWhole m.written := by
  obtain ⟨hr, -⟩ := matcher_rule h
  have htarget : mark ∉ m.rule.target := by
    have hregular := ht _ hr
    simp only [TypeRule.isRegular, Bool.and_eq_true, Bool.not_eq_true'] at hregular
    simpa using hregular.2
  have hhead := hstarts _ hr
  obtain ⟨c, u, hcu⟩ : ∃ c u, m.rule.target = c :: u := by
    refine List.exists_cons_of_ne_nil fun hnil => ?_
    rw [hnil] at hhead
    cases hhead
  have houtside : IsOutside c := by simpa [hcu, IsOutside] using hhead
  have hplain : IsWhole m.rule.target := by
    rw [hcu] at htarget ⊢
    exact .of_code houtside fun hmem => htarget (List.mem_cons_of_mem c hmem)
  unfold RuleMatch.written
  rcases arguments_closing ht h with hnone | ⟨x, hsome⟩
  · rw [hnone]
    exact hplain
  · rw [hsome]
    cases m.rule.keepsSize with
    | false => exact hplain
    | true =>
      obtain ⟨y, hy⟩ := exists_carriedSize_closing x
      refine ⟨⟨c, u ++ carriedSize (x ++ [')']), by simp [hcu], houtside⟩, m.rule.target ++ y, ')', [], ?_, ?_, ?_⟩
      · simp [hy]
      · exact ⟨by decide, by decide +kernel⟩
      · exact List.not_mem_nil

/-! ## Replaying what was recorded -/

/-- The change with the held texts in its holes. -/
def restoredChange (held : List Text) (c : TypeChange) : TypeChange :=
  ⟨Masked.restore held c.found, Masked.restore held c.written⟩

/-- Replacing in a mask is replaced alike where the held texts are in their holes, if no placeholder reaches into what
is found or written. -/
theorem replays_pieces (held : List Text) {cs : List (Cut RuleMatch)}
    (hcs : ∀ c ∈ changesOf cs, IsWhole c.found ∧ IsWhole c.written) (x : Text) :
    Replays ((changesOf cs).map (restoredChange held)) (Masked.restore held (x ++ cs.flatMap Cut.text))
      (Masked.restore held (x ++ cs.flatMap convertedPiece)) := by
  induction cs generalizing x with
  | nil => exact .done _
  | cons piece cs ih =>
    rw [List.flatMap_cons, List.flatMap_cons]
    cases piece with
    | copied c =>
      have hrest := ih hcs (x ++ [c])
      rw [List.append_assoc, List.append_assoc] at hrest
      exact hrest
    | found m =>
      rw [changesOf_found] at hcs ⊢
      cases hchange : change? m with
      | none =>
        rw [hchange] at hcs
        have hrest := ih hcs (x ++ m.text)
        rw [List.append_assoc, List.append_assoc] at hrest
        rw [convertedPiece, hchange]
        exact hrest
      | some c =>
        rw [hchange] at hcs
        obtain ⟨⟨hfound, hwritten⟩, hcs⟩ := List.forall_mem_cons.1 hcs
        have hrest := ih hcs []
        rw [Cut.text, convertedPiece, hchange, ← found_of_change hchange, Option.map_some, Option.getD_some,
          hfound.restore, hwritten.restore]
        exact .step _ hrest

/-- The changes in the mask of a script with the held texts in their holes. -/
def restoredChanges (types : TypeTable) (script : Text) : List TypeChange :=
  (types.convertText (Masked.ofScript script).text).changes.map (restoredChange (shieldedTexts script))

theorem changes_isWhole {types : TypeTable} (ht : types = oracleTypes ∨ types = mysqlTypes) (t : Text) :
    ∀ c ∈ changesOf (cut types.matcher t), IsWhole c.found ∧ IsWhole c.written := by
  have hsteady := isSteady_of_eq ht
  intro c hc
  obtain ⟨m, hm, hchange⟩ := mem_changesOf.1 hc
  obtain ⟨hmatch, -⟩ := Cut.matcher_of_found types.matcher_takesPrefix hm
  obtain ⟨hr, captures, hrule, -⟩ := matcher_rule hmatch
  rw [eq_of_change hchange]
  exact ⟨TypeRule.isWhole_of_match (hsteady.regular _ hr) (hsteady.shape _ hr) hrule,
    isWhole_written hsteady.regular (startsOutside_of_eq ht) hmatch⟩

/-- With the held texts in their holes, the changes make the converted script. -/
theorem replays_restored {types : TypeTable} (ht : types = oracleTypes ∨ types = mysqlTypes) (script : Text) :
    Replays (types.restoredChanges script) (unmasked script) (types.convertScript script).text := by
  have hreplays := replays_pieces (shieldedTexts script) (changes_isWhole ht (Masked.ofScript script).text) []
  rw [List.nil_append, List.nil_append, textOf_cut types.matcher_takesPrefix, ← text_convertText] at hreplays
  have hheld : (Masked.ofScript script).held = shieldedTexts script := by rw [ofScript_eq]
  rw [convertScript, hheld]
  exact hreplays

/-- What is recorded has the held texts in the holes of what was found. -/
theorem changes_convertScript (types : TypeTable) (script : Text) :
    (types.convertScript script).changes = (types.convertText (Masked.ofScript script).text).changes.map fun c =>
      { c with found := Masked.restore (shieldedTexts script) c.found } := by
  rw [convertScript, ofScript_eq]

/-- What is recorded has no hole left exactly if restoring leaves alone what was written. -/
theorem changes_eq_restored_iff (types : TypeTable) (script : Text) :
    (types.convertScript script).changes = types.restoredChanges script ↔
      ∀ c ∈ (types.convertText (Masked.ofScript script).text).changes,
        Masked.restore (shieldedTexts script) c.written = c.written := by
  rw [changes_convertScript, restoredChanges, List.map_inj_left]
  refine forall₂_congr fun c _ => ?_
  rw [restoredChange, TypeChange.mk.injEq]
  exact ⟨fun h => h.2.symm, fun h => ⟨rfl, h.symm⟩⟩

/-- In a script that is restored from its mask, the recorded changes replay exactly if they have no holes left. -/
theorem replays_recorded_iff {types : TypeTable} (ht : types = oracleTypes ∨ types = mysqlTypes) {script : Text}
    (h : unmasked script = script) :
    Replays (types.convertScript script).changes script (types.convertScript script).text ↔
      (types.convertScript script).changes = types.restoredChanges script := by
  have hrestored := replays_restored ht script
  rw [h] at hrestored
  refine ⟨fun hrecorded => (changes_eq_restored_iff types script).2 ?_, fun heq => heq ▸ hrestored⟩
  -- both lists write as many signs, and restoring takes none away
  have hcount := hrestored.countP isShieldSign
  have hcount' := hrecorded.countP isShieldSign
  rw [restoredChanges] at hcount
  rw [changes_convertScript] at hcount'
  simp only [List.flatMap_map, restoredChange] at hcount hcount'
  have hheld : ∀ t ∈ shieldedTexts script, ∃ c u, t = c :: u ∧ isShieldSign c = true := fun t => shieldedTexts_sign
  have hsigns := (countP_flatMap_restore hheld
    ((types.convertText (Masked.ofScript script).text).changes.map fun c => c.written)).2
  rw [← List.flatMap_def, List.flatMap_map, List.forall_mem_map] at hsigns
  exact hsigns (by omega)

end TypeTable

/-! ## Code without marks -/

namespace Masked

/-- Where placeholders are filled with texts that start with a sign, the text changes with the first of them. -/
theorem spell_eq_render_iff {f : Nat → Text} {ps : List Part}
    (hf : ∀ n, .held n ∈ ps → ∃ c u, f n = c :: u ∧ isShieldSign c = true) :
    spell f ps = render ps ↔ numbers ps = [] := by
  induction ps with
  | nil => simp [numbers]
  | cons p ps ih =>
    have ih := ih fun n hn => hf n (List.mem_cons_of_mem p hn)
    cases p with
    | code c =>
      rw [numbers_cons_code, ← ih, spell_cons, render_cons]
      exact List.append_right_inj [c]
    | held n =>
      obtain ⟨c, u, hu, hc⟩ := hf n List.mem_cons_self
      refine iff_of_false (fun heq => ?_) (by simp [numbers, Part.number?])
      rw [spell_cons, render_cons, Part.spelled_held, hu] at heq
      obtain rfl : c = mark := (List.cons.inj heq).1
      revert hc
      decide

theorem number_lt_of_scriptParts {script : Text} {n : Nat} (h : n ∈ numbers (scriptParts 0 (segments script))) :
    n < (shieldedTexts script).length := by
  rw [numbers_scriptParts, List.mem_range'_1] at h
  rw [shieldedTexts, List.length_map]
  omega

/-- The script is restored from its mask if its code holds no mark. -/
theorem unmasked_of_sound {script : Text} (h : ∀ s ∈ segments script, s.kind = .code → mark ∉ s.text) :
    unmasked script = script := by
  rw [unmasked, ofScript_eq, restore_eq_spell,
    holes_render _ (sound_scriptParts_iff.2 h) fun n => number_lt_of_scriptParts, spell_shieldedTexts]

end Masked

namespace TypeTable

/-- What is written has the placeholders of the size that it carries over. -/
theorem exists_written {m : Match RuleMatch} (hregular : m.value.rule.isRegular = true) {ns : List Nat}
    (h : m.value.arguments = none ∨
      ∃ as, Sound as ∧ numbers as ⊆ ns ∧ m.value.arguments = some (render as)) :
    ∃ ws, Sound ws ∧ m.value.written = render ws ∧ numbers ws = carriedNumbers m ∧ carriedNumbers m ⊆ ns := by
  have htarget : Sound (m.value.rule.target.map .code) := by
    simp only [TypeRule.isRegular, Bool.and_eq_true, Bool.not_eq_true'] at hregular
    simpa [Sound] using hregular.2
  have hplain (hwritten : m.value.written = m.value.rule.target) (hnone : carriedNumbers m = []) :
      ∃ ws, Sound ws ∧ m.value.written = render ws ∧ numbers ws = carriedNumbers m ∧ carriedNumbers m ⊆ ns :=
    ⟨_, htarget, by rw [hwritten, render_map_code], by rw [hnone, numbers_map_code], by simp [hnone]⟩
  rcases h with hnone | ⟨as, has, hsub, hsome⟩
  · refine hplain (by rw [RuleMatch.written, hnone]) ?_
    rw [carriedNumbers, hnone]
    split <;> rfl
  · cases hkeeps : m.value.rule.keepsSize with
    | false => exact hplain (by simp [RuleMatch.written, hsome, hkeeps]) (if_neg (by simp [hkeeps]))
    | true =>
      have hcarried : carriedNumbers m = numbers as := by
        rw [carriedNumbers, if_pos hkeeps, hsome, Option.getD_some, parts_render has]
      obtain ⟨ws, hws, hnumbers, hsize, -⟩ := carriedSize_later has
      refine ⟨m.value.rule.target.map .code ++ ws, sound_append.2 ⟨htarget, hws⟩, ?_, ?_, hcarried ▸ hsub⟩
      · simp [RuleMatch.written, hsome, hkeeps, render_map_code, hsize]
      · rw [numbers_append, numbers_map_code, List.nil_append, hnumbers, hcarried]

theorem written_parts {types : TypeTable} (ht : types.IsRegular) {ps : List Part} (hps : Sound ps)
    {m : Match RuleMatch} (hm : m ∈ allMatches types.matcher (render ps)) :
    ∃ ws, Sound ws ∧ m.value.written = render ws ∧ numbers ws = carriedNumbers m ∧ carriedNumbers m ⊆ numbers ps := by
  obtain ⟨hmatch, -⟩ := Cut.matcher_of_found types.matcher_takesPrefix (Cut.mem_filterMap_match?.1 hm)
  obtain ⟨r, rfl, rfl⟩ := exists_parts_of_match ht hm
  simp only [Replacement.inMask, ← render_append] at hmatch
  obtain ⟨-, qs, rs, hqs, -, hcases⟩ := matcher_parts ht (sound_append.1 hps).2 hmatch
  refine exists_written (ht _ (matcher_rule hmatch).1) (hcases.imp And.left ?_)
  rintro ⟨as, has, hsome, hnumbers⟩
  refine ⟨as, has, ?_, hsome⟩
  rw [hnumbers, hqs, numbers_append, numbers_append]
  exact List.Subset.trans (List.subset_append_left _ _) (List.subset_append_right _ _)

/-- No size that is carried over holds a literal, a quoted name or a comment. -/
theorem carried_eq_nil_iff {types : TypeTable} (ht : types.IsRegular) {script : Text}
    (h : ∀ s ∈ segments script, s.kind = .code → mark ∉ s.text) :
    types.carried script = [] ↔
      ∀ m ∈ allMatches types.matcher (render (scriptParts 0 (segments script))), carriedNumbers m = [] := by
  rw [carried, ofScript_eq, List.filterMap_eq_nil_iff]
  constructor
  · intro hnone m hm
    refine List.eq_nil_iff_forall_not_mem.2 fun n hn => ?_
    obtain ⟨-, -, -, -, hsub⟩ := written_parts ht (sound_scriptParts_iff.2 h) hm
    have hlt := number_lt_of_scriptParts (hsub hn)
    rw [shieldedTexts, List.length_map] at hlt
    have hget := hnone n (List.mem_flatMap.2 ⟨m, hm, hn⟩)
    rw [List.getElem?_eq_getElem hlt] at hget
    cases hget
  · intro hnone n hn
    obtain ⟨m, hm, hn⟩ := List.mem_flatMap.1 hn
    rw [hnone m hm] at hn
    cases hn

/-- Restoring leaves alone what is written for a match exactly if it has no placeholders. -/
theorem restore_written_iff {types : TypeTable} (ht : types.IsRegular) {script : Text}
    (h : ∀ s ∈ segments script, s.kind = .code → mark ∉ s.text) {m : Match RuleMatch}
    (hm : m ∈ allMatches types.matcher (render (scriptParts 0 (segments script)))) :
    Masked.restore (shieldedTexts script) m.value.written = m.value.written ↔ carriedNumbers m = [] := by
  obtain ⟨ws, hws, htext, hnumbers, hsub⟩ := written_parts ht (sound_scriptParts_iff.2 h) hm
  have hlt : ∀ n ∈ numbers ws, n < (shieldedTexts script).length := fun n hn =>
    number_lt_of_scriptParts (hsub (hnumbers ▸ hn))
  rw [htext, restore_eq_spell, holes_render _ hws hlt, ← hnumbers]
  refine spell_eq_render_iff fun n hn => ?_
  have hn := hlt n (mem_numbers.2 hn)
  obtain ⟨c, u, hu, hc⟩ := shieldedTexts_sign (List.getElem_mem hn)
  exact ⟨c, u, by rw [heldAt, List.getElem?_eq_getElem hn, Option.getD_some, hu], hc⟩

/-- A name that is left as it is carries nothing. -/
theorem carriedNumbers_of_unchanged {m : Match RuleMatch} (h : change? m = none) : carriedNumbers m = [] := by
  have hbare : m.value.arguments = none := by
    rw [change?_eq] at h
    split at h
    · next hname =>
      simp only [isBareMatch, Bool.and_eq_true, Option.isNone_iff_eq_none] at hname
      exact hname.1.1
    · cases h
  rw [carriedNumbers, hbare]
  split <;> rfl

/-- Where code holds no mark, the recorded changes have holes left exactly if a size that is carried over holds a
literal, a quoted name or a comment. -/
theorem changes_eq_restored_iff_carried {types : TypeTable} (ht : types.IsRegular) {script : Text}
    (h : ∀ s ∈ segments script, s.kind = .code → mark ∉ s.text) :
    (types.convertScript script).changes = types.restoredChanges script ↔ types.carried script = [] := by
  rw [changes_eq_restored_iff, carried_eq_nil_iff ht h, ofScript_eq]
  constructor
  · intro hall m hm
    cases hchange : change? m with
    | some c =>
      have hc := hall c (List.mem_filterMap.2 ⟨m, hm, hchange⟩)
      rw [eq_of_change hchange] at hc
      exact (restore_written_iff ht h hm).1 hc
    | none => exact carriedNumbers_of_unchanged hchange
  · intro hall c hc
    obtain ⟨m, hm, hchange⟩ := List.mem_filterMap.1 hc
    rw [eq_of_change hchange]
    exact (restore_written_iff ht h hm).2 (hall m hm)

/-- The changes of a script make the converted script once the held texts are in their holes. What is recorded does the
same, in a script that is restored from its mask, exactly if it has no holes left. Where code holds no mark the script
is restored, and holes are left exactly if a size that is carried over holds a literal, a quoted name or a comment. -/
theorem convertScript_replays {types : TypeTable} (ht : types = oracleTypes ∨ types = mysqlTypes) (script : Text) :
    Replays (types.restoredChanges script) (unmasked script) (types.convertScript script).text ∧
    (unmasked script = script →
      (Replays (types.convertScript script).changes script (types.convertScript script).text ↔
        (types.convertScript script).changes = types.restoredChanges script)) ∧
    ((∀ s ∈ segments script, s.kind = .code → mark ∉ s.text) → unmasked script = script ∧
      (Replays (types.convertScript script).changes script (types.convertScript script).text ↔
        types.carried script = [])) := by
  refine ⟨replays_restored ht script, replays_recorded_iff ht, fun h => ?_⟩
  have hunmasked := unmasked_of_sound h
  exact ⟨hunmasked, (replays_recorded_iff ht hunmasked).trans
    (changes_eq_restored_iff_carried (isRegular_of_eq ht).1 h)⟩

theorem convertScript_replays_comment :
    (∀ s ∈ segments "a NUMBER(10) -- c", s.kind = .code → mark ∉ s.text) ∧
      Replays (oracleTypes.convertScript "a NUMBER(10) -- c").changes "a NUMBER(10) -- c"
        (oracleTypes.convertScript "a NUMBER(10) -- c").text := by
  have hmark : ∀ s ∈ segments "a NUMBER(10) -- c", s.kind = .code → mark ∉ s.text := by decide +kernel
  exact ⟨hmark, ((convertScript_replays (.inl rfl) "a NUMBER(10) -- c").2.2 hmark).2.2 (by decide +kernel)⟩

/-- A comment in a size is recorded by its placeholder. A placeholder in the code becomes a literal of the script, and
nothing is recorded. -/
theorem convertScript_records_placeholder :
    ¬ Replays (oracleTypes.convertScript "a VARCHAR2(10 /* c */) b").changes "a VARCHAR2(10 /* c */) b"
        (oracleTypes.convertScript "a VARCHAR2(10 /* c */) b").text ∧
      ¬ Replays (oracleTypes.convertScript "\x010\x01 'x'").changes "\x010\x01 'x'"
        (oracleTypes.convertScript "\x010\x01 'x'").text := by
  have hsize : oracleTypes.convertScript "a VARCHAR2(10 /* c */) b" =
      ⟨"a VARCHAR(10/* c */) b", [⟨"VARCHAR2(10 /* c */)", "VARCHAR(10\x010\x01)"⟩]⟩ := by decide +kernel
  have hcode : oracleTypes.convertScript "\x010\x01 'x'" = ⟨"'x' 'x'", []⟩ := by decide +kernel
  rw [hsize, hcode]
  refine ⟨fun h => ?_, fun h => absurd h.eq_of_nil (by decide)⟩
  exact absurd (h.countP (· == mark)) (by decide)

end TypeTable

end DialectBridge
