import DialectBridge.Proofs.Layout.Scan
import DialectBridge.Proofs.Spacing.Trimmed

/-!
# Tidying again

Tidied code is left as it is when it is tidied again (`resume_resume`): where several blank lines became
one, no line break is left behind that one up to the next code. The segments of a tidied script are the
tidied segments (`segments_tidyCode`), so a script is tidied for good (`tidy_keeps`).
-/

namespace DialectBridge

open Scan

namespace Layout

open Pattern Segment

/-! ## Blank lines -/

/-- Behind a line break, a blank line and one more line break. -/
def OpensBlankLines (t : Text) : Prop :=
  ∃ line more, t = line ++ '\n' :: more ∧ (∀ c ∈ line, isSpace c = true) ∧ '\n' ∈ more

/-- Only what opens blank lines is changed. -/
theorem collapse_copied {t : Text} (h : ¬OpensBlankLines t) : collapse ('\n' :: t) = '\n' :: collapse t := by
  refine replaceMatches_copied rfl rfl (Option.eq_none_iff_forall_ne_some.2 fun ⟨taken, value⟩ hmatch => h ?_)
  obtain ⟨s, hreach, -⟩ := matcher_reaches hmatch
  obtain ⟨_, ⟨c, t', hcons, -, rfl⟩, _, ⟨line, t₁, rfl, hline, rfl⟩, _, ⟨d, more, rfl, hd, rfl⟩, _,
    ⟨blank, t₂, rfl, -, rfl⟩, _, ⟨e, rest, rfl, he, -⟩, -⟩ := hreach
  obtain ⟨-, rfl⟩ := List.cons.inj hcons
  obtain rfl : d = '\n' := eq_of_sameLetter (by decide) hd
  obtain rfl : e = '\n' := eq_of_sameLetter (by decide) he
  exact ⟨line, _, rfl, hline, List.mem_append_right _ List.mem_cons_self⟩

/-- Blank lines become one, and what stands behind the last line break stays. -/
theorem collapse_found {line blank tail : Text} (hline : ∀ c ∈ line, isSpace c = true)
    (hblank : ∀ c ∈ blank, isBlank c = true) (htail : ∀ c ∈ tail, isBlank c = true ∧ c ≠ '\n') :
    collapse ('\n' :: (line ++ '\n' :: (blank ++ '\n' :: tail))) = '\n' :: '\n' :: collapse tail := by
  have hbreak {c : Char} (hc : c ≠ '\n') : sameLetter '\n' c = false :=
    Bool.eq_false_iff.2 fun h => hc (eq_of_sameLetter (by decide) h)
  -- the gap goes to the last line break
  have hgap (before : Text) : Pattern.run (sequence [gap, letter '\n']) ⟨before, blank ++ '\n' :: (tail ++ []), []⟩ .some =
      .some ⟨'\n' :: (blank.reverse ++ before), tail, []⟩ := by
    refine passMany_last hblank (by decide) (fun c hc => (htail c hc).1) rfl (fun c hc _ _ => ?_) (fun _ => rfl) ?_
    · exact run_letter_ne (hbreak (htail c hc).2)
    · rw [List.append_nil]
      exact run_letter_cons (by decide)
  have hmatch : blankLines.matcher [] ('\n' :: (line ++ '\n' :: (blank ++ ['\n'])) ++ tail) =
      some ('\n' :: (line ++ '\n' :: (blank ++ ['\n'])), []) := by
    have htext : '\n' :: (line ++ '\n' :: (blank ++ ['\n'])) ++ tail =
        '\n' :: (line ++ '\n' :: (blank ++ '\n' :: (tail ++ []))) := by simp
    have hinside : ∀ c ∈ line, ∀ before after,
        Pattern.run (sequence [letter '\n', gap, letter '\n']) ⟨before, c :: after, []⟩ .some = none := fun c hc _ _ =>
      run_letter_ne (hbreak fun h => absurd (hline c hc) (by rw [h]; decide))
    have hstop : ('\n' :: (blank ++ '\n' :: (tail ++ []))).head?.any isSpace = false := rfl
    have hpass : passMany isSpace [] (fun s => Pattern.run (sequence [letter '\n', gap, letter '\n']) s .some) ['\n']
        (line ++ '\n' :: (blank ++ '\n' :: (tail ++ []))) = _ := passMany_exact hline hstop hinside
    rw [run_sequence_cons, run_letter_cons (by decide), hgap] at hpass
    rw [Pattern.matcher, htext, blankLines, run_sequence_cons, run_letter_cons (by decide), run_sequence_cons,
      Pattern.run, hpass, ← htext]
    exact congrArg (fun taken => some (taken, [])) (textUpTo_eq rfl)
  have htext : '\n' :: (line ++ '\n' :: (blank ++ '\n' :: tail)) = '\n' :: (line ++ '\n' :: (blank ++ ['\n'])) ++ tail := by
    simp
  rw [collapse, htext, replaceMatches_found rfl rfl hmatch]
  rfl

theorem collapse_of_not_mem {t : Text} (h : '\n' ∉ t) : collapse t = t := by
  induction t with
  | nil => exact collapse_nil
  | cons c t ih =>
    obtain ⟨hc, ht⟩ := List.ne_and_not_mem_of_not_mem_cons h
    rw [collapse_cons hc.symm, ih ht]

/-- At most one blank line stands at a place. -/
def IsCollapsed (t : Text) : Prop :=
  ∀ u, '\n' :: u <:+ t → ¬OpensBlankLines u

theorem IsCollapsed.of_suffix {s t : Text} (h : IsCollapsed t) (hs : s <:+ t) : IsCollapsed s :=
  fun u hu => h u (hu.trans hs)

theorem IsCollapsed.cons {c : Char} {t : Text} (ht : IsCollapsed t) (hc : c = '\n' → ¬OpensBlankLines t) :
    IsCollapsed (c :: t) := by
  intro u hu
  rcases List.suffix_cons_iff.1 hu with heq | hu
  · obtain ⟨rfl, rfl⟩ := List.cons.inj heq
    exact hc rfl
  · exact ht u hu

theorem IsCollapsed.collapse_eq {t : Text} (h : IsCollapsed t) : collapse t = t := by
  induction t with
  | nil => exact collapse_nil
  | cons c t ih =>
    have htail := ih (h.of_suffix (List.suffix_cons c t))
    by_cases hc : c = '\n'
    · subst hc
      rw [collapse_copied (h t List.suffix_rfl), htail]
    · rw [collapse_cons hc, htail]

theorem not_opensBlankLines_of_not_mem {t : Text} (h : '\n' ∉ t) : ¬OpensBlankLines t := by
  rintro ⟨line, more, rfl, -⟩
  exact h (List.mem_append_right _ List.mem_cons_self)

theorem opensBlankLines_break {t : Text} : OpensBlankLines ('\n' :: t) ↔ '\n' ∈ t := by
  constructor
  · rintro ⟨line, more, htext, hline, hmore⟩
    cases line with
    | nil => exact (List.cons.inj htext).2 ▸ hmore
    | cons c line =>
      obtain ⟨rfl, -⟩ := List.cons.inj htext
      exact absurd (hline _ List.mem_cons_self) (by decide)
  · exact fun h => ⟨[], t, rfl, List.forall_mem_nil _, h⟩

theorem opensBlankLines_cons {c : Char} (hc : c ≠ '\n') {t : Text} :
    OpensBlankLines (c :: t) ↔ isSpace c = true ∧ OpensBlankLines t := by
  constructor
  · rintro ⟨line, more, htext, hline, hmore⟩
    cases line with
    | nil => exact absurd (List.cons.inj htext).1 hc
    | cons d line =>
      obtain ⟨rfl, rfl⟩ := List.cons.inj htext
      obtain ⟨hd, hline⟩ := List.forall_mem_cons.1 hline
      exact ⟨hd, line, more, rfl, hline, hmore⟩
  · rintro ⟨hspace, line, more, rfl, hline, hmore⟩
    exact ⟨c :: line, more, rfl, List.forall_mem_cons.2 ⟨hspace, hline⟩, hmore⟩

/-- Collapsing brings no blank lines about. -/
theorem not_opensBlankLines_collapse {t : Text} (h : ¬OpensBlankLines t) : ¬OpensBlankLines (collapse t) := by
  induction t with
  | nil => rwa [collapse_nil]
  | cons c t ih =>
    by_cases hc : c = '\n'
    · subst hc
      have hnone : '\n' ∉ t := mt opensBlankLines_break.2 h
      rw [collapse_copied (not_opensBlankLines_of_not_mem hnone), collapse_of_not_mem hnone]
      exact h
    · rw [collapse_cons hc, opensBlankLines_cons hc]
      rw [opensBlankLines_cons hc] at h
      exact fun hopens => ih (fun ht => h ⟨hopens.1, ht⟩) hopens.2

theorem isCollapsed_of_not_mem {t : Text} (h : '\n' ∉ t) : IsCollapsed t :=
  fun _ hu => absurd (hu.subset List.mem_cons_self) h

theorem isCollapsed_collapse {b : Text} (hb : ∀ c ∈ b, isBlank c = true) : IsCollapsed (collapse b) := by
  induction b with
  | nil =>
    rw [collapse_nil]
    exact isCollapsed_of_not_mem List.not_mem_nil
  | cons c b ih =>
    obtain ⟨-, hrest⟩ := List.forall_mem_cons.1 hb
    by_cases hc : c = '\n'
    · subst hc
      by_cases hopens : OpensBlankLines b
      · obtain ⟨line, more, rfl, hline, hmore⟩ := hopens
        obtain ⟨tail, blank, hreverse, hnone⟩ := List.eq_append_cons_of_mem (List.mem_reverse.2 hmore)
        obtain rfl : more = blank.reverse ++ '\n' :: tail.reverse := by
          rw [← List.reverse_reverse more, hreverse]
          simp
        have hnone : '\n' ∉ tail.reverse := by rwa [List.mem_reverse]
        have hall (d : Char) (hd : d ∈ blank.reverse ++ '\n' :: tail.reverse) : isBlank d = true :=
          hrest d (List.mem_append_right _ (List.mem_cons_of_mem _ hd))
        rw [collapse_found hline (fun d hd => hall d (List.mem_append_left _ hd)) fun d hd =>
          ⟨hall d (List.mem_append_right _ (List.mem_cons_of_mem _ hd)), fun h => hnone (h ▸ hd)⟩,
          collapse_of_not_mem hnone]
        exact ((isCollapsed_of_not_mem hnone).cons fun _ => not_opensBlankLines_of_not_mem hnone).cons
          fun _ => mt opensBlankLines_break.1 hnone
      · rw [collapse_copied hopens]
        exact (ih hrest).cons fun _ => not_opensBlankLines_collapse hopens
    · rw [collapse_cons hc]
      exact (ih hrest).cons fun h => absurd h hc

/-! ## Runs of whitespace -/

theorem unspaced_unspaced (t : Text) : unspaced (unspaced t) = unspaced t := by
  by_cases hend : (t.dropWhile isSpace).head?.all (· == '\n') = true
  · have hdrop : unspaced t = t.dropWhile isSpace := if_pos hend
    rw [hdrop, unspaced_of_head (Text.head?_any_dropWhile isSpace t)]
  · have hsame : unspaced t = t := if_neg hend
    rw [hsame, hsame]

/-- A tidied run of whitespace is tidy. -/
theorem tidyRun_tidyRun {b : Text} (hb : ∀ c ∈ b, isBlank c = true) (behind last : Bool) :
    tidyRun behind last (tidyRun behind last b) = tidyRun behind last b := by
  have hrun : collapse (tidyRun behind last b) = tidyRun behind last b :=
    ((isCollapsed_collapse hb).of_suffix (tidyRun_suffix behind last b)).collapse_eq
  by_cases hcond : (behind && (last || !(collapse b).all isSpace)) = true
  · have htidy : tidyRun behind last b = unspaced (collapse b) := if_pos hcond
    rw [htidy] at hrun ⊢
    rw [tidyRun, hrun, unspaced_unspaced, ite_self]
  · have htidy : tidyRun behind last b = collapse b := if_neg hcond
    rw [htidy] at hrun ⊢
    rw [tidyRun, hrun, if_neg hcond]

/-! ## Code -/

/-- Code starts as it did. -/
theorem head?_tidyCode (t : Text) : (tidyCode t).head? = t.head? := by
  have hstarts (c : Char) (hc : trailingSpace.startsWith c = true) : (";" : Text).head? = some c := by
    have hletter : sameLetter ';' c = true := by
      simpa [trailingSpace, Pattern.sequence, startsWith, nullable] using hc
    rw [eq_of_sameLetter (by decide) hletter]
    rfl
  have hstrip : (strip (collapse t)).head? = (collapse t).head? := head?_replaceMatches rfl rfl hstarts _
  rw [tidyCode_eq, hstrip, head?_collapse]

theorem tidyCode_eq_nil {t : Text} : tidyCode t = [] ↔ t = [] := by
  rw [← List.head?_eq_none_iff, head?_tidyCode, List.head?_eq_none_iff]

theorem isEmpty_tidyCode (t : Text) : (tidyCode t).isEmpty = t.isEmpty := by
  rw [Bool.eq_iff_iff, List.isEmpty_iff, List.isEmpty_iff, tidyCode_eq_nil]

/-- Tidied code is tidy. -/
theorem resume_resume (behind : Bool) (t : Text) : resume behind (resume behind t) = resume behind t := by
  induction t using code_induction generalizing behind with
  | nil => rw [resume_nil, resume_nil]
  | sign c t hc ih => rw [resume_cons hc, resume_cons hc, ih]
  | run b y hb hy ih =>
    have hhead : (tidyCode y).head?.any isBlank = false := by rwa [head?_tidyCode]
    have hagain := ih false
    rw [resume_false, resume_false] at hagain
    rw [resume_run hb hy, resume_run (tidyRun_blank hb _ _) hhead, isEmpty_tidyCode, tidyRun_tidyRun hb, hagain]

theorem tidyCode_tidyCode (t : Text) : tidyCode (tidyCode t) = tidyCode t :=
  resume_resume false t

/-- Tidying changes whitespace only. -/
theorem filter_resume (behind : Bool) (t : Text) :
    (resume behind t).filter (fun c => !isBlank c) = t.filter fun c => !isBlank c := by
  induction t using code_induction generalizing behind with
  | nil => rw [resume_nil]
  | sign c t hc ih => rw [resume_cons hc, List.filter_cons, List.filter_cons, ih]
  | run b y hb hy ih =>
    rw [resume_run hb hy, List.filter_append, List.filter_append, filter_blank hb, filter_blank (tidyRun_blank hb _ _),
      ← resume_false, ih]

/-- Code may be trimmed before or after it is tidied. -/
theorem resume_trimEnd (behind : Bool) (t : Text) :
    resume behind (Text.trimEnd t) = Text.trimEnd (resume behind t) := by
  induction t using code_induction generalizing behind with
  | nil =>
    have hnil : Text.trimEnd [] = [] := rfl
    rw [hnil, resume_nil, hnil]
  | sign c t hc ih =>
    have hcons (u : Text) : Text.trimEnd (c :: u) = c :: Text.trimEnd u := Text.trimEnd_append (p := [c]) hc u
    rw [hcons, resume_cons hc, resume_cons hc, hcons, ih]
  | run b y hb hy ih =>
    have htail := ih false
    rw [resume_false, resume_false] at htail
    rw [resume_run hb hy]
    by_cases hnil : Text.trimEnd y = []
    · -- nothing but the run is left
      obtain rfl : y = [] := by
        cases y with
        | nil => rfl
        | cons c y => exact absurd (Text.trimEnd_eq_nil.1 hnil c List.mem_cons_self) (by simpa using hy)
      rw [tidyCode_eq_nil.2 rfl, List.append_nil, List.append_nil, Text.trimEnd_eq_nil.2 hb,
        Text.trimEnd_eq_nil.2 (tidyRun_blank hb _ _), resume_nil]
    · have hhead : (Text.trimEnd y).head? = y.head? := head?_trimEnd hnil
      have hempty : (Text.trimEnd y).isEmpty = y.isEmpty := by
        rw [Bool.eq_iff_iff, List.isEmpty_iff, List.isEmpty_iff, ← List.head?_eq_none_iff, hhead, List.head?_eq_none_iff]
      have hne : Text.trimEnd (tidyCode y) ≠ [] := by rwa [← htail, Ne, tidyCode_eq_nil]
      rw [Text.trimEnd_append_of_ne hnil, resume_run hb (by rwa [hhead]), hempty, htail, Text.trimEnd_append_of_ne hne]

/-! ## Segments -/

/-- The segments of a tidied script are the tidied segments. -/
theorem segments_tidyTokens (script : Text) (behind : Bool) :
    segments (tidyTokens behind (scan script)) = tidiedSegments behind (segments script) := by
  induction script using scan_induction generalizing behind with
  | gap g hg =>
    have hwhole : gap (Trivia.textOf g ++ []) = (g, []) := by rwa [List.append_nil]
    obtain ⟨hrest, hpieces⟩ := gap_tidyGap hwhole rfl (show trivia? [] = none from rfl) behind true
    have htext := gap_text (tidyGap behind true g)
    rw [List.append_nil] at hrest hpieces
    rw [hrest, List.append_nil] at htext
    have hread : gap (Trivia.textOf (gap (tidyGap behind true g)).1) = ((gap (tidyGap behind true g)).1, []) := by
      rw [Trivia.textOf, htext, ← hrest]
    have hsegments := segments_of_gap hread
    rw [Trivia.textOf, htext, hpieces] at hsegments
    rw [scan_of_gap_nil hg, tidyTokens_end, tidiedSegments_end hg, hsegments]
    rfl
  | token t rest hfits ih =>
    obtain ⟨g, hsame, hread⟩ := exists_fits_tidyToken hfits behind
    have hgap := hfits.gap_eq
    rw [Token.text, List.append_assoc] at hgap
    have hhead : (tidyLexeme t ++ tidyTokens (t.kind == .semicolon) (scan rest)).head? = (t.lexeme ++ rest).head? := by
      obtain ⟨c, l, hl⟩ := List.exists_cons_of_ne_nil hfits.lexeme_ne_nil
      have hlexeme : (tidyLexeme t).head? = t.lexeme.head? := by
        unfold tidyLexeme
        split
        · exact head?_tidyCode _
        · rfl
      rw [List.head?_append, hlexeme, hl]
      rfl
    have hpieces := (gap_tidyGap hgap hhead hread.trivia?_eq_none behind (t.isQuotation || t.isEof)).2
    have hgap' := hread.gap_eq
    rw [← hsame, tidyToken, List.append_assoc] at hgap'
    rw [hgap'] at hpieces
    rw [scan_of_fits hfits, tidyTokens, hsame, segments_of_fits hread, ih, tidiedSegments_token hfits, ← hpieces]
    rfl

/-- The segments of a tidied script are the tidied segments. -/
theorem segments_tidyCode (script : Text) :
    segments (changeCode tidyCode script) = (segments script).map (recode tidyCode) := by
  rw [changeCode_tidyCode, segments_tidyTokens, tidiedSegments_false]
  exact merge_map_recode (fun _ => tidyCode_eq_nil) (merge_cells script)

theorem solidCode_tidied (ps : List Segment) : solidCode (ps.map (recode tidyCode)) = solidCode ps := by
  induction ps with
  | nil => rfl
  | cons p ps ih =>
    have hpiece : solidCode [recode tidyCode p] = solidCode [p] := by
      by_cases hp : p.kind = .code
      · simp [solidCode, recode, hp, ← resume_false, filter_resume]
      · rw [recode_of_ne hp]
    have hcons (q : Segment) (qs : List Segment) : solidCode (q :: qs) = solidCode [q] ++ solidCode qs := by
      simp [solidCode]
    rw [List.map_cons, hcons, ih, hpiece, ← hcons]

/-! ## Scripts -/

theorem changeCode_tidyCode_again (script : Text) :
    changeCode tidyCode (changeCode tidyCode script) = changeCode tidyCode script := by
  have hagain (p : Segment) : recode tidyCode (recode tidyCode p) = recode tidyCode p := by
    by_cases hp : p.kind = .code
    · simp [recode, hp, tidyCode_tidyCode]
    · rw [recode_of_ne hp, recode_of_ne hp]
  rw [changeCode_eq_textOf, segments_tidyCode, List.map_map, changeCode_eq_textOf]
  exact congrArg (fun f => textOf ((segments script).map f)) (funext hagain)

theorem head?_changeCode (script : Text) : (changeCode tidyCode script).head? = script.head? := by
  have hpieces (ps : List Segment) : (textOf (ps.map (recode tidyCode))).head? = (textOf ps).head? := by
    induction ps with
    | nil => rfl
    | cons p ps ih =>
      have hpiece : (recode tidyCode p).text.head? = p.text.head? := by
        unfold recode
        split
        · exact head?_tidyCode _
        · rfl
      rw [List.map_cons, textOf_cons, textOf_cons, List.head?_append, List.head?_append, ih, hpiece]
  rw [changeCode_eq_textOf, hpieces, segments_text]

/-- Whitespace at the start of a script is tidied by itself. -/
theorem exists_blank_append {b y : Text} (hb : ∀ c ∈ b, isBlank c = true) (hy : y.head?.any isBlank = false) :
    ∃ b', (∀ c ∈ b', isBlank c = true) ∧ changeCode tidyCode (b ++ y) = b' ++ changeCode tidyCode y := by
  have hfront : (codeFront (segments y)).head?.any isBlank = false := by
    obtain ⟨more, hmore⟩ := codeFront_initial (segments y)
    rw [segments_text] at hmore
    rw [← hmore] at hy
    cases hcode : codeFront (segments y) with
    | nil => rfl
    | cons c code => rwa [hcode] at hy
  refine ⟨tidyRun false (codeFront (segments y)).isEmpty b, tidyRun_blank hb _ _, ?_⟩
  rw [changeCode_eq, changeCode_eq, segments_blank_append hb hy, ← textOf_tidiedSegments, tidiedSegments_push_code,
    textOf_push, textOf_merge, textOf_map_recode, resume_run hb hfront, resumeSegments, List.append_assoc]
  rfl

/-- A script may be trimmed before or after it is tidied. -/
theorem changeCode_trim (script : Text) :
    changeCode tidyCode (Text.trim script) = Text.trim (changeCode tidyCode script) := by
  have hblank := Text.forall_mem_takeWhile isBlank script
  have hstop := Text.head?_any_dropWhile isBlank script
  obtain ⟨b, hb, htext⟩ := exists_blank_append hblank hstop
  have hstart : Text.trimStart (changeCode tidyCode script) = changeCode tidyCode (Text.trimStart script) := by
    rw [List.takeWhile_append_dropWhile] at htext
    rw [htext]
    exact Text.dropWhile_run hb (by rwa [head?_changeCode])
  rw [Text.trim, Text.trim, hstart]
  exact changeCode_trimEnd (fun _ => tidyCode_eq_nil) (resume_trimEnd false) _

theorem tidy_tidy (script : Text) : tidy (tidy script) = tidy script := by
  rw [tidy, tidy, changeCode_trim, trim_trim, changeCode_tidyCode_again]

theorem kinds_tidy (script : Text) : (scan (tidy script)).map Token.kind = (scan script).map Token.kind := by
  have hgap (g : List Trivia) (ts : List Token) : (Token.withGap g ts).map Token.kind = ts.map Token.kind := by
    cases ts <;> rfl
  have hkinds {ts us : List Token} (h : List.Forall₂ Token.AgreeUpToGap ts us) : us.map Token.kind = ts.map Token.kind := by
    induction h with
    | nil => rfl
    | cons htu _ ih => rw [List.map_cons, List.map_cons, ih, htu.kind]
  have hend := (scan_trimEnd (Text.trimStart (changeCode tidyCode script))).imp fun _ _ htu => htu.agree.toAgreeUpToGap
  obtain ⟨g, hscan⟩ := exists_scan_withGap (gap_dropWhile_blank (changeCode tidyCode script))
  rw [tidy, Text.trim, hkinds hend, Text.trimStart, hscan, hgap, changeCode_tidyCode, hkinds (tidied_scan script false).agree]

/-- The segments of a tidied script are the tidied segments without the whitespace around them. -/
theorem exists_segments_tidy (script : Text) : ∃ b ss, (∀ c ∈ b, isBlank c = true) ∧
    (segments script).map (recode tidyCode) = push ⟨.code, b⟩ ss ∧ segments (tidy script) = settleEnd ss := by
  have hblank := Text.forall_mem_takeWhile isBlank (changeCode tidyCode script)
  have hstop := Text.head?_any_dropWhile isBlank (changeCode tidyCode script)
  refine ⟨_, segments (Text.trimStart (changeCode tidyCode script)), hblank, ?_, segments_trimEnd _⟩
  have hsegments := segments_blank_append hblank hstop
  rwa [List.takeWhile_append_dropWhile, segments_tidyCode] at hsegments

theorem shielded_tidy (script : Text) : shielded (segments (tidy script)) = shieldedToEnd (segments script) := by
  obtain ⟨b, ss, -, hpush, htidy⟩ := exists_segments_tidy script
  rw [htidy, ← shielded_settleEnd_push b, ← hpush,
    settleEnd_map_recode (fun _ => tidyCode_eq_nil) (resume_trimEnd false), shielded_map_recode, shielded_settleEnd]

theorem solidCode_tidy (script : Text) : solidCode (segments (tidy script)) = solidCode (segments script) := by
  obtain ⟨b, ss, hb, hpush, htidy⟩ := exists_segments_tidy script
  rw [htidy, solidCode_settleEnd, ← solidCode_push_blank hb, ← hpush, solidCode_tidied]

/-- Tidying a tidied script changes nothing. A tidied script has the same tokens, the same literals, quoted names
and comments, where a comment that ends the script loses the whitespace at its end, and its code is the same up
to whitespace. -/
theorem tidy_keeps (script : Text) : tidy (tidy script) = tidy script ∧
    (scan (tidy script)).map Token.kind = (scan script).map Token.kind ∧
    shielded (segments (tidy script)) = shieldedToEnd (segments script) ∧
    solidCode (segments (tidy script)) = solidCode (segments script) :=
  ⟨tidy_tidy script, kinds_tidy script, shielded_tidy script, solidCode_tidy script⟩

/-- A comment is trimmed at the end of the script only. -/
example : tidy "a -- b \n\n\n\nc -- d " = "a -- b \n\nc -- d" := by decide +kernel

end Layout

end DialectBridge
