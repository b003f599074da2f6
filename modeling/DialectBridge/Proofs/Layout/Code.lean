import Mathlib.Data.List.TakeWhile
import DialectBridge.Layout
import DialectBridge.Proofs.Lexical.Locality
import DialectBridge.Proofs.Pattern.Replaced

/-!
# Tidying code

Tidying changes runs of whitespace only. What it makes of one depends on the run, on whether a semicolon
stands in front of it, and on whether code goes on behind it (`tidyRun`); all other characters are copied
(`resume_cons`). So code is tidied character by character and run by run, where `resume` remembers the
semicolon.
-/

namespace DialectBridge.Layout

open Pattern

theorem isBlank_of_isSpace {c : Char} (h : isSpace c = true) : isBlank c = true := by
  simp only [isSpace, Bool.or_eq_true, beq_iff_eq] at h
  rcases h with rfl | rfl <;> decide

theorem head?_any_isSpace {y : Text} (hy : y.head?.any isBlank = false) : y.head?.any isSpace = false := by
  cases y with
  | nil => rfl
  | cons c y => exact Bool.eq_false_iff.2 fun hc => absurd (isBlank_of_isSpace hc) (by simpa using hy)

/-! ## Blank lines -/

/-- The text with one blank line for several. -/
def collapse (t : Text) : Text :=
  replaceMatches blankLines.matcher (fun _ => "\n\n") t

theorem startsWith_blankLines {c : Char} (h : blankLines.startsWith c = true) : c = '\n' := by
  have hletter : sameLetter '\n' c = true := by
    simpa [blankLines, Pattern.sequence, startsWith, nullable] using h
  exact eq_of_sameLetter (by decide) hletter

theorem endsBefore_blankLines {y : Text} (hy : y.head?.any isBlank = false) : blankLines.endsBefore y = true := by
  have hspace := head?_any_isSpace hy
  have hbreak : y.head?.any (sameLetter '\n') = false := by
    cases y with
    | nil => rfl
    | cons c y =>
      refine Bool.eq_false_iff.2 fun hc => ?_
      obtain rfl : c = '\n' := eq_of_sameLetter (by decide) hc
      cases hy
  simp [blankLines, Pattern.sequence, endsBefore, gap, hspace, hbreak, hy]

theorem collapse_nil : collapse [] = [] :=
  replaceMatches_nil rfl

theorem collapse_cons {c : Char} (hc : c ≠ '\n') (t : Text) : collapse (c :: t) = c :: collapse t :=
  replaceMatches_cons rfl rfl (Bool.eq_false_iff.2 fun h => hc (startsWith_blankLines h)) t

theorem collapse_append {y : Text} (hy : y.head?.any isBlank = false) (t : Text) :
    collapse (t ++ y) = collapse t ++ collapse y :=
  replaceMatches_append rfl rfl (endsBefore_blankLines hy) t

theorem head?_collapse (t : Text) : (collapse t).head? = t.head? :=
  head?_replaceMatches rfl rfl (fun c hc => by rw [startsWith_blankLines hc]; rfl) t

theorem collapse_eq_nil {t : Text} : collapse t = [] ↔ t = [] := by
  rw [← List.head?_eq_none_iff, head?_collapse, List.head?_eq_none_iff]

theorem collapse_blank {b : Text} (hb : ∀ c ∈ b, isBlank c = true) : ∀ c ∈ collapse b, isBlank c = true := by
  intro c hc
  rcases mem_replaceMatches hc with h | h
  · exact hb c h
  · exact List.all_eq_true.1 (show "\n\n".toList.all isBlank = true by decide) c h

/-- Without a line break nothing has been collapsed. -/
theorem collapse_eq_self {t : Text} (h : ∀ c ∈ collapse t, isSpace c = true) : collapse t = t :=
  replaceMatches_eq_self_of_notMem (c := '\n') (by decide) fun hbreak => absurd (h _ hbreak) (by decide)

/-! ## Space behind a semicolon -/

/-- The text without the space behind a semicolon at the end of a line. -/
def strip (t : Text) : Text :=
  replaceMatches trailingSpace.matcher (fun _ => ";") t

/-- What stands behind a semicolon without the space at the end of the line. -/
def unspaced (t : Text) : Text :=
  if (t.dropWhile isSpace).head?.all (· == '\n') then t.dropWhile isSpace else t

theorem strip_nil : strip [] = [] :=
  replaceMatches_nil rfl

theorem strip_cons {c : Char} (hc : c ≠ ';') (t : Text) : strip (c :: t) = c :: strip t := by
  refine replaceMatches_cons rfl rfl (Bool.eq_false_iff.2 fun h => hc ?_) t
  have hletter : sameLetter ';' c = true := by
    simpa [trailingSpace, Pattern.sequence, startsWith, nullable] using h
  exact eq_of_sameLetter (by decide) hletter

/-- Behind the semicolon a match is run like this. -/
theorem run_trailingSpace (t : Text) (next : Site → Option Site) :
    Pattern.run trailingSpace ⟨[], ';' :: t, []⟩ next =
      Pattern.run (one isSpace) ⟨[';'], t, []⟩ fun s =>
        passMany isSpace s.captured (fun s => Pattern.run lineEnd s next) s.before s.after := by
  rw [trailingSpace, run_sequence_cons, run_letter_cons (by decide)]
  rfl

theorem matcher_trailingSpace_none {w : Text} (hw : w.head?.any isSpace = false) :
    trailingSpace.matcher [] (';' :: w) = none := by
  rw [Pattern.matcher, run_trailingSpace, run_one_ne hw]
  rfl

/-- Space behind a semicolon is a match at the end of a line, and no match elsewhere. -/
theorem matcher_trailingSpace {c : Char} {run w : Text} (hc : isSpace c = true) (hrun : ∀ d ∈ run, isSpace d = true)
    (hw : w.head?.any isSpace = false) : trailingSpace.matcher [] (';' :: c :: run ++ w) =
      if w.head?.all (· == '\n') then some (';' :: c :: run, []) else none := by
  -- the search does not stop within the space: no line ends in front of it
  have hinside : ∀ d ∈ run, ∀ before after, Pattern.run lineEnd ⟨before, d :: after, []⟩ .some = none := by
    intro d hd before after
    have hbreak : d ≠ '\n' := fun h => absurd (hrun d hd) (by rw [h]; decide)
    rw [Pattern.run, if_neg (by simpa [Site.isLineEnd] using hbreak)]
  show (Pattern.run trailingSpace ⟨[], ';' :: (c :: (run ++ w)), []⟩ .some).map _ = _
  rw [run_trailingSpace, run_one_cons hc, passMany_exact hrun hw hinside, Pattern.run, Site.isLineEnd]
  split
  · have htaken : Site.textUpTo ⟨[], ';' :: c :: (run ++ w), []⟩ ⟨run.reverse ++ [c, ';'], w, []⟩ = ';' :: c :: run :=
      textUpTo_eq rfl
    exact congrArg (fun taken => some (taken, [])) htaken
  · rfl

theorem strip_semicolon (t : Text) : strip (';' :: t) = ';' :: strip (unspaced t) := by
  have htext := List.takeWhile_append_dropWhile (p := isSpace) (l := t)
  have hspaces := Text.forall_mem_takeWhile isSpace t
  have hrest := Text.head?_any_dropWhile isSpace t
  rw [unspaced]
  generalize t.takeWhile isSpace = spaces at htext hspaces
  generalize t.dropWhile isSpace = w at htext hrest ⊢
  subst htext
  cases spaces with
  | nil =>
    rw [List.nil_append, ite_self]
    exact replaceMatches_copied rfl rfl (matcher_trailingSpace_none hrest)
  | cons c run =>
    obtain ⟨hc, hrun⟩ := List.forall_mem_cons.1 hspaces
    have hmatcher := matcher_trailingSpace hc hrun hrest
    split at hmatcher
    · next hend =>
      rw [if_pos hend]
      exact replaceMatches_found rfl rfl hmatcher
    · next hend =>
      rw [if_neg hend]
      exact replaceMatches_copied rfl rfl hmatcher

/-- Whitespace is copied. -/
theorem strip_append {b : Text} (hb : ∀ c ∈ b, isBlank c = true) (y : Text) : strip (b ++ y) = b ++ strip y := by
  induction b with
  | nil => rfl
  | cons c b ih =>
    obtain ⟨hc, hb⟩ := List.forall_mem_cons.1 hb
    have hne : c ≠ ';' := fun h => absurd hc (by rw [h]; decide)
    rw [List.cons_append, strip_cons hne, ih hb, List.cons_append]

theorem unspaced_suffix (t : Text) : unspaced t <:+ t := by
  rw [unspaced]
  split
  · exact List.dropWhile_suffix _
  · exact List.suffix_refl t

theorem unspaced_of_head {t : Text} (h : t.head?.any isSpace = false) : unspaced t = t := by
  have hdrop : ([] ++ t).dropWhile isSpace = t := Text.dropWhile_run (List.forall_mem_nil _) h
  rw [List.nil_append] at hdrop
  rw [unspaced, hdrop, ite_self]

/-- Only from space nothing is left. -/
theorem unspaced_eq_nil {t : Text} : unspaced t = [] ↔ ∀ c ∈ t, isSpace c = true := by
  rw [← List.dropWhile_eq_nil_iff, unspaced]
  split
  · rfl
  · next hend => exact iff_of_false (fun h => hend (by simp [h])) fun h => hend (by simp [h])

/-- What follows does not matter to space in front of another blank. -/
theorem unspaced_append {t : Text} (h : ¬∀ c ∈ t, isSpace c = true) (z : Text) :
    unspaced (t ++ z) = unspaced t ++ z := by
  have hne : t.dropWhile isSpace ≠ [] := fun hnil => h (List.dropWhile_eq_nil_iff.1 hnil)
  have hdrop : (t ++ z).dropWhile isSpace = t.dropWhile isSpace ++ z := by
    rw [List.dropWhile_append, if_neg (by simpa using hne)]
  have hhead : (t.dropWhile isSpace ++ z).head? = (t.dropWhile isSpace).head? := by
    obtain ⟨c, u, hcons⟩ := List.exists_cons_of_ne_nil hne
    rw [hcons]
    rfl
  rw [unspaced, unspaced, hdrop, hhead]
  split <;> rfl

/-! ## Runs of whitespace -/

/-- What tidying makes of a run of whitespace, behind a semicolon or not, where `last` says that no code
follows it. -/
def tidyRun (behind last : Bool) (b : Text) : Text :=
  if behind && (last || !(collapse b).all isSpace) then unspaced (collapse b) else collapse b

theorem tidyRun_suffix (behind last : Bool) (b : Text) : tidyRun behind last b <:+ collapse b := by
  rw [tidyRun]
  split
  · exact unspaced_suffix _
  · exact List.suffix_refl _

theorem tidyRun_blank {b : Text} (hb : ∀ c ∈ b, isBlank c = true) (behind last : Bool) :
    ∀ c ∈ tidyRun behind last b, isBlank c = true :=
  fun c hc => collapse_blank hb c ((tidyRun_suffix behind last b).subset hc)

/-- Only space between a semicolon and the end of the code vanishes. -/
theorem eq_nil_of_tidyRun {behind last : Bool} {b : Text} (hne : b ≠ []) (h : tidyRun behind last b = []) :
    behind = true ∧ last = true ∧ ∀ c ∈ b, isSpace c = true := by
  have hcollapse : collapse b ≠ [] := fun h => hne (collapse_eq_nil.1 h)
  rw [tidyRun] at h
  split at h
  · next hcond =>
    rw [Bool.and_eq_true] at hcond
    have hall := unspaced_eq_nil.1 h
    rw [List.all_eq_true.2 hall, Bool.not_true, Bool.or_false] at hcond
    rw [collapse_eq_self hall] at hall
    exact ⟨hcond.1, hcond.2, hall⟩
  · exact absurd h hcollapse

/-! ## Code -/

theorem tidyCode_eq (t : Text) : tidyCode t = strip (collapse t) := rfl

/-- What tidying makes of code behind a semicolon, or of other code. -/
def resume (behind : Bool) (t : Text) : Text :=
  if behind then strip (unspaced (collapse t)) else tidyCode t

@[simp] theorem resume_false (t : Text) : resume false t = tidyCode t := rfl

@[simp] theorem resume_nil (behind : Bool) : resume behind [] = [] := by
  cases behind <;> simp [resume, tidyCode_eq, collapse_nil, strip_nil, unspaced]

/-- Other characters than whitespace are copied. -/
theorem resume_cons {c : Char} (hc : isBlank c = false) (behind : Bool) (t : Text) :
    resume behind (c :: t) = c :: resume (c == ';') t := by
  have hbreak : c ≠ '\n' := fun h => absurd hc (by rw [h]; decide)
  have hhead : (c :: collapse t).head?.any isSpace = false := head?_any_isSpace hc
  have hstart : resume behind (c :: t) = strip (c :: collapse t) := by
    cases behind with
    | false => rw [resume_false, tidyCode_eq, collapse_cons hbreak]
    | true => rw [resume, if_pos rfl, collapse_cons hbreak, unspaced_of_head hhead]
  rw [hstart]
  by_cases hsemicolon : c = ';'
  · subst hsemicolon
    exact strip_semicolon _
  · rw [strip_cons hsemicolon, beq_eq_false_iff_ne.2 hsemicolon, resume_false, tidyCode_eq]

/-- A run of whitespace in front of other code is tidied by itself. -/
theorem resume_run {b y : Text} (hb : ∀ c ∈ b, isBlank c = true) (hy : y.head?.any isBlank = false) (behind : Bool) :
    resume behind (b ++ y) = tidyRun behind y.isEmpty b ++ tidyCode y := by
  cases behind with
  | false =>
    rw [resume_false, tidyCode_eq, tidyCode_eq, collapse_append hy, strip_append (collapse_blank hb)]
    rfl
  | true =>
    have hunspaced : unspaced (collapse b ++ collapse y) = tidyRun true y.isEmpty b ++ collapse y := by
      rw [tidyRun, Bool.true_and]
      by_cases hall : ∀ c ∈ collapse b, isSpace c = true
      · rw [List.all_eq_true.2 hall, Bool.not_true, Bool.or_false, unspaced_eq_nil.2 hall]
        cases y with
        | nil => simpa [collapse_nil] using unspaced_eq_nil.2 hall
        | cons c y =>
          -- code follows on the same line, so the space stays
          have hc : isBlank c = false := hy
          have hbreak : c ≠ '\n' := fun h => absurd hc (by rw [h]; decide)
          rw [collapse_cons hbreak, unspaced, List.dropWhile_append_of_pos hall,
            List.dropWhile_cons_of_neg (by simpa using head?_any_isSpace hy)]
          simp [hbreak]
      · have hsome : (collapse b).all isSpace = false := Bool.eq_false_iff.2 fun h => hall (List.all_eq_true.1 h)
        rw [hsome, Bool.not_false, Bool.or_true, if_pos rfl, unspaced_append hall]
    rw [resume, if_pos rfl, collapse_append hy, hunspaced, strip_append (tidyRun_blank hb _ _), tidyCode_eq]

/-- A property of texts holds if it holds of the empty text and passes from a text to the same text with a
sign or a run of whitespace in front. -/
theorem code_induction {motive : Text → Prop} (nil : motive [])
    (sign : ∀ c t, isBlank c = false → motive t → motive (c :: t))
    (run : ∀ b y, (∀ c ∈ b, isBlank c = true) → y.head?.any isBlank = false → motive y → motive (b ++ y))
    (t : Text) : motive t := by
  induction hn : t.length using Nat.strongRecOn generalizing t with
  | ind n ih =>
    cases t with
    | nil => exact nil
    | cons c t =>
      by_cases hc : isBlank c = true
      · have hblank : ∀ d ∈ c :: t.takeWhile isBlank, isBlank d = true :=
          List.forall_mem_cons.2 ⟨hc, Text.forall_mem_takeWhile isBlank t⟩
        have hlen : (t.dropWhile isBlank).length < n := by
          have := (List.dropWhile_suffix isBlank (l := t)).length_le
          rw [← hn, List.length_cons]
          omega
        have hmore := run _ _ hblank (Text.head?_any_dropWhile isBlank t) (ih _ hlen _ rfl)
        rwa [List.cons_append, List.takeWhile_append_dropWhile] at hmore
      · have hlen : t.length < n := by rw [← hn, List.length_cons]; exact Nat.lt_succ_self _
        exact sign c t (Bool.eq_false_iff.2 hc) (ih _ hlen t rfl)

/-- A word, a number or a sign other than a semicolon is copied. -/
theorem resume_word {l : Text} (hne : l ≠ []) (hl : ∀ c ∈ l, isBlank c = false ∧ c ≠ ';') (behind : Bool) (y : Text) :
    resume behind (l ++ y) = l ++ tidyCode y := by
  induction l generalizing behind with
  | nil => exact absurd rfl hne
  | cons c l ih =>
    obtain ⟨⟨hblank, hc⟩, hl⟩ := List.forall_mem_cons.1 hl
    rw [List.cons_append, resume_cons hblank, beq_eq_false_iff_ne.2 hc]
    cases l with
    | nil => rfl
    | cons d l =>
      rw [ih (List.cons_ne_nil d l) hl false]
      rfl

end DialectBridge.Layout
