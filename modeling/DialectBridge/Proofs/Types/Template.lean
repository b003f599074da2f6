import DialectBridge.Proofs.Lexical.Shielded
import DialectBridge.Proofs.Pattern.Cutting
import DialectBridge.Proofs.Pattern.Reach
import DialectBridge.Proofs.Pattern.Run
import DialectBridge.Proofs.Pattern.Word
import DialectBridge.Proofs.Text.Case
import DialectBridge.Proofs.Text.Characters
import DialectBridge.Proofs.Text.Run
import DialectBridge.Types.Mask

/-!
# Masked texts as lists of parts

A masked text is a list of parts: characters of code and placeholders. As long as no character of code
is the mark, the parts are read back from the text (`parts_render`), and restoring the text fills in
the placeholders one by one.
-/

namespace DialectBridge

namespace Masked

/-- A part of a masked text. -/
inductive Part where
  | code (c : Char)
  | held (n : Nat)
  deriving DecidableEq, Repr

namespace Part

/-- The text of a part. -/
def text : Part → Text
  | code c => [c]
  | held n => placeholder n

/-- The number of a placeholder. -/
def number? : Part → Option Nat
  | code _ => none
  | held n => some n

end Part

/-- The text of parts. -/
def render (ps : List Part) : Text :=
  ps.flatMap Part.text

@[simp] theorem render_nil : render [] = [] := rfl

@[simp] theorem render_cons (p : Part) (ps : List Part) : render (p :: ps) = p.text ++ render ps := rfl

@[simp] theorem render_append (ps qs : List Part) : render (ps ++ qs) = render ps ++ render qs := by
  simp [render]

/-- The numbers of the placeholders among parts. -/
def numbers (ps : List Part) : List Nat :=
  ps.filterMap Part.number?

@[simp] theorem numbers_append (ps qs : List Part) : numbers (ps ++ qs) = numbers ps ++ numbers qs := by
  simp [numbers]

@[simp] theorem numbers_cons_code (c : Char) (ps : List Part) :
    numbers (.code c :: ps) = numbers ps := rfl

theorem mem_numbers {n : Nat} {ps : List Part} : n ∈ numbers ps ↔ .held n ∈ ps := by
  simp only [numbers, List.mem_filterMap]
  constructor
  · rintro ⟨p, hp, hn⟩
    cases p with
    | code c => cases hn
    | held m =>
      obtain rfl := Option.some.inj hn
      exact hp
  · exact fun hn => ⟨_, hn, rfl⟩

/-- No character of code is the mark. -/
def Sound (ps : List Part) : Prop :=
  Part.code mark ∉ ps

theorem sound_cons {p : Part} {ps : List Part} : Sound (p :: ps) ↔ p ≠ .code mark ∧ Sound ps := by
  simp [Sound, eq_comm]

theorem sound_append {ps qs : List Part} : Sound (ps ++ qs) ↔ Sound ps ∧ Sound qs := by
  simp [Sound, not_or]

/-! ## Placeholders -/

theorem digits_ofNat (n : Nat) : ∀ c ∈ Text.ofNat n, c.isDigit = true := by
  intro c hc
  rw [Text.ofNat, Nat.toList_repr] at hc
  exact Nat.isDigit_of_mem_toDigits (by decide) (by decide) hc

theorem ofNat_ne_nil (n : Nat) : Text.ofNat n ≠ [] := by
  rw [Text.ofNat, Nat.toList_repr]
  exact Nat.toDigits_ne_nil

theorem number?_ofNat (n : Nat) : number? (Text.ofNat n) = some n := by
  have hall : (Text.ofNat n).all Char.isDigit = true := List.all_eq_true.2 (digits_ofNat n)
  rw [number?, if_pos hall, Text.ofNat, Nat.toList_repr, ← Nat.ofDigitChars_eq_foldl,
    Nat.ofDigitChars_ten_toDigits]

theorem wordDigit_ofNat (n : Nat) : ∀ c ∈ Text.ofNat n, isWordDigit c = true :=
  fun c hc => Pattern.wordDigit_of_digit (digits_ofNat n c hc)

/-- A placeholder is found at its first mark. -/
theorem matcher_placeholder (before : Text) (n : Nat) (rest : Text) :
    placeholderPattern.matcher before (placeholder n ++ rest) =
      some (placeholder n, [(1, Text.ofNat n)]) := by
  obtain ⟨d, ds, hds⟩ := List.exists_cons_of_ne_nil (ofNat_ne_nil n)
  have hdigits := wordDigit_ofNat n
  rw [hds] at hdigits
  have hrun : placeholderPattern.run ⟨before, mark :: d :: (ds ++ mark :: rest), []⟩ .some =
      some ⟨mark :: (ds.reverse ++ d :: mark :: before), rest, [(1, d :: ds)]⟩ := by
    simp only [placeholderPattern, Pattern.sequence, List.foldr, Pattern.digits, Pattern.some, Pattern.run,
      Pattern.passOne]
    rw [if_pos (by decide), if_pos (hdigits d List.mem_cons_self)]
    refine Pattern.passMany_run (fun c hc => hdigits c (List.mem_cons_of_mem _ hc))
      (show isWordDigit mark = false by decide) ?_
    have htaken : Pattern.Site.textUpTo ⟨mark :: before, d :: (ds ++ mark :: rest), []⟩
        ⟨ds.reverse ++ d :: mark :: before, mark :: rest, []⟩ = d :: ds :=
      Pattern.textUpTo_eq (s := ⟨mark :: before, d :: (ds ++ mark :: rest), []⟩) rfl
    simp [htaken, show sameLetter mark mark = true by decide]
  have hplaceholder : placeholder n ++ rest = mark :: d :: (ds ++ mark :: rest) := by
    simp [placeholder, hds]
  have htaken : Pattern.Site.textUpTo ⟨before, placeholder n ++ rest, []⟩
      ⟨mark :: (ds.reverse ++ d :: mark :: before), rest, [(1, d :: ds)]⟩ = placeholder n :=
    Pattern.textUpTo_eq (s := ⟨before, placeholder n ++ rest, []⟩) rfl
  rw [← hplaceholder] at hrun
  rw [Pattern.matcher, hrun, Option.map_some, htaken, hds]

/-- No other character is equal to the mark up to case. -/
theorem eq_mark {c : Char} (h : sameLetter mark c = true) : c = mark := by
  rcases sameLetter_ascii (by decide) h with ⟨hascii, hlower⟩ | hmem
  · exact forall_ascii (P := fun c => mark.toLower = c.toLower → c = mark) (by decide) hascii hlower
  · revert h
    simp only [foldsToAscii, List.mem_cons, List.not_mem_nil, or_false] at hmem
    rcases hmem with rfl | rfl <;> decide

/-- Only at a mark a placeholder is found. -/
theorem matcher_code {c : Char} (hc : c ≠ mark) (before after : Text) :
    placeholderPattern.matcher before (c :: after) = none := by
  cases hmatch : placeholderPattern.matcher before (c :: after) with
  | none => rfl
  | some found =>
    obtain ⟨d, rest, htaken, hstart⟩ := Pattern.matcher_start rfl hmatch
    obtain ⟨tail, htail⟩ := Pattern.matcher_takesPrefix _ hmatch
    rw [htaken] at htail
    obtain ⟨rfl, -⟩ := List.cons.inj htail
    have hsame : sameLetter mark d = true := by
      simpa [placeholderPattern, Pattern.sequence, Pattern.startsWith, Pattern.nullable] using hstart
    exact absurd (eq_mark hsame) hc

/-! ## Reading a masked text -/

/-- A cut of the text of parts goes part by part. -/
theorem flatMap_pieces_render {α : Type} {f : Cut (List (Nat × Text)) → List α} {g : Part → List α}
    (hcode : ∀ c, f (.copied c) = g (.code c))
    (hheld : ∀ before n after,
      f (.found ⟨before, placeholder n, after, [(1, Text.ofNat n)]⟩) = g (.held n))
    {ps : List Part} (h : Sound ps) (fresh : Bool) (before : Text) :
    (Cut.pieces placeholderPattern.matcher 0 fresh before (render ps)).flatMap f =
      ps.flatMap g := by
  induction ps generalizing fresh before with
  | nil =>
    rw [render_nil, Cut.pieces_nil rfl]
    rfl
  | cons p ps ih =>
    obtain ⟨hp, hps⟩ := sound_cons.1 h
    cases p with
    | code c =>
      have hc : c ≠ mark := fun hc => hp (congrArg Part.code hc)
      rw [render_cons, Part.text, List.singleton_append,
        Cut.pieces_none (matcher_code hc before (render ps)), List.flatMap_cons, ih hps,
        List.flatMap_cons, hcode]
    | held n =>
      have hne : placeholder n ≠ [] := List.cons_ne_nil _ _
      rw [render_cons, Part.text, Cut.pieces_some (matcher_placeholder before n (render ps)) hne,
        List.flatMap_cons, ih hps, List.flatMap_cons, hheld]

/-- The part that a piece of a cut text is. -/
def Part.ofCut : Cut (List (Nat × Text)) → List Part
  | .copied c => [.code c]
  | .found m =>
    match (captured 1 m.value).bind Masked.number? with
    | some n => [.held n]
    | none => m.text.map .code

/-- The parts of a masked text. -/
def parts (t : Text) : List Part :=
  (cut placeholderPattern.matcher t).flatMap Part.ofCut

/-- Parts are read back from their text. -/
theorem parts_render {ps : List Part} (h : Sound ps) : parts (render ps) = ps := by
  have := flatMap_pieces_render (f := Part.ofCut) (g := fun p => [p]) (fun c => rfl)
    (fun before n after => by simp [Part.ofCut, captured, number?_ofNat]) h true []
  simpa [parts, cut] using this

/-- The piece that a part stands for. -/
def Part.fill (held : List Segment) : Part → Segment
  | .code c => ⟨.code, [c]⟩
  | .held n => held[n]?.getD ⟨.code, placeholder n⟩

/-- Restoring a text fills in its placeholders. -/
theorem restore_render {ps : List Part} (h : Sound ps) (held : List Segment) :
    restore (held.map Segment.text) (render ps) = Segment.textOf (ps.map (Part.fill held)) := by
  rw [restore, replaceMatches, Segment.textOf, List.flatMap_map]
  refine flatMap_pieces_render (fun c => rfl) (fun before n after => ?_) h true []
  simp only [heldText, captured, List.find?_cons, beq_self_eq_true, Option.map_some, Option.bind_some,
    number?_ofNat, List.getElem?_map, Part.fill]
  cases held[n]? <;> rfl

/-! ## Masked scripts -/

/-- The parts of a masked script; the first placeholder gets the number `n`. -/
def scriptParts (n : Nat) : List Segment → List Part
  | [] => []
  | s :: ss =>
    if s.kind = .code then s.text.map .code ++ scriptParts n ss
    else .held n :: scriptParts (n + 1) ss

theorem render_map_code (t : Text) : render (t.map .code) = t := by
  induction t with
  | nil => rfl
  | cons c t ih => simp [ih, Part.text]

@[simp] theorem numbers_map_code (t : Text) : numbers (t.map .code) = [] := by
  induction t with
  | nil => rfl
  | cons c t ih => exact ih

theorem ofSegments_eq (n : Nat) (ss : List Segment) :
    ofSegments n ss = ⟨render (scriptParts n ss), (Segment.shielded ss).map Segment.text⟩ := by
  induction ss generalizing n with
  | nil => rfl
  | cons s ss ih =>
    by_cases hs : s.kind = .code
    · simp [ofSegments, scriptParts, hs, ih, render_map_code, Segment.shielded]
    · simp [ofSegments, scriptParts, hs, ih, Segment.shielded, Part.text]

/-- The placeholders are numbered in order. -/
theorem numbers_scriptParts (n : Nat) (ss : List Segment) :
    numbers (scriptParts n ss) = List.range' n (Segment.shielded ss).length := by
  induction ss generalizing n with
  | nil => rfl
  | cons s ss ih =>
    by_cases hs : s.kind = .code
    · simp [scriptParts, hs, ih, numbers_map_code, Segment.shielded]
    · have := ih (n + 1)
      simp only [numbers] at this
      simp [scriptParts, hs, numbers, Part.number?, this, Segment.shielded, List.range'_succ]

/-- The code of the segments holds no mark. -/
theorem sound_scriptParts_iff {ss : List Segment} {n : Nat} :
    Sound (scriptParts n ss) ↔ ∀ s ∈ ss, s.kind = .code → mark ∉ s.text := by
  induction ss generalizing n with
  | nil => simp [scriptParts, Sound]
  | cons s ss ih =>
    rw [scriptParts, List.forall_mem_cons]
    by_cases hs : s.kind = .code
    · rw [if_pos hs, sound_append, ih]
      simp [Sound, hs]
    · rw [if_neg hs, sound_cons, ih]
      simp [hs]

theorem sound_scriptParts {ss : List Segment} (h : mark ∉ Segment.textOf ss) (n : Nat) :
    Sound (scriptParts n ss) :=
  sound_scriptParts_iff.2 fun s hs _ hmark => h (List.mem_flatMap.2 ⟨s, hs, hmark⟩)

/-- Code is its own mask. -/
theorem ofScript_of_code {t : Text} (h : Segment.shielded (segments t) = []) : ofScript t = ⟨t, []⟩ := by
  have hcode (n : Nat) {ss : List Segment} (h : Segment.shielded ss = []) :
      scriptParts n ss = (Segment.textOf ss).map .code := by
    induction ss with
    | nil => rfl
    | cons s ss ih =>
      obtain ⟨hs, hss⟩ := List.forall_mem_cons.1 (List.filter_eq_nil_iff.1 h)
      rw [scriptParts, if_pos (by simpa using hs), ih (List.filter_eq_nil_iff.2 hss), Segment.textOf_cons,
        List.map_append]
  rw [ofScript, ofSegments_eq, h, hcode 0 h, segments_text, render_map_code]
  rfl

/-- Where nothing is held, nothing is given back. -/
theorem restore_nil (t : Text) : restore [] t = t :=
  replaceMatches_eq_self placeholderPattern.matcher_takesPrefix fun m _ => by simp [heldText]

/-! ## Cutting between parts -/

theorem mem_placeholder {c : Char} {n : Nat} (h : c ∈ placeholder n) : c = mark ∨ c.isDigit = true := by
  simp only [placeholder, List.cons_append, List.mem_cons, List.mem_append, List.not_mem_nil,
    or_false] at h
  rcases h with h | h | h
  · exact .inl h
  · exact .inr (digits_ofNat n c h)
  · exact .inl h

/-- A character of no placeholder is a part of its own. -/
theorem render_eq_append_cons {ps : List Part} {x y : Text} {c : Char} (hc : c ≠ mark)
    (hd : c.isDigit = false) (h : render ps = x ++ c :: y) :
    ∃ qs rs, ps = qs ++ .code c :: rs ∧ x = render qs ∧ y = render rs := by
  induction ps generalizing x with
  | nil => simp at h
  | cons p ps ih =>
    rw [render_cons] at h
    rcases List.append_eq_append_iff.1 h with ⟨z, rfl, hz⟩ | ⟨z, hz, hy⟩
    · obtain ⟨qs, rs, rfl, rfl, rfl⟩ := ih hz
      exact ⟨p :: qs, rs, rfl, rfl, rfl⟩
    · cases z with
      | nil =>
        obtain ⟨qs, rs, rfl, hq, rfl⟩ := ih (x := []) hy.symm
        exact ⟨p :: qs, rs, rfl, by rw [render_cons, ← hq, hz, List.append_nil, List.append_nil], rfl⟩
      | cons d z =>
        obtain ⟨rfl, rfl⟩ := List.cons.inj hy
        cases p with
        | code e =>
          cases x with
          | nil =>
            obtain ⟨rfl, rfl⟩ : e = c ∧ [] = z := by simpa [Part.text] using hz
            exact ⟨[], ps, rfl, rfl, rfl⟩
          | cons f x => simp [Part.text] at hz
        | held n =>
          have hmem : c ∈ placeholder n := by
            rw [show placeholder n = x ++ c :: z from hz]
            simp
          rcases mem_placeholder hmem with hmark | hdigit
          · exact absurd hmark hc
          · rw [hd] at hdigit
            cases hdigit

/-- A text without a mark is made of characters of code. -/
theorem render_eq_append {ps : List Part} {x y : Text} (hx : mark ∉ x) (h : render ps = x ++ y) :
    ∃ rs, ps = x.map .code ++ rs ∧ y = render rs := by
  induction x generalizing ps with
  | nil => exact ⟨ps, rfl, h.symm⟩
  | cons c x ih =>
    rw [List.mem_cons, not_or] at hx
    cases ps with
    | nil => cases h
    | cons p ps =>
      cases p with
      | code d =>
        obtain ⟨rfl, hps⟩ : d = c ∧ render ps = x ++ y := by simpa [Part.text] using h
        obtain ⟨rs, rfl, rfl⟩ := ih hx.2 hps
        exact ⟨rs, rfl, rfl⟩
      | held n => exact absurd (List.cons.inj h).1 hx.1

/-! ## Kinds of parts -/

/-- The part is whitespace. -/
def Part.isSpace : Part → Bool
  | code c => isBlank c
  | held _ => false

/-- Placeholders are no blanks. -/
theorem blank_render_iff {ps : List Part} :
    (∀ c ∈ render ps, isBlank c = true) ↔ ∀ p ∈ ps, p.isSpace = true := by
  induction ps with
  | nil => simp
  | cons p ps ih =>
    rw [render_cons, List.forall_mem_append, ih, List.forall_mem_cons]
    refine and_congr_left fun _ => ?_
    cases p with
    | code c => simp [Part.text, Part.isSpace]
    | held n =>
      have hmark : isBlank mark = false := by decide
      simp [Part.text, Part.isSpace, placeholder, hmark]

theorem mem_placeholder_iff {c : Char} (hc : c.isDigit = false) (n : Nat) : c ∈ placeholder n ↔ c = mark := by
  constructor
  · intro h
    exact (mem_placeholder h).resolve_right (by simp [hc])
  · rintro rfl
    simp [placeholder]

/-- A text without a mark is made of characters of code alone. -/
theorem eq_map_code {ps : List Part} (h : mark ∉ render ps) : ps = (render ps).map .code := by
  obtain ⟨rs, hps, hrs⟩ := render_eq_append h (List.append_nil _).symm
  cases rs with
  | nil => rw [hps, List.append_nil]; simp [render_map_code]
  | cons p rs => cases p <;> cases hrs

theorem render_inj {ps qs : List Part} (hps : Sound ps) (hqs : Sound qs) (h : render ps = render qs) : ps = qs := by
  rw [← parts_render hps, h, parts_render hqs]

end Masked

end DialectBridge
