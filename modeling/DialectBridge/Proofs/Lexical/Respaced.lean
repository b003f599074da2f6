import DialectBridge.Proofs.Lexical.Chain
import DialectBridge.Proofs.Lexical.Spans

/-!
# Tokens written with spaces between them

The texts of the tokens of a script, with one space between each two, are scanned to the same tokens
again (`scan_respaced`). Each token is read from its own text alone: a space ends every token except
a quotation that is left open, and nothing follows that one.
-/

namespace DialectBridge

open Scan

/-- The tokens of a text without the mark of its end. -/
def tokensOf (t : Text) : List Token :=
  (scan t).filter fun u => !u.isEof

theorem tokensOf_gap {g : List Trivia} (hg : gap (Trivia.textOf g) = (g, [])) : tokensOf (Trivia.textOf g) = [] := by
  rw [tokensOf, scan_of_gap_nil hg]
  rfl

theorem tokensOf_token {u : Token} {rest : Text} (hu : u.Fits rest) :
    tokensOf (u.text ++ rest) = u :: tokensOf rest := by
  have hkind : (!u.isEof) = true := by simpa [Token.isEof] using hu.kind_ne_eof
  rw [tokensOf, scan_of_fits hu]
  exact List.filter_cons_of_pos hkind

namespace Token

/-- The token behind a space. -/
def spaced (t : Token) : Token :=
  { t with gap := [.blank [' ']] }

theorem isSpace_blank : IsSpace [.blank [' ']] :=
  .some (by decide) (List.all_eq_true.1 (by decide))

theorem startsWithBreak_spaced (ts : List Token) : StartsWithBreak (textOf (ts.map spaced)) := by
  cases ts with
  | nil => exact .nil
  | cons t ts => exact .cons (c := ' ') (by decide) _

/-- The tokens with a space in front of each one except the first are written as their joined texts. -/
theorem textOf_withGap_spaced (ts : List Token) :
    textOf (withGap [] (ts.map spaced)) = Text.joinWith " " (ts.map lexeme) := by
  induction ts with
  | nil => rfl
  | cons t ts ih =>
    cases ts with
    | nil => simp [withGap, spaced, text, gapText, Text.joinWith]
    | cons u ts =>
      have hspace : textOf (List.map spaced (u :: ts)) = ' ' :: textOf (withGap [] ((u :: ts).map spaced)) := by
        simp [withGap, spaced, text, gapText, Trivia.text]
      rw [List.map_cons, withGap, List.modifyHead_cons, textOf_cons, hspace, ih]
      simp [spaced, text, gapText, Text.joinWith, List.intercalate_cons_cons]

theorem commentsFrom_of_space {ts : List Token} (h : ∀ t ∈ ts, IsSpace t.gap) (offset : Nat) :
    commentsFrom offset ts = [] := by
  induction ts generalizing offset with
  | nil => rfl
  | cons t ts ih =>
    obtain ⟨ht, hts⟩ := List.forall_mem_cons.1 h
    rw [commentsFrom, ih hts, List.append_nil]
    cases hgap : t.gap with
    | nil => rfl
    | cons x g =>
      rw [hgap] at ht
      cases ht
      rfl

/-- A token stays what it is behind whitespace and in front of the tokens that followed it, when each
of these is written behind a space. -/
theorem Fits.spaced {t : Token} {rest : Text} {g : List Trivia} (h : t.Fits rest) (hg : IsSpace g) :
    Fits { t with gap := g } (textOf ((tokensOf rest).map Token.spaced)) := by
  refine Fits.space ?_ hg
  by_cases herror : ∃ cause, t.kind = .error cause
  · obtain ⟨cause, hkind⟩ := herror
    -- a quotation that is left open is the last token
    have hrest := h.rest_eq_nil hkind
    subst hrest
    have hend : tokensOf [] = [] := tokensOf_gap (gap_of_none rfl)
    simpa [hend] using h
  · exact h.of_break (fun cause hkind => herror ⟨cause, hkind⟩) (startsWithBreak_spaced _)

end Token

open Token in
/-- The tokens of a text, each behind a space, are scanned from what they are written as. -/
theorem scan_spaced (t : Text) {g : List Trivia} (hg : IsSpace g) :
    scan (textOf (withGap g ((tokensOf t).map spaced))) =
      withGap g ((tokensOf t).map spaced) ++ [⟨[], .eof, []⟩] := by
  induction t using scan_induction generalizing g with
  | gap h hh =>
    rw [tokensOf_gap hh]
    exact scan_of_gap_nil (gap_of_none rfl)
  | token u rest hu ih =>
    have hfits := hu.spaced hg
    have hsame (ts : List Token) : withGap [.blank [' ']] (ts.map spaced) = ts.map spaced := by
      cases ts <;> rfl
    have htail := ih isSpace_blank
    rw [hsame] at htail
    rw [tokensOf_token hu]
    show scan ({ u with gap := g }.text ++ textOf ((tokensOf rest).map spaced)) =
      { u with gap := g } :: ((tokensOf rest).map spaced ++ [⟨[], .eof, []⟩])
    rw [scan_of_fits hfits, htail]

/-- A text that is kept in quotes is written with each of these quotes doubled. -/
theorem Token.Fits.quotes {t : Token} {rest v : Text} (h : t.Fits rest)
    (hkind : t.kind = .string v ∨ t.kind = .quoted v) :
    ∃ q ∈ ['\x27', '\x22', '\x60'], t.lexeme = q :: doubled q v ++ [q] := by
  obtain ⟨c, l, hl, htoken⟩ := h.token_eq
  have hquotes := token_quotes (c := c) (t := l ++ rest) (v := v) (by simpa [htoken] using hkind)
  rw [htoken, ← hl] at hquotes
  exact ⟨c, hquotes⟩

/-- What stands in a text at the spans of its tokens, its end apart. -/
def slices (t : Text) : List Text :=
  (((Token.spansFrom 0 (scan t)).zip (scan t)).filter fun p => !p.2.isEof).map fun p => p.1.textIn t

theorem textIn_of_mem_scan {t : Text} {p : Span × Token}
    (hp : p ∈ (Token.spansFrom 0 (scan t)).zip (scan t)) : p.1.textIn t = p.2.lexeme := by
  obtain ⟨rest, hmarks⟩ := (Tiles.of_scan [] t).token_marks p hp
  have hslice : t.slice? p.1.start p.1.stop = some p.2.lexeme := hmarks.slice?_eq
  rw [Span.textIn, hslice, Option.getD_some]

theorem slices_eq (t : Text) : slices t = (tokensOf t).map Token.lexeme := by
  have hzip : ((Token.spansFrom 0 (scan t)).zip (scan t)).map Prod.snd = scan t :=
    List.map_snd_zip (by simp)
  calc slices t
      = (((Token.spansFrom 0 (scan t)).zip (scan t)).filter fun p => !p.2.isEof).map fun p => p.2.lexeme :=
        List.map_congr_left fun p hp => textIn_of_mem_scan (List.mem_filter.1 hp).1
    _ = ((((Token.spansFrom 0 (scan t)).zip (scan t)).map Prod.snd).filter fun u => !u.isEof).map
          Token.lexeme := by
        rw [List.filter_map, List.map_map]
        rfl
    _ = (tokensOf t).map Token.lexeme := by rw [hzip, tokensOf]

/-- The tokens of a text, written one after another with a space between them, are scanned to tokens
of the same kinds with the same values, and to no comments. A string or a quoted name stands in the
text as its value between quotes, with these quotes doubled in it. -/
theorem scan_respaced (t : Text) :
    (scan (Text.joinWith " " (slices t))).map Token.kind = (scan t).map Token.kind ∧
    Token.commentsFrom 0 (scan (Text.joinWith " " (slices t))) = [] ∧
    ∀ p ∈ (Token.spansFrom 0 (scan t)).zip (scan t), ∀ v,
      p.2.kind = .string v ∨ p.2.kind = .quoted v →
      ∃ q ∈ ['\x27', '\x22', '\x60'], p.1.textIn t = q :: doubled q v ++ [q] := by
  obtain ⟨us, g, hscan, heof⟩ := exists_scan_eof t
  have hfilter : tokensOf t = us := by
    rw [tokensOf, hscan, List.filter_append, List.filter_eq_self.2 (by simpa [Token.isEof] using heof)]
    simp [Token.isEof]
  have hagain : scan (Text.joinWith " " (slices t)) =
      Token.withGap [] (us.map Token.spaced) ++ [⟨[], .eof, []⟩] := by
    rw [slices_eq, hfilter, ← Token.textOf_withGap_spaced, ← hfilter]
    exact scan_spaced t .none
  refine ⟨?_, ?_, fun p hp v hkind => ?_⟩
  · rw [hagain, hscan]
    cases us <;> simp [Token.withGap, Token.spaced, Function.comp_def]
  · rw [hagain]
    refine Token.commentsFrom_of_space (fun u hu => ?_) 0
    rcases List.mem_append.1 hu with hu | hu
    · cases us with
      | nil => cases hu
      | cons v us =>
        rcases List.mem_cons.1 hu with rfl | hu
        · exact .none
        · obtain ⟨w, -, rfl⟩ := List.mem_map.1 hu
          exact Token.isSpace_blank
    · rw [List.mem_singleton.1 hu]
      exact .none
  · rw [textIn_of_mem_scan hp]
    have hmem : p.2 ∈ scan t := (List.of_mem_zip hp).2
    obtain ⟨rest, hfits⟩ := Token.Fits.of_mem_scan hmem (by rcases hkind with h | h <;> simp [h])
    exact hfits.quotes hkind

end DialectBridge
