import DialectBridge.Proofs.Lexical.Chain

/-!
# Tokens behind other gaps

What stands in a gap does not matter to the tokens around it. The token in front of the gap only sees how
the gap starts (`Alike.of_gap`), and the token behind it stays what it is as long as nothing but trivia
is put there (`Token.Fits.regap`). So what is put behind a gap goes into the gap (`scan_fill`).
-/

namespace DialectBridge

namespace Scan

/-! ## In front of a gap -/

/-- The character cannot be the second one of a fraction or an exponent, nor the first one. -/
def isNoNumberSign (c : Char) : Bool :=
  !c.isDigit && !(['.', 'e', 'E', '+', '-'].contains c)

theorem isNoNumberSign_of_blank {c : Char} (h : isBlank c = true) : isNoNumberSign c = true := by
  have hdigit : c.isDigit = false := Bool.eq_false_iff.2 fun hd => by
    rw [not_blank_of_digit hd] at h
    cases h
  have hsign : ['.', 'e', 'E', '+', '-'].contains c = false := by
    simp only [List.contains_eq_mem, List.mem_cons, List.not_mem_nil, or_false, decide_eq_false_iff_not]
    rintro (rfl | rfl | rfl | rfl | rfl) <;> exact absurd h (by decide)
  rw [isNoNumberSign, hdigit, hsign]
  rfl

/-- Texts that start with the same two characters look alike. -/
theorem Alike.of_two (l : Text) (a b : Char) (x y : Text) : Alike l (a :: b :: x) (a :: b :: y) := by
  refine ⟨nofun, fun _ hc => .inl hc, fun h => .inl ?_, fun h => .inl h⟩
  obtain ⟨d, u, heq, hd⟩ := startsFraction_iff.1 h
  cases heq
  exact startsFraction_iff.2 ⟨_, _, rfl, hd⟩

theorem Alike.of_pair (l p : Text) (a b : Char) (x y : Text) : Alike l (p ++ a :: b :: x) (p ++ a :: b :: y) := by
  match p with
  | [] | [c] | c :: d :: p => exact .of_two l _ _ _ _

/-- Up to a character that no number goes on with, what stands behind it does not matter to the tokens in
front of it. -/
theorem Alike.of_sign {c : Char} (hc : isNoNumberSign c = true) (l a x y : Text) :
    Alike l (a ++ c :: x) (a ++ c :: y) := by
  simp only [isNoNumberSign, List.contains_eq_mem, List.mem_cons, List.not_mem_nil, or_false, Bool.and_eq_true,
    Bool.not_eq_true', decide_eq_false_iff_not, not_or] at hc
  obtain ⟨hdigit, hpoint, he, hE, hplus, hminus⟩ := hc
  match a with
  | a :: b :: rest => exact .of_two l a b _ _
  | [a] =>
    refine ⟨nofun, fun _ hd => .inl hd, fun h => ?_, fun h => ?_⟩
    · obtain ⟨d, u, heq, hd⟩ := startsFraction_iff.1 h
      cases heq
      simp [hdigit] at hd
    · obtain ⟨e, d, u, heq, -, hd⟩ := startsExponent_iff.1 h
      cases heq
      simp [hdigit, hplus, hminus] at hd
  | [] =>
    refine ⟨nofun, fun _ hd => .inl hd, fun h => ?_, fun h => ?_⟩
    · obtain ⟨d, u, heq, -⟩ := startsFraction_iff.1 h
      cases heq
      exact absurd rfl hpoint
    · obtain ⟨e, d, u, heq, hletter, -⟩ := startsExponent_iff.1 h
      cases heq
      simp [he, hE] at hletter

/-- What stands behind a gap does not matter to the tokens in front of the gap. -/
theorem Alike.of_gap {t : Text} {g : List Trivia} {r : Text} (hg : gap t = (g, r)) (hne : g ≠ []) (l p x y : Text) :
    Alike l (p ++ (Trivia.textOf g ++ x)) (p ++ (Trivia.textOf g ++ y)) := by
  obtain ⟨z, g, rfl⟩ := List.exists_cons_of_ne_nil hne
  obtain ⟨rest, htrivia, -⟩ := trivia?_of_gap_cons hg
  rw [Trivia.textOf_cons]
  -- a comment brings two characters, and no number goes on with a blank
  rcases trivia?_cases htrivia with ⟨u, -, rfl, -⟩ | ⟨u, -, rfl, -⟩ | ⟨c, u, -, hc, rfl, -⟩
  · exact .of_pair l p _ _ _ _
  · exact .of_pair l p _ _ _ _
  · exact .of_sign (isNoNumberSign_of_blank hc) l p _ _

/-! ## Behind a gap -/

/-- What goes into the gap in front of `y` goes into the gap behind another gap as well. -/
theorem gap_fill {t x y : Text} {g : List Trivia} (hg : gap t = (g, y)) (hy : y ≠ []) (hx : (gap (x ++ y)).2 = y) :
    (gap (Trivia.textOf g ++ (x ++ y))).2 = y := by
  fun_induction gap t generalizing g with
  | case1 t z rest hz ih =>
    obtain ⟨rfl, hrest⟩ := Prod.mk.inj hg
    have htail := ih (Prod.ext rfl hrest)
    have htext : Trivia.textOf (gap rest).1 ++ y = rest := by
      rw [← hrest]
      exact gap_text rest
    rw [Trivia.textOf_cons, List.append_assoc]
    cases hgap : Trivia.textOf (gap rest).1 with
    | cons c u =>
      rw [hgap] at htext htail
      rw [gap_of_trivia (trivia?_append hz (by simp [← htext]) (by simp [← htext]))]
      exact htail
    | nil =>
      -- `z` is the last piece of the gap: a line comment would be followed by its line break
      rw [hgap] at htext
      obtain rfl : y = rest := htext
      have hnone := trivia?_gap_snd y
      rw [hrest] at hnone
      rcases trivia?_cases hz with ⟨u, -, rfl, hend⟩ | ⟨u, -, rfl, hend⟩ | ⟨c, u, -, hc, rfl, -⟩
      · obtain ⟨c, y, rfl⟩ := List.exists_cons_of_ne_nil hy
        have hstop := Text.head?_any_dropWhile (· != '\n') u
        rw [← hend] at hstop
        obtain rfl : c = '\n' := by simpa using hstop
        exact absurd (trivia?_eq_none_iff.1 hnone).1 (by decide)
      · have hne : (blockBody u).2 ≠ [] := by rwa [← hend]
        have hcomment : trivia? ('/' :: '*' :: (blockBody u).1 ++ (x ++ y)) =
            some (.comment ('/' :: '*' :: (blockBody u).1), x ++ y) := by
          simp only [List.cons_append, trivia?]
          rw [blockBody_append hne]
        exact (congrArg Prod.snd (gap_of_trivia hcomment)).trans hx
      · have hblank : ∀ d ∈ c :: u.takeWhile isBlank, isBlank d = true :=
          List.forall_mem_cons.2 ⟨hc, Text.forall_mem_takeWhile isBlank u⟩
        exact (gap_blank_append hblank _).trans hx
  | case2 t hnone =>
    obtain ⟨rfl, -⟩ := Prod.mk.inj hg
    exact hx

end Scan

open Scan

/-- A token may stand behind every text that is nothing but trivia in front of it. -/
theorem Token.Fits.regap {t : Token} {rest s : Text} (h : t.Fits rest)
    (hs : (Scan.gap (s ++ (t.lexeme ++ rest))).2 = t.lexeme ++ rest) :
    ∃ g, Trivia.textOf g = s ∧ Token.Fits { t with gap := g } rest := by
  have htext := gap_text (s ++ (t.lexeme ++ rest))
  rw [hs] at htext
  have hgap : Trivia.textOf (Scan.gap (s ++ (t.lexeme ++ rest))).1 = s := List.append_cancel_right htext
  refine ⟨_, hgap, ?_, h.token_eq⟩
  show Scan.gap (Trivia.textOf _ ++ t.lexeme ++ rest) = _
  rw [hgap, List.append_assoc]
  exact Prod.ext rfl hs

/-! ## Scripts -/

section Scripts

variable {script : Text} {us vs : List Token} {t : Token}

theorem fits_of_scan (h : scan script = us ++ t :: vs) (heof : t.kind ≠ .eof) :
    t.Fits (Token.textOf vs) ∧ scan (Token.textOf vs) = vs := by
  induction script using scan_induction generalizing us with
  | gap g hg =>
    rw [scan_of_gap_nil hg] at h
    obtain ⟨rfl, heq⟩ := List.append_eq_singleton_iff.1 h.symm |>.resolve_right (by simp)
    rw [(List.cons.inj heq).1] at heof
    exact absurd rfl heof
  | token u rest hu ih =>
    rw [scan_of_fits hu] at h
    cases us with
    | nil =>
      obtain ⟨rfl, rfl⟩ := List.cons.inj h
      rw [textOf_scan]
      exact ⟨hu, rfl⟩
    | cons v us => exact ih (List.cons.inj h).2

/-- The first tokens of a script stay what they are when what follows looks alike to all of them. -/
theorem scan_front {s : Text} (h : scan script = us ++ vs) (hvs : vs ≠ [])
    (hs : ∀ l p, Alike l (p ++ Token.textOf vs) (p ++ s)) : scan (Token.textOf us ++ s) = us ++ scan s := by
  induction script using scan_induction generalizing us with
  | gap g hg =>
    rw [scan_of_gap_nil hg] at h
    obtain ⟨rfl, -⟩ := List.append_eq_singleton_iff.1 h.symm |>.resolve_right fun heq => hvs heq.2
    rfl
  | token u rest hu ih =>
    rw [scan_of_fits hu] at h
    cases us with
    | nil => rfl
    | cons v us =>
      obtain ⟨rfl, hrest⟩ := List.cons.inj h
      have htext : rest = Token.textOf us ++ Token.textOf vs := by
        rw [← Token.textOf_append, ← show scan rest = us ++ vs from hrest, textOf_scan]
      have hfits : u.Fits (Token.textOf us ++ s) := hu.alike (htext ▸ hs u.lexeme (Token.textOf us))
      rw [Token.textOf_cons, List.append_assoc, scan_of_fits hfits, ih hrest, List.cons_append]

/-- What goes into the gap in front of a token goes into the gap that is there already. -/
theorem scan_fill {x : Text} (h : scan script = us ++ t :: vs) (heof : t.kind ≠ .eof) (hgap : t.gap ≠ [])
    (hx : ∀ y, trivia? y = none → (gap (x ++ y)).2 = y) :
    ∃ g, g ≠ [] ∧ scan (Token.textOf us ++ (t.gapText ++ (x ++ (t.lexeme ++ Token.textOf vs)))) =
      us ++ { t with gap := g } :: vs := by
  obtain ⟨hfits, hvs⟩ := fits_of_scan h heof
  have hscan := hfits.gap_eq
  have hne : t.lexeme ++ Token.textOf vs ≠ [] := by simp [hfits.lexeme_ne_nil]
  obtain ⟨g, htext, hfilled⟩ := hfits.regap (s := t.gapText ++ x) <| by
    rw [List.append_assoc]
    exact gap_fill hscan hne (hx _ hfits.trivia?_eq_none)
  refine ⟨g, ?_, ?_⟩
  · rintro rfl
    obtain ⟨z, h, hz⟩ := List.exists_cons_of_ne_nil hgap
    obtain ⟨rest, htrivia, -⟩ := trivia?_of_gap_cons (hz ▸ hscan)
    have hnil : t.gapText = [] := (List.append_eq_nil_iff.1 htext.symm).1
    rw [Token.gapText, hz, List.flatMap_cons, List.append_eq_nil_iff] at hnil
    exact trivia?_text_ne_nil htrivia hnil.1
  · have hback : scan (t.gapText ++ (x ++ (t.lexeme ++ Token.textOf vs))) = { t with gap := g } :: vs := by
      have hread := scan_of_fits hfilled
      rw [hvs] at hread
      rw [← hread, Token.text, List.append_assoc, ← List.append_assoc, ← htext]
      rfl
    rw [scan_front h (by simp) fun l p => ?_, hback]
    rw [Token.textOf_cons, Token.text, List.append_assoc]
    exact .of_gap hscan hgap l p _ _

end Scripts

end DialectBridge
