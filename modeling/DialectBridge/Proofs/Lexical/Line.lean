import DialectBridge.Proofs.Lexical.Chain

/-!
# Text behind a line

A text that ends with a line break, and whose quotations and block comments all have their ends, ends between two
tokens and in no comment. So whatever follows it is scanned as if it stood alone (`exists_scan_append_line`).
-/

namespace DialectBridge

open Scan

namespace Scan

/-- Trivia that ends with a line break is whitespace, or a block comment that lacks its end. -/
theorem blank_of_newline {x : Trivia} (hx : trivia? x.text = some (x, [])) (hclosed : x.isOpen = false)
    (hline : x.text.getLast? = some '\n') : ∃ run, x = .blank run ∧ ∀ c ∈ run, isBlank c = true := by
  rcases trivia?_cases hx with ⟨u, -, rfl, -⟩ | ⟨u, htext, rfl, -⟩ | ⟨c, u, -, hc, rfl, -⟩
  · -- a line comment stops in front of the line break
    have hrun := Text.forall_mem_takeWhile (· != '\n') u
    cases hlast : (u.takeWhile (· != '\n')).getLast? with
    | none =>
      rw [List.getLast?_eq_none_iff] at hlast
      simp [Trivia.text, hlast] at hline
    | some d =>
      have hd := hrun d (List.mem_of_getLast? hlast)
      simp only [Trivia.text, List.getLast?_cons, hlast, Option.getD_some, Option.some.injEq] at hline
      simp [hline] at hd
  · -- a closed block comment ends with its mark
    have hsuffix : ['*', '/'] <:+ (blockBody u).1 := by
      simpa [Trivia.isOpen] using hclosed
    obtain ⟨v, hv⟩ := hsuffix
    have hbody : (blockBody u).1 ≠ [] := by simp [← hv]
    rw [Trivia.text, List.getLast?_cons_of_ne_nil, List.getLast?_cons_of_ne_nil hbody, ← hv] at hline
    · simp at hline
    · simp
  · exact ⟨_, rfl, List.forall_mem_cons.2 ⟨hc, Text.forall_mem_takeWhile isBlank u⟩⟩

/-- What follows a gap that ends with a line break has its own gap. -/
theorem gap_append_line {g : List Trivia} (hg : gap (Trivia.textOf g) = (g, []))
    (hclosed : ∀ x ∈ g, x.isOpen = false) (hline : (Trivia.textOf g).getLast? = some '\n') (s : Text) :
    (gap (Trivia.textOf g ++ s)).2 = (gap s).2 := by
  induction g with
  | nil => cases hline
  | cons x g ih =>
    obtain ⟨rest, htrivia, hrest⟩ := trivia?_of_gap_cons hg
    obtain ⟨hx, hclosed⟩ := List.forall_mem_cons.1 hclosed
    have htext := trivia?_text htrivia
    rw [Trivia.textOf_cons] at htext htrivia hline ⊢
    obtain rfl : rest = Trivia.textOf g := List.append_cancel_left htext
    cases g with
    | nil =>
      rw [Trivia.textOf_nil, List.append_nil] at hline ⊢
      obtain ⟨run, rfl, hrun⟩ := blank_of_newline (trivia?_self htrivia) hx hline
      exact gap_blank_append hrun s
    | cons y g =>
      have hne : Trivia.textOf (y :: g) ≠ [] := by
        intro hnil
        rw [hnil, gap_of_none rfl] at hrest
        cases hrest
      rw [Text.getLast?_append_right _ hne] at hline
      have hhead : (Trivia.textOf (y :: g) ++ s).head? = (Trivia.textOf (y :: g)).head? := by
        obtain ⟨c, u, hc⟩ := List.exists_cons_of_ne_nil hne
        simp [hc]
      rw [List.append_assoc, gap_of_trivia (trivia?_append htrivia hne hhead)]
      exact ih hrest hclosed hline

end Scan

/-- A token that something follows stays the same if the text goes on behind a line break. -/
theorem Token.Fits.append_line {t : Token} {rest : Text} (h : t.Fits rest) (hclosed : ∀ cause, t.kind ≠ .error cause)
    (hne : rest ≠ []) (hline : rest.getLast? = some '\n') (s : Text) : t.Fits (rest ++ s) := by
  match rest, hne with
  | [c], _ =>
    obtain rfl : c = '\n' := by simpa using hline
    exact h.of_break hclosed (.cons (by decide) s)
  | c :: d :: rest, _ => exact h.alike (.of_append _ (by simp) s)

/-- Behind lines in which every quotation and block comment has its end, a text is scanned as if it stood alone,
up to its first gap. -/
theorem exists_scan_append_line {t : Text} (ht : Scan.IsClosed t) (hline : t.getLast? = some '\n') (s : Text) :
    ∃ us g h, scan t = us ++ [⟨g, .eof, []⟩] ∧ (∀ u ∈ us, u.kind ≠ .eof) ∧
      scan (t ++ s) = us ++ Token.withGap h (scan s) := by
  obtain ⟨hquotes, hcomments⟩ := ht
  induction t using scan_induction with
  | gap g hg =>
    rw [scan_of_gap_nil hg] at hcomments ⊢
    obtain ⟨h, hscan⟩ := exists_scan_withGap (gap_append_line hg (hcomments _ List.mem_cons_self) hline s)
    exact ⟨[], g, h, rfl, by simp, hscan⟩
  | token u rest hu ih =>
    rw [scan_of_fits hu] at hquotes hcomments ⊢
    obtain ⟨hquote, hquotes⟩ := List.forall_mem_cons.1 hquotes
    obtain ⟨-, hcomments⟩ := List.forall_mem_cons.1 hcomments
    -- a token does not end with a line break, so something follows it
    have hne : rest ≠ [] := by
      rintro rfl
      rw [List.append_nil, Token.text, Text.getLast?_append_right _ hu.lexeme_ne_nil] at hline
      have hlast := hu.getLast?_lexeme hquote
      rw [hline] at hlast
      cases hlast
    rw [Text.getLast?_append_right _ hne] at hline
    obtain ⟨us, g, h, hscan, heof, happend⟩ := ih hline hquotes hcomments
    refine ⟨u :: us, g, h, by rw [hscan, List.cons_append], List.forall_mem_cons.2 ⟨hu.kind_ne_eof, heof⟩, ?_⟩
    rw [List.append_assoc, scan_of_fits (hu.append_line hquote hne hline s), happend, List.cons_append]

end DialectBridge
