import DialectBridge.Proofs.Lexical.Locality
import DialectBridge.Proofs.Text.Case
import DialectBridge.Proofs.Text.Characters

/-!
# The characters of a token
-/

namespace DialectBridge

namespace Scan

/-- A character that may stand in a number. -/
def isNumberCharacter (c : Char) : Bool :=
  c.isDigit || c == '.' || c == 'e' || c == 'E' || c == '+' || c == '-'

theorem not_blank_of_number {c : Char} (h : isNumberCharacter c = true) : isBlank c = false := by
  simp only [isNumberCharacter, Bool.or_eq_true, beq_iff_eq] at h
  rcases h with ((((h | rfl) | rfl) | rfl) | rfl) | rfl
  · exact not_blank_of_digit h
  all_goals decide

theorem number_characters {c : Char} (hc : c.isDigit = true) (t : Text) :
    ∀ d ∈ (number c t).1, isNumberCharacter d = true := by
  have hdigits (u : Text) : ∀ d ∈ u.takeWhile Char.isDigit, isNumberCharacter d = true := by
    intro d hd
    simp [isNumberCharacter, Text.forall_mem_takeWhile _ _ d hd]
  have hfraction (u : Text) : ∀ d ∈ (fraction u).1, isNumberCharacter d = true := by
    rcases fraction_cases u with ⟨-, hf⟩ | ⟨x, v, -, hx, hf⟩
    · simp [hf]
    · rw [hf]
      simpa [isNumberCharacter, hx] using hdigits v
  have hexponent (u : Text) : ∀ d ∈ (exponent u).1, isNumberCharacter d = true := by
    rcases exponent_cases u with ⟨-, hp⟩ | ⟨e, x, v, -, he, hx, hp⟩
    · simp [hp]
    · rw [hp]
      have hhead : isNumberCharacter e = true := by rcases he with rfl | rfl <;> rfl
      have hsign : isNumberCharacter x = true := by
        rcases hx with hx | rfl | rfl
        · simp [isNumberCharacter, hx]
        · rfl
        · rfl
      simpa [hhead, hsign] using hdigits v
  intro d hd
  simp only [number, List.cons_append, List.append_assoc, List.mem_cons, List.mem_append] at hd
  rcases hd with rfl | hd | hd | hd
  · simp [isNumberCharacter, hc]
  · exact hdigits t d hd
  · exact hfraction _ d hd
  · exact hexponent _ d hd

/-- A token that does not take the rest of the text ends in no blank. -/
theorem token_getLast?_not_blank {c : Char} {t : Text} (hc : isBlank c = false)
    (ht : (token c t).2.2 ≠ []) : (token c t).2.1.getLast?.any isBlank = false := by
  have hquoted {q : Char} {kind : Text → TokenKind} {cause : LexicalError} (hq : isBlank q = false)
      (h : (quotedToken q kind cause t).2.2 ≠ []) :
      (quotedToken q kind cause t).2.1.getLast?.any isBlank = false := by
    unfold quotedToken at h ⊢
    split at h
    · rw [Text.getLast?_append_right _ (List.cons_ne_nil q [])]
      exact hq
    · exact absurd rfl h
  have hall {l : Text} (h : ∀ d ∈ l, isBlank d = false) : l.getLast?.any isBlank = false := by
    cases hl : l.getLast? with
    | none => rfl
    | some d => exact h d (List.mem_of_getLast? hl)
  unfold token at ht ⊢
  split at ht
  case h_7 | h_8 | h_9 => exact hquoted hc ht
  case h_10 => split <;> rfl
  case h_11 =>
    split
    · next hd => exact hall fun d hmem => not_blank_of_number (number_characters hd t d hmem)
    · split
      · exact hall fun d hmem => by
          rcases List.mem_cons.1 hmem with rfl | hmem
          · exact hc
          · exact not_blank_of_identifier (Text.forall_mem_takeWhile _ _ d hmem)
      · simp [hc]
  all_goals exact hc

/-! ## Quotations -/

section Quotations

variable {q : Char}

/-- Text without a closing quote holds its quotes in pairs. -/
theorem quotedBody_eq_none_iff {t : Text} : quotedBody q t = none ↔ ∃ v, t = doubled q v := by
  constructor
  · intro h
    fun_induction quotedBody q t with
    | case1 => exact ⟨[], rfl⟩
    | case2 => cases h
    | case3 c hc => exact ⟨[c], by simp [doubled, hc]⟩
    | case4 t ih =>
      obtain ⟨v, rfl⟩ := ih (Option.map_eq_none_iff.1 h)
      exact ⟨q :: v, by simp [doubled]⟩
    | case5 => cases h
    | case6 c d t hc ih =>
      obtain ⟨v, hv⟩ := ih (Option.map_eq_none_iff.1 h)
      exact ⟨c :: v, by simp [doubled, hc, hv]⟩
  · rintro ⟨v, rfl⟩
    induction v with
    | nil => rfl
    | cons c v ih =>
      by_cases hc : c = q
      · subst hc
        simp [doubled, quotedBody, ih]
      · rw [doubled, if_neg hc]
        cases hv : doubled q v with
        | nil => simp [quotedBody, hc]
        | cons d u =>
          rw [hv] at ih
          simp [quotedBody, hc, ih]

theorem doubled_append (s t : Text) : doubled q (s ++ t) = doubled q s ++ doubled q t := by
  induction s with
  | nil => rfl
  | cons c s ih =>
    rw [List.cons_append, doubled, doubled]
    split <;> simp [ih]

theorem doubled_of_not_mem {t : Text} (h : q ∉ t) : doubled q t = t := by
  induction t with
  | nil => rfl
  | cons c t ih =>
    obtain ⟨hc, ht⟩ := List.ne_and_not_mem_of_not_mem_cons h
    rw [doubled, if_neg hc.symm, ih ht]

/-- What is missing a closing quote misses it without the end as well, unless a quote stands there. -/
theorem quotedBody_of_append {t s : Text} (h : quotedBody q (t ++ s) = none) (hs : s.head? ≠ some q) :
    quotedBody q t = none := by
  refine Option.eq_none_iff_forall_ne_some.2 fun ⟨v, r⟩ hbody => ?_
  have hend : (r ++ s).head? ≠ some q := by
    cases r with
    | nil => exact hs
    | cons c r =>
      have hrest := quotedBody_rest hbody
      exact hrest
  have hread := quotedBody_doubled hend v
  rw [← List.cons_append, ← List.append_assoc, ← quotedBody_text hbody, h] at hread
  cases hread

end Quotations

/-! ## Words and numbers -/

/-- A letter starts a word. -/
theorem token_of_letter {c : Char} (hd : c.isDigit = false) (hc : (isAlphabetic c || c == '_') = true)
    (t : Text) : token c t = (wordKind (c :: t.takeWhile isIdentifierCharacter),
      c :: t.takeWhile isIdentifierCharacter, t.dropWhile isIdentifierCharacter) := by
  unfold token
  split
  case h_11 => rw [if_neg (by simp [hd]), if_pos hc]
  all_goals exact absurd hc (by decide +kernel)

/-- A digit starts a number. -/
theorem token_of_digit {c : Char} (hc : c.isDigit = true) (t : Text) :
    token c t = (.number (number c t).1, (number c t).1, (number c t).2) := by
  unfold token
  split
  case h_11 => rw [if_pos hc]
  all_goals exact absurd hc (by decide)

/-- A word that is read as a keyword spells it up to case. -/
theorem same_of_wordKind {word : Text} {keyword : Keyword} (h : wordKind word = .keyword keyword) :
    word.same keyword.text = true := by
  have hfound : Keyword.ofWord? word = some keyword := by
    unfold wordKind at h
    split at h
    · next found hfound => rw [hfound, TokenKind.keyword.inj h]
    · cases h
  have hupper : (keyword.text == word.upper) = true :=
    List.find?_some (p := fun k : Keyword => k.text == word.upper) hfound
  rw [Text.same_iff, beq_iff_eq.1 hupper, Text.lower_upper]

/-- A word that is no keyword up to case is read as a name. -/
theorem wordKind_of_not_same {word : Text} (h : ∀ keyword ∈ Keyword.all, word.same keyword.text = false) :
    wordKind word = .identifier word := by
  rcases wordKind_cases word with ⟨keyword, hkeyword⟩ | hidentifier
  · have hsame := h keyword (Keyword.mem_all keyword)
    rw [same_of_wordKind hkeyword] at hsame
    cases hsame
  · exact hidentifier

end Scan

end DialectBridge
