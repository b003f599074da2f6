import DialectBridge.Proofs.Rename.Names

/-!
# Words and tokens

Words are runs of identifier characters, tokens are not: a number or a sign such as `$` may go on with
a word, which then is no word of its own. A number or a sign holds no name itself (`isSettled`), so
replacing copies it and goes on behind it (`resume_settled`). What a token looks like is said once, by
`Token.Shape`.
-/

namespace DialectBridge

open Scan

/-! ## Pieces of a text -/

/-- A word goes on behind the text, which itself starts within a word or not. -/
def Text.endsInside : Bool → Text → Bool
  | inside, [] => inside
  | _, c :: t => endsInside (isIdentifierCharacter c) t

theorem startsNoName_of_digit {c : Char} (h : c.isDigit = true) : startsNoName c = true :=
  forall_ascii (P := fun c => c.isDigit = true → startsNoName c = true) (by decide +kernel)
    (toNat_lt_of_digit h) h

/-- No word of the text is a name, apart from one that the text starts within. -/
def Text.isSettled : Bool → Text → Bool
  | _, [] => true
  | inside, c :: t =>
    (inside || !isIdentifierCharacter c || startsNoName c) && isSettled (isIdentifierCharacter c) t

namespace Glossary

variable {g : Glossary} {p : Char → Prop}

/-- What replacing makes of a piece of a text that starts within a word or not. -/
def resume (g : Glossary) (inside : Bool) (t : Text) : Text :=
  if inside then t.takeWhile isIdentifierCharacter ++ g.replace (t.dropWhile isIdentifierCharacter)
  else g.replace t

@[simp] theorem resume_false (t : Text) : g.resume false t = g.replace t := rfl

theorem resume_stop {t : Text} (hstop : t.head?.any isIdentifierCharacter = false) (inside : Bool) :
    g.resume inside t = g.replace t := by
  cases inside with
  | false => rfl
  | true =>
    cases t with
    | nil => rfl
    | cons c t =>
      have hc : isIdentifierCharacter c = false := by simpa using hstop
      simp [resume, hc]

theorem resume_inside {c : Char} (hc : isIdentifierCharacter c = true) (t : Text) :
    g.resume true (c :: t) = c :: g.resume true t := by
  simp [resume, hc]

theorem resume_other (hg : g.ListsNames p) {c : Char} {t : Text} (ht : Text.Over (c :: t) p)
    (hc : isIdentifierCharacter c = false) (inside : Bool) : g.resume inside (c :: t) = c :: g.replace t := by
  rw [resume_stop (by simpa using hc), replace_other hg ht hc]

/-- A word is renamed, except for the rest of one. -/
theorem resume_run (hg : g.ListsNames p) {r t : Text} (hne : r ≠ []) (hr : ∀ c ∈ r, isIdentifierCharacter c = true)
    (ht : Text.Over (r ++ t) p) (hstop : t.head?.any isIdentifierCharacter = false) (inside : Bool) :
    g.resume inside (r ++ t) = (if inside then r else g.rename r) ++ g.replace t := by
  cases inside with
  | false => exact replace_run hg hne hr ht hstop
  | true =>
    rw [resume, if_pos rfl, if_pos rfl, Text.takeWhile_run hr hstop, Text.dropWhile_run hr hstop]

/-- What starts like no word is none of the listed names. -/
theorem rename_of_startsNoName (hg : g.ListsNames p) {c : Char} {t : Text} (hp : p c)
    (hc : startsNoName c = true) : g.rename (c :: t) = c :: t := by
  have hall : g.takesAll (c :: t) = false := by
    rw [Bool.eq_false_iff]
    intro htakes
    obtain ⟨⟨taken, u⟩, hmatch, hlength⟩ := Option.any_eq_true _ _ |>.1 htakes
    obtain ⟨e, he, hlike⟩ := List.exists_of_findSome?_eq_some hmatch
    obtain ⟨taken', htake, heq⟩ := Option.map_eq_some_iff.1 hlike
    cases heq
    -- the name starts with a letter that equals `c` up to case
    obtain ⟨d, word, hword⟩ := List.exists_cons_of_ne_nil (hg.key_ne_nil e he)
    rw [hword, takeLike?] at htake
    split at htake
    · next hsame =>
      have hstart := hg.key_start e he d (by rw [hword]; rfl) c hp hsame
      rw [hc] at hstart
      cases hstart
    · cases htake
  rw [rename, if_neg (by simp [hall])]

theorem replace_of_startsNoName (hg : g.ListsNames p) {c : Char} {t : Text} (ht : Text.Over (c :: t) p)
    (hc : startsNoName c = true) (hident : isIdentifierCharacter c = true) :
    g.replace (c :: t) = c :: g.resume true t := by
  have hcut : c :: t = (c :: t.takeWhile isIdentifierCharacter) ++ t.dropWhile isIdentifierCharacter := by
    rw [List.cons_append, List.takeWhile_append_dropWhile]
  have hrun : ∀ d ∈ c :: t.takeWhile isIdentifierCharacter, isIdentifierCharacter d = true :=
    List.forall_mem_cons.2 ⟨hident, Text.forall_mem_takeWhile _ t⟩
  have hp : p c := ht c List.mem_cons_self
  rw [hcut] at ht ⊢
  rw [replace_run hg (List.cons_ne_nil _ _) hrun ht (Text.head?_any_dropWhile _ t),
    rename_of_startsNoName hg hp hc, resume, if_pos rfl, List.cons_append]

/-- A piece without names is copied, and what follows goes on behind it. -/
theorem resume_settled (hg : g.ListsNames p) {s t : Text} {inside : Bool} (hs : s.isSettled inside = true)
    (hascii : Text.Over (s ++ t) p) :
    g.resume inside (s ++ t) = s ++ g.resume (s.endsInside inside) t := by
  induction s generalizing inside with
  | nil => rfl
  | cons c s ih =>
    rw [Text.isSettled, Bool.and_eq_true] at hs
    rw [List.cons_append] at hascii
    have hrest := ih hs.2 (List.forall_mem_cons.1 hascii).2
    have hstep : g.resume inside (c :: (s ++ t)) = c :: g.resume (isIdentifierCharacter c) (s ++ t) := by
      cases hc : isIdentifierCharacter c with
      | false => exact resume_other hg hascii hc inside
      | true =>
        cases inside with
        | true => exact resume_inside hc _
        | false => exact replace_of_startsNoName hg hascii (by simpa [hc] using hs.1) hc
    rw [List.cons_append, hstep, hrest, Text.endsInside, List.cons_append]

end Glossary

/-! ## The shapes of tokens -/

/-- The token is a number or a sign. -/
def TokenKind.isPlain : TokenKind → Bool
  | .string _ | .identifier _ | .quoted _ | .keyword _ | .error _ => false
  | _ => true

/-- A word goes on behind a number or a sign that ends in a character of words. -/
def Token.runsOn (t : Token) : Bool :=
  match t.kind with
  | .number _ | .symbol _ => t.lexeme.endsInside false
  | _ => false

/-- What a token in front of `rest` looks like. -/
inductive Token.Shape (t : Token) (rest : Text) : Prop where
  | word (word : IsWord t.lexeme) (kind : t.kind = wordKind t.lexeme)
      (stop : rest.head?.any isIdentifierCharacter = false)
  | literal (value : Text) (kind : t.kind = .string value)
      (lexeme : t.lexeme = '\x27' :: (doubled '\x27' value ++ ['\x27']))
  | name (quote : Char) (value : Text) (mem : quote ∈ ['\x22', '\x60']) (kind : t.kind = .quoted value)
      (lexeme : t.lexeme = quote :: (doubled quote value ++ [quote])) (stop : rest.head? ≠ some quote)
  | unclosed (quote : Char) (body : Text) (cause : LexicalError) (mem : quote ∈ ['\x27', '\x22', '\x60'])
      (kind : t.kind = .error cause) (lexeme : t.lexeme = quote :: body) (body_open : quotedBody quote body = none)
      (reads : ∀ u, quotedBody quote u = none → token quote u = (.error cause, quote :: u, [])) (stop : rest = [])
  | plain (kind : t.kind.isPlain = true) (settled : ∀ inside, t.lexeme.isSettled inside = true)
      (ends : ∀ inside, t.lexeme.endsInside inside = t.runsOn)

namespace Text

theorem isSettled_append (inside : Bool) (s t : Text) :
    isSettled inside (s ++ t) = (isSettled inside s && isSettled (endsInside inside s) t) := by
  induction s generalizing inside with
  | nil => rfl
  | cons c s ih => rw [List.cons_append, isSettled, ih, isSettled, endsInside, Bool.and_assoc]

theorem endsInside_append (inside : Bool) (s t : Text) :
    endsInside inside (s ++ t) = endsInside (endsInside inside s) t := by
  induction s generalizing inside with
  | nil => rfl
  | cons c s ih => rw [List.cons_append, endsInside, ih, endsInside]

theorem endsInside_eq {t : Text} (h : t ≠ []) (inside : Bool) :
    endsInside inside t = t.getLast?.any isIdentifierCharacter := by
  induction t generalizing inside with
  | nil => exact absurd rfl h
  | cons c t ih =>
    cases t with
    | nil => rfl
    | cons d t => rw [endsInside, ih (List.cons_ne_nil d t), List.getLast?_cons_cons]

/-- Text without identifier characters holds no word. -/
theorem isSettled_of_not_identifier {t : Text} (h : ∀ c ∈ t, isIdentifierCharacter c = false) (inside : Bool) :
    isSettled inside t = true := by
  induction t generalizing inside with
  | nil => rfl
  | cons c t ih =>
    obtain ⟨hc, ht⟩ := List.forall_mem_cons.1 h
    simp [isSettled, hc, ih ht]

theorem isSettled_digits {ds : Text} (h : ∀ d ∈ ds, d.isDigit = true) (inside : Bool) :
    isSettled inside ds = true := by
  induction ds generalizing inside with
  | nil => rfl
  | cons d ds ih =>
    obtain ⟨hd, hds⟩ := List.forall_mem_cons.1 h
    simp [isSettled, startsNoName_of_digit hd, ih hds]

theorem endsInside_digits {ds : Text} (h : ∀ d ∈ ds, d.isDigit = true) : endsInside true ds = true := by
  induction ds with
  | nil => rfl
  | cons d ds ih =>
    obtain ⟨hd, hds⟩ := List.forall_mem_cons.1 h
    rw [endsInside, identifier_of_digit hd, ih hds]

end Text

/-- The letter of an exponent goes on with the digits in front of it. -/
theorem isSettled_number {c : Char} (hc : c.isDigit = true) (t : Text) (inside : Bool) :
    (number c t).1.isSettled inside = true := by
  have hdigits := Text.forall_mem_takeWhile Char.isDigit
  have hint : ∀ d ∈ c :: t.takeWhile Char.isDigit, d.isDigit = true :=
    List.forall_mem_cons.2 ⟨hc, hdigits t⟩
  have hend : Text.endsInside inside (c :: t.takeWhile Char.isDigit) = true := by
    rw [Text.endsInside, identifier_of_digit hc, Text.endsInside_digits (hdigits t)]
  have hfraction (u : Text) : Text.isSettled true (fraction u).1 = true ∧ Text.endsInside true (fraction u).1 = true := by
    rcases fraction_cases u with ⟨-, hf⟩ | ⟨x, v, -, hx, hf⟩
    · rw [hf]
      exact ⟨rfl, rfl⟩
    · have hpoint : ∀ d ∈ x :: v.takeWhile Char.isDigit, d.isDigit = true :=
        List.forall_mem_cons.2 ⟨hx, hdigits v⟩
      rw [hf]
      refine ⟨by simp [Text.isSettled, startsNoName_of_digit hx, Text.isSettled_digits (hdigits v)], ?_⟩
      rw [Text.endsInside, Text.endsInside, identifier_of_digit hx, Text.endsInside_digits (hdigits v)]
  have hexponent (u : Text) : Text.isSettled true (exponent u).1 = true := by
    rcases exponent_cases u with ⟨-, hp⟩ | ⟨e, x, v, -, he, hx, hp⟩
    · rw [hp]
      rfl
    · have he : isIdentifierCharacter e = true := by rcases he with rfl | rfl <;> decide +kernel
      simp [hp, Text.isSettled, he, Text.isSettled_digits (hdigits v)]
  rw [number, Text.isSettled_append, Text.isSettled_append, Text.endsInside_append, Text.isSettled_digits hint, hend,
    (hfraction _).1, (hfraction _).2, hexponent]
  rfl

/-- A quotation has an end, or it takes the rest of the text. -/
theorem quotedToken_cases {q : Char} {kind : Text → TokenKind} {cause : LexicalError} {k : TokenKind} {l r : Text}
    (h : quotedToken q kind cause (l ++ r) = (k, q :: l, r)) :
    (∃ v, k = kind v ∧ l = doubled q v ++ [q] ∧ r.head? ≠ some q) ∨
      (k = .error cause ∧ r = [] ∧ quotedBody q l = none) := by
  unfold quotedToken at h
  split at h
  · next v rest hbody =>
    obtain ⟨rfl, rfl, rfl⟩ : kind v = k ∧ doubled q v ++ [q] = l ∧ rest = r := by simpa using h
    exact .inl ⟨v, rfl, rfl, quotedBody_rest hbody⟩
  · next hbody =>
    obtain ⟨rfl, -, rfl⟩ : TokenKind.error cause = k ∧ l ++ r = l ∧ [] = r := by simpa using h
    rw [List.append_nil] at hbody
    exact .inr ⟨rfl, rfl, hbody⟩

theorem quotedToken_of_none {q : Char} {kind : Text → TokenKind} {cause : LexicalError} {u : Text}
    (h : quotedBody q u = none) : quotedToken q kind cause u = (.error cause, q :: u, []) := by
  rw [quotedToken, h]

theorem Token.Fits.shape {t : Token} {rest : Text} (h : t.Fits rest) : t.Shape rest := by
  obtain ⟨c, l, hl, htoken⟩ := h.token_eq
  have hfull := htoken
  unfold token at htoken
  split at htoken
  case h_1 | h_2 | h_3 | h_4 | h_5 | h_6 =>
    -- a sign is one character, which belongs to no word
    obtain ⟨hkind, rfl, -⟩ := by simpa using htoken
    refine .plain (by rw [← hkind]; rfl) ?_ ?_
    · rw [hl]
      decide +kernel
    · intro inside
      rw [hl, runsOn, ← hkind]
      simp only [Text.endsInside]
      decide +kernel
  case h_7 =>
    rcases quotedToken_cases htoken with ⟨v, hkind, rfl, -⟩ | ⟨hkind, hrest, hbody⟩
    · exact .literal v hkind hl
    · exact .unclosed _ l _ (by decide) hkind hl hbody (fun u hu => quotedToken_of_none hu) hrest
  case h_8 | h_9 =>
    rcases quotedToken_cases htoken with ⟨v, hkind, rfl, hrest⟩ | ⟨hkind, hrest, hbody⟩
    · exact .name _ v (by decide) hkind hl hrest
    · exact .unclosed _ l _ (by decide) hkind hl hbody (fun u hu => quotedToken_of_none hu) hrest
  case h_10 =>
    split at htoken
    · obtain ⟨hkind, rfl, -⟩ := by simpa using htoken
      refine .plain (by rw [← hkind]; rfl) ?_ ?_
      · rw [hl]
        decide +kernel
      · intro inside
        rw [hl, runsOn, ← hkind]
        simp only [Text.endsInside]
        decide +kernel
    · obtain ⟨hkind, rfl⟩ : TokenKind.symbol ':' = t.kind ∧ l = [] := by simpa using htoken
      refine .plain (by rw [← hkind]; rfl) ?_ ?_
      · rw [hl]
        decide +kernel
      · intro inside
        rw [hl, runsOn, ← hkind, hl]
        rfl
  case h_11 =>
    split at htoken
    · next hdigit =>
      obtain ⟨hkind, hnumber⟩ : TokenKind.number (number c (l ++ rest)).1 = t.kind ∧
          number c (l ++ rest) = (c :: l, rest) := by simpa [Prod.ext_iff] using htoken
      have hident := identifier_of_digit hdigit
      refine .plain (by rw [← hkind]; rfl) (fun inside => ?_) fun inside => ?_
      · have hsettled := isSettled_number hdigit (l ++ rest) inside
        rwa [hnumber, ← hl] at hsettled
      · rw [runsOn, ← hkind, hl]
        rfl
    · next hdigit =>
      split at htoken
      · next hletter =>
        obtain ⟨hkind, hword, hstop⟩ : wordKind (c :: (l ++ rest).takeWhile isIdentifierCharacter) = t.kind ∧
            (l ++ rest).takeWhile isIdentifierCharacter = l ∧
            (l ++ rest).dropWhile isIdentifierCharacter = rest := by simpa using htoken
        have hrun := Text.forall_mem_takeWhile isIdentifierCharacter (l ++ rest)
        have hrest := Text.head?_any_dropWhile isIdentifierCharacter (l ++ rest)
        rw [hword] at hrun hkind
        rw [hstop] at hrest
        refine .word ?_ (by rw [← hkind, hl]) hrest
        rw [hl]
        exact ⟨⟨c, rfl, by simpa using hdigit, hletter⟩, hrun⟩
      · next hletter =>
        obtain ⟨hkind, rfl⟩ : TokenKind.symbol c = t.kind ∧ l = [] := by simpa using htoken
        have hsign : startsNoName c = true := by rw [startsNoName, Bool.eq_false_iff.2 hletter, Bool.not_false]
        refine .plain (by rw [← hkind]; rfl) (fun inside => ?_) fun inside => ?_
        · rw [hl, Text.isSettled, Text.isSettled, hsign, Bool.or_true, Bool.and_true]
        · rw [runsOn, ← hkind, hl]
          rfl

theorem blank_of_quote {q : Char} (hq : q ∈ ['\x27', '\x22', '\x60']) : isBlank q = false ∧ q ≠ ';' := by
  simp only [List.mem_cons, List.not_mem_nil, or_false] at hq
  rcases hq with rfl | rfl | rfl <;> decide

/-- A quote may be left open in front of every text that does not close it. -/
theorem Token.Fits.exists_unclosed {t : Token} {rest : Text} {cause : LexicalError} (h : t.Fits rest)
    (hkind : t.kind = .error cause) : ∃ q body, q ∈ ['\x27', '\x22', '\x60'] ∧ t.lexeme = q :: body ∧
      quotedBody q body = none ∧ ∀ u, quotedBody q u = none → Token.Fits ⟨[], t.kind, q :: u⟩ [] := by
  cases h.shape with
  | unclosed q body cause hmem hkind hlexeme hopen hreads _ =>
    refine ⟨q, body, hmem, hlexeme, hopen, fun u hu => ?_⟩
    have hnone : trivia? (q :: u) = none := by
      refine trivia?_eq_none_iff.2 ⟨(blank_of_quote hmem).1, ?_, ?_⟩
      · rintro ⟨rfl, -⟩
        exact absurd hmem (by decide)
      · rintro ⟨rfl, -⟩
        exact absurd hmem (by decide)
    refine ⟨?_, q, u, rfl, ?_⟩
    · show Scan.gap (q :: u ++ []) = ([], q :: u ++ [])
      rw [List.append_nil, gap_of_none hnone]
    · rw [List.append_nil, hreads u hu, hkind]
  | word _ hword _ => rcases wordKind_cases t.lexeme with ⟨k, hk⟩ | hk <;> simp [hword, hk] at hkind
  | literal _ hliteral _ => simp [hliteral] at hkind
  | name _ _ _ hname _ _ => simp [hname] at hkind
  | plain hplain _ _ => simp [hkind, TokenKind.isPlain] at hplain

end DialectBridge
