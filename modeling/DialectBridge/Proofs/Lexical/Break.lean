import DialectBridge.Proofs.Lexical.Locality

/-!
# Text behind a break

A blank, a parenthesis, a comma or a semicolon ends every token in front of it, except one that lacks
its closing quote. So text that starts with such a break can stand behind a script without changing
its tokens (`exists_scan_append`), and behind a line break it is scanned as if it stood alone
(`exists_scan_append_newline`).
-/

namespace DialectBridge

/-- The comment opens with `/*` and lacks its end mark. -/
def Trivia.isOpen : Trivia → Bool
  | .comment ('/' :: '*' :: body) => !(['*', '/'].isSuffixOf body)
  | _ => false

/-- Every quotation and every block comment of the text has its end. -/
structure Scan.IsClosed (t : Text) : Prop where
  quotes : ∀ u ∈ scan t, ∀ cause, u.kind ≠ .error cause
  comments : ∀ u ∈ scan t, ∀ x ∈ u.gap, x.isOpen = false

namespace Scan

/-- The signs that end the token in front of them. -/
def breaks : Text :=
  [' ', '\n', ',', '(', ')', ';']

/-- The text starts with a break, if it is not empty. -/
def StartsWithBreak (s : Text) : Prop :=
  ∀ c ∈ s.head?, c ∈ breaks

namespace StartsWithBreak

variable {s : Text}

theorem nil : StartsWithBreak [] := by
  intro c hc
  cases hc

theorem cons {c : Char} (h : c ∈ breaks) (s : Text) : StartsWithBreak (c :: s) := by
  intro d hd
  obtain rfl : c = d := Option.some.inj hd
  exact h

theorem head?_any (h : StartsWithBreak s) {p : Char → Bool} (hp : breaks.any p = false) :
    s.head?.any p = false := by
  cases hs : s.head? with
  | none => rfl
  | some c => exact Bool.eq_false_iff.2 (List.any_eq_false.1 hp c (h c hs))

theorem head?_ne (h : StartsWithBreak s) {q : Char} (hq : q ∉ breaks) : s.head? ≠ some q :=
  fun hs => hq (h q hs)

theorem not_startsFraction (h : StartsWithBreak s) : startsFraction s = false := by
  rw [Bool.eq_false_iff]
  intro hstart
  obtain ⟨d, u, rfl, -⟩ := startsFraction_iff.1 hstart
  exact h.head?_ne (q := '.') (by decide) rfl

theorem not_startsExponent (h : StartsWithBreak s) : startsExponent s = false := by
  rw [Bool.eq_false_iff]
  intro hstart
  obtain ⟨e, d, u, rfl, he, -⟩ := startsExponent_iff.1 hstart
  exact absurd (h e rfl) (by rcases he with rfl | rfl <;> decide)

end StartsWithBreak

/-! ## Tokens in front of a break -/

/-- A closed quotation ends in front of a break. -/
theorem quotedToken_break {q : Char} {kind : Text → TokenKind} {cause : LexicalError} {k : TokenKind}
    {l s : Text} (hq : q ∉ breaks) (h : quotedToken q kind cause l = (k, q :: l, []))
    (hk : ∀ e, k ≠ .error e) (hs : StartsWithBreak s) :
    quotedToken q kind cause (l ++ s) = (k, q :: l, s) := by
  unfold quotedToken at h
  split at h
  · next v rest hbody =>
    obtain ⟨rfl, rfl, rfl⟩ : kind v = k ∧ doubled q v ++ [q] = l ∧ rest = [] := by simpa using h
    rw [quotedToken, List.append_assoc, List.singleton_append, quotedBody_doubled (hs.head?_ne hq)]
    rfl
  · exact absurd (Prod.mk.inj h).1.symm (hk cause)

/-- A token at the end of a text stays the same in front of a break. -/
theorem token_break {c : Char} {k : TokenKind} {l s : Text} (h : token c l = (k, c :: l, []))
    (hk : ∀ e, k ≠ .error e) (hs : StartsWithBreak s) : token c (l ++ s) = (k, c :: l, s) := by
  unfold token at h
  split at h
  case h_1 | h_2 | h_3 | h_4 | h_5 | h_6 =>
    obtain ⟨rfl, rfl⟩ := by simpa using h
    rfl
  case h_7 | h_8 | h_9 => exact quotedToken_break (by decide) h hk hs
  case h_10 =>
    split at h
    · next rest =>
      obtain ⟨rfl, rfl⟩ : TokenKind.assign = k ∧ rest = [] := by simpa using h
      rfl
    · next hne =>
      obtain ⟨rfl, rfl⟩ : TokenKind.symbol ':' = k ∧ l = [] := by simpa using h
      have hassign := hs.head?_ne (q := '=') (by decide)
      cases s with
      | nil => rfl
      | cons d s =>
        have hd : d ≠ '=' := by simpa using hassign
        simp [token, hd]
  case h_11 =>
    unfold token
    split
    case h_11 =>
      split at h
      · next hc =>
        obtain ⟨rfl, hn⟩ : TokenKind.number (number c l).1 = k ∧ number c l = (c :: l, []) := by
          simpa [Prod.ext_iff] using h
        have hn : number c (l ++ []) = (c :: l, []) := by rwa [List.append_nil]
        have hnumber : number c (l ++ s) = (c :: l, s) :=
          number_append hc hn (fun _ => hs.head?_any (by decide)) (fun _ _ => hs.not_startsFraction)
            (fun _ _ => hs.not_startsExponent)
        rw [List.append_nil] at hn
        rw [if_pos hc, hn, hnumber]
      · next hc =>
        rw [if_neg hc]
        split at h
        · next hw =>
          obtain ⟨rfl, hl, hr⟩ : wordKind (c :: l.takeWhile isIdentifierCharacter) = k ∧
              l.takeWhile isIdentifierCharacter = l ∧ l.dropWhile isIdentifierCharacter = [] := by
            simpa using h
          have hrun := Text.forall_mem_takeWhile isIdentifierCharacter l
          rw [hl] at hrun
          have hstop : s.head?.any isIdentifierCharacter = false := hs.head?_any (by decide +kernel)
          simp only [if_pos hw, Text.takeWhile_run hrun hstop, Text.dropWhile_run hrun hstop, hl]
        · next hw =>
          rw [if_neg hw]
          obtain ⟨rfl, rfl⟩ : TokenKind.symbol c = k ∧ l = [] := by simpa using h
          rfl
    all_goals simp_all

theorem token_kind_ne_eof (c : Char) (t : Text) : (token c t).1 ≠ .eof := by
  have hquoted {q : Char} {kind : Text → TokenKind} {cause : LexicalError} (hkind : ∀ v, kind v ≠ .eof) :
      (quotedToken q kind cause t).1 ≠ .eof := by
    unfold quotedToken
    split
    · exact hkind _
    · simp
  unfold token
  split
  case h_7 | h_8 | h_9 => exact hquoted (by simp)
  case h_10 => split <;> simp
  case h_11 =>
    split
    · simp
    · split
      · rcases wordKind_cases (c :: t.takeWhile isIdentifierCharacter) with ⟨k, hk⟩ | hk <;> simp [hk]
      · simp
  all_goals simp

/-- A token at the end of a text does not become trivia in front of a break. -/
theorem trivia?_break {c : Char} {l s : Text} (h : trivia? (c :: l) = none) (hs : StartsWithBreak s) :
    trivia? (c :: (l ++ s)) = none := by
  rw [trivia?_eq_none_iff] at h ⊢
  obtain ⟨hblank, hline, hblock⟩ := h
  refine ⟨hblank, ?_⟩
  cases l with
  | nil => exact ⟨fun ⟨_, hd⟩ => hs.head?_ne (by decide) hd, fun ⟨_, hd⟩ => hs.head?_ne (by decide) hd⟩
  | cons d l => exact ⟨hline, hblock⟩

/-- A break may follow a text that already goes on behind the token. -/
theorem Alike.append_break (l : Text) {p s : Text} (hp : p ≠ []) (hs : StartsWithBreak s) :
    Alike l p (p ++ s) := by
  match p, hp with
  | [a], _ =>
    -- the break is the second character, which neither a fraction nor an exponent has
    have hdigit := hs.head?_any (p := Char.isDigit) (by decide)
    refine ⟨nofun, fun c hc => .inl hc, fun h => ?_, fun h => ?_⟩
    · obtain ⟨d, u, heq, hd⟩ := startsFraction_iff.1 h
      obtain ⟨rfl, rfl⟩ : a = '.' ∧ s = d :: u := by simpa using heq
      rw [List.head?_cons, Option.any_some, hd] at hdigit
      cases hdigit
    · obtain ⟨e, d, u, heq, -, hd⟩ := startsExponent_iff.1 h
      obtain ⟨rfl, rfl⟩ : a = e ∧ s = d :: u := by simpa using heq
      rcases hd with hd | rfl | rfl
      · rw [List.head?_cons, Option.any_some, hd] at hdigit
        cases hdigit
      · exact absurd rfl (hs.head?_ne (q := '+') (by decide))
      · exact absurd rfl (hs.head?_ne (q := '-') (by decide))
  | a :: b :: p, _ => exact .of_append l (by simp) s

end Scan

open Scan

/-- A token that does not lack its closing quote fits in front of every break. -/
theorem Token.Fits.of_break {t : Token} {r s : Text} (h : t.Fits r) (hk : ∀ cause, t.kind ≠ .error cause)
    (hs : StartsWithBreak s) : t.Fits s := by
  have hend : t.Fits [] := h.alike (.of_initial _ (List.nil_prefix))
  obtain ⟨c, l, hl, htoken⟩ := hend.token_eq
  have hnone := hend.trivia?_eq_none
  rw [List.append_nil] at htoken hnone
  rw [hl] at hnone
  exact hend.replace hl (trivia?_break hnone hs) (token_break htoken hk hs)

theorem Token.Fits.append_break {t : Token} {r s : Text} (h : t.Fits r)
    (hk : ∀ cause, t.kind ≠ .error cause) (hs : StartsWithBreak s) : t.Fits (r ++ s) := by
  cases r with
  | nil => exact h.of_break hk hs
  | cons c r => exact h.alike (.append_break _ (List.cons_ne_nil c r) hs)

theorem Token.Fits.kind_ne_eof {t : Token} {r : Text} (h : t.Fits r) : t.kind ≠ .eof := by
  obtain ⟨c, l, -, htoken⟩ := h.token_eq
  have hne : (token c (l ++ r)).1 ≠ .eof := token_kind_ne_eof c _
  rwa [htoken] at hne

/-! ## Scripts in front of a break -/

/-- A script is scanned up to its last gap as if nothing followed, and that gap goes on in the text
behind the break. -/
theorem exists_scan_append {t s : Text} (ht : ∀ u ∈ scan t, ∀ cause, u.kind ≠ .error cause)
    (hs : StartsWithBreak s) :
    ∃ us g, scan t = us ++ [⟨g, .eof, []⟩] ∧ (∀ u ∈ us, u.kind ≠ .eof) ∧
      gap (Trivia.textOf g) = (g, []) ∧ scan (t ++ s) = us ++ scan (Trivia.textOf g ++ s) := by
  induction t using scan_induction with
  | gap g hg => exact ⟨[], g, scan_of_gap_nil hg, by simp, hg, rfl⟩
  | token u rest hu ih =>
    rw [scan_of_fits hu] at ht ⊢
    obtain ⟨us, g, hscan, heof, hg, happend⟩ := ih fun v hv => ht v (List.mem_cons_of_mem _ hv)
    have hfits := hu.append_break (ht u List.mem_cons_self) hs
    refine ⟨u :: us, g, by rw [hscan, List.cons_append], ?_, hg, ?_⟩
    · exact List.forall_mem_cons.2 ⟨hu.kind_ne_eof, heof⟩
    · rw [List.append_assoc, scan_of_fits hfits, happend, List.cons_append]

/-! ## Behind a line break -/

namespace Scan

/-- The body of a closed block comment ends where it ends, whatever follows. -/
theorem blockBody_of_closed {t : Text} (hself : blockBody t = (t, [])) (hclosed : ['*', '/'] <:+ t)
    (s : Text) : blockBody (t ++ s) = (t, s) := by
  fun_induction blockBody t with
  | case1 t =>
    obtain rfl : t = [] := (Prod.mk.inj hself).2
    rfl
  | case2 c t hend ih =>
    have hrest : blockBody t = (t, []) := Prod.ext (List.cons.inj (Prod.mk.inj hself).1).2 (Prod.mk.inj hself).2
    rcases List.suffix_cons_iff.1 hclosed with heq | hclosed
    · obtain ⟨rfl, rfl⟩ := List.cons.inj heq
      exact absurd rfl (hend [] rfl)
    · obtain ⟨d, u, rfl⟩ := List.exists_cons_of_ne_nil (l := t) (by rintro rfl; simp at hclosed)
      rw [List.cons_append, List.cons_append, blockBody, ← List.cons_append, ih hrest hclosed]
      intro v hc hd
      exact hend u hc (by rw [(List.cons.inj hd).1])
  | case3 => simp at hclosed

/-- Blanks in front of a text only go into its gap. -/
theorem gap_dropWhile_blank (t : Text) : (gap (t.dropWhile isBlank)).2 = (gap t).2 := by
  cases t with
  | nil => rfl
  | cons c t =>
    by_cases hc : isBlank c = true
    · rw [List.dropWhile_cons_of_pos hc, gap_of_trivia (trivia?_blank hc t)]
    · rw [List.dropWhile_cons_of_neg hc]

theorem gap_blank_append {b : Text} (hb : ∀ c ∈ b, isBlank c = true) (t : Text) :
    (gap (b ++ t)).2 = (gap t).2 := by
  induction b with
  | nil => rfl
  | cons c b ih =>
    obtain ⟨hc, hb⟩ := List.forall_mem_cons.1 hb
    rw [List.cons_append, gap_of_trivia (trivia?_blank hc _), gap_dropWhile_blank, ih hb]

theorem trivia?_of_gap_cons {t r : Text} {x : Trivia} {g : List Trivia} (h : gap t = (x :: g, r)) :
    ∃ rest, trivia? t = some (x, rest) ∧ gap rest = (g, r) := by
  cases htrivia : trivia? t with
  | none =>
    rw [gap_of_none htrivia] at h
    cases h
  | some p =>
    obtain ⟨y, rest⟩ := p
    rw [gap_of_trivia htrivia] at h
    obtain ⟨⟨rfl, hg⟩, hr⟩ : (y = x ∧ (gap rest).1 = g) ∧ (gap rest).2 = r := by simpa using h
    exact ⟨rest, rfl, Prod.ext hg hr⟩

/-- A line break ends a closed piece of trivia, or goes on with it. -/
theorem gap_trivia_newline {x : Trivia} (hx : trivia? x.text = some (x, [])) (hclosed : x.isOpen = false)
    (s : Text) : (gap (x.text ++ '\n' :: s)).2 = (gap s).2 := by
  have hbreak (s : Text) : (gap ('\n' :: s)).2 = (gap s).2 :=
    gap_blank_append (b := ['\n']) (List.all_eq_true.1 (by decide)) s
  have hends (h : trivia? (x.text ++ '\n' :: s) = some (x, '\n' :: s)) :
      (gap (x.text ++ '\n' :: s)).2 = (gap s).2 := by
    rw [gap_of_trivia h, hbreak]
  rcases trivia?_cases hx with ⟨u, -, rfl, -⟩ | ⟨u, -, rfl, -⟩ | ⟨c, u, -, hc, rfl, -⟩
  · have hrun := Text.forall_mem_takeWhile (· != '\n') u
    have hstop : ('\n' :: s).head?.any (· != '\n') = false := rfl
    refine hends ?_
    simp only [Trivia.text, List.cons_append, trivia?]
    rw [Text.takeWhile_run hrun hstop, Text.dropWhile_run hrun hstop]
  · have hsuffix : ['*', '/'] <:+ (blockBody u).1 := by simpa [Trivia.isOpen] using hclosed
    refine hends ?_
    simp only [Trivia.text, List.cons_append, trivia?]
    rw [blockBody_of_closed (blockBody_self u) hsuffix]
  · have hblank : ∀ d ∈ c :: u.takeWhile isBlank, isBlank d = true :=
      List.forall_mem_cons.2 ⟨hc, Text.forall_mem_takeWhile isBlank u⟩
    rw [Trivia.text, gap_blank_append hblank, hbreak]

/-- What ends a script and a line break behind it go into the gap in front of the text that follows. -/
theorem gap_newline {g : List Trivia} (hg : gap (Trivia.textOf g) = (g, []))
    (hclosed : ∀ x ∈ g, x.isOpen = false) (s : Text) :
    (gap (Trivia.textOf g ++ '\n' :: s)).2 = (gap s).2 := by
  induction g with
  | nil => exact gap_blank_append (b := ['\n']) (List.all_eq_true.1 (by decide)) s
  | cons x g ih =>
    obtain ⟨rest, htrivia, hrest⟩ := trivia?_of_gap_cons hg
    obtain ⟨hx, hclosed⟩ := List.forall_mem_cons.1 hclosed
    obtain rfl : Trivia.textOf g = rest := by
      have htext := gap_text rest
      rwa [hrest, List.append_nil] at htext
    rw [Trivia.textOf_cons, List.append_assoc]
    cases hnil : Trivia.textOf g with
    | nil => exact gap_trivia_newline (trivia?_self htrivia) hx s
    | cons c t =>
      have hne : Trivia.textOf g ≠ [] := by simp [hnil]
      rw [← hnil, gap_of_trivia (trivia?_append htrivia hne (by simp [hnil])), ih hrest hclosed]

end Scan

/-- The tokens with another gap in front. -/
def Token.withGap (g : List Trivia) (ts : List Token) : List Token :=
  ts.modifyHead fun t => { t with gap := g }

/-- Texts that agree behind their first gaps have the same tokens up to these gaps. -/
theorem scan_withGap {t s : Text} (h : (gap t).2 = (gap s).2) : scan t = Token.withGap (gap t).1 (scan s) := by
  rcases ht : gap t with ⟨g, r⟩
  rcases hs : gap s with ⟨g', r'⟩
  obtain rfl : r = r' := by simpa [ht, hs] using h
  cases r with
  | nil =>
    rw [scan_of_gap_nil ht, scan_of_gap_nil hs]
    rfl
  | cons c r =>
    rw [scan_of_gap_cons ht, scan_of_gap_cons hs]
    rfl

theorem exists_scan_withGap {t s : Text} (h : (gap t).2 = (gap s).2) :
    ∃ g, scan t = Token.withGap g (scan s) :=
  ⟨_, scan_withGap h⟩

/-- Behind a closed script and a line break a text is scanned as if it stood alone, up to its first
gap. -/
theorem exists_scan_append_newline {t : Text} (ht : Scan.IsClosed t) (s : Text) :
    ∃ us g h, scan t = us ++ [⟨g, .eof, []⟩] ∧ (∀ u ∈ us, u.kind ≠ .eof) ∧
      scan (t ++ '\n' :: s) = us ++ Token.withGap h (scan s) := by
  obtain ⟨us, g, hscan, heof, hg, happend⟩ :=
    exists_scan_append ht.quotes (.cons (c := '\n') (by decide) s)
  have hclosed : ∀ x ∈ g, x.isOpen = false := ht.comments ⟨g, .eof, []⟩ (by simp [hscan])
  obtain ⟨h, hwith⟩ := exists_scan_withGap (gap_newline hg hclosed s)
  exact ⟨us, g, h, hscan, heof, by rw [happend, hwith]⟩

end DialectBridge
