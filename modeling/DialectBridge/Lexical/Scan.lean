import DialectBridge.Lexical.Token
import DialectBridge.Text.WordCharacter

/-!
# Scanning

`scan` cuts a text into tokens. Whitespace and comments go into the gaps. No text is lost: the
tokens, gaps included, concatenate to the text (`textOf_scan`), the last one marks the end, and no
other one does.
-/

namespace DialectBridge

namespace Scan

/-! ## Gaps -/

/-- The text up to the first end of a block comment, end mark included, and what follows. A comment
without an end mark takes everything. -/
def blockBody : Text → Text × Text
  | '*' :: '/' :: t => (['*', '/'], t)
  | c :: t => (c :: (blockBody t).1, (blockBody t).2)
  | [] => ([], [])

/-- The first run of whitespace or comment, if the text starts with one. -/
def trivia? : Text → Option (Trivia × Text)
  | '-' :: '-' :: t =>
    some (.comment ('-' :: '-' :: t.takeWhile (· != '\n')), t.dropWhile (· != '\n'))
  | '/' :: '*' :: t => some (.comment ('/' :: '*' :: (blockBody t).1), (blockBody t).2)
  | c :: t => if isBlank c then some (.blank (c :: t.takeWhile isBlank), t.dropWhile isBlank) else none
  | [] => none

theorem blockBody_text (t : Text) : (blockBody t).1 ++ (blockBody t).2 = t := by
  fun_induction blockBody t <;> simp_all

theorem trivia?_text {t rest : Text} {x : Trivia} (h : trivia? t = some (x, rest)) :
    x.text ++ rest = t := by
  unfold trivia? at h
  split at h
  · obtain ⟨rfl, rfl⟩ := by simpa using h
    simp [Trivia.text, List.takeWhile_append_dropWhile]
  · obtain ⟨rfl, rfl⟩ := by simpa using h
    simp [Trivia.text, blockBody_text]
  · split at h
    · obtain ⟨rfl, rfl⟩ := by simpa using h
      simp [Trivia.text, List.takeWhile_append_dropWhile]
    · simp at h
  · simp at h

theorem trivia?_text_ne_nil {t rest : Text} {x : Trivia} (h : trivia? t = some (x, rest)) :
    x.text ≠ [] := by
  unfold trivia? at h
  split at h
  · obtain ⟨rfl, rfl⟩ := by simpa using h
    simp [Trivia.text]
  · obtain ⟨rfl, rfl⟩ := by simpa using h
    simp [Trivia.text]
  · split at h
    · obtain ⟨rfl, rfl⟩ := by simpa using h
      simp [Trivia.text]
    · simp at h
  · simp at h

theorem trivia?_length {t rest : Text} {x : Trivia} (h : trivia? t = some (x, rest)) :
    rest.length < t.length := by
  have hlen := congrArg List.length (trivia?_text h)
  have hne := List.length_pos_iff.2 (trivia?_text_ne_nil h)
  simp only [List.length_append] at hlen
  omega

/-- Everything before the first token, and the text from that token on. -/
def gap (t : Text) : List Trivia × Text :=
  match _h : trivia? t with
  | some (x, rest) => (x :: (gap rest).1, (gap rest).2)
  | none => ([], t)
termination_by t.length
decreasing_by all_goals exact trivia?_length _h

theorem gap_text (t : Text) : (gap t).1.flatMap Trivia.text ++ (gap t).2 = t := by
  fun_induction gap t with
  | case1 t x rest h ih => simp [ih, trivia?_text h]
  | case2 => simp

theorem trivia?_gap_snd (t : Text) : trivia? (gap t).2 = none := by
  fun_induction gap t with
  | case1 t x rest h ih => exact ih
  | case2 t h => exact h

/-! ## Single tokens -/

/-- The fraction of a number: a point with at least one digit after it. -/
def fraction : Text → Text × Text
  | '.' :: d :: t =>
    if d.isDigit then ('.' :: d :: t.takeWhile Char.isDigit, t.dropWhile Char.isDigit)
    else ([], '.' :: d :: t)
  | t => ([], t)

/-- The exponent of a number: `e` with a digit or a sign after it, and any further digits. -/
def exponent : Text → Text × Text
  | e :: d :: t =>
    if (e == 'e' || e == 'E') && (d.isDigit || d == '+' || d == '-') then
      (e :: d :: t.takeWhile Char.isDigit, t.dropWhile Char.isDigit)
    else ([], e :: d :: t)
  | t => ([], t)

/-- The text of the number that starts with the digit `c`, and what follows. -/
def number (c : Char) (t : Text) : Text × Text :=
  let (fractional, afterFraction) := fraction (t.dropWhile Char.isDigit)
  let (power, rest) := exponent afterFraction
  (c :: t.takeWhile Char.isDigit ++ fractional ++ power, rest)

/-- Every occurrence of `quote` written twice. -/
def doubled (quote : Char) : Text → Text
  | [] => []
  | c :: t => if c = quote then quote :: quote :: doubled quote t else c :: doubled quote t

/-- The value of a quoted text after its opening quote, and what follows the closing one. A doubled
quote stands for one. -/
def quotedBody (quote : Char) : Text → Option (Text × Text)
  | [] => none
  | [c] => if c = quote then some ([], []) else none
  | c :: d :: t =>
    if c = quote then
      if d = quote then (quotedBody quote t).map fun (value, rest) => (quote :: value, rest)
      else some ([], d :: t)
    else (quotedBody quote (d :: t)).map fun (value, rest) => (c :: value, rest)

/-- The token that a quote opens. Without a closing quote the rest of the text is an error. -/
def quotedToken (quote : Char) (kind : Text → TokenKind) (cause : LexicalError) (t : Text) :
    TokenKind × Text × Text :=
  match quotedBody quote t with
  | some (value, rest) => (kind value, quote :: doubled quote value ++ [quote], rest)
  | none => (.error cause, quote :: t, [])

/-- The kind of a bare word. -/
def wordKind (word : Text) : TokenKind :=
  match Keyword.ofWord? word with
  | some keyword => .keyword keyword
  | none => .identifier word

/-- The token that starts with `c`, its text, and what follows it. -/
def token (c : Char) (t : Text) : TokenKind × Text × Text :=
  match c with
  | '(' => (.leftParen, [c], t)
  | ')' => (.rightParen, [c], t)
  | ',' => (.comma, [c], t)
  | ';' => (.semicolon, [c], t)
  | '.' => (.dot, [c], t)
  | '%' => (.percent, [c], t)
  | '\x27' => quotedToken c .string .unterminatedString t
  | '\x22' | '\x60' => quotedToken c .quoted .unterminatedName t
  | ':' =>
    match t with
    | '=' :: rest => (.assign, [':', '='], rest)
    | _ => (.symbol c, [c], t)
  | _ =>
    if c.isDigit then
      let (digits, rest) := number c t
      (.number digits, digits, rest)
    else if isAlphabetic c || c == '_' then
      let word := c :: t.takeWhile isIdentifierCharacter
      (wordKind word, word, t.dropWhile isIdentifierCharacter)
    else (.symbol c, [c], t)

theorem fraction_text (t : Text) : (fraction t).1 ++ (fraction t).2 = t := by
  unfold fraction
  split
  · split <;> simp [List.takeWhile_append_dropWhile]
  · simp

theorem exponent_text (t : Text) : (exponent t).1 ++ (exponent t).2 = t := by
  unfold exponent
  split
  · split <;> simp [List.takeWhile_append_dropWhile]
  · simp

theorem number_text (c : Char) (t : Text) : (number c t).1 ++ (number c t).2 = c :: t := by
  simp only [number, List.cons_append, List.append_assoc, exponent_text, fraction_text,
    List.takeWhile_append_dropWhile]

theorem quotedBody_text {quote : Char} {t value rest : Text}
    (h : quotedBody quote t = some (value, rest)) : t = doubled quote value ++ quote :: rest := by
  fun_induction quotedBody quote t generalizing value rest with
  | case1 => simp at h
  | case2 => simp_all [doubled]
  | case3 => simp at h
  | case4 t ih =>
    obtain ⟨⟨v, r⟩, hv, he⟩ := Option.map_eq_some_iff.1 h
    obtain ⟨rfl, rfl⟩ := by simpa using he
    simp [doubled, ih hv]
  | case5 => simp_all [doubled]
  | case6 c d t hc ih =>
    obtain ⟨⟨v, r⟩, hv, he⟩ := Option.map_eq_some_iff.1 h
    obtain ⟨rfl, rfl⟩ := by simpa using he
    simp [doubled, ih hv, hc]

theorem quotedToken_text (quote : Char) (kind : Text → TokenKind) (cause : LexicalError) (t : Text) :
    (quotedToken quote kind cause t).2.1 ++ (quotedToken quote kind cause t).2.2 = quote :: t := by
  unfold quotedToken
  split
  · rename_i h
    simp [quotedBody_text h]
  · simp

/-- A token and what follows it make up the text. -/
theorem token_text (c : Char) (t : Text) : (token c t).2.1 ++ (token c t).2.2 = c :: t := by
  unfold token
  split <;> try rfl
  · exact quotedToken_text ..
  · exact quotedToken_text ..
  · exact quotedToken_text ..
  · split <;> rfl
  · split
    · exact number_text c t
    · split
      · simp [List.takeWhile_append_dropWhile]
      · rfl

theorem quotedToken_lexeme_ne_nil (quote : Char) (kind : Text → TokenKind) (cause : LexicalError)
    (t : Text) : (quotedToken quote kind cause t).2.1 ≠ [] := by
  unfold quotedToken
  split <;> simp

theorem token_lexeme_ne_nil (c : Char) (t : Text) : (token c t).2.1 ≠ [] := by
  unfold token
  split
  all_goals try (simp; done)
  · exact quotedToken_lexeme_ne_nil _ _ _ _
  · exact quotedToken_lexeme_ne_nil _ _ _ _
  · exact quotedToken_lexeme_ne_nil _ _ _ _
  · split <;> simp
  · split
    · simp [number]
    · split <;> simp

theorem token_length (c : Char) (t : Text) : (token c t).2.2.length ≤ t.length := by
  have hlen := congrArg List.length (token_text c t)
  have hne := List.length_pos_iff.2 (token_lexeme_ne_nil c t)
  simp only [List.length_append, List.length_cons] at hlen
  omega

end Scan

open Scan in
/-- The tokens of a text. The last one marks its end. -/
def scan (t : Text) : List Token :=
  match _h : gap t with
  | (trivia, []) => [⟨trivia, .eof, []⟩]
  | (trivia, c :: rest) =>
    ⟨trivia, (token c rest).1, (token c rest).2.1⟩ :: scan (token c rest).2.2
termination_by t.length
decreasing_by
  have hlen := congrArg List.length (gap_text t)
  have := token_length c rest
  simp only [_h, List.length_append, List.length_cons] at hlen
  omega

/-- No character is lost: the tokens of a text, with their gaps, make up the text. -/
theorem textOf_scan (t : Text) : Token.textOf (scan t) = t := by
  fun_induction scan t with
  | case1 t trivia h =>
    have := Scan.gap_text t
    simpa [h, Token.text, Token.gapText] using this
  | case2 t trivia c rest h ih =>
    have := Scan.gap_text t
    rw [h] at this
    simp only [Token.textOf_cons, Token.text, Token.gapText, ih, List.append_assoc, Scan.token_text]
    exact this

end DialectBridge
