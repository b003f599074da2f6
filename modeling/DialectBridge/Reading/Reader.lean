import DialectBridge.Lexical.Describe

/-!
# Readers of tokens

A reader takes tokens from the front of a list and leaves the rest. A place in a script is the list of
tokens from there on, so neither a reader nor its errors know positions. Where the tokens end, the end
of the text stands, whether or not a token marks it.

A failing reader tells the place of the offending token and the place where it stopped.
-/

namespace DialectBridge

/-- Why a reading failed. -/
inductive ReadError where
  /-- Something else was expected at this place. -/
  | unexpected (expected : Text) (place : List Token)
  /-- The parenthesis at the place `opening` has no counterpart. -/
  | unbalanced (opening stop : List Token)
  deriving DecidableEq, Repr

/-- A computation that takes tokens from the front of a list. -/
abbrev Reader (α : Type) := StateT (List Token) (Except ReadError) α

/-! ## Looking ahead -/

namespace Token

/-- The kind of the first token. -/
def headKind : List Token → TokenKind
  | [] => .eof
  | t :: _ => t.kind

/-- The end of the text is reached. -/
def atEnd (ts : List Token) : Bool :=
  headKind ts == .eof

/-- The first token is this keyword. -/
def atKeyword (keyword : Keyword) (ts : List Token) : Bool :=
  headKind ts == .keyword keyword

/-- The first token is this bare word, up to ASCII case. -/
def atWord (word : Text) : List Token → Bool
  | [] => false
  | t :: _ => t.isWord word

/-- The first token is of the same kind as `kind`. -/
def atKind (kind : TokenKind) (ts : List Token) : Bool :=
  kind.sameKind (headKind ts)

/-- The keyword that comes first, if one does. -/
def headKeyword? : List Token → Option Keyword
  | [] => none
  | t :: _ => t.keyword?

/-- The tokens of `whole` before the place `rest`. -/
def taken (whole rest : List Token) : List Token :=
  whole.take (whole.length - rest.length)

@[simp] theorem taken_append (ts rest : List Token) : taken (ts ++ rest) rest = ts := by
  simp [taken]

end Token

namespace ReadError

/-- The place of the offending token. -/
def place : ReadError → List Token
  | unexpected _ place => place
  | unbalanced opening _ => opening

/-- The place where the reader stopped. -/
def stop : ReadError → List Token
  | unexpected _ place => place
  | unbalanced _ stop => stop

/-- The kind of token that was found in place of the expected one. -/
def found? : ReadError → Option TokenKind
  | unexpected _ place => some (Token.headKind place)
  | unbalanced _ _ => none

/-- The wording of a failed reading. -/
def message : ReadError → Text
  | unexpected expected place =>
    match Token.headKind place with
    | .eof => "Unexpected end of input: expected " ++ expected
    | found => "Unexpected token: expected " ++ expected ++ ", found " ++ found.describe
  | unbalanced _ _ => "Unbalanced parentheses"

end ReadError

namespace Reader

/-! ## Single tokens -/

/-- Fails at the next token. -/
def fail {α : Type} (expected : Text) : Reader α := fun ts =>
  .error (.unexpected expected ts)

/-- Passes one token. -/
def skip : Reader Unit := fun ts =>
  .ok ((), ts.drop 1)

/-- Looks at the tokens from here on. -/
def look {α : Type} (f : List Token → α) : Reader α := fun ts =>
  .ok (f ts, ts)

/-- Passes the next token if it is of this kind, and tells whether it was. -/
def eat (kind : TokenKind) : Reader Bool := fun ts =>
  if Token.atKind kind ts then .ok (true, ts.drop 1) else .ok (false, ts)

/-- Passes the next token if it is this keyword, and tells whether it was. -/
def eatKeyword (keyword : Keyword) : Reader Bool := fun ts =>
  if Token.atKeyword keyword ts then .ok (true, ts.drop 1) else .ok (false, ts)

/-- Passes a token of this kind. -/
def expect (kind : TokenKind) (expected : Text) : Reader Unit := fun ts =>
  if Token.atKind kind ts then .ok ((), ts.drop 1) else .error (.unexpected expected ts)

/-- Passes this keyword. -/
def expectKeyword (keyword : Keyword) : Reader Unit := fun ts =>
  if Token.atKeyword keyword ts then .ok ((), ts.drop 1)
  else .error (.unexpected keyword.text ts)

/-- Reads a word: a bare one, a quoted one, or a keyword that serves as a name. -/
def word (expected : Text) : Reader Text
  | t :: ts =>
    match t.name? with
    | some name => .ok (name, ts)
    | none => .error (.unexpected expected (t :: ts))
  | [] => .error (.unexpected expected [])

/-! ## Names -/

/-- Reads a word after each `separator`, as long as one comes. -/
def wordsAfter (separator : TokenKind) (expected : Text) : Reader (List Text)
  | t :: u :: us =>
    if t.kind == separator then
      match u.name? with
      | none => .error (.unexpected expected (u :: us))
      | some part => do
        let (parts, rest) ← wordsAfter separator expected us
        .ok (part :: parts, rest)
    else .ok ([], t :: u :: us)
  | [t] => if t.kind == separator then .error (.unexpected expected []) else .ok ([], [t])
  | [] => .ok ([], [])

/-- Reads the parts of a name: words with dots between them. -/
def nameParts (expected : Text) : Reader (List Text) := do
  let first ← word expected
  let more ← wordsAfter .dot expected
  return first :: more

/-- Reads a qualified name. -/
def name (expected : Text) : Reader Text := do
  return Text.joinWith "." (← nameParts expected)

/-- Reads a list of column names in parentheses. -/
def nameList : Reader (List Text) := do
  expect .leftParen "'('"
  let first ← word "column name"
  let more ← wordsAfter .comma "column name"
  expect .rightParen "')'"
  return first :: more

/-! ## Groups -/

/-- The place after the parenthesis that closes `depth` nested groups and the one around them. -/
def afterGroup? (depth : Nat) : List Token → Option (List Token)
  | [] => none
  | t :: ts =>
    match t.kind with
    | .leftParen => afterGroup? (depth + 1) ts
    | .rightParen =>
      match depth with
      | 0 => some ts
      | depth + 1 => afterGroup? depth ts
    | .eof => none
    | _ => afterGroup? depth ts

/-- The error of a group that opens at a place and does not close. -/
def unclosed (opening : List Token) : ReadError :=
  .unbalanced opening (opening.dropWhile fun t => !t.isEof)

/-- Passes a group in parentheses, whatever it holds, and returns its tokens with the parentheses. -/
def skipGroup : Reader (List Token) := fun ts =>
  match expect .leftParen "'('" ts with
  | .error e => .error e
  | .ok (_, inside) =>
    match afterGroup? 0 inside with
    | some rest => .ok (Token.taken ts rest, rest)
    | none => .error (unclosed ts)

/-- A part of a group with the comma or parenthesis that ends it. -/
structure Piece where
  tokens : List Token
  delimiter : Token
  deriving DecidableEq, Repr

/-- Puts a token in front of the first piece. -/
def Piece.push (t : Token) : List Piece → List Piece
  | [] => []
  | piece :: pieces => ⟨t :: piece.tokens, piece.delimiter⟩ :: pieces

/-- Cuts what is left of a group at its own commas, and returns the place after the group. -/
def pieces? (depth : Nat) : List Token → Option (List Piece × List Token)
  | [] => none
  | t :: ts =>
    match t.kind, depth with
    | .leftParen, _ => (pieces? (depth + 1) ts).map fun (ps, rest) => (Piece.push t ps, rest)
    | .rightParen, 0 => some ([⟨[], t⟩], ts)
    | .rightParen, depth + 1 => (pieces? depth ts).map fun (ps, rest) => (Piece.push t ps, rest)
    | .comma, 0 => (pieces? 0 ts).map fun (ps, rest) => (⟨[], t⟩ :: ps, rest)
    | .eof, _ => none
    | _, _ => (pieces? depth ts).map fun (ps, rest) => (Piece.push t ps, rest)

/-- A part of a group, and the place where it starts. -/
structure Part where
  tokens : List Token
  place : List Token
  deriving DecidableEq, Repr

/-- The pieces that hold a token, each with its place; the first piece starts at `place`. -/
def partsFrom (place : List Token) : List Piece → List Part
  | [] => []
  | piece :: pieces =>
    let next := partsFrom (place.drop (piece.tokens.length + 1)) pieces
    if piece.tokens.isEmpty then next else ⟨piece.tokens, place⟩ :: next

/-- Passes a group in parentheses and returns its parts, which commas separate. -/
def splitGroup : Reader (List Part) := fun ts =>
  match expect .leftParen "'('" ts with
  | .error e => .error e
  | .ok (_, inside) =>
    match pieces? 0 inside with
    | some (pieces, rest) => .ok (partsFrom inside pieces, rest)
    | none => .error (unclosed ts)

/-! ## Readers only take tokens from the front -/

/-- What the reader leaves is an end of what it was given. -/
def LeavesSuffix {α : Type} (r : Reader α) : Prop :=
  ∀ ⦃ts a rest⦄, r ts = .ok (a, rest) → rest <:+ ts

theorem LeavesSuffix.length_le {α : Type} {r : Reader α} (h : LeavesSuffix r) {ts rest : List Token}
    {a : α} (hr : r ts = .ok (a, rest)) : rest.length ≤ ts.length :=
  (h hr).length_le

theorem LeavesSuffix.pure {α : Type} (a : α) : LeavesSuffix (pure a : Reader α) := by
  intro ts b rest h
  cases h
  exact List.suffix_refl _

theorem LeavesSuffix.bind {α β : Type} {r : Reader α} {f : α → Reader β} (hr : LeavesSuffix r)
    (hf : ∀ a, LeavesSuffix (f a)) : LeavesSuffix (r >>= f) := by
  intro ts b rest h
  change (r ts >>= fun p => f p.1 p.2) = _ at h
  cases hrun : r ts with
  | error e => simp [hrun, Bind.bind, Except.bind] at h
  | ok p =>
    simp only [hrun, Bind.bind, Except.bind] at h
    exact (hf p.1 h).trans (hr hrun)

theorem LeavesSuffix.map {α β : Type} {r : Reader α} (f : α → β) (hr : LeavesSuffix r) :
    LeavesSuffix (f <$> r) := by
  intro ts b rest h
  change (r ts >>= fun p => Except.ok (f p.1, p.2)) = _ at h
  cases hrun : r ts with
  | error e => simp [hrun, Bind.bind, Except.bind] at h
  | ok p =>
    simp only [hrun, Bind.bind, Except.bind] at h
    cases h
    exact hr hrun

theorem leavesSuffix_look {α : Type} (f : List Token → α) : LeavesSuffix (look f) := by
  intro ts a rest h
  cases h
  exact List.suffix_refl _

theorem leavesSuffix_expect (kind : TokenKind) (expected : Text) :
    LeavesSuffix (expect kind expected) := by
  intro ts a rest h
  unfold expect at h
  split at h
  · cases h
    exact List.drop_suffix 1 ts
  · cases h

theorem leavesSuffix_skip : LeavesSuffix skip := by
  intro ts a rest h
  cases h
  exact List.drop_suffix 1 ts

theorem leavesSuffix_fail {α : Type} (expected : Text) :
    LeavesSuffix (fail expected : Reader α) := by
  intro ts a rest h
  cases h

theorem leavesSuffix_eatKeyword (keyword : Keyword) : LeavesSuffix (eatKeyword keyword) := by
  intro ts a rest h
  unfold eatKeyword at h
  split at h <;> cases h
  · exact List.drop_suffix 1 ts
  · exact List.suffix_refl _

theorem leavesSuffix_expectKeyword (keyword : Keyword) : LeavesSuffix (expectKeyword keyword) := by
  intro ts a rest h
  unfold expectKeyword at h
  split at h <;> cases h
  exact List.drop_suffix 1 ts

theorem LeavesSuffix.ite {α : Type} {c : Prop} [Decidable c] {r s : Reader α}
    (hr : LeavesSuffix r) (hs : LeavesSuffix s) : LeavesSuffix (if c then r else s) := by
  split
  · exact hr
  · exact hs

theorem leavesSuffix_word (expected : Text) : LeavesSuffix (word expected) := by
  intro ts a rest h
  unfold word at h
  split at h
  · split at h
    · cases h
      exact List.suffix_cons _ _
    · cases h
  · cases h

theorem leavesSuffix_wordsAfter (separator : TokenKind) (expected : Text) :
    LeavesSuffix (wordsAfter separator expected) := by
  intro ts
  fun_induction wordsAfter separator expected ts with
  | case1 => intro a rest h; cases h
  | case2 t u us _ part _ ih =>
    intro a rest h
    cases hrec : wordsAfter separator expected us with
    | error e => simp [hrec, Bind.bind, Except.bind] at h
    | ok p =>
      simp only [hrec, Bind.bind, Except.bind, Except.ok.injEq, Prod.mk.injEq] at h
      rw [← h.2]
      exact (ih hrec).trans ((List.suffix_cons u us).trans (List.suffix_cons t (u :: us)))
  | case3 => intro a rest h; cases h; exact List.suffix_refl _
  | case4 => intro a rest h; cases h
  | case5 => intro a rest h; cases h; exact List.suffix_refl _
  | case6 => intro a rest h; cases h; exact List.suffix_refl _

theorem leavesSuffix_nameParts (expected : Text) : LeavesSuffix (nameParts expected) :=
  (leavesSuffix_word expected).bind fun _ =>
    (leavesSuffix_wordsAfter .dot expected).bind fun _ => .pure _

theorem leavesSuffix_name (expected : Text) : LeavesSuffix (name expected) :=
  (leavesSuffix_nameParts expected).bind fun _ => .pure _

theorem leavesSuffix_nameList : LeavesSuffix nameList :=
  (leavesSuffix_expect _ _).bind fun _ => (leavesSuffix_word _).bind fun _ =>
    (leavesSuffix_wordsAfter _ _).bind fun _ => (leavesSuffix_expect _ _).bind fun _ => .pure _

theorem afterGroup?_suffix {depth : Nat} {ts rest : List Token}
    (h : afterGroup? depth ts = some rest) : rest <:+ ts ∧ rest.length < ts.length := by
  fun_induction afterGroup? depth ts with
  | case1 => cases h
  | case2 depth t ts _ ih => exact ⟨(ih h).1.trans (List.suffix_cons _ _), Nat.lt_succ_of_lt (ih h).2⟩
  | case3 => cases h; exact ⟨List.suffix_cons _ _, Nat.lt_succ_self _⟩
  | case4 t ts _ depth ih => exact ⟨(ih h).1.trans (List.suffix_cons _ _), Nat.lt_succ_of_lt (ih h).2⟩
  | case5 => cases h
  | case6 depth t ts _ _ _ ih =>
    exact ⟨(ih h).1.trans (List.suffix_cons _ _), Nat.lt_succ_of_lt (ih h).2⟩

theorem leavesSuffix_skipGroup : LeavesSuffix skipGroup := by
  intro ts a rest h
  unfold skipGroup at h
  split at h
  · cases h
  · rename_i hopen
    split at h
    · rename_i hafter
      cases h
      exact (afterGroup?_suffix hafter).1.trans (leavesSuffix_expect _ _ hopen)
    · cases h

theorem pieces?_suffix {depth : Nat} {ts rest : List Token} {ps : List Piece}
    (h : pieces? depth ts = some (ps, rest)) : rest <:+ ts := by
  fun_induction pieces? depth ts generalizing ps with
  | case1 => cases h
  | case3 => cases h; exact List.suffix_cons _ _
  | case6 => cases h
  | case2 _ _ _ _ ih | case4 _ _ _ _ ih | case5 _ _ _ ih | case7 _ _ _ _ _ _ _ _ ih =>
    obtain ⟨⟨qs, r⟩, hq, he⟩ := Option.map_eq_some_iff.1 h
    cases he
    exact (ih hq).trans (List.suffix_cons _ _)

theorem leavesSuffix_splitGroup : LeavesSuffix splitGroup := by
  intro ts a rest h
  unfold splitGroup at h
  split at h
  · cases h
  · rename_i hopen
    split at h
    · rename_i hpieces
      cases h
      exact (pieces?_suffix hpieces).trans (leavesSuffix_expect _ _ hopen)
    · cases h

theorem skipGroup_length {ts a rest : List Token} (h : skipGroup ts = .ok (a, rest)) :
    rest.length < ts.length := by
  unfold skipGroup at h
  split at h
  · cases h
  · rename_i hopen
    split at h
    · rename_i hafter
      cases h
      exact Nat.lt_of_lt_of_le (afterGroup?_suffix hafter).2
        ((leavesSuffix_expect _ _).length_le hopen)
    · cases h

theorem skipGroup_map_length {α : Type} {f : List Token → α} {ts rest : List Token} {a : α}
    (h : (f <$> skipGroup) ts = .ok (a, rest)) : rest.length < ts.length := by
  change (skipGroup ts >>= fun p => Except.ok (f p.1, p.2)) = _ at h
  cases hrun : skipGroup ts with
  | error e => simp [hrun, Bind.bind, Except.bind] at h
  | ok p =>
    simp only [hrun, Bind.bind, Except.bind] at h
    cases h
    exact skipGroup_length hrun

end Reader

end DialectBridge
