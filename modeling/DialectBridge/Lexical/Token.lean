import DialectBridge.Lexical.Keyword
import DialectBridge.Lexical.Span

/-!
# Tokens

A token keeps its own text and the gap in front of it: the whitespace and the comments that separate
it from the token before. So the tokens of a script hold the whole script, and a verbatim piece of it
is the text of a run of tokens. Tokens do not know where they stand; positions are counted from the
sizes of what comes before.
-/

namespace DialectBridge

/-- What may stand between two tokens. -/
inductive Trivia where
  /-- A run of whitespace. -/
  | blank (run : Text)
  /-- A comment, from `--` to the end of its line or from the opening `/*` on. -/
  | comment (text : Text)
  deriving DecidableEq, Repr

/-- The text of a piece of trivia. -/
def Trivia.text : Trivia → Text
  | blank run => run
  | comment text => text

/-- Why a piece of text is no token. -/
inductive LexicalError where
  | unterminatedString
  | unterminatedName
  deriving DecidableEq, Repr

/-- The wording of a lexical error. -/
def LexicalError.message : LexicalError → Text
  | unterminatedString => "Unterminated string literal"
  | unterminatedName => "Unterminated quoted identifier"

/-- What a token is. -/
inductive TokenKind where
  /-- A number as written, such as `10`, `2.5` or `1e3`. -/
  | number (text : Text)
  /-- A string literal; a doubled quote in it stands for one. -/
  | string (value : Text)
  /-- A bare word that is no keyword. -/
  | identifier (name : Text)
  /-- A name in double quotes or backquotes. -/
  | quoted (name : Text)
  | keyword (keyword : Keyword)
  | leftParen
  | rightParen
  | comma
  | semicolon
  | dot
  | percent
  /-- The sign `:=`. -/
  | assign
  /-- Any other character. -/
  | symbol (c : Char)
  /-- The end of the text. -/
  | eof
  /-- A quote without its counterpart, with all the text after it. -/
  | error (cause : LexicalError)
  deriving DecidableEq, Repr

/-- A token with the gap in front of it. -/
structure Token where
  gap : List Trivia
  kind : TokenKind
  lexeme : Text
  deriving DecidableEq, Repr

namespace TokenKind

/-- The same kind of token, whatever it carries. -/
def sameKind (k l : TokenKind) : Bool :=
  k.ctorIdx == l.ctorIdx

end TokenKind

namespace Token

/-- The text of the gap. -/
def gapText (t : Token) : Text :=
  t.gap.flatMap Trivia.text

/-- The token with its gap. -/
def text (t : Token) : Text :=
  t.gapText ++ t.lexeme

/-- The text that a run of tokens was read from. -/
def textOf (ts : List Token) : Text :=
  ts.flatMap text

@[simp] theorem textOf_nil : textOf [] = [] := rfl

@[simp] theorem textOf_cons (t : Token) (ts : List Token) : textOf (t :: ts) = t.text ++ textOf ts := by
  simp [textOf]

@[simp] theorem textOf_append (ts us : List Token) : textOf (ts ++ us) = textOf ts ++ textOf us := by
  simp [textOf]

/-- A run of tokens as written, without the gap in front of the first one. -/
def verbatim : List Token → Text
  | [] => []
  | t :: ts => t.lexeme ++ textOf ts

/-- The token marks the end of the text. -/
def isEof (t : Token) : Bool :=
  t.kind == .eof

/-- The keyword that the token is, if it is one. -/
def keyword? (t : Token) : Option Keyword :=
  match t.kind with
  | .keyword keyword => some keyword
  | _ => none

/-- The token is this keyword. -/
def isKeyword (t : Token) (keyword : Keyword) : Bool :=
  t.kind == .keyword keyword

/-- The name that a word carries. Keywords are words too, so that a column may be called `key`. -/
def word? (t : Token) : Option Text :=
  match t.kind with
  | .identifier name | .quoted name => some name
  | .keyword keyword => some keyword.text
  | _ => none

/-- The word as a name; a keyword keeps its spelling. -/
def name? (t : Token) : Option Text :=
  match t.kind with
  | .identifier name | .quoted name => some name
  | .keyword _ => some t.lexeme
  | _ => none

/-- The token is a bare word with this spelling up to ASCII case. -/
def isWord (t : Token) (word : Text) : Bool :=
  match t.kind with
  | .identifier name => name.same word
  | _ => false

/-- The comments in the gap. -/
def comments (t : Token) : List Text :=
  t.gap.filterMap fun
    | .comment text => some text
    | .blank _ => none

/-! ## Positions -/

/-- The span of a token whose gap starts at byte `offset`. -/
def spanAt (offset : Nat) (t : Token) : Span :=
  ⟨offset + t.gapText.utf8Size, offset + t.text.utf8Size⟩

/-- The spans of a run of tokens whose first gap starts at byte `offset`. -/
def spansFrom (offset : Nat) : List Token → List Span
  | [] => []
  | t :: ts => t.spanAt offset :: spansFrom (offset + t.text.utf8Size) ts

/-- The comments of a gap that starts at byte `offset`, each with its span. -/
def gapComments (offset : Nat) : List Trivia → List (Span × Text)
  | [] => []
  | .blank run :: gap => gapComments (offset + run.utf8Size) gap
  | .comment text :: gap =>
    (⟨offset, offset + text.utf8Size⟩, text) :: gapComments (offset + text.utf8Size) gap

/-- All comments in front of a run of tokens, each with its span. -/
def commentsFrom (offset : Nat) : List Token → List (Span × Text)
  | [] => []
  | t :: ts => gapComments offset t.gap ++ commentsFrom (offset + t.text.utf8Size) ts

end Token

end DialectBridge
