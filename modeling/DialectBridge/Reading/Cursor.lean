import DialectBridge.Lexical.Scan
import DialectBridge.Reading.Reader

/-!
# Cursors

A cursor gives readers a position: it moves over a window of the tokens of a script and knows where
they stand in the text. Past the last token of its window a cursor is at the end of the text, so that
a fragment reads like a whole script.
-/

namespace DialectBridge

/-- A run of tokens in a window: from token number `first` up to, not including, number `stop`. -/
structure TokenRange where
  first : Nat
  stop : Nat
  deriving DecidableEq, Repr

/-- A run of tokens whose first gap starts at byte `offset` of the script. -/
structure Window where
  offset : Nat
  tokens : List Token
  deriving Repr

namespace Window

/-- The window that shows a whole script. -/
def ofScript (t : Text) : Window :=
  ⟨0, scan t⟩

/-- The window that shows the tokens from number `first` up to, not including, number `last`. -/
def narrow (w : Window) (first last : Nat) : Window :=
  ⟨w.offset + (Token.textOf (w.tokens.take first)).utf8Size, (w.tokens.take last).drop first⟩

/-- The offset at which the last token ends that does not mark the end of the text. -/
def stop (w : Window) : Nat :=
  match (w.tokens.reverse.dropWhile Token.isEof).reverse with
  | [] => 0
  | ts => w.offset + (Token.textOf ts).utf8Size

/-- The end of the text as a token, where the window has no token left. -/
def endToken : Token :=
  ⟨[], .eof, []⟩

/-- Token number `n` with its span. -/
def tokenAt (w : Window) (n : Nat) : Token × Span :=
  match w.tokens[n]? with
  | some t => (t, t.spanAt (w.offset + (Token.textOf (w.tokens.take n)).utf8Size))
  | none => (endToken, ⟨w.stop, w.stop⟩)

/-- The number of tokens before a place of the window. -/
def position (w : Window) (place : List Token) : Nat :=
  w.tokens.length - place.length

/-- Where a part of a group stands. -/
def rangeOf (w : Window) (part : Reader.Part) : TokenRange :=
  ⟨w.position part.place, w.position part.place + part.tokens.length⟩

/-- The span of the token at a place of the window. -/
def spanAt (w : Window) (place : List Token) : Span :=
  (w.tokenAt (w.position place)).2

/-- A failed reading with its position. -/
def describe (w : Window) (e : ReadError) : Text :=
  let span := w.spanAt e.place
  e.message ++ " at position " ++ Text.ofNat span.start ++ ".." ++ Text.ofNat span.stop

end Window

/-- A place in a window. -/
structure Cursor where
  window : Window
  rest : List Token
  deriving Repr

namespace Cursor

/-- The cursor at the start of a window. -/
def ofWindow (w : Window) : Cursor :=
  ⟨w, w.tokens⟩

/-- The number of tokens passed. -/
def position (c : Cursor) : Nat :=
  c.window.position c.rest

/-- Moves to token number `n`, at most to the end of the window. -/
def seek (c : Cursor) (n : Nat) : Cursor :=
  ⟨c.window, c.window.tokens.drop n⟩

/-- The token `n` places ahead, with its span. -/
def peekAt (c : Cursor) (n : Nat) : Token × Span :=
  c.window.tokenAt (c.position + n)

/-- The token passed last, with its span; the end of the text if none was passed. -/
def previous (c : Cursor) : Token × Span :=
  match c.position with
  | 0 => (Window.endToken, ⟨c.window.stop, c.window.stop⟩)
  | n + 1 => c.window.tokenAt n

/-- Runs a reader. After a failure the cursor is where the reader stopped. -/
def run {α : Type} (c : Cursor) (reader : Reader α) : Except ReadError α × Cursor :=
  match reader c.rest with
  | .ok (a, rest) => (.ok a, ⟨c.window, rest⟩)
  | .error e => (.error e, ⟨c.window, e.stop⟩)

/-! ## Groups -/

/-- Passes a group in parentheses and returns its span, from the first parenthesis to the last one. -/
def skipGroup (c : Cursor) : Except ReadError Span × Cursor :=
  match c.run Reader.skipGroup with
  | (.ok _, next) => (.ok ((c.peekAt 0).2.cover next.previous.2), next)
  | (.error e, next) => (.error e, next)

/-- Passes a group in parentheses and returns where its parts stand, which commas separate, with the span of
the parenthesis that closes it. -/
def splitGroup (c : Cursor) : Except ReadError (List TokenRange × Span) × Cursor :=
  match c.run Reader.splitGroup with
  | (.ok parts, next) => (.ok (parts.map c.window.rangeOf, next.previous.2), next)
  | (.error e, next) => (.error e, next)

end Cursor

end DialectBridge
