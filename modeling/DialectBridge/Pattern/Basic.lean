import DialectBridge.Text.WordCharacter
import DialectBridge.Text.Basic

/-!
# Patterns

A small language of text patterns. Letters match up to case, repetition is over single characters and
takes as many as it can, and of two alternatives the first that leads to a match wins.

A pattern is matched at a site: a place in a text, with what stands before it (nearest character
first) and after it. `run` hands the site behind the match to a continuation and takes the next best
way when the continuation fails.
-/

namespace DialectBridge

/-- A text pattern. -/
inductive Pattern where
  /-- Matches without taking a character. -/
  | empty
  /-- This character, up to case. -/
  | letter (c : Char)
  /-- One character of a class. -/
  | one (p : Char → Bool)
  /-- Characters of a class, as many as possible, perhaps none. -/
  | many (p : Char → Bool)
  | seq (first second : Pattern)
  | either (first second : Pattern)
  /-- A place where a word starts or ends. -/
  | edge
  /-- The end of a line or of the text. -/
  | lineEnd
  /-- Keeps what the pattern takes under a number. -/
  | capture (n : Nat) (p : Pattern)

namespace Pattern

/-! ## Building patterns -/

/-- The patterns one after another. -/
def sequence (ps : List Pattern) : Pattern :=
  ps.foldr seq empty

/-- The first alternative that leads to a match. -/
def choice : List Pattern → Pattern
  | [] => one fun _ => false
  | [p] => p
  | p :: ps => either p (choice ps)

/-- A text, up to case. -/
def text (t : Text) : Pattern :=
  sequence (t.map letter)

/-- At least one character of a class. -/
def some (p : Char → Bool) : Pattern :=
  seq (one p) (many p)

/-- The pattern, or nothing if it does not match. -/
def optional (p : Pattern) : Pattern :=
  either p empty

/-- Any whitespace, perhaps none. -/
def gap : Pattern :=
  many isBlank

/-- Whitespace. -/
def space : Pattern :=
  some isBlank

/-- Digits. -/
def digits : Pattern :=
  some isWordDigit

/-! ## Matching -/

/-- A place in a text, with what was captured on the way to it. -/
structure Site where
  before : Text
  after : Text
  captured : List (Nat × Text)
  deriving Repr

/-- Exactly one of the two characters around the site belongs to a word. -/
def Site.isEdge (s : Site) : Bool :=
  s.before.head?.any isWordCharacter != s.after.head?.any isWordCharacter

/-- What follows the site is the end of a line or of the text. -/
def Site.isLineEnd (s : Site) : Bool :=
  s.after.head?.all (· == '\n')

/-- The text between a site and a later one. -/
def Site.textUpTo (s later : Site) : Text :=
  s.after.take (s.after.length - later.after.length)

/-- Passes characters of a class, as many as the continuation allows. -/
def passMany (p : Char → Bool) (captured : List (Nat × Text)) (next : Site → Option Site) :
    Text → Text → Option Site
  | before, [] => next ⟨before, [], captured⟩
  | before, c :: after =>
    if p c then
      passMany p captured next (c :: before) after <|> next ⟨before, c :: after, captured⟩
    else next ⟨before, c :: after, captured⟩

/-- Passes one character that satisfies `p`. -/
def passOne (p : Char → Bool) (s : Site) (next : Site → Option Site) : Option Site :=
  match s.after with
  | [] => none
  | c :: after => if p c then next ⟨c :: s.before, after, s.captured⟩ else none

/-- Matches a pattern at a site and goes on with the continuation. -/
def run : Pattern → Site → (Site → Option Site) → Option Site
  | empty, s, next => next s
  | letter c, s, next => passOne (sameLetter c) s next
  | one p, s, next => passOne p s next
  | many p, s, next => passMany p s.captured next s.before s.after
  | seq first second, s, next => run first s fun t => run second t next
  | either first second, s, next => run first s next <|> run second s next
  | edge, s, next => if s.isEdge then next s else none
  | lineEnd, s, next => if s.isLineEnd then next s else none
  | capture n p, s, next =>
    run p s fun t => next ⟨t.before, t.after, (n, s.textUpTo t) :: t.captured⟩

end Pattern

end DialectBridge
