import DialectBridge.Lexical.Scan

/-!
# Segments

Text is changed only where a change is safe: the word `NUMBER` in a string literal is a value and no
type. So a script is cut into segments of code, string literals, quoted names and comments, and each
change says which of them it applies to. The segments make up the script (`segments_text`).
-/

namespace DialectBridge

/-- What a piece of a script is. -/
inductive SegmentKind where
  /-- Words, numbers, punctuation and whitespace. -/
  | code
  /-- A string literal with its quotes. -/
  | literal
  /-- A quoted name with its quotes. -/
  | quoted
  | comment
  deriving DecidableEq, Repr

/-- A piece of a script. -/
structure Segment where
  kind : SegmentKind
  text : Text
  deriving DecidableEq, Repr

namespace Segment

/-- The segment of a piece of a gap. -/
def ofTrivia : Trivia → Segment
  | .blank run => ⟨.code, run⟩
  | .comment text => ⟨.comment, text⟩

/-- The segment of a token without its gap. -/
def ofLexeme (t : Token) : Segment :=
  match t.kind with
  | .string _ => ⟨.literal, t.lexeme⟩
  | .quoted _ => ⟨.quoted, t.lexeme⟩
  | _ => ⟨.code, t.lexeme⟩

/-- The segments of a token, its gap first. -/
def ofToken (t : Token) : List Segment :=
  t.gap.map ofTrivia ++ [ofLexeme t]

/-- Puts a piece in front of segments: code joins the code that follows it, and an empty piece
vanishes. -/
def push (s : Segment) (rest : List Segment) : List Segment :=
  match s, rest with
  | ⟨.code, front⟩, ⟨.code, back⟩ :: more => ⟨.code, front ++ back⟩ :: more
  | s, rest => if s.text.isEmpty then rest else s :: rest

/-- The text of a run of segments. -/
def textOf (ss : List Segment) : Text :=
  ss.flatMap text

@[simp] theorem textOf_nil : textOf [] = [] := rfl

@[simp] theorem textOf_cons (s : Segment) (ss : List Segment) :
    textOf (s :: ss) = s.text ++ textOf ss := by
  simp [textOf]

@[simp] theorem textOf_append (ss ts : List Segment) :
    textOf (ss ++ ts) = textOf ss ++ textOf ts := by
  simp [textOf]

@[simp] theorem textOf_push (s : Segment) (ss : List Segment) :
    textOf (push s ss) = s.text ++ textOf ss := by
  unfold push
  split
  · simp
  · split <;> simp_all

theorem textOf_ofToken (t : Token) : textOf (ofToken t) = t.text := by
  have htrivia (x : Trivia) : (ofTrivia x).text = x.text := by cases x <;> rfl
  have hlexeme : (ofLexeme t).text = t.lexeme := by unfold ofLexeme; split <;> rfl
  simp [ofToken, textOf, Token.text, Token.gapText, List.flatMap_map, htrivia, hlexeme]

end Segment

/-- The segments of a script. -/
def segments (t : Text) : List Segment :=
  ((scan t).flatMap Segment.ofToken).foldr Segment.push []

/-- The segments of a script make up the script. -/
theorem segments_text (t : Text) : Segment.textOf (segments t) = t := by
  have hfold (ss : List Segment) : Segment.textOf (ss.foldr Segment.push []) = Segment.textOf ss := by
    induction ss with
    | nil => rfl
    | cons s ss ih => simp [ih]
  have htokens (ts : List Token) : Segment.textOf (ts.flatMap Segment.ofToken) = Token.textOf ts := by
    induction ts with
    | nil => rfl
    | cons t ts ih => simp [ih, Segment.textOf_ofToken]
  rw [segments, hfold, htokens, textOf_scan]

/-- Applies `change` to the segments of the chosen kinds and copies the others. -/
def changeSegments (chosen : SegmentKind → Bool) (change : Text → Text) (t : Text) : Text :=
  (segments t).flatMap fun s => if chosen s.kind then change s.text else s.text

/-- Applies `change` to the code of a script and copies everything else. -/
def changeCode (change : Text → Text) (t : Text) : Text :=
  changeSegments (· == .code) change t

end DialectBridge
