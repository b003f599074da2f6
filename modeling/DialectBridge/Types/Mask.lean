import DialectBridge.Lexical.Segment
import DialectBridge.Pattern.Search

/-!
# Masks

Before types are replaced, every literal, quoted name and comment of a script gives way to a
placeholder: its number between two control characters. Afterwards the numbers give the texts back.
-/

namespace DialectBridge

/-- A script with placeholders, and the texts that they hold the place of. -/
structure Masked where
  text : Text
  held : List Text
  deriving DecidableEq, Repr

namespace Masked

/-- The character around the number of a placeholder. -/
def mark : Char := '\x01'

/-- The placeholder with this number. -/
def placeholder (n : Nat) : Text :=
  mark :: Text.ofNat n ++ [mark]

/-- Masks segments; the first placeholder gets the number `n`. -/
def ofSegments (n : Nat) : List Segment → Masked
  | [] => ⟨[], []⟩
  | s :: ss =>
    if s.kind = .code then
      let rest := ofSegments n ss
      ⟨s.text ++ rest.text, rest.held⟩
    else
      let rest := ofSegments (n + 1) ss
      ⟨placeholder n ++ rest.text, s.text :: rest.held⟩

/-- Masks a script. -/
def ofScript (t : Text) : Masked :=
  ofSegments 0 (segments t)

/-- The pattern of a placeholder. -/
def placeholderPattern : Pattern :=
  .sequence [.letter mark, .capture 1 .digits, .letter mark]

/-- The number that ASCII digits write. -/
def number? (digits : Text) : Option Nat :=
  if digits.all Char.isDigit then
    some (digits.foldl (fun n d => 10 * n + (d.toNat - '0'.toNat)) 0)
  else none

/-- The text in the place of a placeholder. One without a held text stays. -/
def heldText (held : List Text) (m : Match (List (Nat × Text))) : Text :=
  (((captured 1 m.value).bind number?).bind (held[·]?)).getD m.text

/-- Gives the held texts back. -/
def restore (held : List Text) (t : Text) : Text :=
  replaceMatches placeholderPattern.matcher (heldText held) t

end Masked

end DialectBridge
