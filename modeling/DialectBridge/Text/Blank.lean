import DialectBridge.Text.CodePoint

/-!
# Whitespace

A character is blank when it has the Unicode property `White_Space`: the ASCII blanks U+0009 to
U+000D and U+0020, the next-line control, and the spaces and separators of the other blocks.
-/

namespace DialectBridge

/-- The code points that have the property `White_Space`. -/
def blankRanges : List CodePoint.Range := [
  (0x9, 0xD), (0x20, 0x20), (0x85, 0x85), (0xA0, 0xA0), (0x1680, 0x1680), (0x2000, 0x200A),
  (0x2028, 0x2029), (0x202F, 0x202F), (0x205F, 0x205F), (0x3000, 0x3000)]

/-- The character is whitespace. -/
def isBlank (c : Char) : Bool :=
  CodePoint.covers blankRanges c

/-- The whitespace characters of the core library are blank. -/
theorem isBlank_of_isWhitespace {c : Char} (h : c.isWhitespace) : isBlank c := by
  simp only [Char.isWhitespace, Bool.or_eq_true, decide_eq_true_eq] at h
  rcases h with ((rfl | rfl) | rfl) | rfl <;> decide

end DialectBridge
