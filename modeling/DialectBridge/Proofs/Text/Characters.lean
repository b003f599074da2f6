import DialectBridge.Text.Blank
import DialectBridge.Text.WordCharacter

/-!
# Classes of characters

Which classes exclude each other. The tables behind the classes are finite, so a class with few
members is gone through member by member.
-/

namespace DialectBridge

/-- The code points of the blanks. -/
def blankCodePoints : List Nat :=
  [0x9, 0xA, 0xB, 0xC, 0xD, 0x20, 0x85, 0xA0, 0x1680, 0x2000, 0x2001, 0x2002, 0x2003, 0x2004, 0x2005,
    0x2006, 0x2007, 0x2008, 0x2009, 0x200A, 0x2028, 0x2029, 0x202F, 0x205F, 0x3000]

theorem mem_blankCodePoints {c : Char} (h : isBlank c = true) : c.toNat ∈ blankCodePoints := by
  simp only [isBlank, CodePoint.covers, blankRanges, List.any_cons, List.any_nil, Bool.or_false,
    Bool.or_eq_true, Bool.and_eq_true, decide_eq_true_eq] at h
  simp only [blankCodePoints, List.mem_cons, List.not_mem_nil, or_false]
  omega

/-- A blank is no character of an identifier. -/
theorem not_identifier_of_blank {c : Char} (h : isBlank c = true) : isIdentifierCharacter c = false := by
  have hmem := mem_blankCodePoints h
  rw [← Char.ofNat_toNat c]
  generalize c.toNat = n at hmem
  revert n
  decide +kernel

theorem not_blank_of_identifier {c : Char} (h : isIdentifierCharacter c = true) : isBlank c = false := by
  cases hb : isBlank c with
  | false => rfl
  | true => rw [not_identifier_of_blank hb] at h; cases h

theorem toNat_lt_of_digit {c : Char} (h : c.isDigit = true) : c.toNat < 128 := by
  simp only [Char.isDigit, Bool.and_eq_true, decide_eq_true_eq] at h
  have := UInt32.le_iff_toNat_le.1 h.2
  exact Nat.lt_of_le_of_lt this (by decide)

/-- A digit is a character of an identifier. -/
theorem identifier_of_digit {c : Char} (h : c.isDigit = true) : isIdentifierCharacter c = true := by
  have hdecimal := isDecimalDigit_of_ascii (toNat_lt_of_digit h)
  simp [isIdentifierCharacter, isAlphanumeric, isNumeric, hdecimal, h]

theorem not_blank_of_digit {c : Char} (h : c.isDigit = true) : isBlank c = false :=
  not_blank_of_identifier (identifier_of_digit h)

end DialectBridge
