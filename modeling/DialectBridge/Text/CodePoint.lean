/-!
# Ranges of code points

The character classes of Unicode are given as sorted tables of ranges. Two lookups suffice: whether
a range covers a character, and by how much a range shifts it. A table with steps lists every
second code point of a range where upper and lower case alternate. Where nothing else is said, a table
follows version 17.0 of Unicode.
-/

namespace DialectBridge.CodePoint

/-- A run of code points: the first and the last one. -/
abbrev Range := Nat × Nat

/-- Every `step`-th code point of a run: the first one, the last one and the step. -/
abbrev SteppedRange := Nat × Nat × Nat

/-- Every `step`-th code point of a run, and the distance from it to its image. -/
abbrev ShiftedRange := Nat × Nat × Nat × Int

/-- Some range of the table holds the character. -/
def covers (table : List Range) (c : Char) : Bool :=
  table.any fun (first, last) => first ≤ c.toNat && c.toNat ≤ last

/-- The code point lies on one of the steps of the run. -/
def onStep (first last step n : Nat) : Bool :=
  first ≤ n && n ≤ last && (n - first) % step == 0

/-- Some stepped range of the table holds the character. -/
def coversStep (table : List SteppedRange) (c : Char) : Bool :=
  table.any fun (first, last, step) => onStep first last step c.toNat

/-- The image of a character under the table; a character that no range holds is its own image. -/
def shift (table : List ShiftedRange) (c : Char) : Char :=
  match table.find? fun (first, last, step, _) => onStep first last step c.toNat with
  | some (_, _, _, distance) => Char.ofNat (Int.toNat (c.toNat + distance))
  | none => c

end DialectBridge.CodePoint
