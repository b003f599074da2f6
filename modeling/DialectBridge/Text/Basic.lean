import DialectBridge.Text.Blank
import DialectBridge.Text.LetterCase

/-!
# Text

Text is a list of characters, so that every statement about text is a statement about lists. This
module has the operations that the rest of the library shares: trimming, splitting, joining,
comparison up to ASCII case, and lower case.
-/

namespace DialectBridge

/-- A text is the list of its characters. -/
abbrev Text := List Char

instance : Coe String Text := ⟨String.toList⟩

namespace Text

/-! ## Size and order -/

/-- The number of bytes that the text takes in UTF-8. -/
def utf8Size : Text → Nat
  | [] => 0
  | c :: t => c.utf8Size + utf8Size t

@[simp] theorem utf8Size_nil : utf8Size [] = 0 := rfl

@[simp] theorem utf8Size_cons (c : Char) (t : Text) :
    utf8Size (c :: t) = c.utf8Size + utf8Size t := rfl

@[simp] theorem utf8Size_append (s t : Text) : utf8Size (s ++ t) = utf8Size s + utf8Size t := by
  induction s with
  | nil => simp
  | cons c s ih => simp [ih, Nat.add_assoc]

/-- Texts are ordered by code points, which is also the order of their UTF-8 bytes. -/
def before : Text → Text → Bool
  | _, [] => false
  | [], _ :: _ => true
  | c :: s, d :: t => c < d || (c == d && before s t)

theorem before_iff {s t : Text} : before s t = true ↔ s < t := by
  fun_induction before s t with
  | case1 s => simp
  | case2 => simp
  | case3 c s d t ih =>
    rw [List.cons_lt_cons_iff, Bool.or_eq_true, Bool.and_eq_true, decide_eq_true_iff, beq_iff_eq, ih]

/-- The characters from `start` up to `stop`, both counted in UTF-8 bytes. Nothing when one of the
two offsets is out of bounds or inside a character. -/
def slice? (t : Text) (start stop : Nat) : Option Text :=
  if start ≤ stop then do
    let front ← dropBytes t start
    let back ← dropBytes t stop
    some (front.take (front.length - back.length))
  else none
where
  dropBytes : Text → Nat → Option Text
    | t, 0 => some t
    | [], _ + 1 => none
    | c :: t, n => if c.utf8Size ≤ n then dropBytes t (n - c.utf8Size) else none

/-! ## Letter case -/

/-- ASCII letters in upper case, everything else as it is. -/
def upper (t : Text) : Text :=
  t.map Char.toUpper

/-- ASCII letters in lower case, everything else as it is. -/
def lower (t : Text) : Text :=
  t.map Char.toLower

@[simp] theorem length_upper (t : Text) : (upper t).length = t.length := by simp [upper]

@[simp] theorem length_lower (t : Text) : (lower t).length = t.length := by simp [lower]

/-- Equality up to ASCII case. -/
def same (s t : Text) : Bool :=
  lower s == lower t

theorem same_iff {s t : Text} : same s t ↔ lower s = lower t := by simp [same]

@[simp] theorem same_refl (t : Text) : same t t := by simp [same]

theorem same_comm (s t : Text) : same s t = same t s := by
  rw [Bool.eq_iff_iff, same_iff, same_iff, eq_comm]

/-- After the case-ignorable characters comes a cased one. -/
def meetsCased (t : Text) : Bool :=
  match t.dropWhile isCaseIgnorable with
  | c :: _ => isCased c
  | [] => false

/-- Lower case of a text that follows `before`, whose nearest character comes first. A capital
sigma at the end of a word becomes a final sigma. -/
def lowercaseAfter (before : Text) : Text → Text
  | [] => []
  | c :: t =>
    (if c = 'Σ' then [if meetsCased before && !meetsCased t then 'ς' else 'σ'] else lowercaseOf c)
      ++ lowercaseAfter (c :: before) t

/-- The whole text in lower case, letters of every script included. -/
def lowercase (t : Text) : Text :=
  lowercaseAfter [] t

/-! ## Trimming, splitting and joining -/

/-- The text without the whitespace at its start. -/
def trimStart (t : Text) : Text :=
  t.dropWhile isBlank

/-- The text without the whitespace at its end. -/
def trimEnd (t : Text) : Text :=
  (trimStart t.reverse).reverse

/-- The text without the whitespace around it. -/
def trim (t : Text) : Text :=
  trimEnd (trimStart t)

/-- The parts between the occurrences of `separator`: one part more than there are occurrences. -/
def splitOn (separator : Char) : Text → List Text
  | [] => [[]]
  | c :: t =>
    if c = separator then [] :: splitOn separator t
    else match splitOn separator t with
      | part :: parts => (c :: part) :: parts
      | [] => [[c]]

/-- The maximal runs of characters that satisfy `p`. -/
def runs (p : Char → Bool) : Text → List Text
  | [] => []
  | c :: t =>
    if p c then
      match t, runs p t with
      | d :: _, run :: more => if p d then (c :: run) :: more else [c] :: run :: more
      | _, more => [c] :: more
    else runs p t

/-- The words of a text, which whitespace sets apart. -/
def words (t : Text) : List Text :=
  runs (fun c => !isBlank c) t

/-- The texts one after another with `separator` between each two. -/
def joinWith (separator : Text) (parts : List Text) : Text :=
  separator.intercalate parts

/-- The text after `start`, if it begins so. -/
def dropPrefix? (start t : Text) : Option Text :=
  if start.isPrefixOf t then some (t.drop start.length) else none

/-- The two parts of a text around the first occurrence of `separator`. -/
def cutAt? (separator : Text) : Text → Option (Text × Text)
  | [] => if separator.isEmpty then some ([], []) else none
  | c :: t =>
    match dropPrefix? separator (c :: t) with
    | some rest => some ([], rest)
    | none => (cutAt? separator t).map fun (front, rest) => (c :: front, rest)

/-- A part stands somewhere in the text. -/
def holds (t part : Text) : Bool :=
  part.isPrefixOf t ||
    match t with
    | [] => false
    | _ :: rest => holds rest part

/-- The text without the longest final run of characters that satisfy `p`. -/
def dropEndWhile (p : Char → Bool) (t : Text) : Text :=
  (t.reverse.dropWhile p).reverse

/-- The decimal numeral of a number. -/
def ofNat (n : Nat) : Text :=
  (Nat.repr n).toList

end Text

end DialectBridge
