import DialectBridge.Json.Basic

/-!
# Reading JSON

A strict reader: nothing may follow the value but whitespace, there are no trailing commas, and
control characters stand in strings only as escapes.
-/

namespace DialectBridge.Json

/-- The whitespace that may stand between the tokens of a document. -/
def isSpace (c : Char) : Bool :=
  c == ' ' || c == '\t' || c == '\n' || c == '\r'

/-- The text from the next token on. -/
def skipSpace (t : Text) : Text :=
  t.dropWhile isSpace

/-! ## Numbers -/

/-- At least one digit, and what follows. -/
def digits? (t : Text) : Option (Text × Text) :=
  match t.takeWhile Char.isDigit with
  | [] => none
  | ds => some (ds, t.dropWhile Char.isDigit)

/-- The digits before the point: a zero alone or digits that do not start with a zero. -/
def integer? : Text → Option (Text × Text)
  | '0' :: t =>
    match t with
    | c :: _ => if c.isDigit then none else some (['0'], t)
    | [] => some (['0'], [])
  | t => digits? t

/-- The digits after the point, if there is one. -/
def fraction? : Text → Option (Text × Text)
  | '.' :: t => (digits? t).map fun (ds, rest) => ('.' :: ds, rest)
  | t => some ([], t)

/-- The exponent, if there is one. -/
def exponent? : Text → Option (Text × Text)
  | e :: t =>
    if e == 'e' || e == 'E' then
      match t with
      | sign :: u =>
        if sign == '+' || sign == '-' then
          (digits? u).map fun (ds, rest) => (e :: sign :: ds, rest)
        else (digits? t).map fun (ds, rest) => (e :: ds, rest)
      | [] => none
    else some ([], e :: t)
  | [] => some ([], [])

/-- A number without its sign, and what follows. -/
def unsigned? (t : Text) : Option (Text × Text) := do
  let (whole, t) ← integer? t
  let (part, t) ← fraction? t
  let (power, t) ← exponent? t
  return (whole ++ part ++ power, t)

/-- A number, and what follows. -/
def number? : Text → Option (Text × Text)
  | '-' :: t => (unsigned? t).map fun (ds, rest) => ('-' :: ds, rest)
  | t => unsigned? t

/-! ## Strings -/

/-- The value of a hexadecimal digit. -/
def hexDigit? (c : Char) : Option Nat :=
  if c.isDigit then some (c.toNat - '0'.toNat)
  else if 'a' ≤ c ∧ c ≤ 'f' then some (c.toNat - 'a'.toNat + 10)
  else if 'A' ≤ c ∧ c ≤ 'F' then some (c.toNat - 'A'.toNat + 10)
  else none

/-- The value of four hexadecimal digits. -/
def hexUnit? (a b c d : Char) : Option Nat := do
  return ((← hexDigit? a) * 16 + (← hexDigit? b)) * 256 + (← hexDigit? c) * 16 + (← hexDigit? d)

/-- What a piece of a string stands for: a character, or a code unit that still needs or already was
one half of a character. -/
inductive Unit where
  | char (c : Char)
  | high (n : Nat)
  | low (n : Nat)

/-- The unit with this number. -/
def Unit.ofNat (n : Nat) : Unit :=
  if 0xD800 ≤ n ∧ n < 0xDC00 then .high (n - 0xD800)
  else if 0xDC00 ≤ n ∧ n < 0xE000 then .low (n - 0xDC00)
  else .char (Char.ofNat n)

/-- The character of an escape with a single letter. -/
def letterEscape? (c : Char) : Option Char :=
  if c = '\x22' then some '\x22'
  else if c = '\\' then some '\\'
  else if c = '/' then some '/'
  else if c = 'b' then some '\x08'
  else if c = 'f' then some '\x0c'
  else if c = 'n' then some '\n'
  else if c = 'r' then some '\r'
  else if c = 't' then some '\t'
  else none

/-- The units of a string after its opening quote, and what follows the closing one. -/
def units? : Text → Option (List Unit × Text)
  | '\x22' :: t => some ([], t)
  | '\\' :: 'u' :: a :: b :: c :: d :: t => do
    let n ← hexUnit? a b c d
    let (us, rest) ← units? t
    return (.ofNat n :: us, rest)
  | '\\' :: e :: t => do
    let c ← letterEscape? e
    let (us, rest) ← units? t
    return (.char c :: us, rest)
  | c :: t =>
    if c.toNat < 32 then none
    else do
      let (us, rest) ← units? t
      return (.char c :: us, rest)
  | [] => none

/-- The text that units stand for, if every half has its counterpart. -/
def Unit.text? : List Unit → Option Text
  | [] => some []
  | .char c :: us => (c :: ·) <$> text? us
  | .high n :: .low m :: us => (Char.ofNat (0x10000 + n * 0x400 + m) :: ·) <$> text? us
  | _ => none

/-! ## Values -/

mutual

/-- The value at the start of the text, and what follows it. A value never takes more steps than it
has characters. -/
def value? : Nat → Text → Option (Json × Text)
  | 0, _ => none
  | fuel + 1, t =>
    match skipSpace t with
    | 'n' :: 'u' :: 'l' :: 'l' :: rest => some (.null, rest)
    | 't' :: 'r' :: 'u' :: 'e' :: rest => some (.bool true, rest)
    | 'f' :: 'a' :: 'l' :: 's' :: 'e' :: rest => some (.bool false, rest)
    | '\x22' :: rest => do
      let (us, rest) ← units? rest
      match Unit.text? us with
      | some text => return (.string text, rest)
      | none => return (.broken, rest)
    | '[' :: rest =>
      match skipSpace rest with
      | ']' :: rest => some (.array [], rest)
      | _ => do
        let (items, rest) ← items? fuel rest
        return (.array items, rest)
    | '\x7b' :: rest =>
      match skipSpace rest with
      | '\x7d' :: rest => some (.object [], rest)
      | _ => do
        let (members, rest) ← members? fuel rest
        return ((members.map Json.object).getD .broken, rest)
    | rest => (number? rest).map fun (ds, rest) => (.number ds, rest)

/-- The items up to the end of an array. -/
def items? : Nat → Text → Option (List Json × Text)
  | 0, _ => none
  | fuel + 1, t => do
    let (item, rest) ← value? fuel t
    match skipSpace rest with
    | ',' :: rest =>
      let (items, rest) ← items? fuel rest
      return (item :: items, rest)
    | ']' :: rest => return ([item], rest)
    | _ => none

/-- The members up to the end of an object, unless a key stands for no text. -/
def members? : Nat → Text → Option (Option (List (Text × Json)) × Text)
  | 0, _ => none
  | fuel + 1, t =>
    match skipSpace t with
    | '\x22' :: rest => do
      let (us, rest) ← units? rest
      match skipSpace rest with
      | ':' :: rest =>
        let (value, rest) ← value? fuel rest
        let member := (Unit.text? us).map fun key => (key, value)
        match skipSpace rest with
        | ',' :: rest =>
          let (members, rest) ← members? fuel rest
          return (List.cons <$> member <*> members, rest)
        | '\x7d' :: rest => return (member.map ([·]), rest)
        | _ => none
      | _ => none
    | _ => none

end

/-- The value that a document holds. -/
def parse (t : Text) : Option Json := do
  let (value, rest) ← value? (t.length + 1) t
  if (skipSpace rest).isEmpty then some value else none

end DialectBridge.Json
