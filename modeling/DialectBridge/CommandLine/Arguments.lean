import DialectBridge.CommandLine.Switch

/-!
# Arguments

The words of a command line, read into switches and operands. A switch has a long name after two
dashes or a letter after one; letters may be joined, and a value stands in the same word or in the next
one. After the word `--` everything is an operand. An order of its own between switches and operands is
not asked for.
-/

namespace DialectBridge.CommandLine

/-- A switch on the command line with its value; one that takes no value has the empty text. -/
structure Given where
  switch : Switch
  value : Text
  deriving DecidableEq, Repr

namespace Given

/-- A switch without a value. -/
def alone (s : Switch) : Given :=
  ⟨s, []⟩

/-- The last switch asks for an answer of its own. -/
def endsIn (gs : List Given) : Bool :=
  gs.getLast?.any fun g => g.switch.kind == .question

/-- The value of a switch. -/
def value? (gs : List Given) (s : Switch) : Option Text :=
  (gs.find? fun g => g.switch == s).map Given.value

/-- A switch is among the given ones. -/
def has (gs : List Given) (s : Switch) : Bool :=
  gs.any fun g => g.switch == s

/-- Every switch is given once at most. -/
def areDistinct (gs : List Given) : Bool :=
  decide (gs.map Given.switch).Nodup

end Given

/-! ## Words -/

/-- What a word turns out to be. -/
inductive Word where
  /-- No switch: an operand, or the mark after which there are only operands. -/
  | operand
  /-- Complete switches. -/
  | switches (gs : List Given)
  /-- Complete switches, and a last one whose value is the next word. -/
  | awaiting (gs : List Given) (s : Switch)
  | unknown
  deriving DecidableEq, Repr

namespace Word

/-- More switches in front. -/
def after (g : Given) : Word → Word
  | switches gs => switches (g :: gs)
  | awaiting gs s => awaiting (g :: gs) s
  | w => w

/-- A value in the word of its letter may have an equals sign in front. -/
def attached (value : Text) : Text :=
  (Text.dropPrefix? "=" value).getD value

/-- The letters after one dash. Those after a question are not looked at. -/
def ofLetters (known : List Switch) : Text → Word
  | [] => switches []
  | c :: t =>
    match Switch.ofShort? known c with
    | none => unknown
    | some s =>
      match s.kind with
      | .flag => (ofLetters known t).after (.alone s)
      | .question => switches [.alone s]
      | .setting => if t.isEmpty then awaiting [] s else switches [⟨s, attached t⟩]

/-- The name after two dashes, with or without a value behind an equals sign. -/
def ofName (known : List Switch) (t : Text) : Word :=
  let name := t.takeWhile (· != '=')
  let value := (t.dropWhile (· != '=')).tail?
  match Switch.ofLong? known name with
  | none => unknown
  | some s =>
    match s.kind, value with
    | .setting, some v => switches [⟨s, v⟩]
    | .setting, none => awaiting [] s
    | _, none => switches [.alone s]
    | _, some _ => unknown

/-- What a word turns out to be, where these switches are known. A lone dash is an operand. -/
def classify (known : List Switch) : Text → Word
  | ['-', '-'] => operand
  | '-' :: '-' :: t => ofName known t
  | ['-'] => operand
  | '-' :: t => ofLetters known t
  | _ => operand

/-- A word that can be the value of the switch in front of it. -/
def isValue : Text → Bool
  | ['-'] => true
  | '-' :: _ => false
  | _ => true

end Word

/-! ## Lists of words -/

/-- Switches and the words that follow them. -/
structure SwitchRun where
  given : List Given
  rest : List Text
  deriving Repr

/-- More switches in front. -/
def SwitchRun.after (gs : List Given) (r : SwitchRun) : SwitchRun :=
  ⟨gs ++ r.given, r.rest⟩

/-- Reads the switches at the start of some words. The rest starts with an operand, if it is not empty.
After a question there is no rest. -/
def readSwitches (known : List Switch) : List Text → Option SwitchRun
  | [] => some ⟨[], []⟩
  | w :: ws =>
    match Word.classify known w with
    | .operand => some ⟨[], w :: ws⟩
    | .unknown => none
    | .switches gs =>
      if Given.endsIn gs then some ⟨gs, []⟩ else (readSwitches known ws).map (·.after gs)
    | .awaiting gs s =>
      match ws with
      | [] => none
      | v :: ws =>
        if Word.isValue v then (readSwitches known ws).map (·.after (gs ++ [⟨s, v⟩])) else none

/-- The rest is no longer than the words. -/
theorem length_readSwitches_rest_le (known : List Switch) (ws : List Text) (r : SwitchRun)
    (h : readSwitches known ws = some r) : r.rest.length ≤ ws.length := by
  fun_induction readSwitches known ws generalizing r with
  | case1 => simp_all; subst h; simp
  | case2 => simp_all; subst h; simp
  | case3 => simp at h
  | case4 w ws gs => simp_all; subst h; simp
  | case5 w ws gs _ _ ih =>
    obtain ⟨r', hr', rfl⟩ := Option.map_eq_some_iff.1 h
    exact Nat.le_succ_of_le (ih r' hr')
  | case6 => simp at h
  | case7 w gs s _ v ws _ ih =>
    obtain ⟨r', hr', rfl⟩ := Option.map_eq_some_iff.1 h
    exact Nat.le_succ_of_le (Nat.le_succ_of_le (ih r' hr'))
  | case8 => simp at h

/-- The switches and operands of a command. -/
structure Arguments where
  given : List Given
  operands : List Text
  deriving Repr

/-- More switches in front, and an operand after them. -/
def Arguments.after (gs : List Given) (operand : Text) (a : Arguments) : Arguments :=
  ⟨gs ++ a.given, operand :: a.operands⟩

/-- Reads switches and operands in any order. -/
def readArguments (known : List Switch) (ws : List Text) : Option Arguments :=
  match _h : readSwitches known ws with
  | none => none
  | some ⟨gs, []⟩ => some ⟨gs, []⟩
  | some ⟨gs, w :: rest⟩ =>
    if w = ['-', '-'] then some ⟨gs, rest⟩ else (readArguments known rest).map (·.after gs w)
termination_by ws.length
decreasing_by exact length_readSwitches_rest_le known ws _ _h

end DialectBridge.CommandLine
