import DialectBridge.Lexical.Scan
import DialectBridge.Log
import DialectBridge.Reading.Cursor

/-!
# Procedure signatures

The header of a stored procedure: its name and its parameters. Of a script the first header that can
be read counts. A parameter that cannot be read is kept as text.
-/

namespace DialectBridge

/-- Which way a parameter passes its value. -/
inductive Direction where
  | input
  | output
  | both
  deriving DecidableEq, Repr

namespace Direction

/-- Every direction. -/
def all : List Direction :=
  [.input, .output, .both]

/-- The name of a direction. -/
def name : Direction → Text
  | input => "IN"
  | output => "OUT"
  | both => "INOUT"

/-- The direction of a parameter that names none. -/
def standard : Direction := .input

/-- The caller passes a value. -/
def isInput : Direction → Bool
  | output => false
  | _ => true

/-- The procedure hands a value back. -/
def isOutput : Direction → Bool
  | input => false
  | _ => true

end Direction

/-- A parameter as declared. -/
structure Parameter where
  name : Text
  direction : Direction
  /-- The type as written. -/
  type : Text
  deriving DecidableEq, Repr

/-- The header of a procedure. -/
structure Signature where
  /-- The name with its schema, if one is given. -/
  name : Text
  parameters : List Parameter
  /-- The parameters that could not be read. -/
  skipped : List Text
  deriving DecidableEq, Repr

/-- A parameter with the outcome of reading it. -/
structure ParameterReading where
  part : Reader.Part
  outcome : Except ReadError Parameter

namespace ParameterReading

open Reader

/-- Reads the direction of a parameter. -/
def direction : Reader Direction := do
  if ← eatKeyword .in then
    if ← eatKeyword .out then return .both else return .input
  else if ← eatKeyword .out then return .output
  else return Direction.standard

/-- The place where the type of a parameter ends: before a default value, or at the end. -/
def afterType (ts : List Token) : Except ReadError (List Token) :=
  match ts with
  | [] => .ok []
  | t :: rest =>
    if t.isEof || t.isKeyword .default || t.kind == .assign then .ok (t :: rest)
    else if t.kind == .leftParen then
      match _h : afterGroup? 0 rest with
      | some next => afterType next
      | none => .error (unclosed (t :: rest))
    else afterType rest
termination_by ts.length
decreasing_by
  · have := (afterGroup?_suffix _h).2
    simp only [List.length_cons]
    omega
  · simp

/-- Reads the type of a parameter, verbatim. -/
def type : Reader Text := fun ts =>
  if Token.atKind (.identifier []) ts || Token.atKind (.quoted []) ts then do
    let next ← afterType ts
    return (Token.verbatim (Token.taken ts next), next)
  else .error (.unexpected "parameter type" ts)

/-- Reads a parameter. What follows its type is not looked at. -/
def parameter : Reader Parameter := do
  let name ← word "parameter name"
  let direction ← direction
  let _ ← eatKeyword .nocopy
  let type ← type
  return ⟨name, direction, type⟩

/-- Reads a part of a parameter list. -/
def read (part : Part) : ParameterReading :=
  ⟨part, Prod.fst <$> parameter part.tokens⟩

/-- The parameter, if it could be read. -/
def parameter? (r : ParameterReading) : Option Parameter :=
  r.outcome.toOption

/-- The text of a parameter that could not be read. -/
def skipped? (r : ParameterReading) : Option Text :=
  match r.outcome with
  | .ok _ => none
  | .error _ => some (Token.verbatim r.part.tokens)

/-- What is reported about a parameter that could not be read. -/
def logLines (whole : Window) (r : ParameterReading) : List Log.Line :=
  match r.outcome with
  | .ok _ => []
  | .error e =>
    let first := whole.position r.part.place
    let window := whole.narrow first (first + r.part.tokens.length)
    [Log.debug "skipping parameter"
      [("parameter", Token.verbatim r.part.tokens), ("error", window.describe e)]]

end ParameterReading

/-- A header with its parameters as they were read. -/
structure Header where
  name : Text
  readings : List ParameterReading

namespace Header

open Reader

/-- Passes the word that says whether a procedure can have editions. -/
def edition : Reader Unit := do
  if ← look fun ts => Token.atWord "EDITIONABLE" ts || Token.atWord "NONEDITIONABLE" ts then skip

/-- Passes `OR REPLACE`. -/
def orReplace : Reader Unit := do
  if ← eatKeyword .or then expectKeyword .replace

/-- Reads a header. A procedure without parameters goes on with `IS` or `AS`. -/
def read : Reader Header := do
  expectKeyword .create
  orReplace
  edition
  expectKeyword .procedure
  let name ← Reader.name "procedure name"
  if ← look (Token.atKind .leftParen) then
    return ⟨name, (← splitGroup).map ParameterReading.read⟩
  else if ← look fun ts => Token.atKeyword .is ts || Token.atKeyword .as ts then
    return ⟨name, []⟩
  else
    fail "'(', IS or AS"

/-- The first header among the tokens, and the errors of the `CREATE`s before it. -/
def search : List Token → List ReadError × Option Header
  | [] => ([], none)
  | t :: ts =>
    if t.isEof then ([], none)
    else if t.isKeyword .create then
      match read (t :: ts) with
      | .ok (header, _) => ([], some header)
      | .error e => let (errors, found) := search ts; (e :: errors, found)
    else search ts

/-- The signature of a header. -/
def signature (h : Header) : Signature :=
  ⟨h.name, h.readings.filterMap ParameterReading.parameter?,
    h.readings.filterMap ParameterReading.skipped?⟩

end Header

namespace Signature

/-- The signature of the first procedure in a script. -/
def ofScript? (script : Text) : Option Signature :=
  (Header.search (scan script)).2.map Header.signature

/-- What the search for a signature reports. -/
def log (script : Text) : List Log.Line :=
  let whole := Window.ofScript script
  let (errors, header) := Header.search whole.tokens
  (errors.map fun e => Log.debug "not a procedure header" [("error", whole.describe e)]) ++
    (header.toList.flatMap Header.readings).flatMap (ParameterReading.logLines whole)

end Signature

end DialectBridge
