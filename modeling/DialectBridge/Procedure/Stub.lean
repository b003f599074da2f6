import DialectBridge.Error
import DialectBridge.Procedure.Naming
import DialectBridge.Procedure.PythonType
import DialectBridge.Procedure.Signature

/-!
# Method stubs

A method that stands for a stored procedure: what goes in becomes an argument, what comes out becomes
the returned value, and the body is left open.
-/

namespace DialectBridge

/-- A parameter of a method. -/
structure StubParameter where
  name : Text
  direction : Direction
  /-- The type as declared. -/
  declaredType : Text
  type : PythonType
  deriving DecidableEq, Repr

/-- The interface of a method. -/
structure MethodStub where
  name : Text
  /-- The name of the procedure as declared. -/
  procedure : Text
  parameters : List StubParameter
  /-- What is to say about parameters that could not be read. -/
  warnings : List Text
  deriving DecidableEq, Repr

/-- What a method returns. -/
inductive ReturnForm where
  | none
  | single (p : StubParameter)
  | record (ps : List StubParameter)
  deriving DecidableEq, Repr

namespace MethodStub

/-- The parameters that the caller passes. -/
def inputs (s : MethodStub) : List StubParameter :=
  s.parameters.filter fun p => p.direction.isInput

/-- The parameters that the procedure hands back. -/
def outputs (s : MethodStub) : List StubParameter :=
  s.parameters.filter fun p => p.direction.isOutput

/-- What the method returns. -/
def returnForm (s : MethodStub) : ReturnForm :=
  match s.outputs with
  | [] => .none
  | [p] => .single p
  | ps => .record ps

/-- The parameter of a method for a declared one. -/
def parameterOf (entities : Naming.Entities) (p : Parameter) : StubParameter :=
  ⟨Naming.parameterName entities p.name, p.direction, p.type, .ofDeclared p.type⟩

/-- What is to say about a parameter that could not be read. -/
def skippedWarning (procedure skipped : Text) : Text :=
  "Could not parse parameter '" ++ skipped ++ "' of " ++ procedure

/-- The stub for a signature. -/
def ofSignature (entities : Naming.Entities) (s : Signature) : MethodStub :=
  ⟨Naming.methodName entities s.name, s.name, s.parameters.map (parameterOf entities),
    s.skipped.map (skippedWarning s.name)⟩

/-- The number of characters of a text that an error shows. -/
def excerptLength : Nat := 60

/-- The stub for the first procedure in a script. -/
def ofScript (entities : Naming.Entities) (script : Text) : Except ConversionError MethodStub :=
  match Signature.ofScript? script with
  | some s => .ok (ofSignature entities s)
  | none => .error (.noProcedure (script.trim.take excerptLength))

/-- What the making of a stub reports. -/
def log (entities : Naming.Entities) (script : Text) : List Log.Line :=
  Signature.log script ++
    match ofScript entities script with
    | .ok s =>
      s.warnings.map Log.warn ++
        [Log.debug "transpiled procedure" [("procedure", s.procedure), ("method", s.name),
          ("parameters", Text.ofNat s.parameters.length)]]
    | .error _ => []

end MethodStub

end DialectBridge
