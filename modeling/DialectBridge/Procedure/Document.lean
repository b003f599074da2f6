import DialectBridge.Json.Decoder
import DialectBridge.Procedure.Stub

/-!
# Stubs in documents
-/

namespace DialectBridge

/-- The direction that a document names. -/
def Direction.decoder : Decoder Direction :=
  .choice fun stored => all.find? fun d => d.name == stored

/-- The type that a document names. -/
def PythonType.decoder : Decoder PythonType :=
  .choice fun stored => all.find? fun t => t.name == stored

namespace StubParameter

/-- The stored form of a parameter. -/
def toJson (p : StubParameter) : Json :=
  .object
    [("name", .string p.name), ("direction", .string p.direction.name),
      ("source_type", .string p.declaredType), ("target_type", .string p.type.name)]

/-- Takes a parameter out of a document. -/
def decoder : Decoder StubParameter := fun v => do
  let f ← Decoder.fields ["name", "direction", "source_type", "target_type"] v
  return {
    name := ← f.required "name" 0 .text
    direction := ← f.required "direction" 1 Direction.decoder
    declaredType := ← f.required "source_type" 2 .text
    type := ← f.required "target_type" 3 PythonType.decoder }

end StubParameter

namespace MethodStub

/-- The stored form of a stub. -/
def toJson (s : MethodStub) : Json :=
  .object
    [("name", .string s.name), ("procedure_name", .string s.procedure),
      ("parameters", .array (s.parameters.map StubParameter.toJson)),
      ("warnings", .ofTexts s.warnings)]

/-- Takes a stub out of a document. -/
def decoder : Decoder MethodStub := fun v => do
  let f ← Decoder.fields ["name", "procedure_name", "parameters", "warnings"] v
  return {
    name := ← f.required "name" 0 .text
    procedure := ← f.required "procedure_name" 1 .text
    parameters := ← f.required "parameters" 2 (.list StubParameter.decoder)
    warnings := ← f.required "warnings" 3 (.list .text) }

end MethodStub

end DialectBridge
