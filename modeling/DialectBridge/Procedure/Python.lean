import DialectBridge.Procedure.Stub

/-!
# Python text

The text of a method stub: an asynchronous method, indented as a member of a class, with a docstring
that names its arguments and what it returns.
-/

namespace DialectBridge.MethodStub

/-- What stands in the place of a method when no procedure was found. -/
def missing : Text := "# Could not parse procedure"

/-- The hint for the returned value. -/
def returnHint : ReturnForm → Text
  | .none => "None"
  | .single p => p.type.hint
  | .record _ => "dict[str, Any]"

/-- An argument with its hint. -/
def hinted (p : StubParameter) : Text :=
  p.name ++ ": " ++ p.type.hint

/-- A line of the argument list. -/
def argumentLine (p : StubParameter) : Text :=
  "        " ++ hinted p ++ ","

/-- A line of the docstring on an argument. -/
def documentedLine (p : StubParameter) : Text :=
  "            " ++ hinted p

/-- The lines of the docstring on the arguments. -/
def argumentsSection (s : MethodStub) : List Text :=
  match s.inputs with
  | [] => []
  | ps => "        Args:" :: ps.map documentedLine

/-- The lines of the docstring on the returned value. -/
def returnsSection (s : MethodStub) : List Text :=
  match s.returnForm with
  | .none => []
  | .single p => ["        Returns:", "            " ++ p.type.hint]
  | .record ps =>
    ["        Returns:", "            dict with: " ++ Text.joinWith ", " (ps.map StubParameter.name)]

/-- The lines of the docstring on the interface. A method without one says where it comes from. -/
def interfaceSection (s : MethodStub) : List Text :=
  match s.argumentsSection ++ s.returnsSection with
  | [] => ["        Converted from " ++ s.procedure ++ "."]
  | lines => lines

/-- The mark around a docstring. -/
def docstringMark : Text := "        \"\"\""

/-- The lines of the method. -/
def lines (s : MethodStub) : List Text :=
  ["    async def " ++ s.name ++ "(", "        self,"] ++ s.inputs.map argumentLine ++
    ["    ) -> " ++ returnHint s.returnForm ++ ":", docstringMark] ++ s.interfaceSection ++
    ["        Replaces Oracle " ++ s.procedure ++ " procedure.", docstringMark,
      "        # Procedural logic is not transpiled.", "        raise NotImplementedError"]

/-- The text of the method. -/
def python (s : MethodStub) : Text :=
  Text.joinWith "\n" s.lines

end DialectBridge.MethodStub
