import DialectBridge.Text.Basic

/-!
# Python types

The types of procedure parameters, as far as a Python method tells them apart.
-/

namespace DialectBridge

/-- A type of a method argument. -/
inductive PythonType where
  | integer
  | string
  | dateTime
  | bytes
  /-- The rows of a cursor. -/
  | records
  | boolean
  | any
  deriving DecidableEq, Repr

namespace PythonType

/-- Every type. -/
def all : List PythonType :=
  [.integer, .string, .dateTime, .bytes, .records, .boolean, .any]

/-- The name of a type in documents. -/
def name : PythonType → Text
  | integer => "integer"
  | string => "string"
  | dateTime => "date_time"
  | bytes => "bytes"
  | records => "records"
  | boolean => "boolean"
  | any => "any"

/-- The type hint. -/
def hint : PythonType → Text
  | integer => "int"
  | string => "str"
  | dateTime => "datetime"
  | bytes => "bytes"
  | records => "list[dict[str, Any]]"
  | boolean => "bool"
  | any => "Any"

/-- The type of a declared parameter type. An anchored type such as `orders.id%TYPE` can be any. -/
def ofDeclared (declared : Text) : PythonType :=
  if declared.contains '%' then any
  else
    let base := Text.upper (Text.trim (declared.takeWhile (· != '(')))
    if Text.holds base "CURSOR" then records
    else if Text.holds base "NUMBER" || (Text.holds base "INT" && !Text.holds base "INTERVAL") then integer
    else if Text.holds base "CHAR" then string
    else if Text.holds base "DATE" || Text.holds base "TIMESTAMP" then dateTime
    else if Text.holds base "CLOB" || Text.holds base "BLOB" then bytes
    else if Text.holds base "BOOLEAN" then boolean
    else any

end PythonType

end DialectBridge
