import DialectBridge.Dialect
import DialectBridge.Types.MySql
import DialectBridge.Types.Oracle

/-!
# The types of a route
-/

namespace DialectBridge

/-- The type table of a route, if it has one. -/
def Route.typeTable? (p : Route) : Option TypeTable :=
  match p.source, p.target with
  | .oracle, .postgresql => some oracleTypes
  | .mysql, .postgresql => some mysqlTypes
  | _, _ => none

end DialectBridge
