import DialectBridge.Conversion
import DialectBridge.Proofs.Idiom.Absence
import DialectBridge.Proofs.Layout.Tables
import DialectBridge.Proofs.Rename.Segments

/-!
# Conversions without a type table

A route without a type table has no step that is about types. On the way from Oracle the idioms are still
replaced, some of which are types; what is handed on then keeps its names and its types, except that the
layout of a type is tidied (`convert_untyped`).
-/

namespace DialectBridge

/-- What a route without a type table hands on to the layout. -/
def Route.handedOn (route : Route) (script : Text) : Text :=
  if route.replacesIdioms then (replaceOracleIdioms script).text else script

theorem Route.handedOn_eq_self {route : Route} {script : Text}
    (h : route.replacesIdioms = true → (replaceOracleIdioms script).applied = []) : route.handedOn script = script := by
  rw [handedOn]
  split
  · next hreplaces => rw [replaceOracleIdioms_eq_self_iff.2 (eq_of_applied_nil (h hreplaces))]
  · rfl

/-- The name of a table, and the names and types of its columns. -/
def Table.typing (t : Table) : Text × List (Text × Text) :=
  (t.name, t.columns.map fun c => (c.name, c.dataType))

/-- Only a route with a type table makes columns serial. -/
theorem Route.makesSerial_of_untyped {route : Route} (h : route.typeTable? = none) : route.makesSerial = false := by
  obtain ⟨source, target⟩ := route
  cases source <;> cases target <;> first | rfl | cases h

theorem Renaming.apply_none (script : Text) (route : Route) : (Renaming.none.apply script route).text = script := by
  show (⟨[]⟩ : Glossary).replaceNames ((⟨[]⟩ : Glossary).replaceNames script) = script
  rw [Glossary.replaceNames_of_empty, Glossary.replaceNames_of_empty]

open Conversion in
theorem convert_text_of_untyped {route : Route} (h : route.typeTable? = none) (script : Text) (strict : Bool) :
    (convert script Renaming.none route strict).text = Layout.tidy (route.handedOn script) := by
  have htyped : convertTypes route script = ⟨script, []⟩ := by rw [convertTypes, h]
  have hidiomatic : (if route.replacesIdioms then replaceOracleIdioms script else ⟨script, []⟩ : Replaced).text =
      route.handedOn script := by
    rw [Route.handedOn]
    split <;> rfl
  simp only [convert, steps, Route.makesSerial_of_untyped h, Bool.false_eq_true, if_false, Renaming.apply_none, htyped,
    hidiomatic]

end DialectBridge
