import DialectBridge.Lexical.Scan
import DialectBridge.Reading.Reader

/-!
# Clauses in parentheses

Removing a clause that consists of a word and a group in parentheses, together with the whitespace in
front of it. A word without a group, and a group without an end, are no clause.
-/

namespace DialectBridge

namespace Clause

/-- The place behind the clause that starts here, if one does. -/
def after? (word : Text) : List Token → Option (List Token)
  | t :: opening :: rest =>
    if t.isWord word && opening.kind == .leftParen then Reader.afterGroup? 0 rest else none
  | _ => none

theorem after?_length {word : Text} {t : Token} {ts rest : List Token}
    (h : after? word (t :: ts) = some rest) : rest.length < (t :: ts).length := by
  cases ts with
  | nil => simp [after?] at h
  | cons u us =>
    simp only [after?] at h
    split at h
    · have := (Reader.afterGroup?_suffix h).2
      simp only [List.length_cons]
      omega
    · cases h

/-- The text of the tokens without the clauses of a word. What was read since the last clause is
`pending`; the clause takes the whitespace at its end along. -/
def remove (word pending : Text) (ts : List Token) : Text :=
  match ts with
  | [] => pending
  | t :: rest =>
    match _h : after? word (t :: rest) with
    | some next => Text.trimEnd (pending ++ t.gapText) ++ remove word [] next
    | none => remove word (pending ++ t.text) rest
termination_by ts.length
decreasing_by
  · exact after?_length _h
  · simp

end Clause

/-- The script without the clauses of a word. -/
def removeClause (word script : Text) : Text :=
  Clause.remove word [] (scan script)

end DialectBridge
