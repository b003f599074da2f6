import DialectBridge.Text.Basic

/-!
# Spans

A span is a range of byte offsets into a text in UTF-8.
-/

namespace DialectBridge

/-- The bytes from `start` up to, not including, `stop`. -/
structure Span where
  start : Nat
  stop : Nat
  deriving DecidableEq, Repr

namespace Span

/-- The number of bytes. -/
def length (s : Span) : Nat :=
  s.stop - s.start

/-- The span holds no byte. -/
def isEmpty (s : Span) : Bool :=
  s.start == s.stop

/-- The smallest span that holds both. -/
def cover (s t : Span) : Span :=
  ⟨min s.start t.start, max s.stop t.stop⟩

/-- What stands at the span in `text`, or nothing when the span is out of bounds or cuts a
character. -/
def textIn (s : Span) (text : Text) : Text :=
  (text.slice? s.start s.stop).getD []

theorem cover_comm (s t : Span) : s.cover t = t.cover s := by
  simp [cover, Nat.min_comm, Nat.max_comm]

end Span

end DialectBridge
