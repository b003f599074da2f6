import DialectBridge.Pattern.Basic

/-!
# Searching

A text is cut into characters that are copied and matches that are treated. Matches do not overlap;
after a match the search goes on behind it, and an empty match right behind another match does not
count. Cutting loses nothing: the pieces make up the text (`textOf_cut`).
-/

namespace DialectBridge

/-- A match in a text: what stands before it (nearest character first), the matched text, what stands
after it, and what the matcher found out. -/
structure Match (α : Type) where
  before : Text
  text : Text
  after : Text
  value : α

/-- A way to match at a place that has this text before and after it. A match starts at the place. -/
abbrev Matcher (α : Type) := (before after : Text) → Option (Text × α)

/-- What was captured under a number. -/
def captured (n : Nat) (captures : List (Nat × Text)) : Option Text :=
  (captures.find? fun entry => entry.1 == n).map Prod.snd

/-- The matcher of a pattern; it finds out what the pattern captures. -/
def Pattern.matcher (p : Pattern) : Matcher (List (Nat × Text)) := fun before after =>
  (p.run ⟨before, after, []⟩ .some).map fun stop =>
    (Site.textUpTo ⟨before, after, []⟩ stop, stop.captured)

/-- A piece of a text that was searched. -/
inductive Cut (α : Type) where
  | copied (c : Char)
  | found (m : Match α)

namespace Cut

/-- The text of a piece. -/
def text {α : Type} : Cut α → Text
  | copied c => [c]
  | found m => m.text

/-- The match of a piece, if it is one. -/
def match? {α : Type} : Cut α → Option (Match α)
  | copied _ => none
  | found m => some m

/-- Cuts a text that follows `before`. The first `skip` characters belong to a match already; an
empty match counts at the place behind them only if it is `fresh`, that is, if no match ends there. -/
def pieces {α : Type} (matcher : Matcher α) : Nat → Bool → Text → Text → List (Cut α)
  | 0, fresh, before, [] =>
    match matcher before [] with
    | some (_, value) => if fresh then [found ⟨before, [], [], value⟩] else []
    | none => []
  | _ + 1, _, _, [] => []
  | skip + 1, _, before, c :: after => pieces matcher skip false (c :: before) after
  | 0, fresh, before, c :: after =>
    match matcher before (c :: after) with
    | none => copied c :: pieces matcher 0 true (c :: before) after
    | some ([], value) =>
      let rest := copied c :: pieces matcher 0 true (c :: before) after
      if fresh then found ⟨before, [], c :: after, value⟩ :: rest else rest
    | some (d :: taken, value) =>
      found ⟨before, d :: taken, after.drop taken.length, value⟩ ::
        pieces matcher taken.length false (c :: before) after

end Cut

/-- Cuts a text at the matches in it. -/
def cut {α : Type} (matcher : Matcher α) (t : Text) : List (Cut α) :=
  Cut.pieces matcher 0 true [] t

/-- What the matcher takes stands at the place where it looks. -/
def Matcher.TakesPrefix {α : Type} (matcher : Matcher α) : Prop :=
  ∀ ⦃before after taken value⦄, matcher before after = some (taken, value) → taken <+: after

theorem Cut.textOf_pieces {α : Type} {matcher : Matcher α} (h : matcher.TakesPrefix) (skip : Nat)
    (fresh : Bool) (before after : Text) :
    (pieces matcher skip fresh before after).flatMap text = after.drop skip := by
  fun_induction pieces matcher skip fresh before after with
  | case1 => simp [text]
  | case2 => simp
  | case3 => simp
  | case4 => simp
  | case5 skip fresh before c after ih => simpa using ih
  | case6 fresh before c after _ ih => simpa [text] using ih
  | case7 before c after value _ rest ih => simpa [rest, text] using ih
  | case8 fresh before c after value _ rest _ ih => simpa [rest, text] using ih
  | case9 fresh before c after d taken value hmatch ih =>
    obtain ⟨rest, hrest⟩ := h hmatch
    obtain ⟨rfl, rfl⟩ := by simpa using hrest
    simpa [text] using ih

/-- The pieces of a text make up the text. -/
theorem textOf_cut {α : Type} {matcher : Matcher α} (h : matcher.TakesPrefix) (t : Text) :
    (cut matcher t).flatMap Cut.text = t :=
  Cut.textOf_pieces h 0 true [] t

theorem Pattern.matcher_takesPrefix (p : Pattern) : p.matcher.TakesPrefix := by
  intro before after taken value h
  obtain ⟨stop, _, hstop⟩ := Option.map_eq_some_iff.1 h
  cases hstop
  exact List.take_prefix _ _

/-- The matches in a text, from left to right. -/
def allMatches {α : Type} (matcher : Matcher α) (t : Text) : List (Match α) :=
  (cut matcher t).filterMap Cut.match?

/-- Replaces every match in a text. -/
def replaceMatches {α : Type} (matcher : Matcher α) (replacement : Match α → Text) (t : Text) : Text :=
  (cut matcher t).flatMap fun
    | .copied c => [c]
    | .found m => replacement m

/-- Replaces the first match in a text. -/
def replaceFirst {α : Type} (matcher : Matcher α) (replacement : Text) (t : Text) : Text :=
  match (cut matcher t).find? fun piece => piece.match?.isSome with
  | some (.found m) => m.before.reverse ++ replacement ++ m.after
  | _ => t

/-- The matcher finds a match somewhere in the text. -/
def hasMatch {α : Type} (matcher : Matcher α) (t : Text) : Bool :=
  !(allMatches matcher t).isEmpty

end DialectBridge
