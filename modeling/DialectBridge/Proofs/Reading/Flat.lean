import DialectBridge.Proofs.Reading.Group

/-!
# Flat tokens

Tokens are flat if their groups close and outside of the groups none of some tokens occurs (`isFlat`), such as the
comma that ends a part of a list. A flat text is one whose tokens are flat and that starts and ends with a token
(`IsFlatText`). Flat parts with commas between them are what a group is cut into (`pieces?_listed`).
-/

namespace DialectBridge.Reader

open Token Scan

variable {stops : Token → Bool}

/-! ## Flat tokens -/

/-- The tokens close `depth` groups that are open in front of them and all groups that open among them, and
outside of the groups none of the tokens `stops` occurs. -/
def isFlat (stops : Token → Bool) : Nat → List Token → Bool
  | depth, [] => depth == 0
  | depth, t :: ts =>
    match t.kind, depth with
    | .leftParen, _ => isFlat stops (depth + 1) ts
    | .rightParen, 0 => false
    | .rightParen, depth + 1 => isFlat stops depth ts
    | _, 0 => !stops t && isFlat stops 0 ts
    | _, depth + 1 => isFlat stops (depth + 1) ts

/-- Flat tokens are single tokens and whole groups. -/
inductive Flat (stops : Token → Bool) : List Token → Prop where
  | nil : Flat stops []
  | single {t : Token} {ts : List Token} (paren : t.kind ≠ .leftParen ∧ t.kind ≠ .rightParen) (eof : t.kind ≠ .eof)
      (goes : stops t = false) (rest : Flat stops ts) : Flat stops (t :: ts)
  | group {o : Token} {us ts : List Token} (opens : o.kind = .leftParen) (closes : Closes 0 us)
      (rest : Flat stops ts) : Flat stops (o :: (us ++ ts))

theorem isFlat_other {t : Token} (hleft : t.kind ≠ .leftParen) (hright : t.kind ≠ .rightParen) (depth : Nat)
    (ts : List Token) : isFlat stops depth (t :: ts) = ((depth != 0 || !stops t) && isFlat stops depth ts) := by
  rw [isFlat.eq_def]
  cases hkind : t.kind <;> cases depth <;> simp_all

/-- The group that is open in front of the tokens closes, and the rest closes the groups around it. -/
theorem exists_afterGroup?_of_isFlat (depth inner : Nat) {ts : List Token} (heof : ∀ t ∈ ts, t.kind ≠ .eof)
    (h : isFlat stops (depth + inner + 1) ts = true) :
    ∃ rest, afterGroup? inner ts = some rest ∧ isFlat stops depth rest = true := by
  -- `inner` counts the groups that are open within the one to be closed
  induction ts generalizing inner with
  | nil => cases h
  | cons t ts ih =>
    obtain ⟨ht, hts⟩ := List.forall_mem_cons.1 heof
    by_cases hleft : t.kind = .leftParen
    · rw [afterGroup?_open hleft]
      rw [isFlat.eq_def] at h
      simp only [hleft] at h
      exact ih (inner + 1) hts h
    · by_cases hright : t.kind = .rightParen
      · rw [isFlat.eq_def] at h
        simp only [hright] at h
        cases inner with
        | zero => exact ⟨ts, afterGroup?_last hright ts, h⟩
        | succ inner =>
          rw [afterGroup?_close hright]
          exact ih inner hts h
      · rw [isFlat_other hleft hright, Bool.and_eq_true] at h
        rw [afterGroup?_cons_other hleft hright ht]
        exact ih inner hts h.2

theorem flat_of_isFlat {ts : List Token} (heof : ∀ t ∈ ts, t.kind ≠ .eof) (h : isFlat stops 0 ts = true) :
    Flat stops ts := by
  -- a group is taken as a whole, so the induction is on the number of tokens
  induction hlen : ts.length using Nat.strongRecOn generalizing ts with
  | ind n ih =>
    cases ts with
    | nil => exact .nil
    | cons t ts =>
      obtain ⟨ht, hts⟩ := List.forall_mem_cons.1 heof
      rw [List.length_cons] at hlen
      by_cases hleft : t.kind = .leftParen
      · rw [isFlat.eq_def] at h
        simp only [hleft] at h
        obtain ⟨rest, hrest, hflat⟩ := exists_afterGroup?_of_isFlat 0 0 hts h
        obtain ⟨us, rfl, hus⟩ := exists_closes hrest
        have hshorter : rest.length < n := by
          rw [List.length_append] at hlen
          omega
        exact .group hleft hus (ih _ hshorter (fun t ht => hts t (List.mem_append_right us ht)) hflat rfl)
      · by_cases hright : t.kind = .rightParen
        · rw [isFlat.eq_def] at h
          simp [hright] at h
        · rw [isFlat_other hleft hright] at h
          simp only [bne_self_eq_false, Bool.false_or, Bool.and_eq_true, Bool.not_eq_true'] at h
          exact .single ⟨hleft, hright⟩ ht h.1 (ih _ (by omega) hts h.2 rfl)

/-- A comma outside of groups would end a part of a list. -/
def isComma (t : Token) : Bool :=
  t.kind == .comma

theorem Flat.level {ts : List Token} (h : Flat stops ts) (hcomma : ∀ t, isComma t = true → stops t = true) :
    Level ts := by
  induction h with
  | nil => exact .nil
  | @single t ts paren eof goes _ ih =>
    refine .plain ⟨paren.1, paren.2, fun hkind => ?_, eof⟩ ih
    rw [hcomma t (by simp [isComma, hkind])] at goes
    cases goes
  | group opens closes _ ih => exact .group opens closes ih

/-- Tokens without a comma outside of groups are level. -/
theorem level_of_isFlat {ts : List Token} (heof : ∀ t ∈ ts, t.kind ≠ .eof) (h : isFlat isComma 0 ts = true) :
    Level ts :=
  (flat_of_isFlat heof h).level fun _ h => h

theorem Flat.withGap {ts : List Token} (h : Flat stops ts) (hstops : ∀ t g, stops { t with gap := g } = stops t)
    (g : List Trivia) : Flat stops (Token.withGap g ts) := by
  cases h with
  | nil => exact .nil
  | single paren eof goes rest => exact .single paren eof ((hstops _ g).trans goes) rest
  | group opens closes rest => exact .group opens closes rest

/-! ## Flat texts -/

/-- The text starts and ends with a token, leaves no quotation open, and its tokens are flat. -/
structure IsFlatText (stops : Token → Bool) (s : Text) : Prop where
  starts : ∀ t ∈ (scan s).head?, t.gap = []
  ends : ∀ t ∈ (scan s).getLast?, t.gap = []
  nonempty : (scan s).dropLast ≠ []
  closed : ∀ t ∈ scan s, ∀ cause, t.kind ≠ .error cause
  flat : isFlat stops 0 (scan s).dropLast = true

/-- Open quotations are told by their kind alone. -/
instance (stops : Token → Bool) (s : Text) : Decidable (IsFlatText stops s) :=
  decidable_of_iff ((∀ t ∈ (scan s).head?, t.gap = []) ∧ (∀ t ∈ (scan s).getLast?, t.gap = []) ∧
      (scan s).dropLast ≠ [] ∧ (∀ t ∈ scan s, (TokenKind.error .unterminatedName).sameKind t.kind = false) ∧
      isFlat stops 0 (scan s).dropLast = true) <| by
    have hclosed : (∀ t ∈ scan s, (TokenKind.error .unterminatedName).sameKind t.kind = false) ↔
        ∀ t ∈ scan s, ∀ cause, t.kind ≠ .error cause := by
      refine forall₂_congr fun t _ => ?_
      cases t.kind <;> simp [TokenKind.sameKind, TokenKind.ctorIdx]
    rw [hclosed]
    exact ⟨fun ⟨a, b, c, d, e⟩ => ⟨a, b, c, d, e⟩, fun ⟨a, b, c, d, e⟩ => ⟨a, b, c, d, e⟩⟩

/-- The tokens `us` are those of the flat text `s`. -/
structure Spells (stops : Token → Bool) (s : Text) (us : List Token) : Prop where
  scan : DialectBridge.scan s = us ++ [⟨[], .eof, []⟩]
  nonempty : us ≠ []
  chain : Chain us
  flat : Flat stops us
  text : verbatim us = s
  bare : withGap [] us = us

theorem IsFlatText.exists_spells {s : Text} (h : IsFlatText stops s) : ∃ us, Spells stops s us := by
  obtain ⟨us, g, hscan, heof, -, -⟩ := exists_scan_append h.closed .nil
  obtain rfl : g = [] := h.ends ⟨g, .eof, []⟩ (by simp [hscan])
  have hne : us ≠ [] := by simpa [hscan] using h.nonempty
  obtain ⟨t, ts, rfl⟩ := List.exists_cons_of_ne_nil hne
  have hgap : t.gap = [] := h.starts t (by simp [hscan])
  have hbare : withGap [] (t :: ts) = t :: ts := by rw [← hgap]; rfl
  have hclosed : ∀ u ∈ t :: ts, u.kind ≠ .eof ∧ ∀ cause, u.kind ≠ .error cause := fun u hu =>
    ⟨heof u hu, h.closed u (by rw [hscan]; exact List.mem_append_left _ hu)⟩
  have htext := textOf_scan s
  rw [hscan, textOf_append, ← hbare, textOf_withGap hne] at htext
  have hflat := h.flat
  rw [hscan, List.dropLast_concat] at hflat
  have hchain : Chain (t :: ts) := .of_closed ⟨[], hscan.symm⟩ hclosed
  refine ⟨t :: ts, hscan, hne, hchain, flat_of_isFlat heof hflat, ?_, hbare⟩
  simpa [text, gapText] using htext

/-! ## Lists -/

/-- Parts with commas between them. -/
def listed (uss : List (List Token)) : List Token :=
  [ofSign [] ','].intercalate uss

theorem listed_cons_cons (us vs : List Token) (uss : List (List Token)) :
    listed (us :: vs :: uss) = us ++ ofSign [] ',' :: listed (vs :: uss) := by
  rw [listed, List.intercalate_cons_cons]
  simp [listed]

/-- A group that lists level parts is cut into these parts. -/
theorem pieces?_listed {uss : List (List Token)} (hne : uss ≠ []) (hlevel : ∀ us ∈ uss, Level us) {c : Token}
    (hc : c.kind = .rightParen) (rest : List Token) :
    ∃ ps, pieces? 0 (listed uss ++ c :: rest) = some (ps, rest) ∧ ps.map Piece.tokens = uss := by
  induction uss with
  | nil => exact absurd rfl hne
  | cons us uss ih =>
    obtain ⟨hus, huss⟩ := List.forall_mem_cons.1 hlevel
    cases uss with
    | nil =>
      refine ⟨[⟨us, c⟩], ?_, rfl⟩
      rw [listed, List.intercalate_singleton, hus.passes, pieces?_last hc]
      show some (us.foldr Piece.push [⟨[], c⟩], rest) = _
      rw [foldr_push, List.append_nil]
    | cons vs uss =>
      obtain ⟨ps, hps, htokens⟩ := ih (List.cons_ne_nil _ _) huss
      refine ⟨⟨us, ofSign [] ','⟩ :: ps, ?_, by rw [List.map_cons, htokens]⟩
      rw [listed_cons_cons, List.append_assoc, hus.passes, List.cons_append, pieces?_comma rfl, hps]
      show some (us.foldr Piece.push (⟨[], ofSign [] ','⟩ :: ps), rest) = _
      rw [foldr_push, List.append_nil]

end DialectBridge.Reader
