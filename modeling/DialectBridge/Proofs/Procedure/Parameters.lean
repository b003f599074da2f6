import DialectBridge.Procedure.Signature
import DialectBridge.Proofs.Migration.Definitions
import DialectBridge.Proofs.Reading.Flat

/-!
# Parameters as written

A parameter is written as its name, a direction, the word `NOCOPY`, its type and a default value, of which only the
name and the type must be there. From its tokens it is read back, with the type as written (`parameter_spelled`).
-/

namespace DialectBridge.ParameterReading

open Token Reader Scan Migration

/-! ## Writing parameters -/

/-- A parameter with everything that may be written of it. -/
structure Spelled where
  name : Text
  /-- The direction, if one is written. -/
  direction : Option Direction
  /-- The word `NOCOPY` is written. -/
  nocopy : Bool
  type : Text
  /-- The default value, if one is written, and whether it stands behind `:=` and not behind `DEFAULT`. -/
  default : Option (Bool × Text)
  deriving DecidableEq, Repr

/-- The words of a direction. -/
def directionWords : Option Direction → List Keyword
  | none => []
  | some .input => [.in]
  | some .output => [.out]
  | some .both => [.in, .out]

/-- A default value behind its sign. -/
def defaultText : Option (Bool × Text) → Text
  | none => []
  | some (assigned, value) => (if assigned then " := " else " DEFAULT ") ++ value

/-- A token that ends a type, or the part of the list in which the type stands. -/
def endsType (t : Token) : Bool :=
  isComma t || t.isKeyword .default || t.kind == .assign

namespace Spelled

/-- The words between the name and the type. -/
def words (p : Spelled) : List Keyword :=
  directionWords p.direction ++ if p.nocopy then [.nocopy] else []

/-- The text of the parameter. -/
def text (p : Spelled) : Text :=
  p.name ++ (p.words.flatMap fun k => ' ' :: k.text) ++ ' ' :: p.type ++ defaultText p.default

/-- The parameter that is meant: values go in if no direction is written. -/
def parameter (p : Spelled) : Parameter :=
  ⟨p.name, p.direction.getD .input, p.type⟩

/-- The name is a bare word, the type starts with an identifier, and neither the type nor the default value goes on
behind what would end it. -/
structure IsSound (p : Spelled) : Prop where
  name : IsWord p.name
  type : IsFlatText endsType p.type
  base : ∃ n, (scan p.type).head?.map Token.kind = some (.identifier n)
  default : ∀ d ∈ p.default, IsFlatText isComma d.2

end Spelled

/-! ## Tokens -/

/-- The sign in front of a default value as a token. -/
def defaultSign (assigned : Bool) : Token :=
  if assigned then ⟨blankGap, .assign, [':', '=']⟩ else ofKeyword blankGap .default

theorem chain_defaultSign (assigned : Bool) {ts : List Token} (hts : Chain ts) (hbreak : StartsWithBreak (textOf ts)) :
    Chain (defaultSign assigned :: ts) := by
  cases assigned with
  | false => exact chain_ofKeyword isSpace_blankGap .default hts hbreak
  | true =>
    have hfits (r : Text) : Fits ⟨[], .assign, [':', '=']⟩ r :=
      ⟨gap_of_none (trivia?_eq_none_iff.2 ⟨by decide, by simp, by simp⟩), _, _, rfl, rfl⟩
    exact .cons ((hfits _).space isSpace_blankGap) (by simp [defaultSign]) hts

theorem text_defaultSign (assigned : Bool) :
    (defaultSign assigned).text ++ [' '] = if assigned then " := ".toList else " DEFAULT ".toList := by
  cases assigned <;> decide +kernel

/-- Keywords behind blanks may stand in front of a break. -/
theorem chain_keywords (ks : List Keyword) {ts : List Token} (hts : Chain ts) (hbreak : StartsWithBreak (textOf ts)) :
    Chain (ks.map (ofKeyword blankGap) ++ ts) ∧ StartsWithBreak (textOf (ks.map (ofKeyword blankGap) ++ ts)) := by
  induction ks with
  | nil => exact ⟨hts, hbreak⟩
  | cons k ks ih => exact ⟨chain_ofKeyword isSpace_blankGap k ih.1 ih.2, startsWithBreak_blankGap rfl _⟩

theorem textOf_keywords (ks : List Keyword) :
    textOf (ks.map (ofKeyword blankGap)) = ks.flatMap fun k => ' ' :: k.text := by
  induction ks with
  | nil => rfl
  | cons k ks ih => rw [List.map_cons, textOf_cons, ih, text_ofKeyword, textOf_blankGap, List.flatMap_cons]; rfl

theorem level_keywords (ks : List Keyword) {ts : List Token} (hts : Level ts) :
    Level (ks.map (ofKeyword blankGap) ++ ts) := by
  induction ks with
  | nil => exact hts
  | cons k ks ih => exact .plain (isPlain_ofKeyword blankGap k) ih

/-- The tokens of a default value behind its sign; nothing without one. -/
inductive SpellsDefault : Option (Bool × Text) → List Token → Prop where
  | none : SpellsDefault none []
  | some {assigned : Bool} {value : Text} {us : List Token} (spells : Spells isComma value us) :
      SpellsDefault (some (assigned, value)) (defaultSign assigned :: withGap blankGap us)

theorem isPlain_defaultSign (assigned : Bool) : IsPlain (defaultSign assigned) := by
  cases assigned <;> simp [IsPlain, defaultSign, ofKeyword]

namespace SpellsDefault

variable {d : Option (Bool × Text)} {ts : List Token}

theorem chain (h : SpellsDefault d ts) : Chain ts := by
  cases h with
  | none => exact .nil
  | @some assigned value us spells =>
    have hbreak := startsWithBreak_withGap spells.nonempty []
    rw [List.append_nil] at hbreak
    exact chain_defaultSign assigned (spells.chain.withGap isSpace_blankGap) hbreak

theorem startsWithBreak (h : SpellsDefault d ts) : StartsWithBreak (textOf ts) := by
  cases h with
  | none => exact .nil
  | @some assigned value us spells =>
    exact startsWithBreak_blankGap (by cases assigned <;> rfl) _

theorem level (h : SpellsDefault d ts) : Level ts := by
  cases h with
  | none => exact .nil
  | @some assigned value us spells =>
    exact .plain (isPlain_defaultSign assigned) ((spells.flat.level fun _ => id).withGap blankGap)

theorem text (h : SpellsDefault d ts) : textOf ts = defaultText d := by
  cases h with
  | none => rfl
  | @some assigned value us spells =>
    rw [textOf_cons, textOf_withGap spells.nonempty, spells.text, textOf_blankGap, ← List.append_assoc,
      text_defaultSign]
    cases assigned <;> rfl

/-- A type ends in front of a default value. -/
theorem afterType (h : SpellsDefault d ts) : ParameterReading.afterType ts = .ok ts := by
  cases h with
  | none => rw [ParameterReading.afterType]
  | @some assigned value us spells =>
    rw [ParameterReading.afterType, if_pos]
    cases assigned <;> simp [defaultSign, ofKeyword, isKeyword]

end SpellsDefault

/-! ## Reading parameters -/

/-- A type goes on over all its tokens. -/
theorem afterType_flat {us rest : List Token} (h : Flat endsType us) : afterType (us ++ rest) = afterType rest := by
  induction h with
  | nil => rfl
  | @single t ts paren eof goes _ ih =>
    have hgoes : (t.isKeyword .default = false ∧ (t.kind == .assign) = false) := by
      simp only [endsType, Bool.or_eq_false_iff] at goes
      exact ⟨goes.1.2, goes.2⟩
    rw [List.cons_append, afterType, if_neg (by simp [isEof, eof, hgoes]), if_neg (by simpa using paren.1), ih]
  | @group o vs ts opens closes _ ih =>
    rw [List.cons_append, List.append_assoc, afterType, if_neg (by simp [isEof, isKeyword, opens]),
      if_pos (by simp [opens])]
    split
    · next next heq =>
      obtain rfl := Option.some.inj (heq.symm.trans (closes (ts ++ rest)).1)
      exact ih
    · next heq => cases heq.symm.trans (closes (ts ++ rest)).1

theorem endsType_withGap (t : Token) (g : List Trivia) : endsType { t with gap := g } = endsType t := rfl

/-- A type is read as written. -/
theorem type_spelled {s : Text} {us : List Token} (h : Spells endsType s us)
    (hbase : ∃ n, us.head?.map Token.kind = some (.identifier n)) (g : List Trivia) {d : Option (Bool × Text)}
    {ts : List Token} (hts : SpellsDefault d ts) : type (withGap g us ++ ts) = .ok (s, ts) := by
  obtain ⟨n, hn⟩ := hbase
  have hhead : atKind (.identifier []) (withGap g us ++ ts) = true := by
    obtain ⟨u, us, rfl⟩ := List.exists_cons_of_ne_nil h.nonempty
    have hkind : u.kind = .identifier n := by simpa using hn
    show (TokenKind.identifier []).sameKind u.kind = true
    rw [hkind]
    rfl
  have hafter : afterType (withGap g us ++ ts) = .ok ts :=
    (afterType_flat (h.flat.withGap endsType_withGap g)).trans hts.afterType
  rw [type, if_pos (by rw [hhead, Bool.true_or]), hafter]
  show Except.ok (verbatim (taken (withGap g us ++ ts) ts), ts) = _
  rw [taken_append]
  cases us with
  | nil => exact absurd rfl h.nonempty
  | cons u us => exact congrArg (fun text => Except.ok (text, ts)) h.text

theorem eatKeyword_ofKeyword (g : List Trivia) (k : Keyword) (ts : List Token) :
    eatKeyword k (ofKeyword g k :: ts) = .ok (true, ts) := by
  simp [eatKeyword, atKeyword, headKind, ofKeyword]

theorem eatKeyword_of_ne {k : Keyword} {t : Token} (h : t.kind ≠ .keyword k) (ts : List Token) :
    eatKeyword k (t :: ts) = .ok (false, t :: ts) := by
  simp [eatKeyword, atKeyword, headKind, h]

/-- The words of a direction are read back in front of any token that is none of them. -/
theorem direction_words (d : Option Direction) {t : Token} (hin : t.kind ≠ .keyword .in) (hout : t.kind ≠ .keyword .out)
    (ts : List Token) : direction ((directionWords d).map (ofKeyword blankGap) ++ t :: ts) =
      .ok (d.getD .input, t :: ts) := by
  have hother (us : List Token) : eatKeyword .in (ofKeyword blankGap .out :: us) =
    .ok (false, ofKeyword blankGap .out :: us) := eatKeyword_of_ne (by simp [ofKeyword]) us
  unfold direction
  rcases d with - | - | - | -
  · exact (bind_ok (eatKeyword_of_ne hin ts)).trans (bind_ok (eatKeyword_of_ne hout ts))
  · exact (bind_ok (eatKeyword_ofKeyword blankGap .in _)).trans (bind_ok (eatKeyword_of_ne hout ts))
  · exact (bind_ok (hother _)).trans (bind_ok (eatKeyword_ofKeyword blankGap .out _))
  · exact (bind_ok (eatKeyword_ofKeyword blankGap .in _)).trans (bind_ok (eatKeyword_ofKeyword blankGap .out _))

/-- A parameter is read in front of its default value. -/
theorem parameter_spelled (p : Spelled) {us ts : List Token} (hus : Spells endsType p.type us)
    (hbase : ∃ n, us.head?.map Token.kind = some (.identifier n)) (hts : SpellsDefault p.default ts) (g : List Trivia) :
    parameter (ofWord g p.name :: (p.words.map (ofKeyword blankGap) ++ (withGap blankGap us ++ ts))) =
      .ok (p.parameter, ts) := by
  obtain ⟨n, hn⟩ := id hbase
  obtain ⟨u, vs, rfl⟩ := List.exists_cons_of_ne_nil hus.nonempty
  have hkeyword (k : Keyword) : u.kind ≠ .keyword k := by
    have hkind : u.kind = .identifier n := by simpa using hn
    simp [hkind]
  -- the token behind the direction is `NOCOPY` or starts the type
  obtain ⟨t, rest, hrest, hin, hout, hnocopy⟩ : ∃ t rest,
      (if p.nocopy then [.nocopy] else []).map (ofKeyword blankGap) ++ (withGap blankGap (u :: vs) ++ ts) = t :: rest ∧
      t.kind ≠ .keyword .in ∧ t.kind ≠ .keyword .out ∧
      eatKeyword .nocopy (t :: rest) = .ok (p.nocopy, withGap blankGap (u :: vs) ++ ts) := by
    cases p.nocopy with
    | true =>
      exact ⟨ofKeyword blankGap .nocopy, _, rfl, by simp [ofKeyword], by simp [ofKeyword], eatKeyword_ofKeyword ..⟩
    | false =>
      exact ⟨{ u with gap := blankGap }, vs ++ ts, rfl, hkeyword .in, hkeyword .out,
        eatKeyword_of_ne (t := { u with gap := blankGap }) (hkeyword .nocopy) _⟩
  have hdirection := direction_words p.direction hin hout rest
  have htype := type_spelled hus hbase blankGap hts
  rw [Spelled.words, List.map_append, List.append_assoc, hrest]
  unfold parameter
  exact (bind_ok (word_ofWord _ g p.name _)).trans
    ((bind_ok hdirection).trans ((bind_ok hnocopy).trans (bind_ok htype)))

/-- The tokens `us`, behind whatever gap, are a part of a parameter list with this text and this meaning. -/
structure ReadsAs (text : Text) (outcome : Option Parameter) (us : List Token) : Prop where
  chain : Chain us
  level : Level us
  nonempty : us ≠ []
  bare : withGap [] us = us
  text : verbatim us = text
  read : ∀ g, (Prod.fst <$> parameter (withGap g us)).toOption = outcome

/-- A part of a list means the same behind any gap. -/
theorem ReadsAs.withGap {s : Text} {outcome : Option Parameter} {us : List Token} (h : ReadsAs s outcome us)
    (g : List Trivia) : Level (Token.withGap g us) ∧ Token.withGap g us ≠ [] ∧ verbatim (Token.withGap g us) = s ∧
      (Prod.fst <$> parameter (Token.withGap g us)).toOption = outcome := by
  refine ⟨h.level.withGap g, ?_, ?_, h.read g⟩
  · obtain ⟨u, vs, rfl⟩ := List.exists_cons_of_ne_nil h.nonempty
    exact List.cons_ne_nil _ _
  · rw [verbatim_withGap, h.text]

/-- A parameter is read back from its tokens. -/
theorem Spelled.IsSound.exists_readsAs {p : Spelled} (h : p.IsSound) :
    ∃ us, ReadsAs p.text (some p.parameter) us := by
  obtain ⟨us, hus⟩ := h.type.exists_spells
  obtain ⟨ts, hts⟩ : ∃ ts, SpellsDefault p.default ts := by
    cases hd : p.default with
    | none => exact ⟨[], .none⟩
    | some d =>
      obtain ⟨vs, hvs⟩ := (h.default d hd).exists_spells
      exact ⟨_, .some hvs⟩
  have hbase : ∃ n, us.head?.map Token.kind = some (.identifier n) := by
    obtain ⟨n, hn⟩ := h.base
    obtain ⟨u, vs, rfl⟩ := List.exists_cons_of_ne_nil hus.nonempty
    rw [hus.scan] at hn
    exact ⟨n, hn⟩
  obtain ⟨hchain, hbreak⟩ := chain_keywords p.words
    ((hus.chain.withGap isSpace_blankGap).append hts.chain hts.startsWithBreak)
    (startsWithBreak_withGap hus.nonempty ts)
  refine ⟨ofWord [] p.name :: (p.words.map (ofKeyword blankGap) ++ (withGap blankGap us ++ ts)),
    .word .none h.name hchain (stops_of_break hbreak), ?_, List.cons_ne_nil _ _, rfl, ?_, fun g => ?_⟩
  · have htype := hus.flat.level fun t ht => by rw [endsType, ht, Bool.true_or, Bool.true_or]
    exact .plain (isPlain_ofWord [] p.name) (level_keywords _ ((htype.withGap blankGap).append hts.level))
  · rw [verbatim, textOf_append, textOf_append, textOf_keywords, textOf_withGap hus.nonempty, textOf_blankGap, hus.text,
      hts.text]
    simp [Spelled.text, ofWord]
  · have hread := parameter_spelled p hus hbase hts g
    show (Prod.fst <$> ParameterReading.parameter (ofWord g p.name :: _)).toOption = _
    rw [hread]
    rfl

/-- A fragment that starts with no name is no parameter. -/
theorem exists_readsAs_fragment {s : Text} (h : IsFlatText isComma s) (hname : ∀ t ∈ (scan s).head?, t.name? = none) :
    ∃ us, ReadsAs s none us := by
  obtain ⟨us, hus⟩ := h.exists_spells
  refine ⟨us, hus.chain, hus.flat.level fun _ => id, hus.nonempty, hus.bare, hus.text, fun g => ?_⟩
  obtain ⟨u, vs, rfl⟩ := List.exists_cons_of_ne_nil hus.nonempty
  have hnone : ({ u with gap := g } : Token).name? = none := hname u (by simp [hus.scan])
  have hword : word "parameter name" ({ u with gap := g } :: vs) =
      .error (.unexpected "parameter name" ({ u with gap := g } :: vs)) := by simp [word, hnone]
  show (Prod.fst <$> parameter ({ u with gap := g } :: vs)).toOption = none
  rw [parameter, bind_error hword]
  rfl

end DialectBridge.ParameterReading
