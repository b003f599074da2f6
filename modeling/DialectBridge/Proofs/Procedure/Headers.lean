import DialectBridge.Proofs.Lexical.Line
import DialectBridge.Proofs.Procedure.Parameters
import DialectBridge.Proofs.Reading.Ahead

/-!
# Procedure headers are read back

A header that is written behind any lines without a `CREATE` is found and read back: its name, its parameters in
order, and as text what is no parameter (`ofScript?_written`). Nothing that follows the closing parenthesis counts.
-/

namespace DialectBridge.Header

open Token Reader Scan Migration ParameterReading

/-! ## Writing headers -/

/-- What stands between two commas of a parameter list. -/
inductive Entry where
  | parameter (p : Spelled)
  /-- Anything else, which is kept as text. -/
  | fragment (text : Text)
  deriving DecidableEq, Repr

namespace Entry

def text : Entry → Text
  | parameter p => p.text
  | fragment s => s

def parameter? : Entry → Option Parameter
  | parameter p => some p.parameter
  | fragment _ => none

def fragment? : Entry → Option Text
  | parameter _ => none
  | fragment s => some s

/-- A fragment starts with neither a word nor a quoted name, and no comma cuts it. -/
def IsSound : Entry → Prop
  | parameter p => p.IsSound
  | fragment s => IsFlatText isComma s ∧ ∀ t ∈ (scan s).head?, t.name? = none

theorem IsSound.exists_readsAs {e : Entry} (h : e.IsSound) : ∃ us, ReadsAs e.text e.parameter? us := by
  cases e with
  | parameter p => exact Spelled.IsSound.exists_readsAs h
  | fragment s => exact exists_readsAs_fragment h.1 h.2

end Entry

/-- The text of a header. -/
def text (replaces : Bool) (name : Text) (es : List Entry) : Text :=
  (if replaces then "CREATE OR REPLACE PROCEDURE " else "CREATE PROCEDURE ") ++ name ++ " (" ++
    Text.joinWith ", " (es.map Entry.text) ++ ")"

/-! ## The parameter list -/

/-- The entries of a list as they stand there: a blank stands in front of each one but the first. -/
def spaced : List (List Token) → List (List Token)
  | [] => []
  | us :: uss => us :: uss.map (withGap blankGap)

/-- The tokens of the entries of a list. -/
def Spell (es : List Entry) (uss : List (List Token)) : Prop :=
  List.Forall₂ (fun e us => ReadsAs e.text e.parameter? us) es uss

theorem exists_spell {es : List Entry} (h : ∀ e ∈ es, e.IsSound) : ∃ uss, Spell es uss := by
  induction es with
  | nil => exact ⟨[], .nil⟩
  | cons e es ih =>
    obtain ⟨he, hes⟩ := List.forall_mem_cons.1 h
    obtain ⟨us, hus⟩ := he.exists_readsAs
    obtain ⟨uss, huss⟩ := ih hes
    exact ⟨us :: uss, .cons hus huss⟩

variable {es : List Entry} {uss : List (List Token)}

/-- The entries behind one entry go on with a comma. -/
theorem chain_listed {e : Entry} {us : List Token} (h : Spell (e :: es) (us :: uss)) {g : List Trivia}
    (hg : IsSpace g) : Chain (listed (withGap g us :: uss.map (withGap blankGap))) := by
  induction uss generalizing e es us g with
  | nil =>
    obtain ⟨hus, -⟩ := List.forall₂_cons.1 h
    rw [List.map_nil, listed, List.intercalate_singleton]
    exact hus.chain.withGap hg
  | cons vs uss ih =>
    obtain ⟨hus, hrest⟩ := List.forall₂_cons.1 h
    cases hrest with
    | cons hvs huss =>
      rw [List.map_cons, listed_cons_cons]
      have hnext := Chain.sign (c := ',') .none (by decide) (ih (.cons hvs huss) isSpace_blankGap)
      exact (hus.chain.withGap hg).append hnext (startsWithBreak_sign (by decide) _)

theorem textOf_listed {e : Entry} {us : List Token} (h : Spell (e :: es) (us :: uss)) (g : List Trivia) :
    textOf (listed (withGap g us :: uss.map (withGap blankGap))) =
      Trivia.textOf g ++ Text.joinWith ", " ((e :: es).map Entry.text) := by
  have hseparator : ", ".toList = [',', ' '] := by decide
  induction uss generalizing e es us g with
  | nil =>
    obtain ⟨hus, hrest⟩ := List.forall₂_cons.1 h
    cases hrest
    rw [List.map_nil, listed, List.intercalate_singleton, textOf_withGap hus.nonempty, hus.text]
    simp [Text.joinWith]
  | cons vs uss ih =>
    obtain ⟨hus, hrest⟩ := List.forall₂_cons.1 h
    cases hrest with
    | cons hvs huss =>
      rw [List.map_cons, listed_cons_cons, textOf_append, textOf_cons, ih (.cons hvs huss), textOf_withGap hus.nonempty,
        hus.text, text_ofSign, textOf_blankGap]
      simp [Text.joinWith, List.intercalate_cons_cons, hseparator]

/-- The entries of a list as they stand there mean what they mean alone. -/
theorem forall₂_spaced (h : Spell es uss) : List.Forall₂ (fun e us => Level us ∧ us ≠ [] ∧ verbatim us = e.text ∧
    (Prod.fst <$> parameter us).toOption = e.parameter?) es (spaced uss) := by
  cases h with
  | nil => exact .nil
  | cons hus huss =>
    refine .cons ?_ (List.forall₂_map_right_iff.2 (huss.imp fun e us h => h.withGap blankGap))
    have hbare := hus.withGap []
    rwa [hus.bare] at hbare

theorem filterMap_eq_of_forall₂ {α β γ : Type} {R : α → β → Prop} {f : α → Option γ} {f' : β → Option γ}
    (hf : ∀ a b, R a b → f' b = f a) {as : List α} {bs : List β} (h : List.Forall₂ R as bs) :
    bs.filterMap f' = as.filterMap f := by
  induction h with
  | nil => rfl
  | cons hab _ ih => rw [List.filterMap_cons, List.filterMap_cons, hf _ _ hab, ih]

theorem forall_mem_of_forall₂ {α β : Type} {R : α → β → Prop} {P : β → Prop} (hP : ∀ a b, R a b → P b) {as : List α}
    {bs : List β} (h : List.Forall₂ R as bs) : ∀ b ∈ bs, P b := by
  induction h with
  | nil => simp
  | cons hab _ ih => exact List.forall_mem_cons.2 ⟨hP _ _ hab, ih⟩

/-- A parameter list is split into its entries. -/
theorem exists_splitGroup (h : Spell es uss) (g : List Trivia) (c : Token) (hc : c.kind = .rightParen)
    (rest : List Token) : ∃ parts, splitGroup (ofSign g '(' :: (listed (spaced uss) ++ c :: rest)) = .ok (parts, rest) ∧
      parts.map Part.tokens = spaced uss := by
  have hall : ∀ us ∈ spaced uss, Level us ∧ us ≠ [] :=
    forall_mem_of_forall₂ (fun e us h => ⟨h.1, h.2.1⟩) (forall₂_spaced h)
  obtain ⟨ps, hps, htokens⟩ : ∃ ps, pieces? 0 (listed (spaced uss) ++ c :: rest) = some (ps, rest) ∧
      (ps.map Piece.tokens).filter (fun ts => !ts.isEmpty) = spaced uss := by
    by_cases hne : spaced uss = []
    · rw [hne]
      exact ⟨[⟨[], c⟩], pieces?_last hc rest, rfl⟩
    · obtain ⟨ps, hps, htokens⟩ := pieces?_listed hne (fun us hus => (hall us hus).1) hc rest
      refine ⟨ps, hps, ?_⟩
      rw [htokens]
      exact List.filter_eq_self.2 fun us hus => by simpa using (hall us hus).2
  refine ⟨_, splitGroup_cons rfl hps, ?_⟩
  rw [tokens_partsFrom]
  exact htokens

/-! ## Reading headers -/

/-- The meaning of the parts of a list is that of its entries. -/
theorem signature_readings (h : Spell es uss) {parts : List Part} (hparts : parts.map Part.tokens = spaced uss)
    (n : Text) : signature ⟨n, parts.map ParameterReading.read⟩ =
      ⟨n, es.filterMap Entry.parameter?, es.filterMap Entry.fragment?⟩ := by
  have hspaced := forall₂_spaced h
  rw [← hparts, List.forall₂_map_right_iff] at hspaced
  have hparameters : (parts.map ParameterReading.read).filterMap parameter? = es.filterMap Entry.parameter? := by
    rw [List.filterMap_map]
    exact filterMap_eq_of_forall₂ (fun e part h => h.2.2.2) hspaced
  have hskipped : (parts.map ParameterReading.read).filterMap skipped? = es.filterMap Entry.fragment? := by
    rw [List.filterMap_map]
    refine filterMap_eq_of_forall₂ (fun e part h => ?_) hspaced
    obtain ⟨-, -, htext, houtcome⟩ := h
    show skipped? (ParameterReading.read part) = e.fragment?
    rw [skipped?, ParameterReading.read]
    cases e with
    | parameter p =>
      cases hrun : parameter part.tokens with
      | ok r => rfl
      | error e => rw [hrun] at houtcome; cases houtcome
    | fragment s =>
      cases hrun : parameter part.tokens with
      | ok r => rw [hrun] at houtcome; cases houtcome
      | error e => exact congrArg some htext
  rw [signature, hparameters, hskipped]

/-- The words between the name and `CREATE`. -/
def headWords (replaces : Bool) : List Keyword :=
  (if replaces then [.or, .replace] else []) ++ [.procedure]

theorem expectKeyword_ofKeyword (g : List Trivia) (k : Keyword) (ts : List Token) :
    expectKeyword k (ofKeyword g k :: ts) = .ok ((), ts) := by
  simp [expectKeyword, atKeyword, headKind, ofKeyword]

/-- Reads a header from its name on. -/
def readFromName : Reader Header := do
  let name ← Reader.name "procedure name"
  if ← look (Token.atKind .leftParen) then
    return ⟨name, (← splitGroup).map ParameterReading.read⟩
  else if ← look fun ts => Token.atKeyword .is ts || Token.atKeyword .as ts then
    return ⟨name, []⟩
  else
    fail "'(', IS or AS"

/-- The words in front of the name are passed. -/
theorem read_headWords (replaces : Bool) (g : List Trivia) (ts : List Token) :
    Header.read (ofKeyword g .create :: ((headWords replaces).map (ofKeyword blankGap) ++ ts)) = readFromName ts := by
  have hreplace : orReplace ((headWords replaces).map (ofKeyword blankGap) ++ ts) =
      .ok ((), ofKeyword blankGap .procedure :: ts) := by
    unfold orReplace
    cases replaces with
    | false => exact bind_ok (eatKeyword_of_ne (by simp [ofKeyword]) _)
    | true =>
      refine (bind_ok (eatKeyword_ofKeyword blankGap .or _)).trans ?_
      rw [if_pos rfl]
      exact expectKeyword_ofKeyword blankGap .replace _
  have hedition : edition (ofKeyword blankGap .procedure :: ts) = .ok ((), ofKeyword blankGap .procedure :: ts) := rfl
  unfold Header.read
  exact (bind_ok (expectKeyword_ofKeyword g .create _)).trans ((bind_ok hreplace).trans ((bind_ok hedition).trans
    (bind_ok (expectKeyword_ofKeyword blankGap .procedure ts))))

/-- A written header is read, whatever follows it. -/
theorem exists_read (replaces : Bool) (g : List Trivia) (w : Text) (ws : List Text) (h : Spell es uss) {c : Token}
    (hc : c.kind = .rightParen) (rest : List Token) :
    ∃ header, Header.read (ofKeyword g .create :: ((headWords replaces).map (ofKeyword blankGap) ++
        (qualifiedTokens blankGap w ws ++ ofSign blankGap '(' :: (listed (spaced uss) ++ c :: rest)))) =
          .ok (header, rest) ∧
      header.signature = ⟨Text.joinWith "." (w :: ws), es.filterMap Entry.parameter?, es.filterMap Entry.fragment?⟩ := by
  obtain ⟨parts, hsplit, hparts⟩ := exists_splitGroup h blankGap c hc rest
  refine ⟨⟨_, parts.map ParameterReading.read⟩, ?_, signature_readings h hparts _⟩
  have hname := name_qualifiedTokens "procedure name" blankGap w ws (t := ofSign blankGap '(') (by simp [ofSign, token])
    (listed (spaced uss) ++ c :: rest)
  rw [read_headWords]
  refine (bind_ok hname).trans ?_
  rw [bind_ok (a := true) (by rfl), if_pos rfl, bind_ok hsplit]
  rfl

/-- The search passes tokens without a `CREATE`. -/
theorem search_append {us : List Token} (hus : ∀ u ∈ us, u.kind ≠ .eof ∧ u.kind ≠ .keyword .create) (ts : List Token) :
    search (us ++ ts) = search ts := by
  induction us with
  | nil => rfl
  | cons u us ih =>
    obtain ⟨hu, hus⟩ := List.forall_mem_cons.1 hus
    rw [List.cons_append, search, if_neg (by simpa [isEof] using hu.1), if_neg (by simpa [isKeyword] using hu.2),
      ih hus]

theorem search_create {t : Token} {ts rest : List Token} {header : Header} (ht : t.kind = .keyword .create)
    (h : Header.read (t :: ts) = .ok (header, rest)) : search (t :: ts) = ([], some header) := by
  rw [search, if_neg (by simp [isEof, ht]), if_pos (by simp [isKeyword, ht]), h]

/-! ## Headers in a script -/

theorem chain_spaced (h : Spell es uss) : Chain (listed (spaced uss)) := by
  cases h with
  | nil => exact .nil
  | cons hus huss =>
    have hchain := chain_listed (.cons hus huss) .none
    rwa [hus.bare] at hchain

theorem textOf_spaced (h : Spell es uss) : textOf (listed (spaced uss)) = Text.joinWith ", " (es.map Entry.text) := by
  cases h with
  | nil => rfl
  | cons hus huss =>
    have htext := textOf_listed (.cons hus huss) []
    rwa [hus.bare] at htext

/-- The tokens of a header up to the end of its last parameter. -/
def tokens (replaces : Bool) (w : Text) (ws : List Text) (uss : List (List Token)) : List Token :=
  ofKeyword [] .create :: ((headWords replaces).map (ofKeyword blankGap) ++
    (qualifiedTokens blankGap w ws ++ ofSign blankGap '(' :: listed (spaced uss)))

theorem chain_tokens (replaces : Bool) {w : Text} {ws : List Text} (hname : ∀ v ∈ w :: ws, IsWord v)
    (h : Spell es uss) : Chain (tokens replaces w ws uss) := by
  have hopen : Chain (ofSign blankGap '(' :: listed (spaced uss)) := .sign isSpace_blankGap (by decide) (chain_spaced h)
  have hqualified := chain_qualifiedTokens isSpace_blankGap hname hopen (startsWithBreak_blankGap rfl _)
  obtain ⟨hwords, hbreak⟩ := chain_keywords (headWords replaces) hqualified (startsWithBreak_blankGap rfl _)
  exact chain_ofKeyword .none .create hwords hbreak

theorem text_eq (replaces : Bool) (w : Text) (ws : List Text) (h : Spell es uss) :
    text replaces (Text.joinWith "." (w :: ws)) es = textOf (tokens replaces w ws uss) ++ [')'] := by
  have hstart : (if replaces then "CREATE OR REPLACE PROCEDURE " else "CREATE PROCEDURE ").toList =
      Keyword.create.text ++ (((headWords replaces).flatMap fun k => ' ' :: k.text) ++ [' ']) := by
    cases replaces <;> decide +kernel
  have hopen : " (".toList = [' ', '('] := by decide
  have hclose : ")".toList = [')'] := by decide
  have hempty : Trivia.textOf [] = [] := rfl
  rw [tokens, textOf_cons, textOf_append, textOf_append, textOf_cons, textOf_keywords, textOf_qualifiedTokens,
    textOf_spaced h, text_ofKeyword, text_ofSign, textOf_blankGap, text, hstart, hopen, hclose, hempty]
  simp

/-- A header that is written behind lines without a `CREATE` is read back, whatever follows it: its name, its
parameters in order, each with its direction and its type as written, and the other entries as text. -/
theorem ofScript?_written {front : Text} (hclosed : Scan.IsClosed front) (hline : front.getLast? = some '\n')
    (hcreate : ∀ t ∈ scan front, t.kind ≠ .keyword .create) (replaces : Bool) {w : Text} {ws : List Text}
    (hname : ∀ v ∈ w :: ws, IsWord v) (hes : ∀ e ∈ es, e.IsSound) (suffix : Text) :
    Signature.ofScript? (front ++ (text replaces (Text.joinWith "." (w :: ws)) es ++ suffix)) =
      some ⟨Text.joinWith "." (w :: ws), es.filterMap Entry.parameter?, es.filterMap Entry.fragment?⟩ := by
  obtain ⟨uss, huss⟩ := exists_spell hes
  have htokens : scan (text replaces (Text.joinWith "." (w :: ws)) es ++ suffix) =
      tokens replaces w ws uss ++ ⟨[], .rightParen, [')']⟩ :: scan suffix := by
    rw [text_eq replaces w ws huss, List.append_assoc, List.singleton_append,
      scan_chain_append (chain_tokens replaces hname huss) (.cons (by decide) suffix)]
    exact congrArg _ (scan_of_gap_cons (gap_of_none rfl))
  obtain ⟨us, g, h, hfront, heof, hscan⟩ := exists_scan_append_line hclosed hline
    (text replaces (Text.joinWith "." (w :: ws)) es ++ suffix)
  -- the search passes the front, and the reader stops at the parenthesis, so it never sees the suffix
  have hpassed : ∀ u ∈ us, u.kind ≠ .eof ∧ u.kind ≠ .keyword .create := fun u hu =>
    ⟨heof u hu, hcreate u (by rw [hfront]; exact List.mem_append_left _ hu)⟩
  obtain ⟨header, hread, hsignature⟩ :=
    exists_read replaces h w ws huss (c := ⟨[], .rightParen, [')']⟩) rfl (scan suffix)
  have hgap : withGap h (scan (text replaces (Text.joinWith "." (w :: ws)) es ++ suffix)) =
      ofKeyword h .create :: ((headWords replaces).map (ofKeyword blankGap) ++ (qualifiedTokens blankGap w ws ++
        ofSign blankGap '(' :: (listed (spaced uss) ++ ⟨[], .rightParen, [')']⟩ :: scan suffix))) := by
    rw [htokens, tokens]
    simp [withGap, ofKeyword]
  rw [Signature.ofScript?, hscan, search_append hpassed, hgap, search_create rfl hread]
  exact congrArg some hsignature

/-- A parameter called `in`, a type with a comma and a default value in it, and a number between them. -/
theorem ofScript?_written_in :
    let front : Text := "-- CREATE PROCEDURE old (a INT)\n"
    let es : List Entry := [.parameter ⟨"in", some .both, true, "T%ROWTYPE", none⟩, .fragment "12 (a, b)",
      .parameter ⟨"p", none, false, "NUMBER(10, f(x DEFAULT 1))", some (true, "g(1, 2)")⟩]
    let header : Text :=
      "CREATE OR REPLACE PROCEDURE s.run (in IN OUT NOCOPY T%ROWTYPE, 12 (a, b), p NUMBER(10, f(x DEFAULT 1)) := g(1, 2))"
    (Scan.IsClosed front ∧ front.getLast? = some '\n' ∧ (∀ t ∈ scan front, t.kind ≠ .keyword .create) ∧
      (∀ v ∈ (["s", "run"] : List Text), IsWord v) ∧ ∀ e ∈ es, e.IsSound) ∧
    Signature.ofScript? (front ++ (header ++ " IS 'open")) = some ⟨"s.run",
      [⟨"in", .both, "T%ROWTYPE"⟩, ⟨"p", .input, "NUMBER(10, f(x DEFAULT 1))"⟩], ["12 (a, b)"]⟩ := by
  intro front es header
  have hclosed : Scan.IsClosed front := by
    refine ⟨fun u hu cause => ?_, by decide +kernel⟩
    revert u
    cases cause <;> decide +kernel
  have hline : front.getLast? = some '\n' := by decide +kernel
  have hcreate : ∀ t ∈ scan front, t.kind ≠ .keyword .create := by decide +kernel
  have hname : ∀ v ∈ (["s", "run"] : List Text), IsWord v := by decide +kernel
  have hes : ∀ e ∈ es, e.IsSound := by
    refine List.forall_mem_cons.2 ⟨?_, List.forall_mem_cons.2 ⟨?_, List.forall_mem_singleton.2 ?_⟩⟩
    · exact ⟨by decide +kernel, by decide +kernel, ⟨"T", by decide +kernel⟩, by decide +kernel⟩
    · exact ⟨by decide +kernel, by decide +kernel⟩
    · exact ⟨by decide +kernel, by decide +kernel, ⟨"NUMBER", by decide +kernel⟩, by decide +kernel⟩
  have hread := ofScript?_written hclosed hline hcreate true hname hes " IS 'open"
  have htext : text true (Text.joinWith "." ["s", "run"]) es = header := by decide +kernel
  have hparts : (⟨Text.joinWith "." ["s", "run"], es.filterMap Entry.parameter?,
      es.filterMap Entry.fragment?⟩ : Signature) =
      ⟨"s.run", [⟨"in", .both, "T%ROWTYPE"⟩, ⟨"p", .input, "NUMBER(10, f(x DEFAULT 1))"⟩], ["12 (a, b)"]⟩ := by
    decide +kernel
  rw [htext, hparts] at hread
  exact ⟨⟨hclosed, hline, hcreate, hname, hes⟩, hread⟩

end DialectBridge.Header
