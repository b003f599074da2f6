import DialectBridge.Proofs.Schema.Bodies

/-!
# The word `DEFAULT` in other clauses

A column can be generated `BY DEFAULT`, and a reference can be followed by an action that ends in `SET DEFAULT`.
The word counts as the start of a default value there too, and takes what stands behind it: a word of the clause
itself, or the first word of the next clause, whose other words then mean nothing (`attributes_clauses`). Behind
the last clause there is nothing to take, and the column is lost (`Script.tables_default_words`).
-/

namespace DialectBridge.ColumnDefinition

open Token Reader
open Migration (attributes_nil attributes_step)

/-! ## Clauses -/

/-- A clause of a column definition: an attribute, or a phrase that holds the word `DEFAULT`. -/
inductive Clause where
  | ordinary (a : Attribute)
  /-- The column is generated by default; `word` stands behind `DEFAULT`. -/
  | identity (word : Text)
  /-- What is done with a reference to a row that goes away. -/
  | action
  deriving DecidableEq, Repr

/-- The token changes nothing at a column. -/
def IsInert (t : Token) : Prop :=
  IsPlain t ∧ t.keyword? ∉ [Keyword.not, .primary, .unique, .default, .references, .constraint].map some

/-- Tokens and whole groups that change nothing at a column. -/
inductive Inert : List Token → Prop where
  | nil : Inert []
  | token {t : Token} {ts : List Token} (inert : IsInert t) (rest : Inert ts) : Inert (t :: ts)
  | group {o : Token} {us ts : List Token} (opens : o.kind = .leftParen) (closes : Closes 0 us) (rest : Inert ts) :
      Inert (o :: (us ++ ts))

/-- The tokens of a clause. Behind its first word an attribute other than a default value has inert words only, so
its names are no keywords with a meaning of their own. -/
inductive Clause.Spells : Clause → List Token → Prop where
  | ordinary {a : Attribute} {t : Token} {us : List Token} (spells : a.Spells (t :: us)) (noDefault : a.default? = none)
      (inert : Inert us) : Spells (.ordinary a) (t :: us)
  /-- The phrase `GENERATED BY DEFAULT AS IDENTITY`. -/
  | identity {g b d a i : Token} (isGenerated : g.isWord "GENERATED" = true) (isBy : b.isWord "BY" = true)
      (isDefault : d.kind = .keyword .default) (isAs : a.kind = .keyword .as) (isIdentity : i.isWord "IDENTITY" = true)
      (gaps : ∀ t ∈ [b, d, i], t.gap ≠ []) : Spells (.identity a.lexeme) [g, b, d, a, i]
  /-- The phrase `GENERATED BY DEFAULT ON NULL AS IDENTITY`. -/
  | identityOnNull {g b d o n a i : Token} (isGenerated : g.isWord "GENERATED" = true) (isBy : b.isWord "BY" = true)
      (isDefault : d.kind = .keyword .default) (isOn : o.kind = .keyword .on) (isNull : n.kind = .keyword .null)
      (isAs : a.kind = .keyword .as) (isIdentity : i.isWord "IDENTITY" = true) (gaps : ∀ t ∈ [b, d, n], t.gap ≠ []) :
      Spells (.identity o.lexeme) [g, b, d, o, n, a, i]
  /-- The phrase `ON DELETE SET DEFAULT` or `ON UPDATE SET DEFAULT`. -/
  | action {o e s d : Token} (isOn : o.kind = .keyword .on)
      (isEvent : e.isWord "DELETE" = true ∨ e.isWord "UPDATE" = true)
      (isSet : s.isWord "SET" = true) (isDefault : d.kind = .keyword .default) (gaps : ∀ t ∈ [e, s, d], t.gap ≠ []) :
      Spells .action [o, e, s, d]

/-- The clause is a phrase that holds the word `DEFAULT`. -/
def Clause.isPhrase : Clause → Bool
  | ordinary _ => false
  | identity _ | action => true

/-- The attributes that are left of some clauses: an attribute behind an action loses its first word. -/
def survivors (behindAction : Bool) : List Clause → List Attribute
  | [] => []
  | .ordinary a :: cs => if behindAction then survivors false cs else a :: survivors false cs
  | .identity _ :: cs => survivors false cs
  | .action :: cs => survivors true cs

/-! ## Inert tokens -/

theorem attributes_inert {us : List Token} (h : Inert us) (d : Draft) (rest : List Token) :
    attributes d (us ++ rest) = attributes d rest := by
  induction h with
  | nil => rfl
  | @token t ts inert _ ih =>
    obtain ⟨hplain, hkeyword⟩ := inert
    refine (attributes_step (atEnd_of_kind hplain.2.2.2 _) ?_).trans ih
    simp only [attributeStep]
    split <;> simp_all [IsPlain]
  | group opens closes _ ih => rw [List.cons_append, List.append_assoc, attributes_group opens closes, ih]

theorem afterAdjacent_gap {rest : List Token} (h : ∀ t ∈ rest.head?, t.gap ≠ []) : afterAdjacent rest = .ok rest := by
  cases rest with
  | nil => simp [afterAdjacent]
  | cons t rest => exact afterAdjacent_stop (by simp [h t rfl])

/-- What adjoins a token is passed up to the first gap, and inert tokens are left. -/
theorem exists_afterAdjacent_inert {us rest : List Token} (h : Inert us) (hrest : ∀ t ∈ rest.head?, t.gap ≠ []) :
    ∃ vs, afterAdjacent (us ++ rest) = .ok (vs ++ rest) ∧ Inert vs := by
  induction h with
  | nil => exact ⟨[], afterAdjacent_gap hrest, .nil⟩
  | @token t ts inert hts ih =>
    by_cases hgap : t.gap = []
    · obtain ⟨vs, hvs, hinert⟩ := ih
      exact ⟨vs, (afterAdjacent_cons hgap inert.1.2.2.2 inert.1.1).trans hvs, hinert⟩
    · exact ⟨t :: ts, afterAdjacent_stop (by simp [hgap]), .token inert hts⟩
  | @group o us ts opens closes hts ih =>
    by_cases hgap : o.gap = []
    · obtain ⟨vs, hvs, hinert⟩ := ih
      refine ⟨vs, ?_, hinert⟩
      rw [List.cons_append, List.append_assoc, afterAdjacent_group hgap opens (closes _).1, hvs]
    · refine ⟨o :: (us ++ ts), ?_, .group opens closes hts⟩
      exact afterAdjacent_stop (by simp [hgap])

/-- A default value takes the first token, with what adjoins it. -/
theorem exists_defaultValue_inert {t : Token} (ht : IsPlain t) {us rest : List Token} (h : Inert us)
    (hrest : ∀ t ∈ rest.head?, t.gap ≠ []) :
    ∃ v vs, defaultValue (t :: (us ++ rest)) = .ok (v, vs ++ rest) ∧ Inert vs := by
  obtain ⟨vs, hvs, hinert⟩ := exists_afterAdjacent_inert h hrest
  exact ⟨_, vs, defaultValue_eq (atEnd_of_kind ht.2.2.2 _) (afterItem_plain ht.1 _) hvs, hinert⟩

/-! ## Phrases -/

theorem isInert_of_isWord {t : Token} {w : Text} (h : t.isWord w = true) : IsInert t := by
  unfold isWord at h
  split at h
  · next heq => simp [IsInert, IsPlain, keyword?, heq]
  · cases h

theorem isInert_of_keyword {t : Token} {keyword : Keyword} (h : t.kind = .keyword keyword)
    (hnot : keyword ∉ [Keyword.not, .primary, .unique, .default, .references, .constraint]) : IsInert t := by
  refine ⟨isPlain_of_keyword h, ?_⟩
  simpa [keyword?, h] using hnot

/-- A phrase is a word and inert tokens up to its `DEFAULT`. -/
theorem Clause.Spells.exists_default {c : Clause} {us : List Token} (h : c.Spells us) (hphrase : c.isPhrase = true) :
    ∃ t lead d back, us = t :: (lead ++ d :: back) ∧ IsInert t ∧ Inert lead ∧ d.kind = .keyword .default ∧ d.gap ≠ [] ∧
      (c = .action → back = []) ∧ ∀ w, c = .identity w → ∃ u ts, back = u :: ts ∧ IsPlain u ∧ u.lexeme = w ∧
        Inert ts ∧ ∀ x ∈ ts.head?, x.gap ≠ [] := by
  cases h with
  | ordinary => cases hphrase
  | @identity g b d a i hg hb hd ha hi hgaps =>
    refine ⟨g, [b], d, [a, i], rfl, isInert_of_isWord hg, .token (isInert_of_isWord hb) .nil, hd, hgaps d (by simp),
      by simp, ?_⟩
    rintro w ⟨⟩
    exact ⟨a, [i], rfl, isPlain_of_keyword ha, rfl, .token (isInert_of_isWord hi) .nil,
      by simpa using hgaps i (by simp)⟩
  | @identityOnNull g b d o n a i hg hb hd ho hn ha hi hgaps =>
    refine ⟨g, [b], d, [o, n, a, i], rfl, isInert_of_isWord hg, .token (isInert_of_isWord hb) .nil, hd,
      hgaps d (by simp), by simp, ?_⟩
    rintro w ⟨⟩
    refine ⟨o, [n, a, i], rfl, isPlain_of_keyword ho, rfl, ?_, by simpa using hgaps n (by simp)⟩
    exact .token (isInert_of_keyword hn (by decide)) (.token (isInert_of_keyword ha (by decide))
      (.token (isInert_of_isWord hi) .nil))
  | @action o e s d ho he hs hd hgaps =>
    have hevent : IsInert e := he.elim isInert_of_isWord isInert_of_isWord
    exact ⟨o, [e, s], d, [], rfl, isInert_of_keyword ho (by decide), .token hevent (.token (isInert_of_isWord hs) .nil),
      hd, hgaps d (by simp), fun _ => rfl, by simp⟩

/-! ## What is read -/

/-- The draft with this default value, or with none. -/
def Draft.withDefault (d : Draft) (value : Option Text) : Draft :=
  { d with column := { d.column with default := value } }

/-- What is taken for the default value. Only phrases change it, and the last phrase does so for good. -/
structure TakesDefault (old : Option Text) (cs : List Clause) (value : Option Text) : Prop where
  unchanged : (∀ c ∈ cs, c.isPhrase = false) → value = old
  isSome : (∃ c ∈ cs, c.isPhrase = true) → value.isSome = true
  word : ∀ w, (cs.filter Clause.isPhrase).getLast? = some (.identity w) → value = some w

/-- How clauses are read that stand behind an action or not: if the last one is an action, not at all, and otherwise
as the attributes that are left of them, with some default value. -/
def IsReadAs (behindAction : Bool) (cs : List Clause) (d : Draft) (r : Except ReadError Draft) : Prop :=
  (cs.getLast? = some .action → ∃ e, r = .error e) ∧ (cs.getLast? ≠ some .action → ∃ value,
    r = .ok (((survivors behindAction cs).foldl Attribute.apply d).withDefault value) ∧
      TakesDefault d.column.default cs value)

theorem apply_withDefault (d : Draft) (value : Option Text) (a : Attribute) :
    ∃ other, a.apply (d.withDefault value) = (a.apply d).withDefault other := by
  cases a <;> exact ⟨_, rfl⟩

theorem foldl_apply_withDefault (as : List Attribute) (d : Draft) (old value : Option Text) :
    (as.foldl Attribute.apply (d.withDefault old)).withDefault value =
      (as.foldl Attribute.apply d).withDefault value := by
  induction as generalizing d old with
  | nil => rfl
  | cons a as ih =>
    obtain ⟨other, hother⟩ := apply_withDefault d old a
    rw [List.foldl_cons, List.foldl_cons, hother, ih]

theorem default_apply {a : Attribute} (h : a.default? = none) (d : Draft) :
    (a.apply d).column.default = d.column.default := by
  cases a <;> first | rfl | cases h

theorem getLast?_cons_eq_action {c : Clause} (hc : c ≠ .action) (cs : List Clause) :
    (c :: cs).getLast? = some .action ↔ cs.getLast? = some .action := by
  cases cs with
  | nil => simpa using hc
  | cons d cs => rw [List.getLast?_cons_cons]

variable {cs : List Clause} {d : Draft} {r : Except ReadError Draft}

theorem TakesDefault.ordinary {old value : Option Text} (h : TakesDefault old cs value) (a : Attribute) :
    TakesDefault old (.ordinary a :: cs) value := by
  refine ⟨fun hnone => h.unchanged fun c hc => hnone c (List.mem_cons_of_mem _ hc), ?_, fun w hw => h.word w hw⟩
  rintro ⟨c, hc, hphrase⟩
  rcases List.mem_cons.1 hc with rfl | hc
  · cases hphrase
  · exact h.isSome ⟨c, hc, hphrase⟩

/-- A phrase leaves a default value, which later phrases replace. -/
theorem TakesDefault.phrase {old value : Option Text} {v : Text} (h : TakesDefault (some v) cs value) {c : Clause}
    (hc : c.isPhrase = true) (hword : ∀ w, c = .identity w → v = w) : TakesDefault old (c :: cs) value := by
  have hlater : value.isSome = true := by
    by_cases hnone : ∀ c ∈ cs, c.isPhrase = false
    · rw [h.unchanged hnone]
      rfl
    · exact h.isSome (by simpa using hnone)
  refine ⟨fun hnone => ?_, fun _ => hlater, fun w hw => ?_⟩
  · rw [hnone c List.mem_cons_self] at hc
    cases hc
  · rw [List.filter_cons_of_pos hc] at hw
    cases hcs : cs.filter Clause.isPhrase with
    | nil =>
      rw [hcs] at hw
      rw [h.unchanged (by simpa using hcs), hword w (Option.some.inj hw)]
    | cons e es =>
      rw [hcs, List.getLast?_cons_cons, ← hcs] at hw
      exact h.word w hw

theorem IsReadAs.ordinary {a : Attribute} (ha : a.default? = none) (h : IsReadAs false cs (a.apply d) r) :
    IsReadAs false (.ordinary a :: cs) d r := by
  have hlast := getLast?_cons_eq_action (c := .ordinary a) (by simp) cs
  refine ⟨fun heq => h.1 (hlast.1 heq), fun hne => ?_⟩
  obtain ⟨value, hr, hvalue⟩ := h.2 (mt hlast.2 hne)
  rw [default_apply ha] at hvalue
  exact ⟨value, hr, hvalue.ordinary a⟩

theorem IsReadAs.swallowed (a : Attribute) (h : IsReadAs false cs d r) : IsReadAs true (.ordinary a :: cs) d r := by
  have hlast := getLast?_cons_eq_action (c := .ordinary a) (by simp) cs
  refine ⟨fun heq => h.1 (hlast.1 heq), fun hne => ?_⟩
  obtain ⟨value, hr, hvalue⟩ := h.2 (mt hlast.2 hne)
  exact ⟨value, hr, hvalue.ordinary a⟩

theorem IsReadAs.identity {w : Text} (behindAction : Bool) (h : IsReadAs false cs (d.setDefault w) r) :
    IsReadAs behindAction (.identity w :: cs) d r := by
  have hlast := getLast?_cons_eq_action (c := .identity w) (by simp) cs
  refine ⟨fun heq => h.1 (hlast.1 heq), fun hne => ?_⟩
  obtain ⟨value, hr, hvalue⟩ := h.2 (mt hlast.2 hne)
  refine ⟨value, hr.trans (congrArg Except.ok ?_), hvalue.phrase rfl fun w' hw => by cases hw; rfl⟩
  exact foldl_apply_withDefault (survivors false cs) d (some w) value

theorem IsReadAs.action {v : Text} (behindAction : Bool) (hne : cs ≠ []) (h : IsReadAs true cs (d.setDefault v) r) :
    IsReadAs behindAction (.action :: cs) d r := by
  have hlast : (Clause.action :: cs).getLast? = cs.getLast? := by
    obtain ⟨c, cs, rfl⟩ := List.exists_cons_of_ne_nil hne
    exact List.getLast?_cons_cons
  refine ⟨fun heq => h.1 (hlast ▸ heq), fun hnot => ?_⟩
  obtain ⟨value, hr, hvalue⟩ := h.2 (hlast ▸ hnot)
  refine ⟨value, hr.trans (congrArg Except.ok ?_), hvalue.phrase rfl (by simp)⟩
  exact foldl_apply_withDefault (survivors true cs) d (some v) value

/-! ## Reading clauses -/

/-- No type goes on with the first word of a phrase. -/
theorem typeContinuations_generated (base : Text) {t : Token} (ht : t.isWord "GENERATED" = true) :
    (typeContinuations base).any t.isWord = false := by
  have hlists : ∀ w ∈ typeContinuations base, Text.lower w ≠ Text.lower "GENERATED" := by
    unfold typeContinuations
    split_ifs <;> decide
  unfold isWord at ht
  split at ht
  · next name heq =>
    rw [List.any_eq_false]
    intro w hw hword
    rw [isWord, heq, Text.same_iff] at hword
    exact hlists w hw (hword.symm.trans (Text.same_iff.1 ht))
  · cases ht

theorem Separated.startsClause_clauses {cs : List Clause} {us : List Token} (h : Separated Clause.Spells cs us) :
    StartsClause us := by
  cases h with
  | nil => exact startsClause_nil
  | @cons c cs t us ts first gap _ =>
    have hword (hg : t.isWord "GENERATED" = true) : StartsClause (t :: (us ++ ts)) := by
      intro u hu
      obtain rfl := Option.some.inj hu
      have hinert := isInert_of_isWord hg
      refine ⟨gap, fun hdot => ?_, hinert.1.1, fun base => typeContinuations_generated base hg⟩
      simp [isWord, hdot] at hg
    cases first with
    | ordinary spells =>
      obtain ⟨keyword, hkind⟩ := spells.exists_keyword
      exact startsClause_of_keyword hkind gap _
    | identity hg => exact hword hg
    | identityOnNull hg => exact hword hg
    | action ho => exact startsClause_of_keyword ho gap _

theorem attributes_default {t : Token} (ht : t.kind = .keyword .default) {ts rest : List Token} {v : Text}
    (h : defaultValue ts = .ok (v, rest)) (d : Draft) : attributes d (t :: ts) = attributes (d.setDefault v) rest := by
  refine attributes_step (atEnd_of_kind (by simp [ht]) _) ?_
  simpa [attributeStep, keyword?, ht] using map_reader h d.setDefault

/-- At the end of a definition there is nothing to take. -/
theorem attributes_default_nil {t : Token} (ht : t.kind = .keyword .default) (d : Draft) :
    ∃ e, attributes d [t] = .error e := by
  have hstep : attributeStep d [t] = .error (.unexpected "default value" []) := by
    simp only [attributeStep, keyword?, ht]
    rfl
  rw [attributes_eq, if_neg (by simp [atEnd_of_kind, ht]), hstep]
  exact ⟨_, rfl⟩

/-- What is read of some clauses from their start, and from behind a default value that took their first word. -/
def AreRead (cs : List Clause) (us : List Token) : Prop :=
  (∀ d, IsReadAs false cs d (attributes d us)) ∧ (cs ≠ [] → ∃ v rest, defaultValue us = .ok (v, rest) ∧
    ∀ d, IsReadAs true cs d (attributes d rest))

theorem areRead_nil : AreRead [] [] := by
  refine ⟨fun d => ⟨by simp, fun _ => ⟨d.column.default, attributes_nil d, fun _ => rfl, by simp, by simp⟩⟩, by simp⟩

theorem AreRead.ordinary {a : Attribute} {t : Token} {us ts : List Token} (spells : a.Spells (t :: us))
    (noDefault : a.default? = none) (inert : Inert us) (hstarts : StartsClause ts) (h : AreRead cs ts) :
    AreRead (.ordinary a :: cs) (t :: (us ++ ts)) := by
  refine ⟨fun d => ?_, fun _ => ?_⟩
  · rw [← List.cons_append, attributes_spelled spells hstarts]
    exact (h.1 _).ordinary noDefault
  · obtain ⟨keyword, hkind⟩ := spells.exists_keyword
    obtain ⟨v, vs, hvalue, hvs⟩ :=
      exists_defaultValue_inert (isPlain_of_keyword hkind) inert fun t ht => (hstarts t ht).1
    refine ⟨v, vs ++ ts, hvalue, fun d => ?_⟩
    rw [attributes_inert hvs]
    exact (h.1 d).swallowed a

/-- It makes no difference to a phrase whether its first word is taken. -/
theorem areRead_phrase {c : Clause} {t : Token} (ht : IsInert t) {lead rest : List Token} (hlead : Inert lead)
    (hrest : ∀ t ∈ rest.head?, t.gap ≠ [])
    (h : ∀ behindAction d, IsReadAs behindAction (c :: cs) d (attributes d rest)) :
    AreRead (c :: cs) (t :: (lead ++ rest)) := by
  refine ⟨fun d => ?_, fun _ => ?_⟩
  · rw [← List.cons_append, attributes_inert (.token ht hlead)]
    exact h false d
  · obtain ⟨v, vs, hvalue, hvs⟩ := exists_defaultValue_inert ht.1 hlead hrest
    refine ⟨v, vs ++ rest, hvalue, fun d => ?_⟩
    rw [attributes_inert hvs]
    exact h true d

/-- Clauses one behind the other. -/
theorem areRead_of_separated {cs : List Clause} {us : List Token} (h : Separated Clause.Spells cs us) :
    AreRead cs us := by
  induction h with
  | nil => exact areRead_nil
  | @cons c cs t us ts first gap hrest ih =>
    have hstarts := hrest.startsClause_clauses
    cases hphrase : c.isPhrase with
    | false =>
      cases first with
      | ordinary spells noDefault inert => exact ih.ordinary spells noDefault inert hstarts
      | _ => cases hphrase
    | true =>
      obtain ⟨t', lead, d, back, heq, ht, hlead, hd, hgap, haction, hidentity⟩ := first.exists_default hphrase
      obtain ⟨rfl, rfl⟩ := List.cons.inj heq
      rw [List.append_assoc, List.cons_append]
      refine areRead_phrase ht hlead (by simpa using hgap) fun behindAction draft => ?_
      cases c with
      | ordinary a => cases hphrase
      | identity w =>
        obtain ⟨u, vs, rfl, hu, rfl, hvs, hgaps⟩ := hidentity w rfl
        have hnext : ∀ x ∈ (vs ++ ts).head?, x.gap ≠ [] := by
          cases vs with
          | nil => exact fun x hx => (hstarts x hx).1
          | cons v vs => exact hgaps
        have hvalue : defaultValue (u :: (vs ++ ts)) = .ok (u.lexeme, vs ++ ts) := by
          have hread := defaultValue_eq (atEnd_of_kind hu.2.2.2 _) (afterItem_plain hu.1 (vs ++ ts))
            (afterAdjacent_gap hnext)
          rw [← List.singleton_append, taken_append] at hread
          simpa [verbatim] using hread
        rw [List.cons_append, attributes_default hd hvalue, attributes_inert hvs]
        exact (ih.1 _).identity behindAction
      | action =>
        obtain rfl := haction rfl
        cases hcs : cs with
        | nil =>
          subst hcs
          cases hrest
          exact ⟨fun _ => attributes_default_nil hd draft, fun hne => absurd rfl hne⟩
        | cons e es =>
          rw [← hcs]
          have hne : cs ≠ [] := by simp [hcs]
          obtain ⟨v, rest, hvalue, hread⟩ := ih.2 hne
          rw [List.nil_append, attributes_default hd hvalue]
          exact (hread _).action behindAction hne

/-! ## Columns -/

variable {name type : Text} {us : List Token}

/-- What is read of a definition, as of its clauses behind the type. -/
theorem isReadAs_read (h : SpellsColumn Clause.Spells name type cs us) :
    IsReadAs false cs ⟨.plain name type, none⟩ (read us) := by
  obtain ⟨ts, hts, hread⟩ := read_spelled h fun _ => Separated.startsClause_clauses
  rw [hread]
  exact (areRead_of_separated hts).1 _

/-- A definition that ends in an action declares nothing. -/
theorem declarationOf?_lost (h : SpellsColumn Clause.Spells name type cs us) (hlast : cs.getLast? = some .action) :
    Fragment.declarationOf? us = none := by
  obtain ⟨e, he⟩ := (isReadAs_read h).1 hlast
  rw [Fragment.declarationOf?, Fragment.declaration?, Fragment.read]
  simp only [isConstraint_spelled h, Bool.false_eq_true, if_false, he]
  rfl

/-- The column of a definition with these clauses and this default value. -/
def keptColumn (name type : Text) (cs : List Clause) (value : Option Text) : Column :=
  { declaredColumn name type (survivors false cs) with default := value }

/-- Any other definition declares a column, with the attributes that are left of its clauses. -/
theorem exists_declarationOf?_kept (h : SpellsColumn Clause.Spells name type cs us)
    (hlast : cs.getLast? ≠ some .action) : ∃ value, TakesDefault none cs value ∧ Fragment.declarationOf? us =
      some (.column ⟨keptColumn name type cs value, declaredReference name (survivors false cs)⟩) := by
  obtain ⟨value, hread, hvalue⟩ := (isReadAs_read h).2 hlast
  rw [foldl_apply] at hread
  exact ⟨value, hvalue, Migration.declarationOf?_column (isConstraint_spelled h) hread⟩

end DialectBridge.ColumnDefinition

namespace DialectBridge.Script

open Token Reader ColumnDefinition

/-- The word `DEFAULT` counts in a phrase too. A definition that ends in an action is lost, with its reference. Any
other one declares its column, but an attribute behind an action is not read, and if there is a phrase, the column
has a default value: the word behind `DEFAULT` if the last phrase is of an identity column. -/
theorem tables_default_words (dialect : Dialect) {script : Text} {front run back : List Token}
    (hscript : scan script = front ++ (run ++ back)) (hfront : IsStatementStart front) {table : Text}
    {before after : List Piece} {us : List Token} {delimiter : Token}
    (hrun : SpellsTable table (before ++ ⟨us, delimiter⟩ :: after) run) {name type : Text} {cs : List Clause}
    (hcolumn : SpellsColumn Clause.Spells name type cs us) :
    ∃ t ∈ tables dialect script, t.name = table ∧
      (cs.getLast? = some .action →
        t.columns = (uniqueNamesOf before ++ uniqueNamesOf after).foldl Table.markUnique
          (columnsOf before ++ columnsOf after) ∧
        t.foreignKeys = (foreignKeysOf before ++ foreignKeysOf after).map (completeKey (indexed dialect script))) ∧
      (cs.getLast? ≠ some .action → ∃ value, TakesDefault none cs value ∧
        t.columns = (uniqueNamesOf before ++ uniqueNamesOf after).foldl Table.markUnique
          (columnsOf before ++ keptColumn name type cs value :: columnsOf after) ∧
        t.foreignKeys = (foreignKeysOf before ++ (declaredReference name (survivors false cs)).toList ++
          foreignKeysOf after).map (completeKey (indexed dialect script))) := by
  by_cases hlast : cs.getLast? = some .action
  · obtain ⟨t, ht, hname, hcolumns, hkeys⟩ := exists_table dialect hscript hfront hrun
    have hpiece : declarationsOf (⟨us, delimiter⟩ :: after) = declarationsOf after := by
      simp [declarationsOf, declarationOf?_lost hcolumn hlast]
    rw [declarationsOf_append, hpiece] at hcolumns hkeys
    refine ⟨t, ht, hname, fun _ => ⟨?_, ?_⟩, fun hnot => absurd hlast hnot⟩
    · simpa [columnsOf, uniqueNamesOf] using hcolumns
    · simpa [foreignKeysOf] using hkeys
  · obtain ⟨value, hvalue, hdeclares⟩ := exists_declarationOf?_kept hcolumn hlast
    obtain ⟨t, ht, hname, hcolumns, hkeys⟩ := exists_table_of_column dialect hscript hfront hrun hdeclares
    exact ⟨t, ht, hname, fun heq => absurd heq hlast, fun _ => ⟨value, hvalue, hcolumns, hkeys⟩⟩

open Migration in
/-- The action takes the `NOT` of `NOT NULL`, and the phrase behind it the word `AS`. -/
theorem tables_default_words_both :
    ∃ t ∈ tables .oracle
        "CREATE TABLE t (c INT REFERENCES p (k) ON DELETE SET DEFAULT NOT NULL GENERATED BY DEFAULT AS IDENTITY)",
      t.name = "t".toList ∧ t.columns = [⟨"c", "INT", true, false, false, some "AS"⟩] ∧
        t.foreignKeys = [⟨"c", "p", "k"⟩] := by
  let group : List Token := [ofSign blankGap '(', ofWord [] "k", ofSign [] ')']
  let references : List Token := [ofWord blankGap "p"] ++ group
  let action : List Token := [ofWord blankGap "DELETE", ofWord blankGap "SET", ofKeyword blankGap .default]
  let notNull : List Token := [ofKeyword blankGap .null]
  let identity : List Token :=
    [ofWord blankGap "BY", ofKeyword blankGap .default, ofKeyword blankGap .as, ofWord blankGap "IDENTITY"]
  let clauses : List Token := ofKeyword blankGap .references :: (references ++ ofKeyword blankGap .on :: (action ++
    ofKeyword blankGap .not :: (notNull ++ ofWord blankGap "GENERATED" :: (identity ++ []))))
  let cs : List Clause := [.ordinary (.references "p" (some "k")), .action, .ordinary .notNull, .identity "AS"]
  let us : List Token := ofWord [] "c" :: ([ofWord blankGap "INT"] ++ clauses)
  let pieces : List Piece := [] ++ ⟨us, ofSign [] ')'⟩ :: []
  let head : List Token := [] ++ ([] ++ ([] ++ ofKeyword blankGap .table :: ([] ++ [ofWord blankGap "t"])))
  have hgroup : Closes 0 [ofWord [] "k", ofSign [] ')'] := closes_of_afterGroup? (by decide)
  have hinert : Inert references :=
    .token (@isInert_of_isWord _ "p" rfl) (@Inert.group _ _ [] rfl hgroup .nil)
  have hnull : Inert notNull := .token (@isInert_of_keyword _ .null rfl (by decide)) .nil
  have hgaps : ∀ t ∈ action, t.gap ≠ [] := by decide
  have haction : Clause.Spells .action (ofKeyword blankGap .on :: action) := .action rfl (.inl rfl) rfl rfl hgaps
  have hidentity : Clause.Spells (.identity "AS") (ofWord blankGap "GENERATED" :: identity) :=
    @Clause.Spells.identity _ _ _ (ofKeyword blankGap .as) _ rfl rfl rfl rfl rfl (by decide)
  have hclauses : Separated Clause.Spells cs clauses := by
    refine .cons (.ordinary (@Attribute.Spells.column _ _ _ _ ["p"] [_] "k" rfl (.last rfl) rfl rfl rfl) rfl hinert)
      (by decide) ?_
    refine .cons haction (by decide) (.cons (.ordinary (.notNull rfl rfl) rfl hnull) (by decide) ?_)
    exact .cons hidentity (by decide) .nil
  have hcolumn : SpellsColumn Clause.Spells "c" (verbatim [ofWord blankGap "INT"]) cs us :=
    .mk rfl rfl ⟨_, _, _, rfl, rfl, .nil⟩ hclauses
  have hlevel : Level us :=
    (@flat_of_isFlat isComma us (by decide +kernel) (by decide +kernel)).level fun _ h => h
  have hrun : SpellsTable "t" pieces
      (ofKeyword [] .create :: (head ++ ofSign blankGap '(' :: pieces.flatMap Piece.all)) :=
    .mk rfl (.mk (.inl rfl) (.inl rfl) (.inl rfl) rfl (.inl rfl) (.last rfl) (by decide)) rfl rfl (.last hlevel rfl)
  have hscan : scan
      "CREATE TABLE t (c INT REFERENCES p (k) ON DELETE SET DEFAULT NOT NULL GENERATED BY DEFAULT AS IDENTITY)" =
      [] ++ ((ofKeyword [] .create :: (head ++ ofSign blankGap '(' :: pieces.flatMap Piece.all)) ++
        [⟨[], .eof, []⟩]) := by
    decide +kernel
  obtain ⟨t, ht, hname, -, hkept⟩ := tables_default_words .oracle hscan (.inl rfl) hrun hcolumn
  obtain ⟨value, hvalue, hcolumns, hkeys⟩ := hkept (by decide)
  obtain rfl := hvalue.word "AS" (by decide)
  have hdeclared : foreignKeysOf [] ++ (declaredReference "c" (survivors false cs)).toList ++ foreignKeysOf [] =
    [⟨"c", "p", "k"⟩] := by decide +kernel
  rw [hdeclared, List.map_singleton, completeKey_of_named (by decide)] at hkeys
  exact ⟨t, ht, hname, hcolumns.trans (by decide +kernel), hkeys⟩

/-- Without the phrase the columns would be kept, and would have no default value. -/
theorem default_words_taken :
    (tables .postgresql "CREATE TABLE t (id INT REFERENCES p (id) ON DELETE SET DEFAULT)").map Table.columns = [[]] ∧
      (tables .postgresql "CREATE TABLE t (id INT GENERATED BY DEFAULT AS IDENTITY)").map Table.columns =
        [[⟨"id", "INT", true, false, false, some "AS"⟩]] := by
  decide +kernel

end DialectBridge.Script
