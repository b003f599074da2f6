import DialectBridge.Proofs.Rename.Words
import DialectBridge.Proofs.Text.Bare
import DialectBridge.Proofs.Text.Split
import DialectBridge.Schema.Script

/-!
# Names under renaming

A glossary whose targets are new words keeps names apart: two names mean the same after replacing
exactly if they did before (`replace_same`). It also leaves alone the words that readers look for.
-/

namespace DialectBridge

namespace Text

variable {r r' t t' : Text}

theorem lower_append (s t : Text) : lower (s ++ t) = lower s ++ lower t := by
  simp [lower]

/-- Texts that start with a run of identifier characters are compared run by run. -/
theorem same_run (hr : ∀ c ∈ r, isIdentifierCharacter c = true) (hr' : ∀ c ∈ r', isIdentifierCharacter c = true)
    (ht : t.head?.any isIdentifierCharacter = false) (ht' : t'.head?.any isIdentifierCharacter = false) :
    same (r ++ t) (r' ++ t') = (same r r' && same t t') := by
  have hlower {r : Text} (hr : ∀ c ∈ r, isIdentifierCharacter c = true) :
      ∀ c ∈ lower r, isIdentifierCharacter c = true := by
    intro c hc
    obtain ⟨d, hd, rfl⟩ := List.mem_map.1 hc
    rw [isIdentifierCharacter_toLower, hr d hd]
  have hstop {t : Text} (ht : t.head?.any isIdentifierCharacter = false) :
      (lower t).head?.any isIdentifierCharacter = false := by
    cases t with
    | nil => rfl
    | cons c t => simpa [lower, isIdentifierCharacter_toLower] using ht
  rw [Bool.eq_iff_iff, Bool.and_eq_true, same_iff, same_iff, same_iff, lower_append, lower_append]
  constructor
  · intro h
    have htake := congrArg (List.takeWhile isIdentifierCharacter) h
    have hdrop := congrArg (List.dropWhile isIdentifierCharacter) h
    rw [takeWhile_run (hlower hr) (hstop ht), takeWhile_run (hlower hr') (hstop ht')] at htake
    rw [dropWhile_run (hlower hr) (hstop ht), dropWhile_run (hlower hr') (hstop ht')] at hdrop
    exact ⟨htake, hdrop⟩
  · rintro ⟨hruns, hrests⟩
    rw [hruns, hrests]

theorem same_cons (c d : Char) (s t : Text) : same (c :: s) (d :: t) = (c.toLower == d.toLower && same s t) := by
  rw [Bool.eq_iff_iff]
  simp [same_iff, lower]

/-- A run of identifier characters does not start like other text. -/
theorem same_cons_run {c : Char} (hc : isIdentifierCharacter c = false) (hne : r ≠ [])
    (hr : ∀ d ∈ r, isIdentifierCharacter d = true) (s t : Text) : same (c :: s) (r ++ t) = false := by
  obtain ⟨d, r, rfl⟩ := List.exists_cons_of_ne_nil hne
  have hdiffer : c.toLower ≠ d.toLower := by
    intro heq
    have hd := hr d List.mem_cons_self
    rw [← isIdentifierCharacter_toLower, ← heq, isIdentifierCharacter_toLower, hc] at hd
    cases hd
  rw [List.cons_append, same_cons, beq_eq_false_iff_ne.2 hdiffer, Bool.false_and]

theorem same_nil_left (t : Text) : same [] t = t.isEmpty := by
  cases t <;> rfl

theorem same_nil_right (t : Text) : same t [] = t.isEmpty := by
  rw [same_comm, same_nil_left]

end Text

namespace Glossary

/-! ## Glossaries that keep names apart -/

/-- The words that a type of several words is made of. -/
def typeWords : List Text :=
  ["DOUBLE", "PRECISION", "LONG", "RAW", "CHARACTER", "VARYING", "TIMESTAMP", "TIME", "WITH", "WITHOUT", "LOCAL",
    "ZONE", "INTERVAL", "YEAR", "MONTH", "DAY", "SECOND", "TO"]

/-- The words that readers of scripts look for: keywords, the words of types, and the kind of an
index. -/
def reservedWords : List Text :=
  ("BITMAP" : Text) :: (typeWords ++ Keyword.all.map Keyword.text)

/-- The targets are words that differ up to case, and no reserved word is listed or a target. -/
structure KeepsApart (g : Glossary) : Prop extends g.ListsNames fun c => c.toNat < 128 where
  distinct : ∀ e ∈ g.targets, ∀ f ∈ g.targets, e.2.same f.2 = true → e.1 = f.1
  key_free : ∀ e ∈ g.targets, ∀ w ∈ reservedWords, e.1 ≠ w.lower
  target_free : ∀ e ∈ g.targets, ∀ w ∈ reservedWords, e.2.same w = false

/-- An ASCII text in which no target occurs as a word. -/
structure Knows (g : Glossary) (t : Text) : Prop where
  ascii : t.IsAscii
  words : ∀ w ∈ t.runs isIdentifierCharacter, ∀ e ∈ g.targets, w.same e.2 = false

variable {g : Glossary} {p : Char → Prop}

/-! ## Words -/

theorem rename_run (hg : g.ListsNames p) {w : Text} (hne : w ≠ []) (hw : ∀ c ∈ w, isIdentifierCharacter c = true) :
    g.rename w ≠ [] ∧ ∀ c ∈ g.rename w, isIdentifierCharacter c = true := by
  rcases rename_cases g w with h | ⟨e, he, -, h⟩
  · rw [h]
    exact ⟨hne, hw⟩
  · rw [h]
    exact ⟨(hg.target e he).ne_nil, (hg.target e he).forall_identifier⟩

/-- Words that are no targets are the same after renaming exactly if they were before. -/
theorem same_rename (hg : g.KeepsApart) {v w : Text} (hv : v.IsAscii) (hw : w.IsAscii)
    (hvnew : ∀ e ∈ g.targets, v.same e.2 = false) (hwnew : ∀ e ∈ g.targets, w.same e.2 = false) :
    (g.rename v).same (g.rename w) = v.same w := by
  rw [Bool.eq_iff_iff]
  refine ⟨fun h => ?_, rename_same hv hw⟩
  rcases rename_cases g v with hv' | ⟨e, he, hkey, hv'⟩ <;> rcases rename_cases g w with hw' | ⟨f, hf, hkey', hw'⟩
  · rwa [hv', hw'] at h
  · rw [hv', hw', hvnew f hf] at h
    cases h
  · rw [hv', hw', Text.same_comm, hwnew e he] at h
    cases h
  · rw [hv', hw'] at h
    have hkeys := hg.distinct e he f hf h
    rw [hkey, hkey', Text.lowercase_of_ascii hv, Text.lowercase_of_ascii hw] at hkeys
    exact Text.same_iff.2 hkeys

/-! ## Texts -/

theorem knows_nil : g.Knows [] :=
  ⟨by simp [Text.Over], by simp [Text.runs]⟩

theorem Knows.tail {c : Char} {t : Text} (h : g.Knows (c :: t)) (hc : isIdentifierCharacter c = false) :
    g.Knows t :=
  ⟨(List.forall_mem_cons.1 h.ascii).2, fun w hw => h.words w (by rwa [Text.runs_cons_of_not hc])⟩

theorem Knows.run {r t : Text} (h : g.Knows (r ++ t)) (hne : r ≠ [])
    (hr : ∀ c ∈ r, isIdentifierCharacter c = true) (hstop : t.head?.any isIdentifierCharacter = false) :
    (∀ e ∈ g.targets, r.same e.2 = false) ∧ g.Knows t := by
  have hwords := h.words
  rw [Text.runs_run hne hr hstop] at hwords
  obtain ⟨hword, hrest⟩ := List.forall_mem_cons.1 hwords
  exact ⟨hword, (Text.Over.append_iff.1 h.ascii).2, hrest⟩

theorem replace_eq_nil (hg : g.ListsNames p) {t : Text} (ht : t.Over p) : g.replace t = [] ↔ t = [] := by
  induction t using Text.run_induction isIdentifierCharacter with
  | nil => simp [replace_nil hg]
  | other c t hc _ => simp [replace_other hg ht hc]
  | run r t hne hr hstop _ => simp [replace_run hg hne hr ht hstop, hne, (rename_run hg hne hr).1]

theorem head?_any_replace (hg : g.ListsNames p) {t : Text} (ht : t.Over p)
    (hstop : t.head?.any isIdentifierCharacter = false) :
    (g.replace t).head?.any isIdentifierCharacter = false := by
  cases t with
  | nil => rw [replace_nil hg]; rfl
  | cons c t =>
    have hc : isIdentifierCharacter c = false := by simpa using hstop
    rw [replace_other hg ht hc]
    exact hstop

/-- Texts without targets are the same after replacing exactly if they were before. -/
theorem replace_same (hg : g.KeepsApart) {s t : Text} (hs : g.Knows s) (ht : g.Knows t) :
    (g.replace s).same (g.replace t) = s.same t := by
  have hlists := hg.toListsNames
  induction s using Text.run_induction isIdentifierCharacter generalizing t with
  | nil =>
    rw [replace_nil hlists, Text.same_nil_left, Text.same_nil_left, Bool.eq_iff_iff, List.isEmpty_iff,
      List.isEmpty_iff, replace_eq_nil hlists ht.ascii]
  | other c s hc ih =>
    rw [replace_other hlists hs.ascii hc]
    cases t using Text.run_induction isIdentifierCharacter with
    | nil => rw [replace_nil hlists]; rfl
    | other d t hd _ =>
      rw [replace_other hlists ht.ascii hd, Text.same_cons, Text.same_cons, ih (hs.tail hc) (ht.tail hd)]
    | run r t hne hr hstop _ =>
      obtain ⟨hne', hr'⟩ := rename_run hlists hne hr
      rw [replace_run hlists hne hr ht.ascii hstop, Text.same_cons_run hc hne' hr', Text.same_cons_run hc hne hr]
  | run r s hne hr hstop ih =>
    obtain ⟨hne', hr'⟩ := rename_run hlists hne hr
    rw [replace_run hlists hne hr hs.ascii hstop]
    cases t using Text.run_induction isIdentifierCharacter with
    | nil =>
      rw [replace_nil hlists, Text.same_nil_right, Text.same_nil_right]
      have hfull {x : Text} (hx : x ≠ []) (y : Text) : List.isEmpty (x ++ y) = false := by
        obtain ⟨c, x, rfl⟩ := List.exists_cons_of_ne_nil hx
        rfl
      exact (hfull hne' _).trans (hfull hne _).symm
    | other d t hd _ =>
      rw [replace_other hlists ht.ascii hd, Text.same_comm, Text.same_cons_run hd hne' hr', Text.same_comm,
        Text.same_cons_run hd hne hr]
    | run q t hq hqr hqstop _ =>
      obtain ⟨hrnew, hsrest⟩ := hs.run hne hr hstop
      obtain ⟨hqnew, htrest⟩ := ht.run hq hqr hqstop
      have hrascii := (Text.Over.append_iff.1 hs.ascii).1
      have hqascii := (Text.Over.append_iff.1 ht.ascii).1
      rw [replace_run hlists hq hqr ht.ascii hqstop,
        Text.same_run hr' (rename_run hlists hq hqr).2 (head?_any_replace hlists hsrest.ascii hstop)
          (head?_any_replace hlists htrest.ascii hqstop),
        Text.same_run hr hqr hstop hqstop, same_rename hg hrascii hqascii hrnew hqnew, ih hsrest htrest]

/-! ## Texts side by side -/

theorem replace_append_cons (hg : g.ListsNames p) {s : Text} {c : Char} {t : Text} (h : Text.Over (s ++ c :: t) p)
    (hc : isIdentifierCharacter c = false) : g.replace (s ++ c :: t) = g.replace s ++ c :: g.replace t := by
  induction s using Text.run_induction isIdentifierCharacter with
  | nil => rw [replace_nil hg, List.nil_append, List.nil_append, replace_other hg h hc]
  | other d s hd ih =>
    have hs : Text.Over (d :: s) p := (Text.Over.append_iff.1 h).1
    rw [List.cons_append] at h ⊢
    rw [replace_other hg h hd, ih (List.forall_mem_cons.1 h).2, replace_other hg hs hd, List.cons_append]
  | run r s hne hr hstop ih =>
    have hs : Text.Over (r ++ s) p := (Text.Over.append_iff.1 h).1
    have hnext : (s ++ c :: t).head?.any isIdentifierCharacter = false := by
      cases s with
      | nil => simpa using hc
      | cons d s => exact hstop
    rw [List.append_assoc] at h ⊢
    rw [replace_run hg hne hr h hnext, ih (Text.Over.append_iff.1 h).2, replace_run hg hne hr hs hstop,
      List.append_assoc]

theorem knows_append_cons {s : Text} {c : Char} {t : Text} (hc : isIdentifierCharacter c = false)
    (hascii : c.toNat < 128) : g.Knows (s ++ c :: t) ↔ g.Knows s ∧ g.Knows t := by
  constructor
  · intro h
    have hwords := h.words
    rw [Text.runs_append_cons s hc, List.forall_mem_append] at hwords
    obtain ⟨hs, ht⟩ := Text.Over.append_iff.1 h.ascii
    exact ⟨⟨hs, hwords.1⟩, (List.forall_mem_cons.1 ht).2, hwords.2⟩
  · rintro ⟨hs, ht⟩
    refine ⟨Text.Over.append_iff.2 ⟨hs.ascii, List.forall_mem_cons.2 ⟨hascii, ht.ascii⟩⟩, ?_⟩
    rw [Text.runs_append_cons s hc, List.forall_mem_append]
    exact ⟨hs.words, ht.words⟩

theorem mem_of_mem_replace (hg : g.ListsNames p) {t : Text} (ht : t.Over p) {c : Char}
    (hc : isIdentifierCharacter c = false) (h : c ∈ g.replace t) : c ∈ t := by
  induction t using Text.run_induction isIdentifierCharacter with
  | nil => rwa [replace_nil hg] at h
  | other d t hd ih =>
    rw [replace_other hg ht hd] at h
    rcases List.mem_cons.1 h with rfl | h
    · exact List.mem_cons_self
    · exact List.mem_cons_of_mem _ (ih (List.forall_mem_cons.1 ht).2 h)
  | run r t hne hr hstop ih =>
    rw [replace_run hg hne hr ht hstop] at h
    rcases List.mem_append.1 h with h | h
    · rw [(rename_run hg hne hr).2 c h] at hc
      cases hc
    · exact List.mem_append_right _ (ih (Text.Over.append_iff.1 ht).2 h)

/-! ## Qualified names -/

theorem not_identifier_dot : isIdentifierCharacter '.' = false := by
  decide +kernel

/-- A name is replaced part by part. -/
theorem replace_joinWith (hg : g.ListsNames fun c => c.toNat < 128) {ps : List Text} (h : ∀ p ∈ ps, g.Knows p) :
    g.replace (Text.joinWith "." ps) = Text.joinWith "." (ps.map g.replace) ∧ g.Knows (Text.joinWith "." ps) := by
  induction ps with
  | nil => exact ⟨replace_nil hg, knows_nil⟩
  | cons p ps ih =>
    obtain ⟨hp, hps⟩ := List.forall_mem_cons.1 h
    cases ps with
    | nil =>
      have hone (p : Text) : Text.joinWith "." [p] = p := by simp [Text.joinWith, List.intercalate]
      rw [List.map_cons, List.map_nil, hone, hone]
      exact ⟨rfl, hp⟩
    | cons q ps =>
      have hjoin (p q : Text) (ps : List Text) :
          Text.joinWith "." (p :: q :: ps) = p ++ '.' :: Text.joinWith "." (q :: ps) := by
        simp [Text.joinWith, List.intercalate]
      obtain ⟨hrest, hknows⟩ := ih hps
      have hall : g.Knows (p ++ '.' :: Text.joinWith "." (q :: ps)) :=
        (knows_append_cons not_identifier_dot (by decide)).2 ⟨hp, hknows⟩
      rw [List.map_cons, List.map_cons, hjoin, hjoin, replace_append_cons hg hall.ascii not_identifier_dot, hrest]
      exact ⟨rfl, hall⟩

end Glossary

namespace Script

theorem localName_append (s t : Text) : localName (s ++ '.' :: t) = localName t := by
  rw [localName, localName, Text.splitOn_append, List.getLastD_eq_getLast?, List.getLastD_eq_getLast?,
    List.getLast?_append, List.getLast?_eq_some_getLast (Text.splitOn_ne_nil '.' t)]
  rfl

theorem localName_of_not_mem {t : Text} (h : '.' ∉ t) : localName t = t := by
  rw [localName, Text.splitOn_of_not_mem h]
  rfl

end Script

namespace Glossary

variable {g : Glossary}

theorem localName_replace (hg : g.ListsNames fun c => c.toNat < 128) {t : Text} (h : g.Knows t) :
    Script.localName (g.replace t) = g.replace (Script.localName t) ∧ g.Knows (Script.localName t) := by
  induction hlen : t.length using Nat.strongRecOn generalizing t with
  | ind n ih =>
    by_cases hdot : '.' ∈ t
    · obtain ⟨s, u, rfl⟩ := List.append_of_mem hdot
      have hshort : u.length < n := by simp [← hlen]; omega
      rw [replace_append_cons hg h.ascii not_identifier_dot, Script.localName_append, Script.localName_append]
      exact ih u.length hshort ((knows_append_cons not_identifier_dot (by decide)).1 h).2 rfl
    · have hreplaced : '.' ∉ g.replace t := fun hmem => hdot (mem_of_mem_replace hg h.ascii not_identifier_dot hmem)
      rw [Script.localName_of_not_mem hdot, Script.localName_of_not_mem hreplaced]
      exact ⟨rfl, h⟩

/-- Names mean the same table after replacing exactly if they did before. -/
theorem meansSameTable_replace (hg : g.KeepsApart) {a b : Text} (ha : g.Knows a) (hb : g.Knows b) :
    Script.meansSameTable (g.replace a) (g.replace b) = Script.meansSameTable a b := by
  obtain ⟨hlocala, hknowsa⟩ := localName_replace hg.toListsNames ha
  obtain ⟨hlocalb, hknowsb⟩ := localName_replace hg.toListsNames hb
  rw [Script.meansSameTable, Script.meansSameTable, hlocala, hlocalb, replace_same hg ha hb,
    replace_same hg hknowsa hknowsb]

/-! ## Reserved words -/

theorem isWord_of_reserved {w : Text} (hw : w ∈ reservedWords) : IsWord w ∧ w.IsAscii := by
  revert w
  decide +kernel

theorem mem_reservedWords (keyword : Keyword) : keyword.text ∈ reservedWords :=
  List.mem_cons_of_mem _ (List.mem_append_right _ (List.mem_map_of_mem (Keyword.mem_all keyword)))

theorem knows_reserved (hg : g.KeepsApart) {w : Text} (hw : w ∈ reservedWords) : g.Knows w := by
  obtain ⟨hword, hascii⟩ := isWord_of_reserved hw
  have hruns : Text.runs isIdentifierCharacter (w ++ []) = w :: Text.runs isIdentifierCharacter [] :=
    Text.runs_run hword.ne_nil hword.forall_identifier rfl
  rw [List.append_nil] at hruns
  refine ⟨hascii, fun v hv e he => ?_⟩
  rw [hruns] at hv
  rw [List.mem_singleton.1 hv, Text.same_comm]
  exact hg.target_free e he w hw

/-- A reserved word stays, in whatever case it is written. -/
theorem replace_reserved (hg : g.KeepsApart) {v w : Text} (hw : w ∈ reservedWords) (hv : v.IsAscii)
    (h : v.same w = true) : g.replace v = v := by
  have hlower := Text.same_iff.1 h
  have hrun : ∀ c ∈ v, isIdentifierCharacter c = true := by
    intro c hc
    have hmem : c.toLower ∈ w.lower := hlower ▸ List.mem_map_of_mem hc
    obtain ⟨d, hd, heq⟩ := List.mem_map.1 hmem
    rw [← isIdentifierCharacter_toLower, ← heq, isIdentifierCharacter_toLower]
    exact (isWord_of_reserved hw).1.forall_identifier d hd
  have hne : v ≠ [] := by
    rintro rfl
    exact (isWord_of_reserved hw).1.ne_nil (by simpa [Text.lower] using hlower.symm)
  rw [replace_word hg.toListsNames hne hrun hv]
  rcases rename_cases g v with hkeep | ⟨e, he, hkey, -⟩
  · exact hkeep
  · rw [Text.lowercase_of_ascii hv, hlower] at hkey
    exact absurd hkey (hg.key_free e he w hw)

theorem same_reserved (hg : g.KeepsApart) {t w : Text} (ht : g.Knows t) (hw : w ∈ reservedWords) :
    (g.replace t).same w = t.same w := by
  have hkeep := replace_reserved hg hw (isWord_of_reserved hw).2 (Text.same_refl w)
  calc (g.replace t).same w = (g.replace t).same (g.replace w) := by rw [hkeep]
    _ = t.same w := replace_same hg ht (knows_reserved hg hw)

theorem mem_reserved_of_typeContinuations {base w : Text} (h : w ∈ ColumnDefinition.typeContinuations base) :
    w ∈ reservedWords := by
  have hsubset : ColumnDefinition.typeContinuations base ⊆ typeWords := by
    unfold ColumnDefinition.typeContinuations
    repeat' split
    all_goals decide
  exact List.mem_cons_of_mem _ (List.mem_append_left _ (hsubset h))

/-- A renamed type may be continued by the same words. -/
theorem typeContinuations_replace (hg : g.KeepsApart) {base : Text} (h : g.Knows base) :
    ColumnDefinition.typeContinuations (g.replace base).upper = ColumnDefinition.typeContinuations base.upper := by
  have hbase {w : Text} (hw : w ∈ typeWords) (hupper : w.upper = w) :
      (g.replace base).upper = w ↔ base.upper = w := by
    have hmem : w ∈ reservedWords := List.mem_cons_of_mem _ (List.mem_append_left _ hw)
    rw [Text.upper_eq_iff hupper, Text.upper_eq_iff hupper, same_reserved hg h hmem]
  have hdouble := hbase (w := "DOUBLE") (by decide) (by decide)
  have hlong := hbase (w := "LONG") (by decide) (by decide)
  have hcharacter := hbase (w := "CHARACTER") (by decide) (by decide)
  have htimestamp := hbase (w := "TIMESTAMP") (by decide) (by decide)
  have htime := hbase (w := "TIME") (by decide) (by decide)
  have hinterval := hbase (w := "INTERVAL") (by decide) (by decide)
  simp only [ColumnDefinition.typeContinuations, hdouble, hlong, hcharacter, htimestamp, htime, hinterval]

end Glossary

end DialectBridge
