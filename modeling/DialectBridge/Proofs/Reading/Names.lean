import DialectBridge.Proofs.Lexical.Chain
import DialectBridge.Proofs.Reading.Group
import DialectBridge.Proofs.Text.Split

/-!
# Names that are read

A script without quoted names holds bare words only, so each name that is read from it is a word or a
row of words with dots between them. Reading a name leaves level tokens level.
-/

namespace DialectBridge

/-- Words with dots between them. -/
def IsQualifiedName (n : Text) : Prop :=
  ∃ w ws, (∀ v ∈ w :: ws, IsWord v) ∧ n = Text.joinWith "." (w :: ws)

theorem IsWord.dot_not_mem {w : Text} (h : IsWord w) : '.' ∉ w := fun hdot => by
  have hident := h.forall_identifier '.' hdot
  exact absurd hident (by decide +kernel)

theorem IsWord.isQualifiedName {w : Text} (h : IsWord w) : IsQualifiedName w :=
  ⟨w, [], by simpa using h, by simp [Text.joinWith]⟩

/-- The words of a qualified name stand between its dots. -/
theorem isQualifiedName_iff {n : Text} : IsQualifiedName n ↔ ∀ w ∈ Text.splitOn '.' n, IsWord w := by
  have hdot : ".".toList = ['.'] := by decide
  constructor
  · rintro ⟨w, ws, hwords, rfl⟩
    rw [hdot, Text.splitOn_joinWith '.' (List.cons_ne_nil w ws)]
    intro v hv
    obtain ⟨u, hu, hmem⟩ := List.mem_flatMap.1 hv
    rw [Text.splitOn_of_not_mem (hwords u hu).dot_not_mem, List.mem_singleton] at hmem
    exact hmem ▸ hwords u hu
  · intro h
    obtain ⟨w, ws, hparts⟩ := List.exists_cons_of_ne_nil (Text.splitOn_ne_nil '.' n)
    exact ⟨w, ws, hparts ▸ h, by rw [hdot, ← hparts, Text.joinWith_splitOn]⟩

instance (n : Text) : Decidable (IsQualifiedName n) :=
  decidable_of_iff _ isQualifiedName_iff.symm

/-- Names with dots between them are a qualified name if each of them is one. -/
theorem isQualifiedName_joinWith {ns : List Text} (h : ns ≠ []) :
    IsQualifiedName (Text.joinWith "." ns) ↔ ∀ n ∈ ns, IsQualifiedName n := by
  have hdot : ".".toList = ['.'] := by decide
  rw [isQualifiedName_iff, hdot, Text.splitOn_joinWith '.' h]
  simp only [isQualifiedName_iff, List.mem_flatMap]
  exact ⟨fun h n hn w hw => h w ⟨n, hn, hw⟩, fun h w ⟨n, hn, hw⟩ => h n hn w hw⟩

/-- Each name among the tokens is a bare word. -/
def Token.Named (ts : List Token) : Prop :=
  ∀ t ∈ ts, ∀ w, t.name? = some w → IsWord w ∧ t.kind = Scan.wordKind w

/-- No token is a quoted name. -/
def Token.Unquoted (ts : List Token) : Prop :=
  ∀ t ∈ ts, ∀ n, t.kind ≠ .quoted n

/-- Quoted names are told by their kind alone. -/
instance (ts : List Token) : Decidable (Token.Unquoted ts) :=
  decidable_of_iff (∀ t ∈ ts, (TokenKind.quoted []).sameKind t.kind = false) <| by
    refine forall₂_congr fun t _ => ?_
    cases t.kind <;> simp [TokenKind.sameKind, TokenKind.ctorIdx]

theorem Token.Named.suffix {ts us : List Token} (h : Named ts) (hu : us <:+ ts) : Named us :=
  fun t ht => h t (hu.subset ht)

/-- A name of a script that is not quoted is a bare word. -/
theorem Token.isWord_of_name? {script : Text} {t : Token} (ht : t ∈ scan script) (hunquoted : ∀ n, t.kind ≠ .quoted n)
    {w : Text} (hw : t.name? = some w) : IsWord w ∧ t.kind = Scan.wordKind w := by
  have heof : t.kind ≠ .eof := fun heof => by
    rw [name?, heof] at hw
    cases hw
  obtain ⟨r, hfits⟩ := Fits.of_mem_scan ht heof
  obtain ⟨hword, -, hkind⟩ := hfits.word hunquoted hw
  exact ⟨hword, hkind⟩

theorem Token.named_scan {script : Text} (h : Unquoted (scan script)) : Named (scan script) :=
  fun t ht _ hw => isWord_of_name? ht (h t ht) hw

namespace Reader

open Token

variable {α β : Type} {whole : List Token}

theorem bind_eq_ok {r : Reader α} {f : α → Reader β} {ts rest : List Token} {b : β}
    (h : (r >>= f) ts = .ok (b, rest)) : ∃ a mid, r ts = .ok (a, mid) ∧ f a mid = .ok (b, rest) := by
  cases hr : r ts with
  | error e =>
    rw [bind_error hr] at h
    cases h
  | ok p =>
    obtain ⟨a, mid⟩ := p
    rw [bind_ok hr] at h
    exact ⟨a, mid, rfl, h⟩

theorem map_eq_ok {r : Reader α} {f : α → β} {ts rest : List Token} {b : β}
    (h : (f <$> r) ts = .ok (b, rest)) : ∃ a, r ts = .ok (a, rest) ∧ b = f a := by
  change (r ts >>= fun p => Except.ok (f p.1, p.2)) = _ at h
  cases hrun : r ts with
  | error e => simp [hrun, Bind.bind, Except.bind] at h
  | ok p =>
    simp only [hrun, Bind.bind, Except.bind] at h
    cases h
    exact ⟨p.1, rfl, rfl⟩

/-- A word that was read is there. -/
theorem word_eq_ok {expected w : Text} {ts rest : List Token} (h : word expected ts = .ok (w, rest)) :
    ∃ t, ts = t :: rest ∧ t.name? = some w := by
  cases ts with
  | nil => cases h
  | cons t ts =>
    cases hname : t.name? with
    | none => simp [word, hname] at h
    | some n =>
      obtain ⟨rfl, rfl⟩ : n = w ∧ ts = rest := by simpa [word, hname] using h
      exact ⟨t, rfl, hname⟩

/-- A parenthesis that was expected is there. -/
theorem expect_eq_ok {kind : TokenKind} (hkind : kind = .leftParen ∨ kind = .rightParen) {expected : Text}
    {ts rest : List Token} {u : Unit} (h : expect kind expected ts = .ok (u, rest)) :
    ∃ t, ts = t :: rest ∧ t.kind = kind := by
  unfold expect at h
  split at h
  · next hat =>
    cases h
    cases ts with
    | nil => rcases hkind with rfl | rfl <;> cases hat
    | cons t ts =>
      refine ⟨t, rfl, ?_⟩
      rw [atKind, headKind] at hat
      rcases hkind with rfl | rfl <;> cases ht : t.kind <;>
        simp [ht, TokenKind.sameKind, TokenKind.ctorIdx] at hat ⊢
  · cases h

/-! ## What a reader yields -/

/-- Wherever the reader starts among the tokens `whole`, its result has the property. -/
def Yields (whole : List Token) (r : Reader α) (P : α → Prop) : Prop :=
  ∀ ⦃ts a rest⦄, ts <:+ whole → r ts = .ok (a, rest) → P a

theorem Yields.pure {P : α → Prop} {a : α} (h : P a) : Yields whole (pure a) P := by
  intro ts b rest _ hr
  cases hr
  exact h

theorem Yields.bind {r : Reader α} {f : α → Reader β} {P : α → Prop} {Q : β → Prop}
    (hr : Yields whole r P) (hleaves : LeavesSuffix r) (hf : ∀ a, P a → Yields whole (f a) Q) :
    Yields whole (r >>= f) Q := by
  intro ts b rest hts h
  obtain ⟨a, mid, ha, hb⟩ := bind_eq_ok h
  exact hf a (hr hts ha) ((hleaves ha).trans hts) hb

/-- A reader that serves only to pass tokens. -/
theorem Yields.after {r : Reader α} {f : α → Reader β} {Q : β → Prop} (hleaves : LeavesSuffix r)
    (hf : ∀ a, Yields whole (f a) Q) : Yields whole (r >>= f) Q :=
  Yields.bind (P := fun _ => True) (fun _ _ _ _ _ => trivial) hleaves fun a _ => hf a

theorem Yields.fail {expected : Text} {P : α → Prop} : Yields whole (fail expected) P := by
  intro ts a rest _ h
  cases h

theorem yields_word (hnamed : Named whole) (expected : Text) : Yields whole (word expected) IsWord := by
  intro ts w rest hts h
  obtain ⟨t, rfl, hname⟩ := word_eq_ok h
  exact (hnamed.suffix hts t List.mem_cons_self w hname).1

theorem yields_wordsAfter (hnamed : Named whole) (separator : TokenKind) (expected : Text) :
    Yields whole (wordsAfter separator expected) fun ws => ∀ w ∈ ws, IsWord w := by
  intro ts ws rest hts h
  fun_induction wordsAfter separator expected ts generalizing ws with
  | case1 => cases h
  | case2 t u us _ part hpart ih =>
    cases hrec : wordsAfter separator expected us with
    | error e => simp [hrec, Bind.bind, Except.bind] at h
    | ok p =>
      obtain ⟨more, next⟩ := p
      obtain ⟨rfl, rfl⟩ : part :: more = ws ∧ next = rest := by
        simpa [hrec, Bind.bind, Except.bind] using h
      have hu : u :: us <:+ whole := (List.suffix_cons t (u :: us)).trans hts
      refine List.forall_mem_cons.2 ⟨(hnamed.suffix hu u List.mem_cons_self part hpart).1, ?_⟩
      exact ih ((List.suffix_cons u us).trans hu) hrec
  | case3 => cases h; simp
  | case4 => cases h
  | case5 => cases h; simp
  | case6 => cases h; simp

theorem yields_name (hnamed : Named whole) (expected : Text) :
    Yields whole (name expected) IsQualifiedName := by
  have hparts : Yields whole (nameParts expected) fun ps => ∃ w ws, ps = w :: ws ∧ ∀ v ∈ w :: ws, IsWord v :=
    (yields_word hnamed expected).bind (leavesSuffix_word expected) fun first hfirst =>
      (yields_wordsAfter hnamed .dot expected).bind (leavesSuffix_wordsAfter .dot expected) fun more hmore =>
        .pure ⟨first, more, rfl, List.forall_mem_cons.2 ⟨hfirst, hmore⟩⟩
  refine hparts.bind (leavesSuffix_nameParts expected) fun parts h => .pure ?_
  obtain ⟨w, ws, rfl, hwords⟩ := h
  exact ⟨w, ws, hwords, rfl⟩

theorem yields_nameList (hnamed : Named whole) :
    Yields whole nameList fun ws => ws ≠ [] ∧ ∀ w ∈ ws, IsWord w :=
  .after (leavesSuffix_expect _ _) fun _ =>
    (yields_word hnamed _).bind (leavesSuffix_word _) fun first hfirst =>
      (yields_wordsAfter hnamed .comma _).bind (leavesSuffix_wordsAfter .comma _) fun more hmore =>
        .after (leavesSuffix_expect _ _) fun _ =>
          .pure ⟨List.cons_ne_nil first more, List.forall_mem_cons.2 ⟨hfirst, hmore⟩⟩

/-! ## Level tokens stay level -/

/-- The reader goes from level tokens to level tokens. -/
def KeepsLevel (r : Reader α) : Prop :=
  ∀ ⦃ts a rest⦄, Level ts → r ts = .ok (a, rest) → Level rest

theorem KeepsLevel.pure (a : α) : KeepsLevel (pure a : Reader α) := by
  intro ts b rest hts h
  cases h
  exact hts

theorem KeepsLevel.bind {r : Reader α} {f : α → Reader β} (hr : KeepsLevel r) (hf : ∀ a, KeepsLevel (f a)) :
    KeepsLevel (r >>= f) := by
  intro ts b rest hts h
  obtain ⟨a, mid, ha, hb⟩ := bind_eq_ok h
  exact hf a (hr hts ha) hb

theorem KeepsLevel.map {r : Reader α} (f : α → β) (hr : KeepsLevel r) : KeepsLevel (f <$> r) := by
  intro ts b rest hts h
  obtain ⟨a, ha, -⟩ := map_eq_ok h
  exact hr hts ha

theorem isPlain_of_name? {t : Token} {n : Text} (h : t.name? = some n) : IsPlain t := by
  unfold name? at h
  split at h
  · next heq => simp [IsPlain, heq]
  · next heq => simp [IsPlain, heq]
  · next heq => simp [IsPlain, heq]
  · cases h

theorem keepsLevel_word (expected : Text) : KeepsLevel (word expected) := by
  intro ts w rest hts h
  obtain ⟨t, rfl, hname⟩ := word_eq_ok h
  exact (hts.of_plain (isPlain_of_name? hname).1).2

/-- The words and separators of a list, and what follows them. The words are names of these tokens. -/
theorem exists_wordsAfter {separator : TokenKind} {expected : Text} {ts rest : List Token} {ws : List Text}
    (h : wordsAfter separator expected ts = .ok (ws, rest)) : ∃ us, ts = us ++ rest ∧
      (∀ u ∈ us, IsPlain u ∨ u.kind = separator) ∧ ∀ w ∈ ws, ∃ u ∈ us, u.name? = some w := by
  fun_induction wordsAfter separator expected ts generalizing ws with
  | case1 => cases h
  | case2 t u us ht part hpart ih =>
    cases hrec : wordsAfter separator expected us with
    | error e => simp [hrec, Bind.bind, Except.bind] at h
    | ok p =>
      obtain ⟨more, next⟩ := p
      obtain ⟨rfl, rfl⟩ : part :: more = ws ∧ next = rest := by
        simpa [hrec, Bind.bind, Except.bind] using h
      obtain ⟨vs, rfl, hvs, hnames⟩ := ih hrec
      refine ⟨t :: u :: vs, rfl, List.forall_mem_cons.2 ⟨.inr (by simpa using ht), ?_⟩, ?_⟩
      · exact List.forall_mem_cons.2 ⟨.inl (isPlain_of_name? hpart), hvs⟩
      · refine List.forall_mem_cons.2 ⟨⟨u, by simp, hpart⟩, fun w hw => ?_⟩
        obtain ⟨v, hv, hname⟩ := hnames w hw
        exact ⟨v, List.mem_cons_of_mem t (List.mem_cons_of_mem u hv), hname⟩
  | case3 => cases h; exact ⟨[], rfl, by simp⟩
  | case4 => cases h
  | case5 => cases h; exact ⟨[], rfl, by simp⟩
  | case6 => cases h; exact ⟨[], rfl, by simp⟩

theorem keepsLevel_name (expected : Text) : KeepsLevel (name expected) := by
  have hwords : KeepsLevel (wordsAfter .dot expected) := by
    intro ts ws rest hts h
    obtain ⟨us, rfl, hus, -⟩ := exists_wordsAfter h
    have hplain : ∀ u ∈ us, u.kind ≠ .leftParen := by
      rintro u hu hkind
      rcases hus u hu with h | h
      · exact h.1 hkind
      · rw [h] at hkind
        cases hkind
    clear h hus
    induction us with
    | nil => exact hts
    | cons u us ih =>
      obtain ⟨hu, hus⟩ := List.forall_mem_cons.1 hplain
      exact ih (hts.of_plain hu).2 hus
  exact ((keepsLevel_word expected).bind fun _ => hwords.bind fun _ => .pure _).bind fun _ => .pure _

/-- Names with commas between them do not close a group. -/
theorem afterGroup?_names {us : List Token} (h : ∀ u ∈ us, IsPlain u ∨ u.kind = .comma) (depth : Nat)
    (rest : List Token) : afterGroup? depth (us ++ rest) = afterGroup? depth rest := by
  induction us with
  | nil => rfl
  | cons u us ih =>
    obtain ⟨hu, hus⟩ := List.forall_mem_cons.1 h
    have hkind : u.kind ≠ .leftParen ∧ u.kind ≠ .rightParen ∧ u.kind ≠ .eof := by
      rcases hu with hu | hu
      · exact ⟨hu.1, hu.2.1, hu.2.2.2⟩
      · simp [hu]
    rw [List.cons_append, afterGroup?_cons_other hkind.1 hkind.2.1 hkind.2.2, ih hus]

/-- A list of names is a group. -/
theorem keepsLevel_nameList : KeepsLevel nameList := by
  intro ts ws rest hts h
  obtain ⟨_, inside, hopen, h⟩ := bind_eq_ok h
  obtain ⟨first, mid, hfirst, h⟩ := bind_eq_ok h
  obtain ⟨more, last, hmore, h⟩ := bind_eq_ok h
  obtain ⟨_, after, hclose, h⟩ := bind_eq_ok h
  cases h
  obtain ⟨o, rfl, ho⟩ := expect_eq_ok (.inl rfl) hopen
  obtain ⟨us, rfl, hus, -⟩ := exists_wordsAfter hmore
  obtain ⟨c, rfl, hc⟩ := expect_eq_ok (.inr rfl) hclose
  obtain ⟨w, rfl, hname⟩ := word_eq_ok hfirst
  have hw := isPlain_of_name? hname
  obtain ⟨vs, next, -, -, hnext, hafter⟩ := hts.of_group ho
  have hgroup : afterGroup? 0 (w :: (us ++ c :: rest)) = some rest := by
    rw [afterGroup?_cons_other hw.1 hw.2.1 hw.2.2.2, afterGroup?_names hus, afterGroup?.eq_def]
    simp only [hc]
  obtain rfl : next = rest := Option.some.inj (hafter.symm.trans hgroup)
  exact hnext

/-- A group that is passed over is a group. -/
theorem keepsLevel_skipGroup : KeepsLevel skipGroup := by
  intro ts us rest hts h
  unfold skipGroup at h
  split at h
  · cases h
  · next hopen =>
    obtain ⟨o, rfl, ho⟩ := expect_eq_ok (.inl rfl) hopen
    obtain ⟨vs, next, -, -, hnext, hafter⟩ := hts.of_group ho
    split at h
    · next heq =>
      cases h
      obtain rfl : next = rest := Option.some.inj (hafter.symm.trans heq)
      exact hnext
    · cases h

end Reader

end DialectBridge
