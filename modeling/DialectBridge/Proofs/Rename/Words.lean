import DialectBridge.Proofs.Lexical.Chain
import DialectBridge.Proofs.Pattern.Cutting
import DialectBridge.Rename.Glossary

/-!
# Replacing words

A glossary of names works word by word: a run of identifier characters is replaced as a
whole or kept as a whole (`replace_run`), and everything else is copied (`replace_other`).
-/

namespace DialectBridge

/-! ## ASCII text -/

/-- All characters of the text belong to the class `p`. -/
def Text.Over (t : Text) (p : Char → Prop) : Prop :=
  ∀ c ∈ t, p c

/-- All characters of the text are ASCII characters. -/
abbrev Text.IsAscii (t : Text) : Prop :=
  t.Over fun c => c.toNat < 128

instance (t : Text) : Decidable t.IsAscii :=
  decidable_of_iff (t.all fun c => decide (c.toNat < 128)) (by simp [Text.Over])

namespace Text

variable {p : Char → Prop}

theorem Over.append_iff {s t : Text} : Over (s ++ t) p ↔ Over s p ∧ Over t p :=
  List.forall_mem_append

theorem Over.subset {s t : Text} (h : Over t p) (hs : s ⊆ t) : Over s p :=
  fun c hc => h c (hs hc)

/-- In ASCII text the two notions of lower case agree. -/
theorem lowercase_of_ascii {t : Text} (h : t.IsAscii) : t.lowercase = t.lower := by
  have hafter (before : Text) : lowercaseAfter before t = t.lower := by
    induction t generalizing before with
    | nil => rfl
    | cons c t ih =>
      obtain ⟨hc, ht⟩ := List.forall_mem_cons.1 h
      have hsigma : c ≠ 'Σ' := by
        rintro rfl
        exact absurd hc (by decide)
      rw [lowercaseAfter, if_neg hsigma, lowercaseOf, if_pos hc, ih ht]
      rfl
  exact hafter []

/-- A text is made of runs of characters of a class and of other characters. -/
theorem run_induction (p : Char → Bool) {motive : Text → Prop} (nil : motive [])
    (other : ∀ c t, p c = false → motive t → motive (c :: t))
    (run : ∀ r t, r ≠ [] → (∀ c ∈ r, p c = true) → t.head?.any p = false → motive t → motive (r ++ t))
    (t : Text) : motive t := by
  induction hlen : t.length using Nat.strongRecOn generalizing t with
  | ind n ih =>
    cases t with
    | nil => exact nil
    | cons c t =>
      rw [List.length_cons] at hlen
      cases hc : p c with
      | false => exact other c t hc (ih t.length (by omega) t rfl)
      | true =>
        have hrest : (t.dropWhile p).length ≤ t.length := (List.dropWhile_suffix p).length_le
        have hcut : c :: t = (c :: t.takeWhile p) ++ t.dropWhile p := by
          rw [List.cons_append, List.takeWhile_append_dropWhile]
        rw [hcut]
        refine run _ _ (List.cons_ne_nil _ _) ?_ (head?_any_dropWhile p t) (ih _ (by omega) _ rfl)
        exact List.forall_mem_cons.2 ⟨hc, forall_mem_takeWhile p t⟩

end Text

theorem isIdentifierCharacter_toLower (c : Char) : isIdentifierCharacter c.toLower = isIdentifierCharacter c := by
  by_cases h : c.toNat < 128
  · exact forall_ascii (P := fun c => isIdentifierCharacter c.toLower = isIdentifierCharacter c)
      (by decide +kernel) h
  · rw [toLower_of_not_ascii (Nat.not_lt.1 h)]

/-- The character starts no bare word. -/
def startsNoName (c : Char) : Bool :=
  !(isAlphabetic c || c == '_')

namespace Glossary

/-! ## Listed words in a text -/

variable {g : Glossary} {p : Char → Prop}

/-- The words of the glossary are names in texts over the class `p`. They are compared up to case, so a
letter beyond ASCII may stand for an ASCII one. -/
structure ListsNames (g : Glossary) (p : Char → Prop) : Prop where
  key_ne_nil : ∀ e ∈ g.targets, e.1 ≠ []
  /-- What equals a character of a name up to case may stand in a name. -/
  key_identifier : ∀ e ∈ g.targets, ∀ c ∈ e.1, ∀ d : Char, p d → sameLetter c d = true →
    isIdentifierCharacter d = true
  /-- A name starts like a word. -/
  key_start : ∀ e ∈ g.targets, ∀ c ∈ e.1.head?, ∀ d : Char, p d → sameLetter c d = true →
    startsNoName d = false
  target : ∀ e ∈ g.targets, IsWord e.2

theorem takeLike?_eq_some {word t taken : Text} (h : takeLike? word t = some taken) :
    taken <+: t ∧ taken.length = word.length ∧ ∀ d ∈ taken, ∃ c ∈ word, sameLetter c d = true := by
  fun_induction takeLike? word t generalizing taken with
  | case1 => cases h; simp
  | case2 => cases h
  | case3 c word d t hsame ih =>
    obtain ⟨rest, hrest, rfl⟩ := Option.map_eq_some_iff.1 h
    obtain ⟨hstart, hlength, hall⟩ := ih hrest
    refine ⟨List.cons_prefix_cons.2 ⟨rfl, hstart⟩, by simp [hlength], ?_⟩
    refine List.forall_mem_cons.2 ⟨⟨c, List.mem_cons_self, hsame⟩, fun e he => ?_⟩
    obtain ⟨b, hb, hbe⟩ := hall e he
    exact ⟨b, List.mem_cons_of_mem _ hb, hbe⟩
  | case4 => cases h

/-- A name does not reach beyond a run of identifier characters. -/
theorem takeLike?_append {word r t : Text}
    (hword : ∀ c ∈ word, ∀ d : Char, p d → sameLetter c d = true → isIdentifierCharacter d = true)
    (ht : t.Over p) (hstop : t.head?.any isIdentifierCharacter = false) :
    takeLike? word (r ++ t) = takeLike? word r := by
  induction word generalizing r with
  | nil => rw [takeLike?, takeLike?]
  | cons c word ih =>
    obtain ⟨hc, hword⟩ := List.forall_mem_cons.1 hword
    cases r with
    | nil =>
      cases t with
      | nil => rfl
      | cons d t =>
        have hdiffer : sameLetter c d = false := by
          rw [Bool.eq_false_iff]
          intro hsame
          have hd := hc d (ht d List.mem_cons_self) hsame
          rw [List.head?_cons, Option.any_some, hd] at hstop
          cases hstop
        simp [takeLike?, hdiffer]
    | cons d r => rw [List.cons_append, takeLike?, takeLike?, ih hword]

theorem matcher_append (hg : g.ListsNames p) {r t : Text} (ht : t.Over p)
    (hstop : t.head?.any isIdentifierCharacter = false) (before : Text) :
    g.matcher before (r ++ t) = g.matcher [] r := by
  have hcongr : ∀ entries : List (Text × Text), entries ⊆ g.targets →
      (entries.findSome? fun entry => (takeLike? entry.1 (r ++ t)).map fun taken => (taken, ())) =
        entries.findSome? fun entry => (takeLike? entry.1 r).map fun taken => (taken, ()) := by
    intro entries hentries
    induction entries with
    | nil => rfl
    | cons e entries ih =>
      obtain ⟨he, hentries⟩ := List.cons_subset.1 hentries
      rw [List.findSome?_cons, List.findSome?_cons, takeLike?_append (hg.key_identifier e he) ht hstop,
        ih hentries]
  exact hcongr g.targets (List.Subset.refl _)

theorem matcher_eq_some (hg : g.ListsNames p) {before t taken : Text} (ht : t.Over p) {u : Unit}
    (h : g.matcher before t = some (taken, u)) :
    taken ≠ [] ∧ taken <+: t ∧ ∀ d ∈ taken, isIdentifierCharacter d = true := by
  obtain ⟨e, he, htake⟩ := List.exists_of_findSome?_eq_some h
  obtain ⟨taken', hlike, heq⟩ := Option.map_eq_some_iff.1 htake
  cases heq
  obtain ⟨hstart, hlength, hall⟩ := takeLike?_eq_some hlike
  refine ⟨?_, hstart, fun d hd => ?_⟩
  · rintro rfl
    exact hg.key_ne_nil e he (List.eq_nil_of_length_eq_zero hlength.symm)
  · obtain ⟨c, hc, hsame⟩ := hall d hd
    exact hg.key_identifier e he c hc d (ht d (hstart.subset hd)) hsame

theorem matcher_nil (hg : g.ListsNames p) (before : Text) : g.matcher before [] = none := by
  cases h : g.matcher before [] with
  | none => rfl
  | some p =>
    obtain ⟨hne, hstart, -⟩ := matcher_eq_some hg (by simp [Text.Over]) h
    exact absurd (List.prefix_nil.1 hstart) hne

theorem matcher_other (hg : g.ListsNames p) {c : Char} {t : Text} (ht : Text.Over (c :: t) p)
    (hc : isIdentifierCharacter c = false) (before : Text) : g.matcher before (c :: t) = none := by
  have happend := matcher_append (r := []) hg ht (by simpa using hc) before
  rwa [List.nil_append, matcher_nil hg] at happend

/-! ## Replacing from a place on -/

/-- What replacing makes of the rest of a text that follows `before`. -/
def rewriteFrom (g : Glossary) (before t : Text) : Text :=
  (Cut.pieces g.matcher 0 true before t).flatMap fun
    | .copied c => [c]
    | .found m => (g.replacement? m).getD m.text

/-- The first listed word that starts the word `w` is the whole of it. -/
def takesAll (g : Glossary) (w : Text) : Bool :=
  (g.matcher [] w).any fun p => p.1.length == w.length

/-- What replacing makes of a whole word. -/
def rename (g : Glossary) (w : Text) : Text :=
  if g.takesAll w then (g.target? w.lowercase).getD w else w

theorem replace_eq_rewriteFrom (t : Text) : g.replace t = g.rewriteFrom [] t := by
  unfold replace rewriteFrom replaceMatches cut
  congr 1
  funext piece
  cases piece <;> rfl

theorem pieces_fresh (hg : g.ListsNames p) {t : Text} (ht : t.Over p) (fresh : Bool) (before : Text) :
    Cut.pieces g.matcher 0 fresh before t = Cut.pieces g.matcher 0 true before t := by
  cases t with
  | nil => rw [Cut.pieces_nil (matcher_nil hg before), Cut.pieces_nil (matcher_nil hg before)]
  | cons c t =>
    cases h : g.matcher before (c :: t) with
    | none => rw [Cut.pieces_none h, Cut.pieces_none h]
    | some p =>
      obtain ⟨hne, ⟨rest, hrest⟩, -⟩ := matcher_eq_some hg ht h
      rw [← hrest] at h ⊢
      rw [Cut.pieces_some h hne, Cut.pieces_some h hne]

theorem rewriteFrom_none {before : Text} {c : Char} {t : Text} (h : g.matcher before (c :: t) = none) :
    g.rewriteFrom before (c :: t) = c :: g.rewriteFrom (c :: before) t := by
  rw [rewriteFrom, Cut.pieces_none h]
  rfl

theorem rewriteFrom_some (hg : g.ListsNames p) {before taken rest : Text} (ht : Text.Over (taken ++ rest) p)
    {u : Unit} (h : g.matcher before (taken ++ rest) = some (taken, u)) :
    g.rewriteFrom before (taken ++ rest) =
      (g.replacement? ⟨before, taken, rest, u⟩).getD taken ++ g.rewriteFrom (taken.reverse ++ before) rest := by
  have hne := (matcher_eq_some hg ht h).1
  rw [rewriteFrom, Cut.pieces_some h hne, pieces_fresh hg (Text.Over.append_iff.1 ht).2]
  rfl

/-- Within a word nothing is replaced. -/
theorem rewriteFrom_inside (hg : g.ListsNames p) {r t : Text} (hr : ∀ c ∈ r, isIdentifierCharacter c = true)
    (ht : Text.Over (r ++ t) p) (hstop : t.head?.any isIdentifierCharacter = false) {before : Text}
    (hbefore : before.head?.any isIdentifierCharacter = true) :
    g.rewriteFrom before (r ++ t) = r ++ g.rewriteFrom (r.reverse ++ before) t := by
  induction hlen : r.length using Nat.strongRecOn generalizing r before with
  | ind n ih =>
    cases r with
    | nil => rfl
    | cons c r =>
      have htail := (Text.Over.append_iff.1 ht).2
      cases h : g.matcher before (c :: r ++ t) with
      | none =>
        obtain ⟨hc, hr⟩ := List.forall_mem_cons.1 hr
        rw [List.cons_append] at h ht ⊢
        rw [rewriteFrom_none h, ih r.length (by simp [← hlen]) hr (List.forall_mem_cons.1 ht).2 (by simpa using hc) rfl]
        simp
      | some p =>
        obtain ⟨taken, u⟩ := p
        have hmatch := h
        rw [matcher_append hg htail hstop] at h
        obtain ⟨hne, ⟨r', hr'⟩, htaken⟩ := matcher_eq_some hg (Text.Over.append_iff.1 ht).1 h
        rw [← hr', List.append_assoc] at hmatch ht ⊢
        have halone : g.replacement? ⟨before, taken, r' ++ t, u⟩ = none := by
          rw [replacement?, if_neg (by simp [standsAlone, hbefore])]
        have hshorter : r'.length < n := by
          rw [← hlen, ← hr', List.length_append]
          exact Nat.lt_add_of_pos_left (List.length_pos_iff.2 hne)
        have hlast : (taken.reverse ++ before).head?.any isIdentifierCharacter = true := by
          obtain ⟨d, ds, hds⟩ := List.exists_cons_of_ne_nil (List.reverse_ne_nil_iff.2 hne)
          rw [hds, List.cons_append, List.head?_cons, Option.any_some]
          exact htaken d (List.mem_reverse.1 (hds ▸ List.mem_cons_self))
        have hrest : ∀ d ∈ r', isIdentifierCharacter d = true := fun d hd =>
          hr d (hr' ▸ List.mem_append_right taken hd)
        rw [rewriteFrom_some hg ht hmatch, halone, Option.getD_none,
          ih r'.length hshorter hrest (Text.Over.append_iff.1 ht).2 hlast rfl]
        simp

/-- A word is replaced as a whole. -/
theorem rewriteFrom_run (hg : g.ListsNames p) {r t : Text} (hne : r ≠ [])
    (hr : ∀ c ∈ r, isIdentifierCharacter c = true) (ht : Text.Over (r ++ t) p)
    (hstop : t.head?.any isIdentifierCharacter = false) {before : Text}
    (hbefore : before.head?.any isIdentifierCharacter = false) :
    g.rewriteFrom before (r ++ t) = g.rename r ++ g.rewriteFrom (r.reverse ++ before) t := by
  have htail := (Text.Over.append_iff.1 ht).2
  have hmatcher := matcher_append hg htail hstop (r := r) before
  cases h : g.matcher [] r with
  | none =>
    obtain ⟨c, r, rfl⟩ := List.exists_cons_of_ne_nil hne
    obtain ⟨hc, hr⟩ := List.forall_mem_cons.1 hr
    rw [h, List.cons_append] at hmatcher
    have hkeep : g.rename (c :: r) = c :: r := by
      rw [rename, takesAll, h, if_neg (by simp)]
    rw [hkeep, List.cons_append, rewriteFrom_none hmatcher,
      rewriteFrom_inside hg hr (List.forall_mem_cons.1 ht).2 hstop (by simpa using hc)]
    simp
  | some p =>
    obtain ⟨taken, u⟩ := p
    obtain ⟨htake, ⟨r', rfl⟩, htaken⟩ := matcher_eq_some hg (Text.Over.append_iff.1 ht).1 h
    rw [h, List.append_assoc] at hmatcher
    rw [List.append_assoc] at ht ⊢
    rw [rewriteFrom_some hg ht hmatcher]
    have hrest : ∀ d ∈ r', isIdentifierCharacter d = true := fun d hd => hr d (List.mem_append_right taken hd)
    cases r' with
    | nil =>
      have halone : g.replacement? ⟨before, taken, [] ++ t, u⟩ = g.target? taken.lowercase := by
        rw [replacement?, if_pos (by simp [standsAlone, hbefore, hstop])]
      have hrename : g.rename (taken ++ []) = (g.target? taken.lowercase).getD taken := by
        rw [List.append_nil] at h ⊢
        rw [rename, takesAll, h, if_pos (by simp)]
      rw [halone, hrename, List.append_nil, List.nil_append]
    | cons d r' =>
      have hd := hrest d List.mem_cons_self
      have halone : g.replacement? ⟨before, taken, d :: r' ++ t, u⟩ = none := by
        rw [replacement?, if_neg (by simp [standsAlone, hd])]
      have hkeep : g.rename (taken ++ d :: r') = taken ++ d :: r' := by
        rw [rename, takesAll, h, if_neg (by simp)]
      have hlast : (taken.reverse ++ before).head?.any isIdentifierCharacter = true := by
        obtain ⟨b, bs, hbs⟩ := List.exists_cons_of_ne_nil (List.reverse_ne_nil_iff.2 htake)
        rw [hbs, List.cons_append, List.head?_cons, Option.any_some]
        exact htaken b (List.mem_reverse.1 (hbs ▸ List.mem_cons_self))
      rw [halone, hkeep, Option.getD_none,
        rewriteFrom_inside hg hrest (Text.Over.append_iff.1 ht).2 hstop hlast]
      simp

theorem rewriteFrom_nil (hg : g.ListsNames p) (before : Text) : g.rewriteFrom before [] = [] := by
  rw [rewriteFrom, Cut.pieces_nil (matcher_nil hg before)]
  rfl

/-- Of what stands before, only whether it ends within a word counts. -/
theorem rewriteFrom_congr (hg : g.ListsNames p) {t : Text} (ht : t.Over p) {before before' : Text}
    (h : before.head?.any isIdentifierCharacter = before'.head?.any isIdentifierCharacter) :
    g.rewriteFrom before t = g.rewriteFrom before' t := by
  induction t using Text.run_induction isIdentifierCharacter generalizing before before' with
  | nil => rw [rewriteFrom_nil hg, rewriteFrom_nil hg]
  | other c t hc ih =>
    have hrest := (List.forall_mem_cons.1 ht).2
    have hstep : g.rewriteFrom (c :: before) t = g.rewriteFrom (c :: before') t := ih hrest rfl
    rw [rewriteFrom_none (matcher_other hg ht hc before), rewriteFrom_none (matcher_other hg ht hc before'), hstep]
  | run r t hne hr hstop ih =>
    have hsame : (r.reverse ++ before).head?.any isIdentifierCharacter =
        (r.reverse ++ before').head?.any isIdentifierCharacter := by
      obtain ⟨c, cs, hcs⟩ := List.exists_cons_of_ne_nil (List.reverse_ne_nil_iff.2 hne)
      rw [hcs]
      rfl
    have hrest := ih (Text.Over.append_iff.1 ht).2 hsame
    cases hbefore : before.head?.any isIdentifierCharacter with
    | true =>
      rw [rewriteFrom_inside hg hr ht hstop hbefore, rewriteFrom_inside hg hr ht hstop (h ▸ hbefore), hrest]
    | false =>
      rw [rewriteFrom_run hg hne hr ht hstop hbefore, rewriteFrom_run hg hne hr ht hstop (h ▸ hbefore), hrest]

/-! ## Replacing word by word -/

@[simp] theorem replace_nil (hg : g.ListsNames p) : g.replace [] = [] := by
  rw [replace_eq_rewriteFrom, rewriteFrom_nil hg]

/-- What stands between words is copied. -/
theorem replace_other (hg : g.ListsNames p) {c : Char} {t : Text} (ht : Text.Over (c :: t) p)
    (hc : isIdentifierCharacter c = false) : g.replace (c :: t) = c :: g.replace t := by
  have hbefore : [c].head?.any isIdentifierCharacter = ([] : Text).head?.any isIdentifierCharacter := by
    simpa using hc
  rw [replace_eq_rewriteFrom, rewriteFrom_none (matcher_other hg ht hc []),
    rewriteFrom_congr hg (List.forall_mem_cons.1 ht).2 hbefore, replace_eq_rewriteFrom]

/-- A word is renamed. -/
theorem replace_run (hg : g.ListsNames p) {r t : Text} (hne : r ≠ [])
    (hr : ∀ c ∈ r, isIdentifierCharacter c = true) (ht : Text.Over (r ++ t) p)
    (hstop : t.head?.any isIdentifierCharacter = false) :
    g.replace (r ++ t) = g.rename r ++ g.replace t := by
  rw [replace_eq_rewriteFrom, rewriteFrom_run hg hne hr ht hstop rfl]
  cases t with
  | nil => rw [rewriteFrom_nil hg, replace_nil hg]
  | cons c t =>
    have htail := (Text.Over.append_iff.1 ht).2
    have hc : isIdentifierCharacter c = false := by simpa using hstop
    rw [rewriteFrom_none (matcher_other hg htail hc _), replace_eq_rewriteFrom,
      rewriteFrom_none (matcher_other hg htail hc _)]
    exact congrArg _ (congrArg _ (rewriteFrom_congr hg (List.forall_mem_cons.1 htail).2 rfl))

theorem replace_word (hg : g.ListsNames p) {w : Text} (hne : w ≠ [])
    (hw : ∀ c ∈ w, isIdentifierCharacter c = true) (hascii : w.Over p) : g.replace w = g.rename w := by
  have hrun := replace_run hg (t := []) hne hw (by rwa [List.append_nil]) rfl
  rwa [List.append_nil, replace_nil hg, List.append_nil] at hrun

/-! ## What becomes of a word -/

/-- A word stays, or it is listed and its target stands in its place. -/
theorem rename_cases (g : Glossary) (w : Text) :
    g.rename w = w ∨ ∃ e ∈ g.targets, e.1 = w.lowercase ∧ g.rename w = e.2 := by
  rw [rename]
  split
  · rw [target?]
    cases h : g.targets.find? fun entry => entry.1 == w.lowercase with
    | none => exact .inl rfl
    | some e =>
      have hkey := List.find?_some h
      exact .inr ⟨e, List.mem_of_find?_eq_some h, by simpa using hkey, rfl⟩
  · exact .inl rfl

theorem length_takeLike? {v w : Text} (hv : v.IsAscii) (hw : w.IsAscii) (h : v.lower = w.lower)
    (word : Text) : (takeLike? word v).map List.length = (takeLike? word w).map List.length := by
  induction word generalizing v w with
  | nil => rw [takeLike?, takeLike?]
  | cons c word ih =>
    cases v with
    | nil =>
      obtain rfl : w = [] := by simpa [Text.lower] using h.symm
      rfl
    | cons d v =>
      cases w with
      | nil => simp [Text.lower] at h
      | cons e w =>
        obtain ⟨hd, hv⟩ := List.forall_mem_cons.1 hv
        obtain ⟨he, hw⟩ := List.forall_mem_cons.1 hw
        obtain ⟨hletter, hrest⟩ : d.toLower = e.toLower ∧ Text.lower v = Text.lower w := by
          simpa [Text.lower] using h
        have hsame : sameLetter c d = sameLetter c e := by
          rw [sameLetter, sameLetter, foldCase_of_ascii hd, foldCase_of_ascii he, hletter]
        rw [takeLike?, takeLike?, hsame]
        split
        · have hlength := congrArg (Option.map Nat.succ) (ih hv hw hrest)
          simpa [Option.map_map, Function.comp_def] using hlength
        · rfl

theorem takesAll_same {v w : Text} (hv : v.IsAscii) (hw : w.IsAscii) (h : v.same w = true) :
    g.takesAll v = g.takesAll w := by
  have hlower := Text.same_iff.1 h
  have hsize : v.length = w.length := by simpa using congrArg List.length hlower
  have hfirst : ∀ entries : List (Text × Text),
      (entries.findSome? fun e => (takeLike? e.1 v).map fun taken => (taken, ())).map (fun p => p.1.length) =
        (entries.findSome? fun e => (takeLike? e.1 w).map fun taken => (taken, ())).map (fun p => p.1.length) := by
    intro entries
    induction entries with
    | nil => rfl
    | cons e entries ih =>
      have hlength := length_takeLike? hv hw hlower e.1
      rw [List.findSome?_cons, List.findSome?_cons]
      cases hv : takeLike? e.1 v <;> cases hw : takeLike? e.1 w <;> simp_all
  have hlength : (g.matcher [] v).map (fun p => p.1.length) = (g.matcher [] w).map (fun p => p.1.length) :=
    hfirst g.targets
  rw [takesAll, takesAll, hsize]
  cases hv : g.matcher [] v <;> cases hw : g.matcher [] w <;> simp_all

/-- Words that agree up to case stay together or get the same target. -/
theorem rename_same {v w : Text} (hv : v.IsAscii) (hw : w.IsAscii) (h : v.same w = true) :
    (g.rename v).same (g.rename w) = true := by
  have hlowercase : v.lowercase = w.lowercase := by
    rw [Text.lowercase_of_ascii hv, Text.lowercase_of_ascii hw, Text.same_iff.1 h]
  rw [rename, rename, takesAll_same hv hw h, hlowercase]
  split
  · cases g.target? w.lowercase with
    | none => exact h
    | some target => exact Text.same_refl target
  · exact h

end Glossary

end DialectBridge
