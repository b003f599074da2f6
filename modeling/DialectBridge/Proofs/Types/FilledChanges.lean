import DialectBridge.Proofs.Types.LaterChanges
import DialectBridge.Proofs.Types.Protection
import DialectBridge.Proofs.Types.Unmasked

/-!
# Changes in filled texts

Literals, quoted names and comments are no part of a type. So a masked text and the one that is filled again are
converted alike (`convertsFilled`), if what is filled in names no type, if no name is expected behind it, and if no
blank is in a size that is carried over.
-/

namespace DialectBridge

open Masked Segment

namespace TypeTable

/-! ## Where no type is named -/

/-- A word of the text is the first word of a type. -/
def namesType (types : TypeTable) (t : Text) : Bool :=
  (t.splitOnP fun c => !isWordCharacter c).any fun w => types.rules.any fun r => Text.fold w == Text.fold r.word

theorem takeWhile_mem_splitOnP {p : Char → Bool} (t : Text) : t.takeWhile p ∈ t.splitOnP fun c => !p c := by
  have hhead : (t.splitOnP fun c => !p c).head? = some (t.takeWhile p) := by
    induction t with
    | nil => rfl
    | cons c t ih =>
      rw [List.splitOnP_cons_eq_if_modifyHead, List.takeWhile_cons]
      cases hc : p c with
      | false => simp
      | true => simp [ih]
  exact List.mem_of_head? hhead

/-- A table finds nothing in a text that names no type. -/
theorem quiet_of_namesType {types : TypeTable} (ht : types.IsOrderly) {u : Text} (h : types.namesType u = false) :
    Quiet shieldStops types.matcher u := by
  intro x y before rest hu hy hrest
  -- the word at this place ends in the text
  have hword : (y ++ rest).takeWhile isWordCharacter = y.takeWhile isWordCharacter := by
    by_cases hall : ∀ c ∈ y, isWordCharacter c = true
    · have hstop : rest.head?.any isWordCharacter = false := by
        have hlast : u.getLast? = y.getLast? := by
          obtain ⟨z, c, rfl⟩ := List.eq_nil_or_concat y |>.resolve_left hy
          rw [hu, List.concat_eq_append, ← List.append_assoc, List.getLast?_concat, List.getLast?_concat]
        rcases hrest with ⟨c, hc, hstop⟩ | hnext
        · have hmem : c ∈ y := List.mem_of_getLast? (hlast ▸ hc)
          exact absurd (hall c hmem) (by simp [areStops_shieldStops.word c hstop])
        · cases rest with
          | nil => rfl
          | cons c rest =>
            obtain rfl := hnext c rfl
            exact (by decide : isWordCharacter '\n' = false)
      have hself : (y ++ []).takeWhile isWordCharacter = y := Text.takeWhile_run hall rfl
      rw [List.append_nil] at hself
      rw [Text.takeWhile_run hall hstop, hself]
    · rw [List.takeWhile_append, if_neg]
      intro hlength
      have hself := (List.takeWhile_prefix (p := isWordCharacter) (l := y)).eq_of_length hlength
      exact hall fun c hc => Text.forall_mem_takeWhile isWordCharacter y c (hself.symm ▸ hc)
  refine TypeTable.matcher_none_of_word ht ?_
  rw [hword]
  have hnot (hmem : y.takeWhile isWordCharacter ∈ u.splitOnP fun c => !isWordCharacter c) (r : TypeRule)
      (hr : r ∈ types.rules) : Text.fold (y.takeWhile isWordCharacter) ≠ Text.fold r.word := fun hfold => by
    rw [namesType, List.any_eq_false] at h
    have := h _ hmem
    rw [List.any_eq_true] at this
    exact this ⟨r, hr, by simpa using hfold⟩
  rcases List.eq_nil_or_concat x with rfl | ⟨x, c, rfl⟩
  · refine .inr (hnot ?_)
    rw [hu]
    exact takeWhile_mem_splitOnP y
  · cases hc : isWordCharacter c with
    | true => exact .inl (by simp [hc])
    | false =>
      refine .inr (hnot ?_)
      rw [hu, List.concat_eq_append, List.append_assoc, List.singleton_append,
        List.splitOnP_append_cons x y (by simp [hc])]
      exact List.mem_append_right _ (takeWhile_mem_splitOnP y)

/-! ## Places of names -/

/-- A stop is no part of a word in front of a place. -/
theorem stop_not_name {c : Char} (hc : c ∈ shieldStops) : (isAlphanumeric c || c == '_') = false := by
  have hall : ∀ c ∈ shieldStops, (isAlphanumeric c || c == '_') = false :=
    List.all_iff_forall_prop.1 (by decide +kernel)
  exact hall c hc

theorem wordBefore_stop {c : Char} (hc : (isAlphanumeric c || c == '_') = false) (t : Text) :
    wordBefore (c :: t) = [] := by
  rw [wordBefore, List.takeWhile_cons_of_neg (by simp [hc])]
  rfl

variable {f : Nat → Text}

/-- In front of a character of code both sides end in the same word. -/
theorem wordBefore_filled {done ps : List Part} {c : Char} (h : Fills shieldStops f (done ++ .code c :: ps)) :
    wordBefore (c :: (render done).reverse) = wordBefore (c :: (spell f done).reverse) := by
  cases hc : isAlphanumeric c || c == '_' with
  | false => rw [wordBefore_stop hc, wordBefore_stop hc]
  | true =>
    refine wordBefore_cons ?_
    show wordBefore _ = wordBefore _
    induction hlen : done.length generalizing done c ps with
    | zero =>
      obtain rfl := List.length_eq_zero_iff.1 hlen
      rfl
    | succ k ih =>
      rcases List.eq_nil_or_concat done with rfl | ⟨done, p, rfl⟩
      · cases hlen
      · rw [List.concat_eq_append] at h hlen ⊢
        have hdone : done.length = k := by simpa using hlen
        cases p with
        | code d =>
          have hnext : Fills shieldStops f (done ++ .code d :: (.code c :: ps)) := by simpa using h
          rw [render_append, spell_append, List.reverse_append, List.reverse_append]
          show wordBefore (d :: (render done).reverse) = wordBefore (d :: (spell f done).reverse)
          cases hd : isAlphanumeric d || d == '_' with
          | false => rw [wordBefore_stop hd, wordBefore_stop hd]
          | true => exact wordBefore_cons (ih hnext hd hdone)
        | held n =>
          -- a line cannot end in a word
          rcases h.apart done n (.code c :: ps) (by simp) with ⟨d, hd, hstop⟩ | hnext
          · obtain ⟨t, ht⟩ := List.getLast?_eq_some_iff.1 hd
            rw [render_append, spell_append, List.reverse_append, List.reverse_append]
            have hmask : (render [.held n]).reverse ++ (render done).reverse =
                mark :: ((Text.ofNat n).reverse ++ mark :: (render done).reverse) := by
              simp [Part.text, placeholder]
            have hfill : (spell f [.held n]).reverse ++ (spell f done).reverse =
                d :: (t.reverse ++ (spell f done).reverse) := by
              simp [ht]
            rw [hmask, hfill, wordBefore_mark, wordBefore_stop (stop_not_name hstop)]
          · obtain rfl := Part.code.inj (hnext _ rfl)
            exact absurd hc (by decide)

/-- Behind the same last character and the same last word it depends on what follows alone whether a name stands. -/
theorem isNamePlace_of_sameEnd {before before' after after' : Text} (h : SameEnd before before')
    (hdot : (Text.trimStart after).head? = some '.' ↔ (Text.trimStart after').head? = some '.')
    (hfollows : Text.trimStart before = [] →
      (Text.trimStart after).head?.any followsName = (Text.trimStart after').head?.any followsName) :
    isNamePlace before after = isNamePlace before' after' := by
  have hempty (t : Text) : t.isEmpty = t.head?.isNone := by cases t <;> rfl
  unfold isNamePlace
  simp only [hempty (Text.trimStart before), hempty (Text.trimStart before'), h.head, h.word, hdot]
  cases hbefore : (Text.trimStart before').head? with
  | some c => simp
  | none => rw [hfollows (List.head?_eq_none_iff.1 (h.head.trans hbefore))]

/-- Where a text introduces no name, only a point that follows makes one. -/
theorem isNamePlace_iff_of_end {before : Text} (hne : Text.trimStart before ≠ [])
    (h : isNamePlace before [] = false) (after : Text) :
    isNamePlace before after = true ↔ (Text.trimStart after).head? = some '.' := by
  obtain ⟨c, t, ht⟩ := List.exists_cons_of_ne_nil hne
  have hnil : Text.trimStart [] = [] := rfl
  unfold isNamePlace at h ⊢
  simp only [ht, hnil, List.head?_cons, List.head?_nil, Option.some.injEq] at h ⊢
  by_cases hafter : (Text.trimStart after).head? = some '.'
  · simp [hafter]
  · simp only [hafter, or_false, reduceCtorEq] at h ⊢
    split at h
    · cases h
    · next hdot =>
      split at h
      · cases h
      · next hsign =>
        simp only [hdot, hsign, if_false]
        split at h
        · next hempty => simp [hempty]
        · next hempty => simp [hempty, h]

/-- Behind a placeholder no name is expected. -/
theorem isNamePlace_of_mark {before t : Text} (h : Text.trimStart before = mark :: t) :
    isNamePlace before [] = false := by
  have hstop : Masked.mark ≠ '.' ∧ Masked.mark ≠ '(' ∧ Masked.mark ≠ ',' := by decide
  have hnil : Text.trimStart [] = [] := rfl
  unfold isNamePlace
  simp [h, hnil, wordBefore_mark, hstop]

/-- Trimmed texts start alike, or with a placeholder and with what it is filled with. -/
theorem head?_trimStart_filled {ps : List Part} (h : Fills shieldStops f ps) :
    (Text.trimStart (render ps)).head? = (Text.trimStart (spell f ps)).head? ∨
      ∃ xs n ys, ps = xs ++ .held n :: ys ∧ (∀ p ∈ xs, p.isSpace = true) ∧
        (Text.trimStart (render ps)).head? = some mark ∧ (Text.trimStart (spell f ps)).head? = (f n).head? := by
  induction ps with
  | nil => exact .inl rfl
  | cons p ps ih =>
    cases p with
    | code c =>
      show (Text.trimStart (c :: render ps)).head? = (Text.trimStart (c :: spell f ps)).head? ∨ _
      cases hc : isBlank c with
      | false =>
        rw [trimStart_cons hc, trimStart_cons hc]
        exact .inl rfl
      | true =>
        rw [trimStart_blank hc, trimStart_blank hc]
        refine (ih h.tail).imp_right ?_
        rintro ⟨xs, n, ys, rfl, hxs, hhead, hhead'⟩
        refine ⟨.code c :: xs, n, ys, rfl, List.forall_mem_cons.2 ⟨hc, hxs⟩, ?_, ?_⟩
        · show (Text.trimStart (c :: render _)).head? = _
          rw [trimStart_blank hc, hhead]
        · show (Text.trimStart (c :: spell f _)).head? = _
          rw [trimStart_blank hc, hhead']
    | held n =>
      obtain ⟨c, hc, t, ht⟩ := h.starts n List.mem_cons_self
      refine .inr ⟨[], n, ps, rfl, by simp, ?_, ?_⟩
      · show (Text.trimStart (mark :: (Text.ofNat n ++ [mark] ++ render ps))).head? = _
        rw [trimStart_cons (by decide)]
        rfl
      · rw [spell_cons, Part.spelled_held, ht, List.cons_append,
          trimStart_cons (areStops_shieldStops.blank c hc)]
        rfl

/-- Behind what is put in last, blanks apart, no name is expected. -/
def Settled (f : Nat → Text) (done : List Part) : Prop :=
  ∀ xs n ys, done = xs ++ .held n :: ys → (∀ p ∈ ys, p.isSpace = true) → isNamePlace (f n).reverse [] = false

/-- What starts with a double quote is the first part, or it stands behind a parenthesis. -/
def QuotedApart (f : Nat → Text) (ps : List Part) : Prop :=
  ∀ xs n ys, ps = xs ++ .held n :: ys → (f n).head? = some '\x22' → xs = [] ∨ .code '(' ∈ xs

theorem head?_filled {n : Nat} {ps : List Part} (h : Fills shieldStops f ps) (hn : .held n ∈ ps) :
    ∃ c ∈ shieldStops, (f n).head? = some c := by
  obtain ⟨c, hc, t, ht⟩ := h.starts n hn
  exact ⟨c, hc, by rw [ht]; rfl⟩

/-- The last part that is no blank, if there is one. -/
theorem exists_last_solid (ps : List Part) : (∀ p ∈ ps, p.isSpace = true) ∨
    ∃ xs p ys, ps = xs ++ p :: ys ∧ p.isSpace = false ∧ ∀ q ∈ ys, q.isSpace = true := by
  induction ps with
  | nil => exact .inl (by simp)
  | cons p ps ih =>
    rcases ih with hall | ⟨xs, q, ys, rfl, hq, hys⟩
    · cases hp : p.isSpace with
      | true => exact .inl (List.forall_mem_cons.2 ⟨hp, hall⟩)
      | false => exact .inr ⟨[], p, ps, rfl, hp, hall⟩
    · exact .inr ⟨p :: xs, q, ys, rfl, hq, hys⟩

theorem trimStart_of_blank {t : Text} (h : ∀ c ∈ t, isBlank c = true) : Text.trimStart t = [] := by
  have := trimStart_blanks h []
  rwa [List.append_nil] at this

/-- Behind a text that ends in a stop the same word stands as at its end. -/
theorem sameEnd_of_stop {c : Char} (hc : c ∈ shieldStops) (u before : Text) :
    SameEnd ((c :: u).reverse ++ before) (c :: u).reverse := by
  have hblank := areStops_shieldStops.blank c hc
  have hname := stop_not_name hc
  have htrim (rest : Text) : ∃ v, Text.trimStart ((c :: u).reverse ++ rest) = v ++ c :: rest ∧
      Text.trimStart (c :: u).reverse = v ++ [c] := by
    refine ⟨Text.trimStart u.reverse, ?_, ?_⟩
    all_goals
      rw [List.reverse_cons]
      generalize u.reverse = w
      induction w with
      | nil => exact trimStart_cons hblank _
      | cons d w ih =>
        simp only [List.append_assoc, List.cons_append] at ih ⊢
        cases hd : isBlank d with
        | true => rw [trimStart_blank hd, trimStart_blank hd, ih]
        | false => rw [trimStart_cons hd, trimStart_cons hd]; rfl
  have hrun (v rest : Text) : (v ++ c :: rest).takeWhile (fun c => isAlphanumeric c || c == '_') =
      v.takeWhile fun c => isAlphanumeric c || c == '_' := by
    induction v with
    | nil => simp [hname]
    | cons d v ih => simp only [List.cons_append, List.takeWhile_cons, ih]
  obtain ⟨v, hv, hv'⟩ := htrim before
  constructor
  · rw [hv, hv']
    cases v <;> rfl
  · rw [hv, hv', wordBefore, wordBefore, hrun, hrun]

/-- A bare type is in the place of a name on both sides or on none. -/
theorem isNamePlace_filled {done qs rs : List Part} (h : Fills shieldStops f (done ++ (qs ++ rs)))
    (hsettled : Settled f done) (hquoted : QuotedApart f (done ++ (qs ++ rs))) (hne : qs ≠ [])
    (hparen : '(' ∉ render qs) :
    isNamePlace (render done).reverse (render rs) = isNamePlace (spell f done).reverse (spell f rs) := by
  have hrs : Fills shieldStops f rs := h.right.right
  have hdone : Fills shieldStops f done := h.left
  have hblanks {ps : List Part} (hps : Fills shieldStops f ps) (hspace : ∀ p ∈ ps, p.isSpace = true) :
      (∀ c ∈ (render ps).reverse, isBlank c = true) ∧ ∀ c ∈ (spell f ps).reverse, isBlank c = true :=
    ⟨fun c hc => blank_render_iff.2 hspace c (List.mem_reverse.1 hc),
      fun c hc => (hps.blank_iff areStops_shieldStops).2 hspace c (List.mem_reverse.1 hc)⟩
  have hdot : (Text.trimStart (render rs)).head? = some '.' ↔ (Text.trimStart (spell f rs)).head? = some '.' := by
    rcases head?_trimStart_filled hrs with heq | ⟨xs, n, ys, rfl, -, hmask, hfill⟩
    · rw [heq]
    · obtain ⟨c, hc, hhead⟩ := head?_filled hrs (n := n) (by simp)
      rw [hmask, hfill, hhead, Option.some.injEq, Option.some.injEq]
      have hstop : ∀ c ∈ shieldStops, c ≠ '.' := List.all_iff_forall_prop.1 (by decide)
      exact iff_of_false (hstop _ areStops_shieldStops.mark) (hstop c hc)
  rcases exists_last_solid done with hspace | ⟨xs, p, ys, rfl, hp, hys⟩
  · -- the type is the first thing on both sides, and no double quote follows
    obtain ⟨hleft, hright⟩ := hblanks hdone hspace
    refine isNamePlace_of_sameEnd ⟨?_, ?_⟩ hdot fun _ => ?_
    · rw [trimStart_of_blank hleft, trimStart_of_blank hright]
    · rw [trimStart_of_blank hleft, trimStart_of_blank hright]
    · rcases head?_trimStart_filled hrs with heq | ⟨xs, n, ys, rfl, hxs, hmask, hfill⟩
      · rw [heq]
      · obtain ⟨c, hc, hhead⟩ := head?_filled hrs (n := n) (by simp)
        have hplain : c ≠ '\x22' := by
          rintro rfl
          have hsplit : done ++ (qs ++ (xs ++ .held n :: ys)) = (done ++ (qs ++ xs)) ++ .held n :: ys := by simp
          rcases hquoted _ n ys hsplit hhead with hnil | hmem
          · exact hne (by simpa using congrArg (fun ps => ps.drop done.length |>.take qs.length) hnil)
          · have hsign {ps : List Part} (hspace : ∀ p ∈ ps, p.isSpace = true) : .code '(' ∉ ps := fun hmem =>
              absurd (hspace _ hmem) (by decide)
            rcases List.mem_append.1 hmem with hmem | hmem
            · exact hsign hspace hmem
            · rcases List.mem_append.1 hmem with hmem | hmem
              · exact hparen (List.mem_flatMap.2 ⟨_, hmem, List.mem_singleton_self _⟩)
              · exact hsign hxs hmem
        have hfollows : ∀ c ∈ shieldStops, c ≠ '\x22' → followsName c = false :=
          List.all_iff_forall_prop.1 (by decide +kernel)
        rw [hmask, hfill, hhead, Option.any_some, Option.any_some, hfollows c hc hplain,
          hfollows _ areStops_shieldStops.mark (by decide)]
  · have hsplit (ps : List Part) : xs ++ p :: ys ++ ps = xs ++ p :: (ys ++ ps) := by simp
    have hlast : Fills shieldStops f (p :: ys) := hdone.right
    obtain ⟨hleft, hright⟩ := hblanks hlast.tail hys
    cases p with
    | code c =>
      have hc : isBlank c = false := hp
      have hmask : (render (xs ++ .code c :: ys)).reverse = (render ys).reverse ++ (c :: (render xs).reverse) := by
        simp [Part.text]
      have hfill : (spell f (xs ++ .code c :: ys)).reverse = (spell f ys).reverse ++ (c :: (spell f xs).reverse) := by
        simp
      have htrim : Text.trimStart (render (xs ++ .code c :: ys)).reverse = c :: (render xs).reverse := by
        rw [hmask, trimStart_blanks hleft, trimStart_cons hc]
      have htrim' : Text.trimStart (spell f (xs ++ .code c :: ys)).reverse = c :: (spell f xs).reverse := by
        rw [hfill, trimStart_blanks hright, trimStart_cons hc]
      rw [hsplit] at h
      refine isNamePlace_of_sameEnd ⟨?_, ?_⟩ hdot fun hnil => ?_
      · rw [htrim, htrim']
        rfl
      · rw [htrim, htrim', wordBefore_filled h]
      · rw [htrim] at hnil
        cases hnil
    | held n =>
      obtain ⟨c, hc, t, ht⟩ := hdone.starts n (by simp)
      have hmask : (render (xs ++ .held n :: ys)).reverse =
          (render ys).reverse ++ (mark :: ((Text.ofNat n).reverse ++ mark :: (render xs).reverse)) := by
        simp [Part.text, placeholder]
      have hfill : (spell f (xs ++ .held n :: ys)).reverse =
          (spell f ys).reverse ++ ((c :: t).reverse ++ (spell f xs).reverse) := by
        simp [ht]
      have hmark : isBlank mark = false := by decide
      have hquiet := hsettled xs n ys rfl hys
      rw [ht] at hquiet
      have hend : SameEnd ((spell f ys).reverse ++ ((c :: t).reverse ++ (spell f xs).reverse)) (c :: t).reverse := by
        have hsame := sameEnd_of_stop hc t (spell f xs).reverse
        exact ⟨by rw [trimStart_blanks hright, hsame.head], by rw [trimStart_blanks hright, hsame.word]⟩
      have hsolid {u : Text} (hu : c ∈ u) : Text.trimStart u ≠ [] := fun hnil => by
        have hall := List.takeWhile_append_dropWhile (p := isBlank) (l := u)
        rw [show u.dropWhile isBlank = [] from hnil, List.append_nil] at hall
        have hblank := Text.forall_mem_takeWhile isBlank u c (hall.symm ▸ hu)
        rw [areStops_shieldStops.blank c hc] at hblank
        cases hblank
      have hmarkEnd : Text.trimStart ((render ys).reverse ++ (mark :: ((Text.ofNat n).reverse ++
          mark :: (render xs).reverse))) = mark :: ((Text.ofNat n).reverse ++ mark :: (render xs).reverse) := by
        rw [trimStart_blanks hleft, trimStart_cons hmark]
      have hleftEnd := isNamePlace_of_mark hmarkEnd
      have hrightEnd : isNamePlace ((spell f ys).reverse ++ ((c :: t).reverse ++ (spell f xs).reverse)) [] = false := by
        rw [isNamePlace_of_sameEnd hend Iff.rfl fun _ => rfl]
        exact hquiet
      rw [hmask, hfill, Bool.eq_iff_iff, isNamePlace_iff_of_end ?_ hleftEnd, isNamePlace_iff_of_end ?_ hrightEnd]
      · exact hdot
      · exact hsolid (by simp)
      · rw [hmarkEnd]
        exact List.cons_ne_nil _ _

/-! ## Conversions -/

/-- What is copied names no type, and it expects no name behind it. -/
def Calm (types : TypeTable) (f : Nat → Text) (p : Part) : Prop :=
  ∀ n, p = .held n → types.namesType (f n) = false ∧ isNamePlace (f n).reverse [] = false

theorem Settled.push {types : TypeTable} {done : List Part} {p : Part} (h : Settled f done) (hp : Calm types f p) :
    Settled f (done ++ [p]) := by
  intro xs n ys hsplit hys
  rcases List.eq_nil_or_concat ys with rfl | ⟨ys, q, rfl⟩
  · exact (hp n (List.append_inj_right' hsplit rfl |> List.singleton_inj.1)).2
  · rw [List.concat_eq_append] at hsplit hys
    have hdone : done ++ [p] = (xs ++ .held n :: ys) ++ [q] := by rw [hsplit]; simp
    exact h xs n ys (List.append_inj_left' hdone rfl) fun q hq => hys q (List.mem_append_left _ hq)

/-- Behind a match no placeholder is the last thing. -/
theorem FilledMatch.settled {types : TypeTable} {qs : List Part} {m m' : RuleMatch}
    (h : types.FilledMatch shieldStops f qs m m') (done : List Part) : Settled f (done ++ qs) := by
  intro xs n ys hsplit hys
  have hclosed {zs : List Part} (hqs : qs = zs ++ .held n :: ys) : False :=
    absurd (hys _ (h.closed zs n ys hqs)) (by decide)
  rcases List.append_eq_append_iff.1 hsplit with ⟨zs, -, hqs⟩ | ⟨zs, -, hzs⟩
  · exact (hclosed hqs).elim
  · cases zs with
    | nil =>
      have hqs : qs = [] ++ .held n :: ys := hzs.symm
      exact (hclosed hqs).elim
    | cons p zs =>
      obtain ⟨-, rfl⟩ := List.cons.inj hzs
      obtain ⟨q, hq, hsolid⟩ := h.solid
      rw [hys q (List.mem_append_right _ hq)] at hsolid
      cases hsolid

/-- Both cuts are converted to the same text, and as many changes are made. -/
def ConvertsFilled (f : Nat → Text) (cs cs' : List (Cut RuleMatch)) : Prop :=
  ∃ ws, Sound ws ∧ cs.flatMap convertedPiece = render ws ∧ cs'.flatMap convertedPiece = spell f ws ∧
    (changesOf cs).length = (changesOf cs').length

theorem ConvertsFilled.append {cs cs' ds ds' : List (Cut RuleMatch)} (h : ConvertsFilled f cs cs')
    (h' : ConvertsFilled f ds ds') : ConvertsFilled f (cs ++ ds) (cs' ++ ds') := by
  obtain ⟨ws, hws, htext, htext', hlength⟩ := h
  obtain ⟨vs, hvs, hmore, hmore', hlength'⟩ := h'
  refine ⟨ws ++ vs, sound_append.2 ⟨hws, hvs⟩, ?_, ?_, ?_⟩
  · rw [List.flatMap_append, htext, hmore, render_append]
  · rw [List.flatMap_append, htext', hmore', spell_append]
  · rw [changesOf_append, changesOf_append, List.length_append, List.length_append, hlength, hlength']

/-- What is copied is converted to itself. -/
theorem convertsFilled_kept {p : Part} (hp : p ≠ .code mark) :
    ConvertsFilled f (p.text.map .copied) ((p.spelled f).map .copied) := by
  have hchanges (t : Text) : changesOf (t.map .copied) = [] := by
    rw [← List.append_nil (t.map _), changesOf_copied]
    rfl
  refine ⟨[p], by simpa [Sound, eq_comm] using hp, ?_, ?_, by rw [hchanges, hchanges]⟩
  · simpa using flatMap_copied p.text
  · simpa using flatMap_copied (p.spelled f)

/-- A match is converted on both sides or on none. -/
theorem convertsFilled_found {types : TypeTable} (ht : types.IsSteady) {done qs rs : List Part} {m m' : RuleMatch}
    (h : types.FilledMatch shieldStops f qs m m') (hps : Fills shieldStops f (done ++ (qs ++ rs)))
    (hsettled : Settled f done) (hquoted : QuotedApart f (done ++ (qs ++ rs)))
    (hcarried : ∀ n ∈ carriedNumbers ⟨(render done).reverse, render qs, render rs, m⟩, ∀ c ∈ f n, isBlank c = false) :
    ConvertsFilled f [.found ⟨(render done).reverse, render qs, render rs, m⟩]
      [.found ⟨(spell f done).reverse, spell f qs, spell f rs, m'⟩] := by
  have hsingle (n : Match RuleMatch) : [Cut.found n].flatMap convertedPiece =
      ((change? n).map TypeChange.written).getD n.text ∧ changesOf [.found n] = (change? n).toList := by
    refine ⟨by simp [convertedPiece], ?_⟩
    rw [changesOf_found]
    exact List.append_nil _
  have hbare : isBareMatch ⟨(spell f done).reverse, spell f qs, spell f rs, m'⟩ =
      isBareMatch ⟨(render done).reverse, render qs, render rs, m⟩ := by
    refine isBareMatch_congr h.rule ?_ _ _ _ _ _ _
    rcases h.arguments with ⟨hnone, hnone'⟩ | ⟨as, -, -, hsome, hsome'⟩
    · rw [hnone, hnone']
    · rw [hsome, hsome']
      rfl
  have hplace (hbare : isBareMatch ⟨(render done).reverse, render qs, render rs, m⟩ = true) :
      isNamePlace (render done).reverse (render rs) = isNamePlace (spell f done).reverse (spell f rs) := by
    simp only [isBareMatch, Bool.and_eq_true, Option.isNone_iff_eq_none, Bool.not_eq_true'] at hbare
    refine isNamePlace_filled hps hsettled hquoted ?_ (h.bare hbare.1 hbare.2)
    rintro rfl
    obtain ⟨p, hp, -⟩ := h.solid
    cases hp
  have hunit : ∀ c ∈ shieldStops, lengthUnit.avoids c = true := List.all_eq_true.1 (by decide)
  obtain ⟨ws, hws, -, hwritten, hwritten'⟩ :=
    written_filled areStops_shieldStops hunit (ht.regular _ h.mem) h.rule h.arguments hcarried
  unfold ConvertsFilled
  rw [(hsingle _).1, (hsingle _).1, (hsingle _).2, (hsingle _).2, change?_eq, change?_eq, hbare]
  cases hb : isBareMatch ⟨(render done).reverse, render qs, render rs, m⟩ with
  | false => exact ⟨ws, hws, hwritten, hwritten', rfl⟩
  | true =>
    simp only [← hplace hb, Bool.true_and]
    cases isNamePlace (render done).reverse (render rs) with
    | false => exact ⟨ws, hws, hwritten, hwritten', rfl⟩
    | true => exact ⟨qs, hps.right.left.sound, rfl, rfl, rfl⟩

/-- Cuts of masked and of filled parts are converted alike. -/
theorem convertsFilled {types : TypeTable} (ht : types.IsSteady) {done ps : List Part} {cs cs' : List (Cut RuleMatch)}
    (hcuts : FilledCuts f (types.FilledMatch shieldStops f) (Calm types f) [] [] done ps cs cs')
    (hps : Fills shieldStops f (done ++ ps)) (hsettled : Settled f done) (hquoted : QuotedApart f (done ++ ps))
    (hcarried : ∀ m, Cut.found m ∈ cs → ∀ n ∈ carriedNumbers m, ∀ c ∈ f n, isBlank c = false) :
    ConvertsFilled f cs cs' := by
  induction hcuts with
  | nil done => exact ⟨[], List.not_mem_nil, rfl, rfl, rfl⟩
  | @kept done ps cs cs' p hp hcuts ih =>
    have hsplit : done ++ p :: ps = done ++ [p] ++ ps := by simp
    refine (convertsFilled_kept (sound_cons.1 hps.right.sound).1).append (ih (hsplit ▸ hps) (hsettled.push hp)
      (hsplit ▸ hquoted) fun m hm => hcarried m (List.mem_append_right _ hm))
  | @found done qs rs m m' cs cs' hm hcuts ih =>
    have hrest := ih (by rwa [List.append_assoc]) (hm.settled done) (by rwa [List.append_assoc])
      fun m hm => hcarried m (List.mem_cons_of_mem _ hm)
    have hcarried := hcarried _ List.mem_cons_self
    rw [List.append_nil] at hcarried ⊢
    rw [List.append_nil]
    exact (convertsFilled_found ht hm hps hsettled hquoted hcarried).append hrest

/-! ## Whole texts -/

theorem oracle_keepsOff : ∀ r ∈ oracleTypes.rules, r.keepsOff shieldStops = true :=
  forall_mem_ofRules (by decide +kernel)

theorem mysql_keepsOff : ∀ r ∈ mysqlTypes.rules, r.keepsOff shieldStops = true :=
  forall_mem_ofRules (by decide +kernel)

/-- Converting a masked text commutes with filling its placeholders, if those that are left over name no type, and
those in sizes that are carried over are filled without blanks. -/
theorem convertText_filled {types : TypeTable} (ht : types = oracleTypes ∨ types = mysqlTypes) {ps : List Part}
    (hps : Fills shieldStops f ps) (hquoted : QuotedApart f ps)
    (hcalm : ∀ n, .held n ∈ ps → .held n ∈ parts (replaceMatches types.matcher (fun _ => []) (render ps)) →
      Calm types f (.held n))
    (hcarried : ∀ m ∈ allMatches types.matcher (render ps), ∀ n ∈ carriedNumbers m, ∀ c ∈ f n, isBlank c = false) :
    ∃ ws, Sound ws ∧ (types.convertText (render ps)).text = render ws ∧
      (types.convertText (spell f ps)).text = spell f ws ∧
      (types.convertText (render ps)).changes.length = (types.convertText (spell f ps)).changes.length := by
  have hsteady := isSteady_of_eq ht
  obtain ⟨horderly, hoff⟩ : types.IsOrderly ∧ ∀ r ∈ types.rules, r.keepsOff shieldStops = true := by
    rcases ht with rfl | rfl
    · exact ⟨oracle_orderly, oracle_keepsOff⟩
    · exact ⟨mysql_orderly, mysql_keepsOff⟩
  obtain ⟨ks, hks, hsublist, hcopied, hcuts⟩ := cut_filled (Q := Calm types f) areStops_shieldStops
    (matcher_respectsFilling hsteady areStops_shieldStops hoff) (fun c n h => nomatch h) hps
    fun n hn hcalm => quiet_of_namesType horderly (hcalm n rfl).1
  have hleft : replaceMatches types.matcher (fun _ => []) (render ps) = render ks := by
    rw [← hcopied]
    refine congrArg (fun g => List.flatMap g _) (funext fun piece => ?_)
    cases piece <;> rfl
  rw [hleft, parts_render hks] at hcalm
  obtain ⟨ws, hws, htext, htext', hlength⟩ := convertsFilled hsteady
    (hcuts fun n hn => hcalm n (hsublist.subset hn) hn) hps (fun xs n ys h => by simp at h) hquoted fun m hm =>
      hcarried m (Cut.mem_filterMap_match?.2 hm)
  exact ⟨ws, hws, (text_convertText types _).trans htext, (text_convertText types _).trans htext', hlength⟩

end TypeTable

end DialectBridge
