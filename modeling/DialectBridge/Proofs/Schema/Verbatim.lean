import DialectBridge.Proofs.Reading.Names

/-!
# Types and default values as written

Types and default values are kept verbatim. What is kept is read again as it stands, wherever it is
followed by the end of a definition or by a keyword behind a gap (`recites_dataType`,
`recites_defaultValue`).
-/

namespace DialectBridge

open Token Reader

/-- The definition ends here, or it goes on with a keyword behind a gap. -/
def EndsPart (rest : List Token) : Prop :=
  ∀ t ∈ rest.head?, (∃ keyword, t.kind = .keyword keyword) ∧ t.gap ≠ []

theorem EndsPart.nil : EndsPart [] := by
  intro t ht
  cases ht

/-- The tokens can be written down again: they are read as the text `s`, whatever gap is in front of
them, and nothing of what ends them is read. -/
structure Reader.Recites (r : Reader Text) (s : Text) (us : List Token) : Prop where
  chain : Chain us
  level : Level us
  nonempty : us ≠ []
  text : verbatim us = s
  read : ∀ g rest, EndsPart rest → r (withGap g us ++ rest) = .ok (s, rest)

theorem verbatim_withGap (g : List Trivia) (us : List Token) : verbatim (withGap g us) = verbatim us := by
  cases us <;> rfl

/-- What is taken is what was passed. -/
theorem verbatim_taken_withGap (g : List Trivia) (us rest : List Token) :
    verbatim (taken (withGap g us ++ rest) rest) = verbatim us := by
  rw [taken_append, verbatim_withGap]

namespace ColumnDefinition

/-! ## Types -/

theorem afterType_group {continuations : List Text} {o : Token} {ts rest : List Token}
    (ho : o.kind = .leftParen) (h : afterGroup? 0 ts = some rest) :
    afterType continuations (o :: ts) = afterType continuations rest := by
  rw [afterType, if_pos (by simp [ho])]
  split
  · next heq => rw [Option.some.inj (h.symm.trans heq)]
  · next heq => cases h.symm.trans heq

theorem afterType_unclosed {continuations : List Text} {o : Token} {ts : List Token}
    (ho : o.kind = .leftParen) (h : afterGroup? 0 ts = none) :
    afterType continuations (o :: ts) = .error (unclosed (o :: ts)) := by
  rw [afterType, if_pos (by simp [ho])]
  split
  · next heq => cases h.symm.trans heq
  · rfl

theorem afterType_stop {continuations : List Text} {t : Token} {ts : List Token}
    (ht : t.kind ≠ .leftParen) (hword : continuations.any t.isWord = false) :
    afterType continuations (t :: ts) = .ok (t :: ts) := by
  rw [afterType, if_neg (by simpa using ht), if_neg (by simp [hword])]

theorem afterType_word {continuations : List Text} {t : Token} {ts : List Token}
    (ht : t.kind ≠ .leftParen) (hword : continuations.any t.isWord = true) :
    afterType continuations (t :: ts) = afterType continuations ts := by
  rw [afterType, if_neg (by simpa using ht), if_pos hword]

/-- Keywords do not continue a type. -/
theorem afterType_end {continuations : List Text} {rest : List Token} (h : EndsPart rest) :
    afterType continuations rest = .ok rest := by
  cases rest with
  | nil => rw [afterType]
  | cons t rest =>
    obtain ⟨⟨keyword, hkind⟩, -⟩ := h t rfl
    have hword : continuations.any t.isWord = false := by simp [isWord, hkind]
    rw [afterType, if_neg (by simp [hkind]), if_neg (by simp [hword])]

/-- What a type goes on with, and where it ends. -/
theorem exists_afterType {continuations : List Text} {ts rest : List Token}
    (h : afterType continuations ts = .ok rest) (hlevel : Level ts) :
    ∃ us, ts = us ++ rest ∧ Level us ∧ Level rest ∧
      ∀ next, EndsPart next → afterType continuations (us ++ next) = .ok next := by
  fun_induction afterType continuations ts with
  | case1 =>
    cases h
    exact ⟨[], rfl, .nil, .nil, fun next hnext => afterType_end hnext⟩
  | case2 t ts ht mid hmid ih =>
    have ht : t.kind = .leftParen := by simpa using ht
    obtain ⟨vs, after, rfl, hvs, hafter, hgroup⟩ := hlevel.of_group ht
    obtain rfl : after = mid := Option.some.inj (hgroup.symm.trans hmid)
    obtain ⟨us, rfl, hus, hrest, hread⟩ := ih h hafter
    refine ⟨t :: (vs ++ us), by simp, .group ht hvs hus, hrest, fun next hnext => ?_⟩
    rw [List.cons_append, List.append_assoc, afterType_group ht (hvs _).1]
    exact hread next hnext
  | case3 => cases h
  | case4 t ts ht hword ih =>
    have ht : t.kind ≠ .leftParen := by simpa using ht
    obtain ⟨hplain, hts⟩ := hlevel.of_plain ht
    obtain ⟨us, rfl, hus, hrest, hread⟩ := ih h hts
    refine ⟨t :: us, rfl, .plain hplain hus, hrest, fun next hnext => ?_⟩
    rw [List.cons_append, afterType_word ht hword]
    exact hread next hnext
  | case5 t ts =>
    cases h
    exact ⟨[], rfl, .nil, hlevel, fun next hnext => afterType_end hnext⟩

theorem dataType_cons {t : Token} {base : Text} {ts : List Token} (ht : t.kind = .identifier base) :
    dataType (t :: ts) = (afterType (typeContinuations base.upper) ts).map fun rest =>
      (verbatim (taken (t :: ts) rest), rest) := by
  have hstarts : startsType (t :: ts) = true := by
    rw [startsType, atKind, headKind, ht]
    rfl
  have hword : word "data type" (t :: ts) = .ok (base, ts) := by simp [word, name?, ht]
  rw [dataType, if_pos hstarts, hword]
  change (afterType (typeContinuations base.upper) ts >>= fun next =>
    Pure.pure (verbatim (taken (t :: ts) next), next)) = _
  cases afterType (typeContinuations base.upper) ts <;> rfl

/-- A type starts with a word, which is bare where no quoted names are. -/
theorem exists_identifier {t : Token} {ts : List Token} (h : startsType (t :: ts) = true)
    (hunquoted : ∀ n, t.kind ≠ .quoted n) : ∃ base, t.kind = .identifier base := by
  rw [startsType, atKind, atKind, headKind] at h
  cases ht : t.kind with
  | identifier base => exact ⟨base, rfl⟩
  | quoted n => exact absurd ht (hunquoted n)
  | _ => simp [ht, TokenKind.sameKind, TokenKind.ctorIdx] at h

/-- A type is read as written. -/
theorem recites_dataType {ts rest : List Token} {type : Text} (h : dataType ts = .ok (type, rest))
    (hchain : Chain ts) (hlevel : Level ts) (hunquoted : Unquoted ts) :
    ∃ us, ts = us ++ rest ∧ Level rest ∧ Recites dataType type us := by
  cases ts with
  | nil => cases h
  | cons t ts =>
    have hstarts : startsType (t :: ts) = true := by
      cases hs : startsType (t :: ts) with
      | true => rfl
      | false => simp [dataType, hs] at h
    obtain ⟨base, ht⟩ := exists_identifier hstarts (hunquoted t List.mem_cons_self)
    obtain ⟨hplain, hts⟩ := hlevel.of_plain (by simp [ht])
    rw [dataType_cons ht] at h
    cases hafter : afterType (typeContinuations base.upper) ts with
    | error e =>
      rw [hafter] at h
      cases h
    | ok next =>
      rw [hafter] at h
      cases h
      obtain ⟨us, rfl, hus, hrest, hread⟩ := exists_afterType hafter hts
      refine ⟨t :: us, rfl, hrest, hchain.left, .plain hplain hus, List.cons_ne_nil t us, ?_, fun g next hnext => ?_⟩
      · rw [← List.cons_append, taken_append]
      · have hgap : dataType ({ t with gap := g } :: (us ++ next)) = _ := dataType_cons (t := { t with gap := g }) ht
        rw [hread next hnext] at hgap
        rw [← List.cons_append, taken_append]
        have htaken := verbatim_taken_withGap g (t :: us) next
        exact hgap.trans (congrArg (fun text => Except.ok (text, next)) htaken)

/-! ## Default values -/

theorem afterAdjacent_group {o : Token} {ts rest : List Token} (hgap : o.gap = []) (ho : o.kind = .leftParen)
    (h : afterGroup? 0 ts = some rest) : afterAdjacent (o :: ts) = afterAdjacent rest := by
  rw [afterAdjacent, if_neg (by simp [isEof, ho, hgap]), if_pos (by simp [ho])]
  split
  · next heq => rw [Option.some.inj (h.symm.trans heq)]
  · next heq => cases h.symm.trans heq

theorem afterAdjacent_unclosed {o : Token} {ts : List Token} (hgap : o.gap = []) (ho : o.kind = .leftParen)
    (h : afterGroup? 0 ts = none) : afterAdjacent (o :: ts) = .error (unclosed (o :: ts)) := by
  rw [afterAdjacent, if_neg (by simp [isEof, ho, hgap]), if_pos (by simp [ho])]
  split
  · next heq => cases h.symm.trans heq
  · rfl

theorem afterAdjacent_stop {t : Token} {ts : List Token} (h : (t.isEof || !t.gap.isEmpty) = true) :
    afterAdjacent (t :: ts) = .ok (t :: ts) := by
  rw [afterAdjacent, if_pos h]

theorem afterAdjacent_cons {t : Token} {ts : List Token} (hgap : t.gap = []) (heof : t.kind ≠ .eof)
    (ht : t.kind ≠ .leftParen) : afterAdjacent (t :: ts) = afterAdjacent ts := by
  rw [afterAdjacent, if_neg (by simpa [isEof, hgap] using heof), if_neg (by simpa using ht)]

/-- What stands behind a gap is not adjacent. -/
theorem afterAdjacent_end {rest : List Token} (h : EndsPart rest) : afterAdjacent rest = .ok rest := by
  cases rest with
  | nil => rw [afterAdjacent]
  | cons t rest =>
    have hgap := (h t rfl).2
    rw [afterAdjacent, if_pos (by simp [hgap])]

/-- What follows the first item of a default value without a gap. -/
theorem exists_afterAdjacent {ts rest : List Token} (h : afterAdjacent ts = .ok rest) (hlevel : Level ts) :
    ∃ us, ts = us ++ rest ∧ Level us ∧ Level rest ∧
      ∀ next, EndsPart next → afterAdjacent (us ++ next) = .ok next := by
  fun_induction afterAdjacent ts with
  | case1 =>
    cases h
    exact ⟨[], rfl, .nil, .nil, fun next hnext => afterAdjacent_end hnext⟩
  | case2 t ts =>
    cases h
    exact ⟨[], rfl, .nil, hlevel, fun next hnext => afterAdjacent_end hnext⟩
  | case3 t ts hadjacent ht mid hmid ih =>
    have ht : t.kind = .leftParen := by simpa using ht
    have hgap : t.gap = [] := by simpa [isEof, ht] using hadjacent
    obtain ⟨vs, after, rfl, hvs, hafter, hgroup⟩ := hlevel.of_group ht
    obtain rfl : after = mid := Option.some.inj (hgroup.symm.trans hmid)
    obtain ⟨us, rfl, hus, hrest, hread⟩ := ih h hafter
    refine ⟨t :: (vs ++ us), by simp, .group ht hvs hus, hrest, fun next hnext => ?_⟩
    rw [List.cons_append, List.append_assoc, afterAdjacent_group hgap ht (hvs _).1]
    exact hread next hnext
  | case4 => cases h
  | case5 t ts hadjacent ht ih =>
    have ht : t.kind ≠ .leftParen := by simpa using ht
    obtain ⟨hplain, hts⟩ := hlevel.of_plain ht
    have hgap : t.gap = [] := by
      simp only [Bool.or_eq_true, not_or, Bool.not_eq_true, Bool.not_eq_false', List.isEmpty_iff] at hadjacent
      exact hadjacent.2
    obtain ⟨us, rfl, hus, hrest, hread⟩ := ih h hts
    refine ⟨t :: us, rfl, .plain hplain hus, hrest, fun next hnext => ?_⟩
    rw [List.cons_append, afterAdjacent_cons hgap hplain.2.2.2 ht]
    exact hread next hnext

/-- The first item of a default value is a token or a group. -/
theorem exists_afterItem {t : Token} {ts rest : List Token} (h : afterItem (t :: ts) = .ok rest)
    (hlevel : Level (t :: ts)) :
    ∃ us, ts = us ++ rest ∧ Level (t :: us) ∧ Level rest ∧
      ∀ g next, afterItem ({ t with gap := g } :: (us ++ next)) = .ok next := by
  by_cases ht : t.kind = .leftParen
  · obtain ⟨vs, after, rfl, hvs, hafter, hgroup⟩ := hlevel.of_group ht
    have hitem : afterItem (t :: (vs ++ after)) = .ok after := by
      rw [afterItem, if_pos (atLeftParen_cons.2 ht), skipGroup_cons ht hgroup]
      rfl
    obtain rfl : after = rest := Except.ok.inj (hitem.symm.trans h)
    have hclosed : Level (t :: (vs ++ [])) := .group ht hvs .nil
    rw [List.append_nil] at hclosed
    refine ⟨vs, rfl, hclosed, hafter, fun g next => ?_⟩
    have hgap : ({ t with gap := g } : Token).kind = .leftParen := ht
    rw [afterItem, if_pos (atLeftParen_cons.2 hgap), skipGroup_cons hgap (hvs next).1]
    rfl
  · obtain ⟨hplain, hts⟩ := hlevel.of_plain ht
    have hitem (u : Token) (hu : u.kind ≠ .leftParen) (us : List Token) : afterItem (u :: us) = .ok us := by
      rw [afterItem, if_neg (mt atLeftParen_cons.1 hu)]
      rfl
    rw [hitem t ht] at h
    cases h
    exact ⟨[], rfl, .plain hplain .nil, hts, fun g next => hitem { t with gap := g } ht next⟩

theorem defaultValue_eq {ts item rest : List Token} (heof : atEnd ts = false) (hitem : afterItem ts = .ok item)
    (hrest : afterAdjacent item = .ok rest) : defaultValue ts = .ok (verbatim (taken ts rest), rest) := by
  rw [defaultValue, if_neg (by simp [heof]), hitem]
  change (afterAdjacent item >>= fun next => Pure.pure (verbatim (taken ts next), next)) = _
  rw [hrest]
  rfl

theorem defaultValue_inv {ts rest : List Token} {value : Text} (h : defaultValue ts = .ok (value, rest)) :
    atEnd ts = false ∧ ∃ item, afterItem ts = .ok item ∧ afterAdjacent item = .ok rest ∧
      value = verbatim (taken ts rest) := by
  unfold defaultValue at h
  split at h
  · cases h
  · next hend =>
    cases hitem : afterItem ts with
    | error e => simp [hitem, Bind.bind, Except.bind] at h
    | ok item =>
      cases hadjacent : afterAdjacent item with
      | error e => simp [hitem, hadjacent, Bind.bind, Except.bind] at h
      | ok next =>
        simp only [hitem, hadjacent, Bind.bind, Except.bind] at h
        cases h
        exact ⟨by simpa using hend, item, rfl, hadjacent, rfl⟩

/-- A default value is read as written. -/
theorem recites_defaultValue {ts rest : List Token} {value : Text}
    (h : defaultValue ts = .ok (value, rest)) (hchain : Chain ts) (hlevel : Level ts) :
    ∃ us, ts = us ++ rest ∧ Level rest ∧ Recites defaultValue value us := by
  obtain ⟨hend, item, hitem, hadjacent, rfl⟩ := defaultValue_inv h
  cases ts with
  | nil => cases hend
  | cons t ts =>
    obtain ⟨us, rfl, hus, hlater, hreadItem⟩ := exists_afterItem hitem hlevel
    obtain ⟨vs, rfl, hvs, hrest, hreadAdjacent⟩ := exists_afterAdjacent hadjacent hlater
    have heq : t :: (us ++ (vs ++ rest)) = t :: (us ++ vs) ++ rest := by simp
    rw [heq] at hchain ⊢
    refine ⟨t :: (us ++ vs), rfl, hrest, hchain.left, hus.append hvs, List.cons_ne_nil _ _, ?_, fun g next hnext => ?_⟩
    · rw [taken_append]
    · have hread : defaultValue ({ t with gap := g } :: (us ++ (vs ++ next))) = _ :=
        defaultValue_eq (by simpa [atEnd, headKind] using hend) (hreadItem g _) (hreadAdjacent next hnext)
      have htaken := verbatim_taken_withGap g (t :: (us ++ vs)) next
      rw [taken_append]
      refine Eq.trans ?_ (congrArg (fun text => Except.ok (text, next)) htaken)
      rw [← List.append_assoc, ← List.cons_append] at hread
      exact hread

end ColumnDefinition

end DialectBridge
