import DialectBridge.Proofs.Reading.Nesting
import DialectBridge.Reading.Cursor

/-!
# Groups in a window

Where a group closes in a window, and what its parts are, is told by the numbers of the tokens alone
(`Window.GroupCloses`, `Window.AreParts`). At an opening parenthesis a cursor that passes the group and one that cuts it
come to the same end: the group closes for both of them, at the same token, and the cut yields its parts, or it closes
for neither (`Cursor.splitGroup_skipGroup`).
-/

namespace DialectBridge

open Token Reader

/-- Token number `k` is in the range. -/
def TokenRange.holds (r : TokenRange) (k : Nat) : Bool :=
  r.first ≤ k && k < r.stop

namespace Window

variable {w : Window} {first mid stop n m k : Nat} {t : Token} {us rest : List Token} {ps : List Piece}
  {parts more : List TokenRange}

/-! ## Tokens by their numbers -/

/-- The group that opens with token number `n` closes with token number `m`: the tokens between them balance, and the
text does not end there. -/
structure GroupCloses (w : Window) (n m : Nat) : Prop where
  later : n < m
  closes : (w.tokenAt m).1.kind = .rightParen
  balances : Balances 0 (w.narrow (n + 1) m).tokens
  goesOn : ∀ t ∈ (w.narrow (n + 1) m).tokens, t.kind ≠ .eof

/-- Token number `k` is a comma outside of all groups that open with token number `first` or a later one. -/
structure Separates (w : Window) (first k : Nat) : Prop where
  comma : (w.tokenAt k).1.kind = .comma
  outside : Balances 0 (w.narrow first k).tokens

/-- The ranges are the parts of the tokens from number `first` up to, not including, number `stop`: they hold tokens,
follow one another and are not divided, and each token is in one of them alone unless it is a comma between them. -/
structure AreParts (w : Window) (first stop : Nat) (parts : List TokenRange) : Prop where
  inside : ∀ p ∈ parts, first ≤ p.first ∧ p.first < p.stop ∧ p.stop ≤ stop
  ordered : parts.Pairwise fun p q => p.stop < q.first
  undivided : ∀ p ∈ parts, IsUndivided 0 (w.narrow p.first p.stop).tokens
  covered : ∀ k, first ≤ k → k < stop → ¬ w.Separates first k → parts.countP (·.holds k) = 1
  separated : ∀ k, first ≤ k → k < stop → w.Separates first k → parts.countP (·.holds k) = 0

theorem tokenAt_eq (h : w.tokens[k]? = some t) : (w.tokenAt k).1 = t := by
  simp [tokenAt, h]

/-- Behind the last token stands the end of the text. -/
theorem exists_tokenAt {kind : TokenKind} (h : (w.tokenAt k).1.kind = kind) (hkind : kind ≠ .eof) :
    ∃ t, w.tokens[k]? = some t ∧ t.kind = kind := by
  cases ht : w.tokens[k]? with
  | some t => exact ⟨t, rfl, tokenAt_eq ht ▸ h⟩
  | none =>
    rw [tokenAt, ht] at h
    exact absurd h.symm hkind

theorem tokens_narrow (first stop : Nat) :
    (w.narrow first stop).tokens = (w.tokens.drop first).take (stop - first) :=
  List.drop_take

theorem drop_eq (hfirst : first ≤ k) (h : w.tokens[k]? = some t) :
    w.tokens.drop first = (w.narrow first k).tokens ++ t :: w.tokens.drop (k + 1) := by
  obtain ⟨hk, rfl⟩ := List.getElem?_eq_some_iff.1 h
  rw [tokens_narrow, ← List.drop_eq_getElem_cons hk]
  conv => lhs; rw [← List.take_append_drop (k - first) (w.tokens.drop first), List.drop_drop]
  rw [Nat.add_sub_cancel' hfirst]

theorem narrow_eq (hfirst : first ≤ k) (hstop : k < stop) (h : w.tokens[k]? = some t) :
    (w.narrow first stop).tokens = (w.narrow first k).tokens ++ t :: (w.narrow (k + 1) stop).tokens := by
  obtain ⟨hk, -⟩ := List.getElem?_eq_some_iff.1 h
  have hlength : (w.narrow first k).tokens.length = k - first := by
    rw [tokens_narrow, List.length_take, List.length_drop]
    omega
  rw [tokens_narrow, drop_eq hfirst h, List.take_append, hlength, List.take_of_length_le (by omega), tokens_narrow (k + 1),
    show stop - first - (k - first) = stop - (k + 1) + 1 by omega, List.take_succ_cons]

/-- What stands from a token on tells the numbers of what stands there. -/
theorem numbers_of_drop (h : w.tokens.drop first = us ++ t :: rest) :
    w.tokens[first + us.length]? = some t ∧ (w.narrow first (first + us.length)).tokens = us ∧
      w.tokens.drop (first + us.length + 1) = rest ∧ w.tokens.length = first + us.length + 1 + rest.length := by
  refine ⟨?_, ?_, ?_, ?_⟩
  · rw [← List.getElem?_drop, h, List.getElem?_append_right (Nat.le_refl _), Nat.sub_self]
    rfl
  · rw [tokens_narrow, h, Nat.add_sub_cancel_left, List.take_left]
  · rw [Nat.add_assoc, ← List.drop_drop, h, List.drop_append]
    simp
  · have hlength := congrArg List.length h
    simp only [List.length_drop, List.length_append, List.length_cons] at hlength
    omega

theorem position_drop (h : n ≤ w.tokens.length) : w.position (w.tokens.drop n) = n := by
  rw [position, List.length_drop]
  omega

/-- A group closes with the parenthesis that the readers of groups stop behind. -/
theorem afterGroup?_drop_iff :
    afterGroup? 0 (w.tokens.drop (n + 1)) = some rest ↔ ∃ m, w.GroupCloses n m ∧ w.tokens.drop (m + 1) = rest := by
  rw [afterGroup?_eq_some_iff]
  constructor
  · rintro ⟨us, c, hdrop, hc, hbalances, heof⟩
    obtain ⟨hclose, hus, hrest, -⟩ := numbers_of_drop hdrop
    refine ⟨n + 1 + us.length, ⟨by omega, ?_, hus.symm ▸ hbalances, hus.symm ▸ heof⟩, hrest⟩
    rw [tokenAt_eq hclose, hc]
  · rintro ⟨m, ⟨hlater, hcloses, hbalances, hgoesOn⟩, rfl⟩
    obtain ⟨c, hm, hc⟩ := exists_tokenAt hcloses (by simp)
    exact ⟨_, c, drop_eq hlater hm, hc, hbalances, hgoesOn⟩

theorem GroupCloses.lt_length (h : w.GroupCloses n m) : m < w.tokens.length := by
  obtain ⟨t, hm, -⟩ := exists_tokenAt h.closes (by simp)
  exact (List.getElem?_eq_some_iff.1 hm).1

/-- Behind a group, the closing parenthesis is the token passed last. -/
theorem GroupCloses.previous_seek (h : w.GroupCloses n m) :
    ((Cursor.ofWindow w).seek (m + 1)).previous = w.tokenAt m := by
  have hposition : ((Cursor.ofWindow w).seek (m + 1)).position = m + 1 := position_drop h.lt_length
  rw [Cursor.previous, hposition]
  rfl

/-! ## Parts -/

/-- Tokens that are not divided are a part, if there are any. -/
theorem areParts_undivided (hfirst : first ≤ stop) (hstop : stop ≤ w.tokens.length)
    (h : IsUndivided 0 (w.narrow first stop).tokens) :
    w.AreParts first stop (if first = stop then [] else [⟨first, stop⟩]) := by
  split
  · next heq =>
    subst heq
    exact ⟨by simp, .nil, by simp, fun k _ _ => by omega, fun k _ _ => by omega⟩
  · next hne =>
    have hholds {k : Nat} (hk : first ≤ k) (hk' : k < stop) : (TokenRange.mk first stop).holds k = true := by
      simp [TokenRange.holds, hk, hk']
    refine ⟨?_, List.pairwise_singleton _ _, ?_, fun k hk hk' _ => ?_, fun k hk hk' hseparates => ?_⟩
    · rintro p hp
      rw [List.mem_singleton.1 hp]
      exact ⟨Nat.le_refl _, by simp only; omega, Nat.le_refl _⟩
    · rintro p hp
      rwa [List.mem_singleton.1 hp]
    · rw [List.countP_singleton, if_pos (hholds hk hk')]
    · obtain ⟨c, hget, hc⟩ := exists_tokenAt hseparates.comma (by simp)
      exact absurd hseparates.outside (h.inGroup (narrow_eq hk hk' hget) hc)

theorem AreParts.countP_eq_zero (h : w.AreParts first stop parts) (hk : k < first ∨ stop ≤ k) :
    parts.countP (·.holds k) = 0 := by
  rw [List.countP_eq_zero]
  intro p hp
  have hinside := h.inside p hp
  simp only [TokenRange.holds, Bool.and_eq_true, decide_eq_true_eq]
  omega

/-- Behind a comma outside of groups, a comma is outside of groups if it is outside of those behind the first one. -/
theorem Separates.separates_iff (h : w.Separates first mid) (hfirst : first ≤ mid) (hk : mid < k) :
    w.Separates first k ↔ w.Separates (mid + 1) k := by
  obtain ⟨c, hget, hc⟩ := exists_tokenAt h.comma (by simp)
  have hbalances : Balances 0 (w.narrow first k).tokens ↔ Balances 0 (w.narrow (mid + 1) k).tokens := by
    rw [narrow_eq hfirst hk hget, h.outside.append_iff 0, balances_other (by simp [hc]) (by simp [hc])]
  exact ⟨fun hk => ⟨hk.comma, hbalances.1 hk.outside⟩, fun hk => ⟨hk.comma, hbalances.2 hk.outside⟩⟩

/-- The parts on both sides of a comma are those of the whole. -/
theorem AreParts.append (h : w.AreParts first mid parts) (hmore : w.AreParts (mid + 1) stop more)
    (hcomma : w.Separates first mid) (hfirst : first ≤ mid) (hstop : mid < stop) :
    w.AreParts first stop (parts ++ more) where
  inside p hp := by
    rcases List.mem_append.1 hp with hp | hp
    · have hinside := h.inside p hp
      omega
    · have hinside := hmore.inside p hp
      omega
  ordered := by
    refine List.pairwise_append.2 ⟨h.ordered, hmore.ordered, fun p hp q hq => ?_⟩
    have hbefore := h.inside p hp
    have hafter := hmore.inside q hq
    omega
  undivided p hp := (List.mem_append.1 hp).elim (h.undivided p) (hmore.undivided p)
  covered k hk hk' hseparates := by
    rw [List.countP_append]
    rcases Nat.lt_trichotomy k mid with hlt | rfl | hlt
    · rw [h.covered k hk hlt hseparates, hmore.countP_eq_zero (.inl (by omega))]
    · exact absurd hcomma hseparates
    · rw [h.countP_eq_zero (.inr (by omega)),
        hmore.covered k hlt hk' (mt (hcomma.separates_iff hfirst hlt).2 hseparates)]
  separated k hk hk' hseparates := by
    rw [List.countP_append]
    rcases Nat.lt_trichotomy k mid with hlt | rfl | hlt
    · rw [h.separated k hk hlt hseparates, hmore.countP_eq_zero (.inl (by omega))]
    · rw [h.countP_eq_zero (.inr (Nat.le_refl _)), hmore.countP_eq_zero (.inl (Nat.lt_succ_self _))]
    · rw [h.countP_eq_zero (.inr (by omega)),
        hmore.separated k hlt hk' ((hcomma.separates_iff hfirst hlt).1 hseparates)]

/-- A piece in front of its delimiter is a part, if it holds a token. -/
theorem areParts_piece (hdrop : w.tokens.drop first = us ++ t :: rest) (hus : IsUndivided 0 us) (next : List Part) :
    ∃ parts, w.AreParts first (first + us.length) parts ∧
      (if us.isEmpty then next else ⟨us, w.tokens.drop first⟩ :: next).map w.rangeOf = parts ++ next.map w.rangeOf := by
  obtain ⟨-, hnarrow, -, hlength⟩ := numbers_of_drop hdrop
  refine ⟨_, areParts_undivided (Nat.le_add_right _ _) (by omega) (hnarrow.symm ▸ hus), ?_⟩
  cases us with
  | nil => simp
  | cons u us => simp [rangeOf, position_drop (show first ≤ w.tokens.length by omega)]

/-- The pieces that a group is cut into stand where its parts are. -/
theorem areParts_of_isCut {ts : List Token} (hcut : IsCut 0 ts ps rest) (hts : w.tokens.drop first = ts) :
    w.AreParts first (w.position rest - 1) ((partsFrom ts ps).map w.rangeOf) := by
  generalize hdepth : 0 = depth at hcut
  induction hcut generalizing first with
  | @last depth us rest c undivided closes =>
    subst hdepth
    obtain ⟨-, -, -, hlength⟩ := numbers_of_drop hts
    obtain ⟨parts, hparts, heq⟩ := areParts_piece hts undivided []
    rw [hts] at heq
    rw [partsFrom, partsFrom, heq, show w.position rest - 1 = first + us.length by rw [position]; omega]
    simpa using hparts
  | @cons depth us ts rest c ps undivided comma cut ih =>
    subst hdepth
    obtain ⟨hget, hnarrow, hdrop, hlength⟩ := numbers_of_drop hts
    have hcomma : w.Separates first (first + us.length) :=
      ⟨by rw [tokenAt_eq hget, comma], hnarrow.symm ▸ undivided.balances⟩
    have hrest := cut.length_lt
    obtain ⟨parts, hparts, heq⟩ := areParts_piece hts undivided (partsFrom ts ps)
    have hplace : (us ++ c :: ts).drop (us.length + 1) = ts := by simp [List.drop_append]
    rw [hts] at heq
    rw [partsFrom, hplace, heq]
    exact hparts.append (ih hdrop rfl) hcomma (Nat.le_add_right _ _) (by rw [position]; omega)

end Window

/-! ## Cursors at a group -/

namespace Cursor

variable {w : Window} {n m : Nat}

theorem position_seek (w : Window) (n : Nat) : ((ofWindow w).seek n).position = min n w.tokens.length := by
  show w.tokens.length - (w.tokens.drop n).length = _
  rw [List.length_drop]
  omega

/-- Readers of groups stop at the end of the text, if the group does not close before. -/
theorem atEnd_stop (ts : List Token) : atEnd (unclosed ts).stop = true := by
  show atEnd (ts.dropWhile fun t => !t.isEof) = true
  induction ts with
  | nil => rfl
  | cons t ts ih =>
    rw [List.dropWhile_cons]
    split
    · exact ih
    · next h => simpa [atEnd, headKind, isEof] using h

section

variable (hopen : (((ofWindow w).seek n).peekAt 0).1.kind = .leftParen)
include hopen

/-- A cursor at an opening parenthesis has the group in front of it. -/
theorem exists_opening : ∃ o, w.tokens.drop n = o :: w.tokens.drop (n + 1) ∧ o.kind = .leftParen ∧
    ((ofWindow w).seek n).position = n := by
  obtain ⟨o, hget, ho⟩ := Window.exists_tokenAt hopen (by simp)
  have hget : w.tokens[min n w.tokens.length]? = some o := position_seek w n ▸ hget
  obtain ⟨hlt, heq⟩ := List.getElem?_eq_some_iff.1 hget
  have hn : n < w.tokens.length := by omega
  simp only [Nat.min_eq_left hn.le] at heq
  exact ⟨o, heq ▸ List.drop_eq_getElem_cons hn, ho, Window.position_drop hn.le⟩

theorem skipGroup_of_closes (h : w.GroupCloses n m) :
    ((ofWindow w).seek n).skipGroup =
      (.ok ((w.tokenAt n).2.cover (w.tokenAt m).2), (ofWindow w).seek (m + 1)) := by
  obtain ⟨o, hdrop, ho, hposition⟩ := exists_opening hopen
  have hgroup := Window.afterGroup?_drop_iff.2 ⟨m, h, rfl⟩
  have hrun : ((ofWindow w).seek n).run Reader.skipGroup =
      (.ok (taken (w.tokens.drop n) (w.tokens.drop (m + 1))), (ofWindow w).seek (m + 1)) := by
    rw [run, show ((ofWindow w).seek n).rest = w.tokens.drop n from rfl, hdrop, Reader.skipGroup_cons ho hgroup]
    rfl
  rw [skipGroup, hrun]
  simp only [h.previous_seek, peekAt, hposition]
  rfl

theorem splitGroup_of_closes (h : w.GroupCloses n m) : ∃ parts, w.AreParts (n + 1) m parts ∧
    ((ofWindow w).seek n).splitGroup = (.ok (parts, (w.tokenAt m).2), (ofWindow w).seek (m + 1)) := by
  obtain ⟨o, hdrop, ho, -⟩ := exists_opening hopen
  have hgroup := Window.afterGroup?_drop_iff.2 ⟨m, h, rfl⟩
  rw [← pieces?_map_snd, Option.map_eq_some_iff] at hgroup
  obtain ⟨⟨ps, rest⟩, hpieces, hrest⟩ := hgroup
  obtain rfl : rest = w.tokens.drop (m + 1) := hrest
  have hrun : ((ofWindow w).seek n).run Reader.splitGroup =
      (.ok (partsFrom (w.tokens.drop (n + 1)) ps), (ofWindow w).seek (m + 1)) := by
    rw [run, show ((ofWindow w).seek n).rest = w.tokens.drop n from rfl, hdrop, Reader.splitGroup_cons ho hpieces]
    rfl
  have hparts := Window.areParts_of_isCut (isCut_of_pieces? hpieces) rfl
  rw [Window.position_drop h.lt_length, Nat.succ_sub_one] at hparts
  refine ⟨_, hparts, ?_⟩
  rw [splitGroup, hrun]
  simp only [h.previous_seek]
  rfl

/-- A group that does not close is reported at its opening parenthesis. -/
theorem group_of_not_closes (h : ∀ m, ¬ w.GroupCloses n m) : ∃ e next,
    ((ofWindow w).seek n).skipGroup = (.error e, next) ∧ ((ofWindow w).seek n).splitGroup = (.error e, next) ∧
      e.message = "Unbalanced parentheses" ∧ w.spanAt e.place = (w.tokenAt n).2 ∧ atEnd next.rest = true := by
  obtain ⟨o, hdrop, ho, hposition⟩ := exists_opening hopen
  have hgroup : afterGroup? 0 (w.tokens.drop (n + 1)) = none := by
    refine Option.eq_none_iff_forall_ne_some.2 fun rest hrest => ?_
    obtain ⟨m, hm, -⟩ := Window.afterGroup?_drop_iff.1 hrest
    exact h m hm
  have hpieces : pieces? 0 (w.tokens.drop (n + 1)) = none := by
    rw [← Option.map_eq_none_iff (f := Prod.snd), pieces?_map_snd, hgroup]
  have hrest : ((ofWindow w).seek n).rest = o :: w.tokens.drop (n + 1) := hdrop
  refine ⟨unclosed (w.tokens.drop n), ⟨w, (unclosed (w.tokens.drop n)).stop⟩, ?_, ?_, rfl, ?_, atEnd_stop _⟩
  · rw [skipGroup, run, hrest, Reader.skipGroup_unclosed ho hgroup, hdrop]
    rfl
  · rw [splitGroup, run, hrest, Reader.splitGroup_unclosed ho hpieces, hdrop]
    rfl
  · show (w.tokenAt ((ofWindow w).seek n).position).2 = _
    rw [hposition]

end

/-- At an opening parenthesis, a group is cut exactly if it is passed, up to the same place. If the group closes, both
report the parenthesis that closes it, and it is cut into its parts. If it does not, both stop at the end of the text
and report the parenthesis that opens it. -/
theorem splitGroup_skipGroup {w : Window} {n : Nat}
    (hopen : (((ofWindow w).seek n).peekAt 0).1.kind = .leftParen) :
    ((ofWindow w).seek n).splitGroup.2 = ((ofWindow w).seek n).skipGroup.2 ∧
      ((∃ m parts, w.GroupCloses n m ∧ ((ofWindow w).seek n).splitGroup.2 = (ofWindow w).seek (m + 1) ∧
          ((ofWindow w).seek n).splitGroup.1 = .ok (parts, (w.tokenAt m).2) ∧
          ((ofWindow w).seek n).skipGroup.1 = .ok ((w.tokenAt n).2.cover (w.tokenAt m).2) ∧
          w.AreParts (n + 1) m parts) ∨
        (∀ m, ¬ w.GroupCloses n m) ∧ atEnd ((ofWindow w).seek n).splitGroup.2.rest = true ∧
          ∃ e, ((ofWindow w).seek n).splitGroup.1 = .error e ∧ ((ofWindow w).seek n).skipGroup.1 = .error e ∧
            e.message = "Unbalanced parentheses" ∧ w.spanAt e.place = (w.tokenAt n).2) := by
  by_cases hgroup : ∃ m, w.GroupCloses n m
  · obtain ⟨m, hm⟩ := hgroup
    obtain ⟨parts, hparts, hsplit⟩ := splitGroup_of_closes hopen hm
    have hskip := skipGroup_of_closes hopen hm
    rw [hsplit, hskip]
    exact ⟨rfl, .inl ⟨m, parts, hm, rfl, rfl, rfl, hparts⟩⟩
  · have hnone := not_exists.1 hgroup
    obtain ⟨e, next, hskip, hsplit, hmessage, hplace, hend⟩ := group_of_not_closes hopen hnone
    rw [hsplit, hskip]
    exact ⟨rfl, .inr ⟨hnone, hend, e, rfl, rfl, hmessage, hplace⟩⟩

/-- A group with an empty part and groups in its parts, in a window without the end of the text. -/
def nestedGroup : Window :=
  (Window.ofScript "x (a N(10, 2), , f(b)) y").narrow 1 17

theorem splitGroup_skipGroup_nested :
    (((ofWindow nestedGroup).seek 0).peekAt 0).1.kind = .leftParen ∧ nestedGroup.GroupCloses 0 14 ∧
      ((ofWindow nestedGroup).seek 0).splitGroup.1 = .ok ([⟨1, 8⟩, ⟨10, 14⟩], ⟨21, 22⟩) ∧
      ((ofWindow nestedGroup).seek 0).skipGroup.1 = .ok ⟨2, 22⟩ ∧
      ((ofWindow nestedGroup).seek 0).splitGroup.2 = ((ofWindow nestedGroup).seek 0).skipGroup.2 ∧
      nestedGroup.AreParts 1 14 [⟨1, 8⟩, ⟨10, 14⟩] := by
  have hopen : (((ofWindow nestedGroup).seek 0).peekAt 0).1.kind = .leftParen := by decide +kernel
  have hsplit : ((ofWindow nestedGroup).seek 0).splitGroup.1 = .ok ([⟨1, 8⟩, ⟨10, 14⟩], ⟨21, 22⟩) := by
    decide +kernel
  have hskip : ((ofWindow nestedGroup).seek 0).skipGroup.1 = .ok ⟨2, 22⟩ := by decide +kernel
  have hstop : ((ofWindow nestedGroup).seek 0).splitGroup.2.position = 15 := by decide +kernel
  obtain ⟨hsame, ⟨m, parts, hcloses, hplace, hparts, -, hareParts⟩ | ⟨-, -, e, he, -⟩⟩ := splitGroup_skipGroup hopen
  · have hm : ((ofWindow nestedGroup).seek (m + 1)).position = m + 1 := Window.position_drop hcloses.lt_length
    obtain rfl : m = 14 := by
      rw [← hplace, hstop] at hm
      omega
    obtain rfl : parts = [⟨1, 8⟩, ⟨10, 14⟩] := (congrArg Prod.fst (Except.ok.inj (hsplit.symm.trans hparts))).symm
    exact ⟨hopen, hcloses, hsplit, hskip, hsame, hareParts⟩
  · rw [hsplit] at he
    cases he

end Cursor

end DialectBridge
