import DialectBridge.Proofs.Pattern.Word

/-!
# Replacing piece by piece

A pattern that looks at no edge does not know what stands in front of it, and where it cannot take the
character that follows a text it does not know what stands behind. So matches are replaced piece by
piece (`replaceMatches_append`), and what no match starts with is copied (`replaceMatches_cons`).
-/

namespace DialectBridge

namespace Pattern

/-! ## Running a pattern within a text -/

/-- In front of `y` the pattern runs as at the end of a text, whatever stands before it. -/
def endsBefore (y : Text) : Pattern → Bool
  | empty => true
  | edge => false
  | lineEnd => y.isEmpty
  | letter c => !y.head?.any (sameLetter c)
  | one p | many p => !y.head?.any p
  | seq first second | either first second => endsBefore y first && endsBefore y second
  | capture _ p => endsBefore y p

/-- The site in a longer text, with `x` before it and `y` behind it. -/
def Site.within (x y : Text) (s : Site) : Site :=
  ⟨s.before ++ x, s.after ++ y, s.captured⟩

theorem Site.textUpTo_within (x y : Text) (s t : Site) :
    (s.within x y).textUpTo (t.within x y) = s.textUpTo t := by
  have hlen : (s.after ++ y).length - (t.after ++ y).length = s.after.length - t.after.length := by
    simp only [List.length_append]
    omega
  show (s.after ++ y).take ((s.after ++ y).length - (t.after ++ y).length) = _
  rw [hlen, List.take_append_of_le_length (Nat.sub_le _ _), Site.textUpTo]

section

variable {x y : Text} {next next' : Site → Option Site}

theorem map_orElse {α β : Type} (f : α → β) (a b : Option α) : (a <|> b).map f = (a.map f <|> b.map f) := by
  cases a <;> rfl

theorem passOne_within {p : Char → Bool} (hy : y.head?.any p = false)
    (hnext : ∀ s, next (s.within x y) = (next' s).map (Site.within x y)) (s : Site) :
    passOne p (s.within x y) next = (passOne p s next').map (Site.within x y) := by
  obtain ⟨before, after, captured⟩ := s
  cases after with
  | nil => exact run_one_ne hy
  | cons c after =>
    show (if p c then next _ else none) = (if p c then next' _ else none : Option Site).map _
    split
    · exact hnext ⟨c :: before, after, captured⟩
    · rfl

theorem passMany_within {p : Char → Bool} (hy : y.head?.any p = false)
    (hnext : ∀ s, next (s.within x y) = (next' s).map (Site.within x y)) (captured : List (Nat × Text))
    (before after : Text) :
    passMany p captured next (before ++ x) (after ++ y) =
      (passMany p captured next' before after).map (Site.within x y) := by
  induction after generalizing before with
  | nil =>
    rw [List.nil_append, passMany_stop hy]
    exact hnext ⟨before, [], captured⟩
  | cons c after ih =>
    have hstay := hnext ⟨before, c :: after, captured⟩
    rw [List.cons_append, passMany, passMany]
    -- the run goes on or ends here
    split
    · rw [map_orElse, ← ih, ← hstay]
      rfl
    · exact hstay

/-- What stands around a text makes no difference to a pattern that ends within it. -/
theorem run_within {p : Pattern} (hp : p.endsBefore y = true)
    (hnext : ∀ s, next (s.within x y) = (next' s).map (Site.within x y)) (s : Site) :
    run p (s.within x y) next = (run p s next').map (Site.within x y) := by
  induction p generalizing s next next' with
  | empty => exact hnext s
  | letter c | one p => exact passOne_within (by simpa [endsBefore] using hp) hnext s
  | many p => exact passMany_within (by simpa [endsBefore] using hp) hnext _ _ _
  | seq first second ihFirst ihSecond =>
    simp only [endsBefore, Bool.and_eq_true] at hp
    exact ihFirst hp.1 (fun t => ihSecond hp.2 hnext t) s
  | either first second ihFirst ihSecond =>
    simp only [endsBefore, Bool.and_eq_true] at hp
    rw [run, run, map_orElse, ihFirst hp.1 hnext, ihSecond hp.2 hnext]
  | edge => cases hp
  | lineEnd =>
    obtain rfl : y = [] := by simpa [endsBefore] using hp
    have hend : (s.within x []).isLineEnd = s.isLineEnd := by
      simp [Site.isLineEnd, Site.within]
    rw [run, run, hend]
    split
    · exact hnext s
    · rfl
  | capture n p ih =>
    refine ih hp (fun t => ?_) s
    rw [Site.textUpTo_within]
    exact hnext ⟨t.before, t.after, (n, s.textUpTo t) :: t.captured⟩

end

theorem matcher_within {p : Pattern} {y : Text} (hp : p.endsBefore y = true) (x before after : Text) :
    p.matcher (before ++ x) (after ++ y) = p.matcher before after := by
  have hrun : run p (Site.within x y ⟨before, after, []⟩) .some =
      (run p ⟨before, after, []⟩ .some).map (Site.within x y) :=
    run_within hp (fun _ => rfl) _
  show (run p (Site.within x y ⟨before, after, []⟩) .some).map _ = _
  rw [hrun, Option.map_map]
  refine congrArg (Option.map · _) (funext fun t => ?_)
  exact Prod.ext (Site.textUpTo_within x y ⟨before, after, []⟩ t) rfl

end Pattern

/-! ## Treating a text piece by piece -/

namespace Cut

variable {α β : Type}

/-- What is made of a match does not depend on the text around it. -/
def Placeless (f : Cut α → List β) : Prop :=
  ∀ ⦃m m' : Match α⦄, m.text = m'.text → m.value = m'.value → f (found m) = f (found m')

end Cut

section

variable {β : Type} {p : Pattern} {f : Cut (List (Nat × Text)) → List β}

open Cut

section

variable (hnull : p.nullable = false)
include hnull

theorem matcher_nil (before : Text) : p.matcher before [] = none := by
  refine Option.eq_none_iff_forall_ne_some.2 fun ⟨taken, value⟩ h => ?_
  obtain ⟨c, rest, rfl, -⟩ := Pattern.matcher_start hnull h
  cases List.prefix_nil.1 (p.matcher_takesPrefix h)

theorem flatMap_cut_nil : (cut p.matcher []).flatMap f = [] := by
  rw [cut, pieces_nil (matcher_nil hnull [])]
  rfl

variable (hp : p.endsBefore [] = true) (hf : Placeless f)
include hp hf

/-- Where a search starts does not matter to what it makes of the text. -/
theorem flatMap_pieces (t : Text) (skip : Nat) (fresh fresh' : Bool) (before before' : Text) :
    (pieces p.matcher skip fresh before t).flatMap f = (pieces p.matcher skip fresh' before' t).flatMap f := by
  have hmatcher (before after : Text) : p.matcher before after = p.matcher [] after := by
    have hwithin := Pattern.matcher_within hp before [] after
    rwa [List.append_nil, List.nil_append] at hwithin
  induction t generalizing skip fresh fresh' before before' with
  | nil =>
    cases skip with
    | zero => rw [pieces_nil (matcher_nil hnull before), pieces_nil (matcher_nil hnull before')]
    | succ skip => rfl
  | cons c t ih =>
    cases skip with
    | succ skip => exact ih skip false false (c :: before) (c :: before')
    | zero =>
      have hsame := (hmatcher before (c :: t)).trans (hmatcher before' (c :: t)).symm
      cases hm : p.matcher before (c :: t) with
      | none =>
        rw [pieces_none hm, pieces_none (hsame ▸ hm), List.flatMap_cons, List.flatMap_cons,
          ih 0 true true (c :: before) (c :: before')]
      | some out =>
        obtain ⟨taken, value⟩ := out
        obtain ⟨d, rest, rfl, -⟩ := Pattern.matcher_start hnull hm
        rw [pieces, pieces, ← hsame, hm]
        simp only [List.flatMap_cons]
        rw [ih rest.length false false (c :: before) (c :: before')]
        exact congrArg (· ++ _) (hf rfl rfl)

/-- Where no match starts the character is a piece of its own. -/
theorem flatMap_cut_copied {c : Char} {t : Text} (h : p.matcher [] (c :: t) = none) :
    (cut p.matcher (c :: t)).flatMap f = f (.copied c) ++ (cut p.matcher t).flatMap f := by
  rw [cut, pieces_none h, List.flatMap_cons]
  exact congrArg (f (.copied c) ++ ·) (flatMap_pieces hnull hp hf t 0 true true [c] [])

/-- Behind a match the search goes on as at the start of a text. -/
theorem flatMap_cut_found {taken rest : Text} {value : List (Nat × Text)}
    (h : p.matcher [] (taken ++ rest) = some (taken, value)) :
    (cut p.matcher (taken ++ rest)).flatMap f = f (.found ⟨[], taken, rest, value⟩) ++ (cut p.matcher rest).flatMap f := by
  obtain ⟨c, more, rfl, -⟩ := Pattern.matcher_start hnull h
  rw [cut, pieces_some h (List.cons_ne_nil _ _), List.flatMap_cons]
  exact congrArg (f (.found ⟨[], c :: more, rest, value⟩) ++ ·) (flatMap_pieces hnull hp hf rest 0 false true _ [])

/-- Behind a text that no match leaves the search goes on as at the start of a text. -/
theorem flatMap_cut_append {y : Text} (hy : p.endsBefore y = true) (t : Text) :
    (cut p.matcher (t ++ y)).flatMap f = (cut p.matcher t).flatMap f ++ (cut p.matcher y).flatMap f := by
  -- a match that started earlier may reach into the text
  have hpieces (t : Text) (skip : Nat) (hskip : skip ≤ t.length) (fresh : Bool) (before : Text) :
      (pieces p.matcher skip fresh before (t ++ y)).flatMap f =
        (pieces p.matcher skip fresh before t).flatMap f ++ (cut p.matcher y).flatMap f := by
    induction t generalizing skip fresh before with
    | nil =>
      obtain rfl : skip = 0 := Nat.le_zero.1 hskip
      rw [pieces_nil (matcher_nil hnull before)]
      exact flatMap_pieces hnull hp hf y 0 fresh true before []
    | cons c t ih =>
      cases skip with
      | succ skip => exact ih skip (Nat.le_of_succ_le_succ hskip) false (c :: before)
      | zero =>
        -- a match that starts in `t` does not see `y`
        have hsame : p.matcher before (c :: (t ++ y)) = p.matcher before (c :: t) := by
          have hwithin := Pattern.matcher_within hy [] before (c :: t)
          rwa [List.append_nil] at hwithin
        cases hm : p.matcher before (c :: t) with
        | none =>
          rw [List.cons_append, pieces_none (hsame.trans hm), pieces_none hm, List.flatMap_cons, List.flatMap_cons,
            ih 0 (Nat.zero_le _), List.append_assoc]
        | some out =>
          obtain ⟨taken, value⟩ := out
          obtain ⟨d, rest, rfl, -⟩ := Pattern.matcher_start hnull hm
          have hlen : rest.length ≤ t.length := Nat.le_of_succ_le_succ (p.matcher_takesPrefix hm).length_le
          rw [List.cons_append, pieces, pieces, hsame, hm]
          simp only [List.flatMap_cons]
          rw [ih _ hlen, ← List.append_assoc]
          exact congrArg (· ++ _ ++ _) (hf rfl rfl)
  exact hpieces t 0 (Nat.zero_le _) true []

end

end

/-! ## Replacing matches by one text -/

/-- What becomes of a piece when matches are replaced by `r`. -/
def Cut.written {α : Type} (r : Text) : Cut α → Text
  | copied c => [c]
  | found _ => r

theorem Cut.placeless_written {α : Type} (r : Text) : Placeless (written (α := α) r) := fun _ _ _ _ => rfl

theorem replaceMatches_eq {α : Type} (matcher : Matcher α) (r t : Text) :
    replaceMatches matcher (fun _ => r) t = (cut matcher t).flatMap (Cut.written r) := by
  refine congrArg (List.flatMap · _) (funext fun piece => ?_)
  cases piece <;> rfl

section

variable {p : Pattern} {r : Text}

open Cut

/-- The characters of the new text come from the old one and from the replacement. -/
theorem mem_replaceMatches {c : Char} {t : Text} (hc : c ∈ replaceMatches p.matcher (fun _ => r) t) :
    c ∈ t ∨ c ∈ r := by
  rw [replaceMatches_eq] at hc
  obtain ⟨piece, hpiece, hc⟩ := List.mem_flatMap.1 hc
  cases piece with
  | copied d =>
    left
    rw [← textOf_cut p.matcher_takesPrefix t]
    exact List.mem_flatMap.2 ⟨_, hpiece, hc⟩
  | found m => exact .inr hc

/-- A text without a character of the replacement has no match. -/
theorem replaceMatches_eq_self_of_notMem {c : Char} {t : Text} (hc : c ∈ r)
    (h : c ∉ replaceMatches p.matcher (fun _ => r) t) : replaceMatches p.matcher (fun _ => r) t = t := by
  refine replaceMatches_eq_self p.matcher_takesPrefix fun m hm => absurd ?_ h
  obtain ⟨piece, hpiece, hmatch⟩ := List.mem_filterMap.1 hm
  rw [replaceMatches_eq]
  cases piece with
  | copied d => cases hmatch
  | found n => exact List.mem_flatMap.2 ⟨_, hpiece, hc⟩

section

variable (hnull : p.nullable = false)
include hnull

theorem replaceMatches_nil : replaceMatches p.matcher (fun _ => r) [] = [] := by
  rw [replaceMatches_eq, flatMap_cut_nil hnull]

variable (hp : p.endsBefore [] = true)
include hp

/-- Where no match starts the character is copied. -/
theorem replaceMatches_copied {c : Char} {t : Text} (h : p.matcher [] (c :: t) = none) :
    replaceMatches p.matcher (fun _ => r) (c :: t) = c :: replaceMatches p.matcher (fun _ => r) t := by
  rw [replaceMatches_eq, replaceMatches_eq, flatMap_cut_copied hnull hp (placeless_written r) h]
  rfl

theorem replaceMatches_cons {c : Char} (hc : p.startsWith c = false) (t : Text) :
    replaceMatches p.matcher (fun _ => r) (c :: t) = c :: replaceMatches p.matcher (fun _ => r) t := by
  refine replaceMatches_copied hnull hp (Option.eq_none_iff_forall_ne_some.2 fun ⟨taken, value⟩ h => ?_)
  obtain ⟨d, rest, rfl, hd⟩ := Pattern.matcher_start hnull h
  obtain ⟨rfl, -⟩ := List.cons_prefix_cons.1 (p.matcher_takesPrefix h)
  rw [hc] at hd
  cases hd

theorem replaceMatches_found {taken rest : Text} {value : List (Nat × Text)}
    (h : p.matcher [] (taken ++ rest) = some (taken, value)) :
    replaceMatches p.matcher (fun _ => r) (taken ++ rest) = r ++ replaceMatches p.matcher (fun _ => r) rest := by
  rw [replaceMatches_eq, replaceMatches_eq, flatMap_cut_found hnull hp (placeless_written r) h]
  rfl

/-- A text keeps its first character if every match starts like the replacement. -/
theorem head?_replaceMatches (hr : ∀ c, p.startsWith c = true → r.head? = some c) (t : Text) :
    (replaceMatches p.matcher (fun _ => r) t).head? = t.head? := by
  cases t with
  | nil => rw [replaceMatches_nil hnull]
  | cons c t =>
    cases hm : p.matcher [] (c :: t) with
    | none => rw [replaceMatches_copied hnull hp hm, List.head?_cons, List.head?_cons]
    | some out =>
      obtain ⟨taken, value⟩ := out
      obtain ⟨d, rest, rfl, hd⟩ := Pattern.matcher_start hnull hm
      obtain ⟨more, htext⟩ := p.matcher_takesPrefix hm
      rw [← htext] at hm
      rw [← htext, replaceMatches_found hnull hp hm, List.head?_append, hr d hd]
      rfl

theorem replaceMatches_append {y : Text} (hy : p.endsBefore y = true) (t : Text) :
    replaceMatches p.matcher (fun _ => r) (t ++ y) =
      replaceMatches p.matcher (fun _ => r) t ++ replaceMatches p.matcher (fun _ => r) y := by
  rw [replaceMatches_eq, replaceMatches_eq, replaceMatches_eq,
    flatMap_cut_append hnull hp (placeless_written r) hy]

end

end

end DialectBridge
