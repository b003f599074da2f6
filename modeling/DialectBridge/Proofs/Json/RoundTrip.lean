import DialectBridge.Json.Printer
import DialectBridge.Json.Reader
import DialectBridge.Proofs.Text.Run
import Mathlib.Data.Nat.Digits.Defs

/-!
# Printed JSON is read back

A printed value is read as the value itself, whatever characters its strings hold, and the reader
stops right behind it. Numbers are left out, whose digits the printer copies without a check, and so
are broken strings, which have no printed form.
-/

namespace DialectBridge.Json

/-! ## Strings -/

/-- Each of the sixteen digits has its own value. -/
theorem hexDigit?_digitChar : ∀ n < 16, hexDigit? (Nat.digitChar n) = some n := by
  decide

theorem Unit.ofNat_of_lt {n : Nat} (h : n < 0xD800) : Unit.ofNat n = .char (Char.ofNat n) := by
  rw [Unit.ofNat, if_neg (by omega), if_neg (by omega)]

/-- A control character without a letter of its own is escaped by the number that it is read as. -/
theorem units?_numberEscape {n : Nat} (h : n < 16) (high : Bool) {t rest : Text} {us : List Unit}
    (ht : units? t = some (us, rest)) :
    units? ("\\u00" ++ (if high then '1' else '0') :: Nat.digitChar n :: t) =
      some (.char (Char.ofNat ((if high then 16 else 0) + n)) :: us, rest) := by
  have hdigit := hexDigit?_digitChar n h
  have h0 : hexDigit? '0' = some 0 := by decide
  have h1 : hexDigit? '1' = some 1 := by decide
  have hunit : Unit.ofNat ((if high then 16 else 0) + n) = .char (Char.ofNat _) :=
    Unit.ofNat_of_lt (by split <;> omega)
  rw [← hunit]
  cases high <;> simp [units?, hexUnit?, hdigit, h0, h1, ht]

/-- What is printed for a character is read as this character. -/
theorem units?_escapeCharacter (c : Char) {t rest : Text} {us : List Unit}
    (ht : units? t = some (us, rest)) :
    units? (escapeCharacter c ++ t) = some (.char c :: us, rest) := by
  unfold escapeCharacter
  split_ifs with hquote hslash hback htab hline hfeed hreturn hlow hcontrol
  · subst hquote; simp [units?, letterEscape?, ht]
  · subst hslash; simp [units?, letterEscape?, ht]
  · subst hback; simp [units?, letterEscape?, ht]
  · subst htab; simp [units?, letterEscape?, ht]
  · subst hline; simp [units?, letterEscape?, ht]
  · subst hfeed; simp [units?, letterEscape?, ht]
  · subst hreturn; simp [units?, letterEscape?, ht]
  · have hread := units?_numberEscape hlow false ht
    rw [Nat.toDigits_of_lt_base hlow]
    simpa using hread
  · have hread := units?_numberEscape (n := c.toNat - 16) (by omega) true ht
    have hdigits : Nat.toDigits 16 c.toNat = ['1', Nat.digitChar (c.toNat - 16)] := by
      rw [Nat.toDigits_of_base_le (by omega) (by omega), show c.toNat / 16 = 1 by omega,
        show c.toNat % 16 = c.toNat - 16 by omega]
      rfl
    have hsum : 16 + (c.toNat - 16) = c.toNat := by omega
    rw [hdigits]
    simpa [hsum] using hread
  · simp [units?, hslash, hcontrol, ht]

/-- A printed string is read up to its closing quote. -/
theorem units?_flatMap_escapeCharacter (t rest : Text) :
    units? (t.flatMap escapeCharacter ++ '\x22' :: rest) = some (t.map .char, rest) := by
  induction t with
  | nil => simp [units?]
  | cons c t ih => simpa using units?_escapeCharacter c ih

theorem text?_map_char (t : Text) : Unit.text? (t.map .char) = some t := by
  induction t with
  | nil => rfl
  | cons c t ih => simp [Unit.text?, ih]

/-! ## Space between tokens -/

theorem isSpace_of_mem_newLine (level : Nat) : ∀ c ∈ newLine level, isSpace c = true := by
  intro c hc
  rcases List.mem_cons.1 hc with rfl | hc
  · rfl
  · rw [List.eq_of_mem_replicate hc]
    rfl

theorem skipSpace_append {s : Text} (hs : ∀ c ∈ s, isSpace c = true) (t : Text) :
    skipSpace (s ++ t) = skipSpace t :=
  List.dropWhile_append_of_pos hs

theorem skipSpace_cons {c : Char} (hc : isSpace c = false) (t : Text) : skipSpace (c :: t) = c :: t := by
  simp [skipSpace, hc]

/-- A value may stand behind any space. -/
theorem value?_space_append {s : Text} (hs : ∀ c ∈ s, isSpace c = true) (fuel : Nat) (t : Text) :
    value? fuel (s ++ t) = value? fuel t := by
  cases fuel with
  | zero => rfl
  | succ fuel => rw [value?, value?, skipSpace_append hs]

theorem items?_space_append {s : Text} (hs : ∀ c ∈ s, isSpace c = true) (fuel : Nat) (t : Text) :
    items? fuel (s ++ t) = items? fuel t := by
  cases fuel with
  | zero => rfl
  | succ fuel => rw [items?, items?, value?_space_append hs]

theorem members?_space_append {s : Text} (hs : ∀ c ∈ s, isSpace c = true) (fuel : Nat) (t : Text) :
    members? fuel (s ++ t) = members? fuel t := by
  cases fuel with
  | zero => rfl
  | succ fuel => rw [members?, members?, skipSpace_append hs]

/-! ## Values -/

/-- The value holds no number and no broken string. -/
inductive IsTextual : Json → Prop
  | null : IsTextual .null
  | bool (b : Bool) : IsTextual (.bool b)
  | string (t : Text) : IsTextual (.string t)
  | array {items : List Json} (h : ∀ item ∈ items, IsTextual item) : IsTextual (.array items)
  | object {members : List (Text × Json)} (h : ∀ m ∈ members, IsTextual m.2) :
    IsTextual (.object members)

/-- What is printed for the value is read as the value, and nothing behind it is touched. One step for
each printed character is enough. -/
def IsReadBack (v : Json) : Prop :=
  ∀ (fuel level : Nat) (rest : Text), (printAt level v).length ≤ fuel →
    value? fuel (printAt level v ++ rest) = some (v, rest)

/-- The items of an array are read up to its closing bracket. -/
theorem items?_printItems {item : Json} {items : List Json} (hitem : IsReadBack item)
    (hitems : ∀ v ∈ items, IsReadBack v) (fuel level : Nat) {space : Text}
    (hspace : ∀ c ∈ space, isSpace c = true) (rest : Text)
    (hfuel : (printAt level item).length + (printItems level items).length < fuel) :
    items? fuel (printAt level item ++ (printItems level items ++ (space ++ ']' :: rest))) =
      some (item :: items, rest) := by
  induction items generalizing item fuel with
  | nil =>
    obtain ⟨fuel, rfl⟩ : ∃ n, fuel = n + 1 := ⟨fuel - 1, by omega⟩
    have hfirst := hitem fuel level (space ++ ']' :: rest) (by omega)
    have hend : skipSpace (space ++ ']' :: rest) = ']' :: rest := by
      rw [skipSpace_append hspace, skipSpace_cons rfl]
    simp [items?, printItems, hfirst, hend]
  | cons next items ih =>
    obtain ⟨fuel, rfl⟩ : ∃ n, fuel = n + 1 := ⟨fuel - 1, by omega⟩
    obtain ⟨hnext, hitems⟩ := List.forall_mem_cons.1 hitems
    simp only [printItems, List.length_append] at hfuel
    have hfirst := hitem fuel level
      (',' :: (newLine level ++ (printAt level next ++ (printItems level items ++ (space ++ ']' :: rest)))))
      (by omega)
    have hothers := ih hnext hitems fuel (by simp at hfuel; omega)
    rw [← items?_space_append (isSpace_of_mem_newLine level)] at hothers
    simp [items?, printItems, hfirst, skipSpace_cons (c := ',') rfl, hothers]

/-- The last member of an object. -/
theorem members?_last (key : Text) {value : Json} {fuel : Nat} {t u rest : Text}
    (hvalue : value? fuel t = some (value, u)) (hu : skipSpace u = '\x7d' :: rest) :
    members? (fuel + 1) (printString key ++ ':' :: t) = some (some [(key, value)], rest) := by
  have hkey := units?_flatMap_escapeCharacter key (':' :: t)
  have hcolon : skipSpace (':' :: t) = ':' :: t := skipSpace_cons rfl t
  simp [members?, printString, skipSpace_cons (c := '\x22') rfl, hkey, hcolon, hvalue, hu,
    text?_map_char]

/-- A member with more members behind it. -/
theorem members?_more (key : Text) {value : Json} {members : List (Text × Json)} {fuel : Nat}
    {t u v rest : Text} (hvalue : value? fuel t = some (value, u)) (hu : skipSpace u = ',' :: v)
    (hmore : members? fuel v = some (some members, rest)) :
    members? (fuel + 1) (printString key ++ ':' :: t) = some (some ((key, value) :: members), rest) := by
  have hkey := units?_flatMap_escapeCharacter key (':' :: t)
  have hcolon : skipSpace (':' :: t) = ':' :: t := skipSpace_cons rfl t
  simp [members?, printString, skipSpace_cons (c := '\x22') rfl, hkey, hcolon, hvalue, hu, hmore,
    text?_map_char]

/-- The members of an object are read up to its closing brace. -/
theorem members?_printMembers {key : Text} {value : Json} {members : List (Text × Json)}
    (hvalue : IsReadBack value) (hmembers : ∀ m ∈ members, IsReadBack m.2) (fuel level : Nat)
    {space : Text} (hspace : ∀ c ∈ space, isSpace c = true) (rest : Text)
    (hfuel : (printAt level value).length + (printMembers level members).length < fuel) :
    members? fuel (printString key ++ ':' :: ([' '] ++ (printAt level value ++
        (printMembers level members ++ (space ++ '\x7d' :: rest))))) =
      some (some ((key, value) :: members), rest) := by
  have hblank : ∀ c ∈ [' '], isSpace c = true := by simp [isSpace]
  induction members generalizing key value fuel with
  | nil =>
    obtain ⟨fuel, rfl⟩ : ∃ n, fuel = n + 1 := ⟨fuel - 1, by omega⟩
    have hfirst := hvalue fuel level (space ++ '\x7d' :: rest) (by omega)
    have hend : skipSpace (space ++ '\x7d' :: rest) = '\x7d' :: rest := by
      rw [skipSpace_append hspace, skipSpace_cons rfl]
    exact members?_last key ((value?_space_append hblank ..).trans hfirst) hend
  | cons next members ih =>
    obtain ⟨fuel, rfl⟩ : ∃ n, fuel = n + 1 := ⟨fuel - 1, by omega⟩
    obtain ⟨nextKey, nextValue⟩ := next
    obtain ⟨hnext, hmembers⟩ := List.forall_mem_cons.1 hmembers
    simp only [printMembers, List.length_append] at hfuel
    have hfirst := hvalue fuel level
      (',' :: (newLine level ++ (printString nextKey ++ ':' :: ([' '] ++ (printAt level nextValue ++
        (printMembers level members ++ (space ++ '\x7d' :: rest))))))) (by omega)
    have hothers := @ih nextKey nextValue hnext hmembers fuel (by simp at hfuel; omega)
    rw [← members?_space_append (isSpace_of_mem_newLine level)] at hothers
    have hread := members?_more key ((value?_space_append hblank ..).trans hfirst)
      (skipSpace_cons rfl _) hothers
    simpa [printMembers] using hread

/-- A printed value starts with a character that is neither space nor a closing bracket. -/
theorem IsTextual.exists_printAt_eq_cons {v : Json} (hv : IsTextual v) (level : Nat) :
    ∃ c t, printAt level v = c :: t ∧ isSpace c = false ∧ c ≠ ']' := by
  cases hv with
  | null => exact ⟨'n', _, rfl, rfl, by decide⟩
  | bool b => cases b <;> exact ⟨_, _, rfl, rfl, by decide⟩
  | string t => exact ⟨'\x22', _, rfl, rfl, by decide⟩
  | @array items _ => cases items <;> exact ⟨'[', _, rfl, rfl, by decide⟩
  | @object members _ => cases members <;> exact ⟨'\x7b', _, rfl, rfl, by decide⟩

/-- An array whose first item is a value is not empty. -/
theorem value?_array {fuel : Nat} {t rest : Text} {items : List Json}
    (ht : ∀ u, skipSpace t ≠ ']' :: u) (hitems : items? fuel t = some (items, rest)) :
    value? (fuel + 1) ('[' :: t) = some (.array items, rest) := by
  rw [value?, skipSpace_cons rfl]
  simp only [hitems]
  rfl

/-- An object that goes on with a key is not empty. -/
theorem value?_object {fuel : Nat} {t rest : Text} {members : List (Text × Json)}
    (ht : ∀ u, skipSpace t ≠ '\x7d' :: u) (hmembers : members? fuel t = some (some members, rest)) :
    value? (fuel + 1) ('\x7b' :: t) = some (.object members, rest) := by
  rw [value?, skipSpace_cons rfl]
  simp only [hmembers]
  rfl

/-- A value always takes a step, so only counts of steps above zero matter. -/
theorem IsTextual.isReadBack_of_succ {v : Json} (hv : IsTextual v)
    (h : ∀ fuel level rest, (printAt level v).length ≤ fuel + 1 →
      value? (fuel + 1) (printAt level v ++ rest) = some (v, rest)) : IsReadBack v := by
  intro fuel level rest hfuel
  obtain ⟨c, t, hhead, -, -⟩ := hv.exists_printAt_eq_cons level
  cases fuel with
  | zero => simp [hhead] at hfuel
  | succ fuel => exact h fuel level rest hfuel

/-- An array is read back if its items are. -/
theorem isReadBack_array {items : List Json} (h : ∀ item ∈ items, IsTextual item)
    (hitems : ∀ item ∈ items, IsReadBack item) : IsReadBack (.array items) := by
  refine (IsTextual.array h).isReadBack_of_succ fun fuel level rest hfuel => ?_
  cases items with
  | nil => simp [printAt, value?, skipSpace, isSpace]
  | cons item items =>
    obtain ⟨hitem, hitems⟩ := List.forall_mem_cons.1 hitems
    have hread := items?_printItems hitem hitems fuel (level + 1) (isSpace_of_mem_newLine level) rest
      (by simp [printAt, newLine] at hfuel; omega)
    rw [← items?_space_append (isSpace_of_mem_newLine (level + 1))] at hread
    -- the first item decides that the bracket does not close at once
    obtain ⟨c, t, hhead, hspace, hbracket⟩ :=
      (h item List.mem_cons_self).exists_printAt_eq_cons (level + 1)
    refine (congrArg _ (by simp [printAt])).trans (value?_array (fun u => ?_) hread)
    rw [skipSpace_append (isSpace_of_mem_newLine _), hhead, List.cons_append, skipSpace_cons hspace]
    simp [hbracket]

/-- An object is read back if its values are. -/
theorem isReadBack_object {members : List (Text × Json)} (h : ∀ m ∈ members, IsTextual m.2)
    (hmembers : ∀ m ∈ members, IsReadBack m.2) : IsReadBack (.object members) := by
  refine (IsTextual.object h).isReadBack_of_succ fun fuel level rest hfuel => ?_
  cases members with
  | nil => simp [printAt, value?, skipSpace, isSpace]
  | cons member members =>
    obtain ⟨key, value⟩ := member
    obtain ⟨hvalue, hmembers⟩ := List.forall_mem_cons.1 hmembers
    have hread := @members?_printMembers key _ _ hvalue hmembers fuel (level + 1) _
      (isSpace_of_mem_newLine level) rest (by simp [printAt, newLine] at hfuel ⊢; omega)
    rw [← members?_space_append (isSpace_of_mem_newLine (level + 1))] at hread
    refine (congrArg _ (by simp [printAt])).trans (value?_object (fun u => ?_) hread)
    rw [skipSpace_append (isSpace_of_mem_newLine _), printString, List.cons_append, List.cons_append,
      skipSpace_cons rfl]
    simp

/-- Every value without numbers is read back. -/
theorem IsTextual.isReadBack {v : Json} (hv : IsTextual v) : IsReadBack v := by
  induction hv with
  | null =>
    refine IsTextual.null.isReadBack_of_succ fun fuel level rest _ => ?_
    simp [printAt, value?, skipSpace, isSpace]
  | bool b =>
    refine (IsTextual.bool b).isReadBack_of_succ fun fuel level rest _ => ?_
    cases b <;> simp [printAt, value?, skipSpace, isSpace]
  | string t =>
    refine (IsTextual.string t).isReadBack_of_succ fun fuel level rest _ => ?_
    have hread := units?_flatMap_escapeCharacter t rest
    simp [printAt, printString, value?, skipSpace_cons (c := '\x22') rfl, hread, text?_map_char]
  | array h ih => exact isReadBack_array h ih
  | object h ih => exact isReadBack_object h ih

/-- A document that holds a printed value, and only space behind it, is this value. -/
theorem IsTextual.parse_print_append {v : Json} (hv : IsTextual v) {space : Text}
    (hspace : ∀ c ∈ space, isSpace c = true) : parse (v.print ++ space) = some v := by
  have hread := hv.isReadBack ((v.print ++ space).length + 1) 0 space (by simp [print]; omega)
  have hend : skipSpace space = [] := Text.dropWhile_all hspace
  rw [parse, show value? _ (v.print ++ space) = _ from hread]
  simp [hend]

end DialectBridge.Json
