import DialectBridge.Proofs.Procedure.Headers
import DialectBridge.Proofs.Reading.Names

/-!
# The first header of a script

The search for a header finds the first place in a script from which one can be read (`IsFirst.search_eq`). What was
read there goes back to tokens of the script, so the names of the procedure and of its parameters are made of bare
words unless a quoted one stands there (`HasBareNames.isQualifiedName`, `HasBareNames.isWord_parameter`).
-/

namespace DialectBridge

/-! ## Names of bare words -/

namespace Reader

open Token

/-- A name whose tokens are bare words of a script is a qualified name. -/
theorem isQualifiedName_of_name {script : Text} {expected n : Text} {ts rest : List Token} (hts : ts <:+ scan script)
    (h : name expected ts = .ok (n, rest)) (hunquoted : Unquoted (taken ts rest)) : IsQualifiedName n := by
  obtain ⟨parts, mid, hparts, h⟩ := bind_eq_ok h
  cases h
  obtain ⟨first, behind, hfirst, hparts⟩ := bind_eq_ok hparts
  obtain ⟨more, last, hmore, hparts⟩ := bind_eq_ok hparts
  cases hparts
  obtain ⟨t, rfl, ht⟩ := word_eq_ok hfirst
  obtain ⟨us, rfl, -, hnames⟩ := exists_wordsAfter hmore
  rw [← List.cons_append, taken_append] at hunquoted
  have hword {u : Token} (hu : u ∈ t :: us) {w : Text} (hw : u.name? = some w) : IsWord w :=
    (isWord_of_name? (hts.subset (List.mem_append_left _ hu)) (hunquoted u hu) hw).1
  refine ⟨first, more, List.forall_mem_cons.2 ⟨hword List.mem_cons_self ht, fun w hw => ?_⟩, rfl⟩
  obtain ⟨u, hu, hname⟩ := hnames w hw
  exact hword (List.mem_cons_of_mem t hu) hname

end Reader

namespace Header

open Token Reader

/-! ## What was read -/

/-- Passes the words in front of the name. -/
def beforeName : Reader Unit := do
  expectKeyword .create
  orReplace
  edition
  expectKeyword .procedure

theorem read_eq : Header.read = beforeName >>= fun _ => readFromName := by
  unfold Header.read beforeName readFromName
  simp only [bind_assoc]

theorem leavesSuffix_beforeName : LeavesSuffix beforeName :=
  (leavesSuffix_expectKeyword _).bind fun _ =>
    ((leavesSuffix_eatKeyword _).bind fun _ => .ite (leavesSuffix_expectKeyword _) (.pure _)).bind fun _ =>
      ((leavesSuffix_look _).bind fun _ => .ite leavesSuffix_skip (.pure _)).bind fun _ =>
        leavesSuffix_expectKeyword _

variable {script : Text} {ts rest : List Token} {h : Header}

/-- A header that was read is a name and the parts of a group, or a name alone. -/
theorem read_eq_ok (hread : Header.read ts = .ok (h, rest)) : ∃ mid behind, beforeName ts = .ok ((), mid) ∧
    Reader.name "procedure name" mid = .ok (h.name, behind) ∧ (h.readings = [] ∨
      ∃ parts, splitGroup behind = .ok (parts, rest) ∧ h.readings = parts.map ParameterReading.read) := by
  rw [read_eq] at hread
  obtain ⟨_, mid, hmid, hread⟩ := bind_eq_ok hread
  obtain ⟨n, behind, hname, hread⟩ := bind_eq_ok hread
  rw [bind_ok (a := atKind .leftParen behind) rfl] at hread
  split at hread
  · obtain ⟨parts, _, hparts, hread⟩ := bind_eq_ok hread
    cases hread
    exact ⟨mid, behind, hmid, hname, .inr ⟨parts, hparts, rfl⟩⟩
  · rw [bind_ok (a := atKeyword .is behind || atKeyword .as behind) rfl] at hread
    split at hread
    · cases hread
      exact ⟨mid, rest, hmid, hname, .inl rfl⟩
    · cases hread

theorem exists_create (hread : Header.read ts = .ok (h, rest)) : ∃ t us, ts = t :: us ∧ t.kind = .keyword .create := by
  obtain ⟨_, mid, hcreate, -⟩ := bind_eq_ok hread
  refine atKeyword_cons (k := .create) ?_
  unfold expectKeyword at hcreate
  split at hcreate
  · assumption
  · cases hcreate

/-- The parameters of a header in a script are read from tokens of the script. -/
theorem exists_part (hts : ts <:+ scan script) (hread : Header.read ts = .ok (h, rest)) : ∀ r ∈ h.readings,
    ∃ part : Part, r = ParameterReading.read part ∧ part.tokens ⊆ scan script := by
  intro r hr
  obtain ⟨mid, behind, hmid, hname, hreadings | ⟨parts, hsplit, hreadings⟩⟩ := read_eq_ok hread
  · simp [hreadings] at hr
  · rw [hreadings] at hr
    obtain ⟨part, hpart, rfl⟩ := List.mem_map.1 hr
    have hbehind : behind <:+ ts := (leavesSuffix_name _ hname).trans (leavesSuffix_beforeName hmid)
    exact ⟨part, rfl, (part_of_splitGroup (hbehind.trans hts) hsplit hpart).2.2⟩

/-- The name of a parameter is that of its first token. -/
theorem exists_name_of_parameter? {part : Part} {p : Parameter}
    (hp : ParameterReading.parameter? (ParameterReading.read part) = some p) :
    ∃ t us, part.tokens = t :: us ∧ t.name? = some p.name := by
  unfold ParameterReading.parameter? ParameterReading.read at hp
  cases hrun : ParameterReading.parameter part.tokens with
  | error e => rw [hrun] at hp; cases hp
  | ok r =>
    obtain ⟨q, rest⟩ := r
    rw [hrun] at hp
    obtain rfl : q = p := Option.some.inj hp
    obtain ⟨w, mid, hword, hrun⟩ := bind_eq_ok hrun
    obtain ⟨d, _, -, hrun⟩ := bind_eq_ok hrun
    obtain ⟨_, _, -, hrun⟩ := bind_eq_ok hrun
    obtain ⟨type, _, -, hrun⟩ := bind_eq_ok hrun
    cases hrun
    obtain ⟨t, heq, hname⟩ := word_eq_ok hword
    exact ⟨t, mid, heq, hname⟩

/-- The tokens `ts` are the script from the first place on at which a header can be read. -/
structure IsFirst (script : Text) (ts : List Token) (h : Header) : Prop where
  place : ts <:+ scan script
  read : ∃ rest, Header.read ts = .ok (h, rest)
  first : ∀ us, us <:+ scan script → ts.length < us.length → ∀ r, Header.read us ≠ .ok r

theorem IsFirst.search_eq (hfirst : IsFirst script ts h) : (search (scan script)).2 = some h := by
  obtain ⟨rest, hread⟩ := hfirst.read
  obtain ⟨t, us, rfl, ht⟩ := exists_create hread
  have hsearch (vs : List Token) (hvs : vs ++ t :: us <:+ scan script) :
      (search (vs ++ t :: us)).2 = some h := by
    induction vs with
    | nil => rw [List.nil_append, search_create ht hread]
    | cons v vs ih =>
      have hrest := ih ((List.suffix_cons v _).trans hvs)
      have hv := (closed_of_scan hvs (by simp [ht]) v List.mem_cons_self).1
      rw [List.cons_append, search, if_neg (by simpa [isEof] using hv)]
      split
      · cases hrun : Header.read (v :: (vs ++ t :: us)) with
        | ok r =>
          have hlonger : (t :: us).length < (v :: (vs ++ t :: us)).length := by
            simp only [List.length_cons, List.length_append]
            omega
          exact absurd hrun (hfirst.first _ hvs hlonger r)
        | error e => exact hrest
      · exact hrest
  obtain ⟨front, hfront⟩ := hfirst.place
  have hall := hsearch front (hfront ▸ List.suffix_refl _)
  rwa [hfront] at hall

/-- The header at `ts` gives bare words for the name of the procedure and for those of its parameters. -/
structure HasBareNames (ts : List Token) (h : Header) : Prop where
  name : ∃ mid rest, beforeName ts = .ok ((), mid) ∧ Reader.name "procedure name" mid = .ok (h.name, rest) ∧
    Unquoted (taken mid rest)
  parameters : ∀ r ∈ h.readings, Unquoted (r.part.tokens.take 1)

/-- A script without quoted names has bare ones. -/
theorem hasBareNames_of_unquoted (hunquoted : Unquoted (scan script)) (hts : ts <:+ scan script)
    (hread : Header.read ts = .ok (h, rest)) : h.HasBareNames ts := by
  obtain ⟨mid, behind, hmid, hname, -⟩ := read_eq_ok hread
  have hmidscript : mid <:+ scan script := (leavesSuffix_beforeName hmid).trans hts
  refine ⟨⟨mid, behind, hmid, hname, fun t ht => hunquoted t (hmidscript.subset (List.mem_of_mem_take ht))⟩, ?_⟩
  intro r hr t ht
  obtain ⟨part, rfl, hmem⟩ := exists_part hts hread r hr
  exact hunquoted t (hmem (List.mem_of_mem_take ht))

theorem HasBareNames.isQualifiedName (hbare : h.HasBareNames ts) (hts : ts <:+ scan script) :
    IsQualifiedName h.name := by
  obtain ⟨mid, behind, hmid, hname, hunquoted⟩ := hbare.name
  exact isQualifiedName_of_name ((leavesSuffix_beforeName hmid).trans hts) hname hunquoted

theorem HasBareNames.isWord_parameter (hbare : h.HasBareNames ts) (hts : ts <:+ scan script)
    (hread : Header.read ts = .ok (h, rest)) : ∀ p ∈ h.signature.parameters, IsWord p.name := by
  intro p hp
  obtain ⟨r, hr, hparameter⟩ := List.mem_filterMap.1 hp
  obtain ⟨part, rfl, hmem⟩ := exists_part hts hread r hr
  obtain ⟨t, us, htokens, hname⟩ := exists_name_of_parameter? hparameter
  have hunquoted : Unquoted (part.tokens.take 1) := hbare.parameters _ hr
  rw [htokens] at hmem hunquoted
  exact (isWord_of_name? (hmem List.mem_cons_self) (hunquoted t List.mem_cons_self) hname).1

end Header

end DialectBridge
