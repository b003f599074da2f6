import DialectBridge.Reading.Reader
import DialectBridge.Schema.Table

/-!
# Column definitions

A column definition is a name, a type and any number of attributes in any order. Words that are no
attribute are passed over, and so are groups in parentheses.
-/

namespace DialectBridge.ColumnDefinition

/-! ## Types -/

/-- The words that may continue a type whose first word is `base`. -/
def typeContinuations (base : Text) : List Text :=
  if base = "DOUBLE".toList then ["PRECISION"]
  else if base = "LONG".toList then ["RAW"]
  else if base = "CHARACTER".toList then ["VARYING"]
  else if base = "TIMESTAMP".toList ∨ base = "TIME".toList then
    ["WITH", "WITHOUT", "LOCAL", "TIME", "ZONE"]
  else if base = "INTERVAL".toList then ["YEAR", "MONTH", "DAY", "SECOND", "TO"]
  else []

/-- The place after the groups and continuing words of a type. -/
def afterType (continuations : List Text) (ts : List Token) : Except ReadError (List Token) :=
  match ts with
  | [] => .ok []
  | t :: rest =>
    if t.kind == .leftParen then
      match _h : Reader.afterGroup? 0 rest with
      | some next => afterType continuations next
      | none => .error (Reader.unclosed (t :: rest))
    else if continuations.any t.isWord then afterType continuations rest
    else .ok (t :: rest)
termination_by ts.length
decreasing_by
  · have := (Reader.afterGroup?_suffix _h).2
    simp only [List.length_cons]
    omega
  · simp

/-- The token can be the first word of a type. -/
def startsType (ts : List Token) : Bool :=
  Token.atKind (.identifier []) ts || Token.atKind (.quoted []) ts

/-- Reads a type with its arguments, verbatim. -/
def dataType : Reader Text := fun ts =>
  if startsType ts then
    match Reader.word "data type" ts with
    | .error e => .error e
    | .ok (base, rest) => do
      let next ← afterType (typeContinuations base.upper) rest
      return (Token.verbatim (Token.taken ts next), next)
  else .error (.unexpected "data type" ts)

/-! ## Default values -/

/-- The place after the tokens and groups that follow without a gap. -/
def afterAdjacent (ts : List Token) : Except ReadError (List Token) :=
  match ts with
  | [] => .ok []
  | t :: rest =>
    if t.isEof || !t.gap.isEmpty then .ok (t :: rest)
    else if t.kind == .leftParen then
      match _h : Reader.afterGroup? 0 rest with
      | some next => afterAdjacent next
      | none => .error (Reader.unclosed (t :: rest))
    else afterAdjacent rest
termination_by ts.length
decreasing_by
  · have := (Reader.afterGroup?_suffix _h).2
    simp only [List.length_cons]
    omega
  · simp

/-- The place after one token or one group. -/
def afterItem (ts : List Token) : Except ReadError (List Token) :=
  if Token.atKind .leftParen ts then do
    let (_, rest) ← Reader.skipGroup ts
    return rest
  else .ok (ts.drop 1)

/-- Reads a default value, verbatim: one token or group with all that follows it without a gap, such
as `-1`, `orders_seq.NEXTVAL` or `SYS_GUID()`. -/
def defaultValue : Reader Text := fun ts =>
  if Token.atEnd ts then .error (.unexpected "default value" ts)
  else do
    let next ← afterAdjacent (← afterItem ts)
    return (Token.verbatim (Token.taken ts next), next)

/-! ## Attributes -/

/-- What has been read of a column definition. -/
structure Draft where
  column : Column
  reference : Option ForeignKey
  deriving DecidableEq, Repr

/-- The column refuses null values. -/
def Draft.setNotNull (d : Draft) : Draft :=
  { d with column := { d.column with nullable := false } }

/-- The column is the primary key. -/
def Draft.setPrimaryKey (d : Draft) : Draft :=
  { d with column := { d.column with isPrimaryKey := true } }

/-- The values of the column are distinct. -/
def Draft.setUnique (d : Draft) : Draft :=
  { d with column := { d.column with isUnique := true } }

/-- The column has this default value; the last one counts. -/
def Draft.setDefault (d : Draft) (value : Text) : Draft :=
  { d with column := { d.column with default := some value } }

/-- The column refers to another table; the last reference counts. -/
def Draft.setReference (d : Draft) (key : ForeignKey) : Draft :=
  { d with reference := some key }

/-- Reads the table after `REFERENCES`, and the first of its columns if some are named. -/
def reference (column : Text) : Reader ForeignKey := do
  let table ← Reader.name "referenced table"
  if ← Reader.look (Token.atKind .leftParen) then
    return ⟨column, table, (← Reader.nameList).headD []⟩
  else
    return ⟨column, table, []⟩

/-- Reads what comes next: an attribute, a group or a word that means nothing here. -/
def attributeStep (d : Draft) : Reader Draft
  | [] => .ok (d, [])
  | t :: ts =>
    match t.keyword? with
    | some .not =>
      if Token.atKeyword .null ts then .ok (d.setNotNull, ts.drop 1) else .ok (d, ts)
    | some .primary =>
      if Token.atKeyword .key ts then .ok (d.setPrimaryKey, ts.drop 1) else .ok (d, ts)
    | some .unique => .ok (d.setUnique, ts)
    | some .default => (d.setDefault <$> defaultValue) ts
    | some .references => (d.setReference <$> reference d.column.name) ts
    | some .constraint => ((fun _ => d) <$> Reader.word "constraint name") ts
    | _ => if t.kind == .leftParen then ((fun _ => d) <$> Reader.skipGroup) (t :: ts) else .ok (d, ts)

/-! ## Every step takes a token -/

theorem afterType_suffix {continuations : List Text} {ts rest : List Token}
    (h : afterType continuations ts = .ok rest) : rest <:+ ts := by
  fun_induction afterType continuations ts with
  | case1 => cases h; exact List.suffix_refl _
  | case2 t ts _ next hafter ih =>
    exact (ih h).trans ((Reader.afterGroup?_suffix hafter).1.trans (List.suffix_cons _ _))
  | case3 => cases h
  | case4 t ts _ _ ih => exact (ih h).trans (List.suffix_cons _ _)
  | case5 => cases h; exact List.suffix_refl _

theorem afterAdjacent_suffix {ts rest : List Token} (h : afterAdjacent ts = .ok rest) :
    rest <:+ ts := by
  fun_induction afterAdjacent ts with
  | case1 => cases h; exact List.suffix_refl _
  | case2 => cases h; exact List.suffix_refl _
  | case3 t ts _ _ next hafter ih =>
    exact (ih h).trans ((Reader.afterGroup?_suffix hafter).1.trans (List.suffix_cons _ _))
  | case4 => cases h
  | case5 t ts _ _ ih => exact (ih h).trans (List.suffix_cons _ _)

theorem afterItem_suffix {ts rest : List Token} (h : afterItem ts = .ok rest) : rest <:+ ts := by
  unfold afterItem at h
  split at h
  · cases hskip : Reader.skipGroup ts with
    | error e => simp [hskip, Bind.bind, Except.bind] at h
    | ok p =>
      simp only [hskip, Bind.bind, Except.bind] at h
      cases h
      exact Reader.leavesSuffix_skipGroup hskip
  · cases h
    exact List.drop_suffix 1 ts

theorem leavesSuffix_defaultValue : Reader.LeavesSuffix defaultValue := by
  intro ts a rest h
  unfold defaultValue at h
  split at h
  · cases h
  · cases hitem : afterItem ts with
    | error e => simp [hitem, Bind.bind, Except.bind] at h
    | ok p =>
      simp only [hitem, Bind.bind, Except.bind] at h
      cases hadj : afterAdjacent p with
      | error e => simp [hadj] at h
      | ok q =>
        simp only [hadj] at h
        cases h
        exact (afterAdjacent_suffix hadj).trans (afterItem_suffix hitem)

theorem leavesSuffix_reference (column : Text) : Reader.LeavesSuffix (reference column) := by
  refine (Reader.leavesSuffix_name _).bind fun table => (Reader.leavesSuffix_look _).bind fun named => ?_
  cases named
  · exact .pure _
  · exact Reader.leavesSuffix_nameList.bind fun _ => .pure _

theorem attributeStep_suffix {d e : Draft} {t : Token} {ts rest : List Token}
    (h : attributeStep d (t :: ts) = .ok (e, rest)) : rest <:+ ts := by
  simp only [attributeStep] at h
  split at h
  · split at h <;> cases h
    · exact List.drop_suffix 1 _
    · exact List.suffix_refl _
  · split at h <;> cases h
    · exact List.drop_suffix 1 _
    · exact List.suffix_refl _
  · cases h
    exact List.suffix_refl _
  · exact leavesSuffix_defaultValue.map _ h
  · exact (leavesSuffix_reference _).map _ h
  · exact (Reader.leavesSuffix_word _).map _ h
  · split at h
    · rcases List.suffix_cons_iff.1 (Reader.leavesSuffix_skipGroup.map _ h) with rfl | hrest
      · exact absurd (Reader.skipGroup_map_length h) (Nat.lt_irrefl _)
      · exact hrest
    · cases h
      exact List.suffix_refl _

theorem attributeStep_length {d e : Draft} {ts rest : List Token} (hne : ts ≠ [])
    (h : attributeStep d ts = .ok (e, rest)) : rest.length < ts.length := by
  obtain ⟨t, us, rfl⟩ := List.exists_cons_of_ne_nil hne
  exact Nat.lt_succ_of_le (attributeStep_suffix h).length_le

/-! ## Definitions -/

/-- Reads attributes to the end of the definition. -/
def attributes (d : Draft) (ts : List Token) : Except ReadError Draft :=
  if _hend : Token.atEnd ts then .ok d
  else
    match _hstep : attributeStep d ts with
    | .error e => .error e
    | .ok (next, rest) => attributes next rest
termination_by ts.length
decreasing_by
  refine attributeStep_length ?_ _hstep
  rintro rfl
  exact _hend rfl

/-- Reads a whole column definition. -/
def read (ts : List Token) : Except ReadError Draft := do
  let (name, rest) ← Reader.word "column name" ts
  let (type, rest) ← dataType rest
  attributes ⟨.plain name type, none⟩ rest

end DialectBridge.ColumnDefinition
