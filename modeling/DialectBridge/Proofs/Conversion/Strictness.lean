import DialectBridge.Conversion

/-!
# Strict and lenient conversion

Strictness decides which issues are errors, and nothing else. The steps of a conversion do not know
of it; only a type without a mapping changes sides, and such issues are found before all others. So
the warnings of a lenient conversion are the errors of the strict one followed by its warnings.
-/

namespace DialectBridge

namespace Issue

/-- What an error message adds to the message of its issue. -/
def errorPrefix : Text :=
  "Conversion failed: "

/-- The issue is a type without a mapping. -/
def isUnmappedType : Issue → Bool
  | unmappedType .. => true
  | _ => false

@[simp] theorem errorMessage_eq (i : Issue) : i.errorMessage = errorPrefix ++ i.message := rfl

theorem drop_errorMessage (i : Issue) : i.errorMessage.drop errorPrefix.length = i.message := by
  simp

end Issue

namespace Conversion

/-! ## The issues that strict mode refuses -/

@[simp] theorem isRefused_false (i : Issue) : isRefused false i = false := by
  cases i <;> rfl

@[simp] theorem isRefused_true : isRefused true = Issue.isUnmappedType := by
  funext i
  cases i <;> rfl

theorem isUnmappedType_of_mem_unmappedTypes {types : TypeTable} {target : Dialect}
    {tables : List Table} {i : Issue} (hi : i ∈ unmappedTypes types target tables) :
    i.isUnmappedType = true := by
  obtain ⟨t, -, hi⟩ := List.mem_flatMap.mp hi
  obtain ⟨c, -, hc⟩ := List.mem_filterMap.mp hi
  unfold unmappedType? at hc
  split at hc
  · cases hc
  · cases hc
    rfl

/-- The issues with types are all refused or all kept: a route with a type table has only types
without a mapping, and any other route has none of these. -/
theorem typeIssues_uniform (route : Route) (tables : List Table) :
    (∀ i ∈ typeIssues route tables, i.isUnmappedType = true) ∨
      ∀ i ∈ typeIssues route tables, i.isUnmappedType = false := by
  unfold typeIssues
  split
  · exact .inl fun i hi => isUnmappedType_of_mem_unmappedTypes hi
  · right
    split
    · simp
    · simp [Issue.isUnmappedType]

/-- No later step finds a type without a mapping. -/
theorem isUnmappedType_of_mem_issues {s : Steps} {i : Issue} (hi : i ∈ s.issues) :
    i.isUnmappedType = false := by
  rcases List.mem_append.mp hi with hi | hi
  · obtain ⟨c, -, rfl⟩ := List.mem_map.mp hi
    rfl
  · obtain ⟨c, -, rfl⟩ := List.mem_map.mp hi
    rfl

/-- Types without a mapping come before everything else that a conversion finds. -/
theorem filter_append_filter_issues (route : Route) (tables : List Table) (s : Steps) :
    let issues := typeIssues route tables ++ s.issues
    issues.filter Issue.isUnmappedType ++ issues.filter (fun i => !i.isUnmappedType) = issues := by
  have hlater : s.issues.filter Issue.isUnmappedType = [] ∧
      s.issues.filter (fun i => !i.isUnmappedType) = s.issues := by
    constructor
    · exact List.filter_eq_nil_iff.mpr fun i hi => by simp [isUnmappedType_of_mem_issues hi]
    · exact List.filter_eq_self.mpr fun i hi => by simp [isUnmappedType_of_mem_issues hi]
  simp only [List.filter_append, hlater.1, hlater.2, List.append_nil]
  rcases typeIssues_uniform route tables with h | h
  · rw [List.filter_eq_self.mpr h, List.filter_eq_nil_iff.mpr (by simpa using h), List.nil_append]
  · rw [List.filter_eq_nil_iff.mpr (by simpa using h), List.filter_eq_self.mpr (by simpa using h),
      List.nil_append]

end Conversion

open Conversion in
theorem convert_errors_lenient (script : Text) (names : Renaming) (route : Route) :
    (convert script names route false).errors = [] := by
  simp [convert]

open Conversion in
/-- The lenient conversion warns of everything that it finds. -/
theorem convert_warnings_lenient (script : Text) (names : Renaming) (route : Route) :
    (convert script names route false).warnings =
      typeIssues route (Script.tables route.source script) ++ (steps script names route).issues := by
  simp only [convert]
  exact List.filter_eq_self.mpr fun i _ => by simp

open Conversion in
theorem mem_convert_errors {script : Text} {names : Renaming} {route : Route} {i : Issue} :
    i ∈ (convert script names route true).errors ↔
      i ∈ (convert script names route false).warnings ∧ i.isUnmappedType = true := by
  rw [convert_warnings_lenient]
  simp only [convert, isRefused_true, List.mem_filter]

open Conversion in
theorem convert_errors_append_warnings (script : Text) (names : Renaming) (route : Route) :
    (convert script names route true).errors ++ (convert script names route true).warnings =
      (convert script names route false).warnings := by
  rw [convert_warnings_lenient]
  simp only [convert, isRefused_true]
  exact filter_append_filter_issues ..

/-- Strictness changes the verdict of a conversion and nothing else. The lenient conversion succeeds,
and its warnings are the errors of the strict one, without the words in front that make them errors,
followed by the warnings of the strict one. The strict conversion succeeds just when the lenient one
warns of no type without a mapping. -/
theorem strictness_decides_verdict (script : Text) (names : Renaming) (route : Route) :
    let strict := convert script names route true
    let lenient := convert script names route false
    lenient.text = strict.text ∧
      lenient.transformations = strict.transformations ∧
      lenient.labels = strict.labels ∧
      lenient.success = true ∧
      lenient.errors = [] ∧
      (∀ e ∈ strict.errors.map Issue.errorMessage, Issue.errorPrefix <+: e) ∧
      lenient.warnings.map Issue.message =
        (strict.errors.map Issue.errorMessage).map (List.drop Issue.errorPrefix.length) ++
          strict.warnings.map Issue.message ∧
      (strict.success = true ↔ ∀ i ∈ lenient.warnings, i.isUnmappedType = false) := by
  intro strict lenient
  have herrors : lenient.errors = [] := convert_errors_lenient script names route
  refine ⟨rfl, rfl, rfl, ?_, herrors, ?_, ?_, ?_⟩
  · simp [ConversionOutcome.success, herrors]
  · intro e he
    obtain ⟨i, -, rfl⟩ := List.mem_map.mp he
    exact List.prefix_append ..
  · have hdrop : (strict.errors.map Issue.errorMessage).map (List.drop Issue.errorPrefix.length) =
        strict.errors.map Issue.message := by
      rw [List.map_map]
      exact List.map_congr_left fun i _ => Issue.drop_errorMessage i
    rw [hdrop, ← List.map_append, convert_errors_append_warnings]
  · have hmem (i : Issue) : i ∈ strict.errors ↔ i ∈ lenient.warnings ∧ i.isUnmappedType = true :=
      mem_convert_errors
    simp only [ConversionOutcome.success, List.isEmpty_iff, List.eq_nil_iff_forall_not_mem, hmem]
    simp

/-! ## Columns whose types nobody knows -/

namespace Conversion

/-- Nobody knows the type of the column: no rule maps it, and the target dialect has none of this name. -/
def IsUnmapped (types : TypeTable) (target : Dialect) (c : Column) : Prop :=
  types.convertType? c.dataType = none ∧ target.knowsType c.typeName = false

instance (types : TypeTable) (target : Dialect) (c : Column) : Decidable (IsUnmapped types target c) :=
  inferInstanceAs (Decidable (_ ∧ _))

theorem unmappedType?_eq_some_iff {types : TypeTable} {target : Dialect} {table : Text} {c : Column} {i : Issue} :
    unmappedType? types target table c = some i ↔
      i = .unmappedType table c.name c.dataType ∧ IsUnmapped types target c := by
  rw [unmappedType?, IsUnmapped]
  cases types.convertType? c.dataType <;> cases target.knowsType c.typeName <;> simp [eq_comm]

/-- A column of a script is warned of exactly if nobody knows its type. -/
theorem mem_warnings_iff_isUnmapped {script : Text} {names : Renaming} {route : Route} {types : TypeTable}
    (hroute : route.typeTable? = some types) {t : Table} (ht : t ∈ Script.tables route.source script) {c : Column}
    (hc : c ∈ t.columns) : .unmappedType t.name c.name c.dataType ∈ (convert script names route false).warnings ↔
      IsUnmapped types route.target c := by
  rw [convert_warnings_lenient, typeIssues, hroute]
  refine ⟨fun hi => ?_, fun hc' => ?_⟩
  · rcases List.mem_append.1 hi with hi | hi
    · obtain ⟨u, -, hi⟩ := List.mem_flatMap.1 hi
      obtain ⟨d, -, hd⟩ := List.mem_filterMap.1 hi
      obtain ⟨hissue, hmapped⟩ := unmappedType?_eq_some_iff.1 hd
      -- the issue tells the type, and nothing else of a column counts
      obtain ⟨-, -, htype⟩ := Issue.unmappedType.inj hissue
      rwa [IsUnmapped, Column.typeName, htype]
    · cases isUnmappedType_of_mem_issues hi
  · refine List.mem_append_left _ (List.mem_flatMap.2 ⟨t, ht, List.mem_filterMap.2 ⟨c, hc, ?_⟩⟩)
    exact unmappedType?_eq_some_iff.2 ⟨rfl, hc'⟩

/-- In strict mode such a column makes the conversion fail. -/
theorem mem_errors_iff_isUnmapped {script : Text} {names : Renaming} {route : Route} {types : TypeTable}
    (hroute : route.typeTable? = some types) {t : Table} (ht : t ∈ Script.tables route.source script) {c : Column}
    (hc : c ∈ t.columns) : .unmappedType t.name c.name c.dataType ∈ (convert script names route true).errors ↔
      IsUnmapped types route.target c := by
  rw [mem_convert_errors, mem_warnings_iff_isUnmapped hroute ht hc]
  exact and_iff_left rfl

end Conversion

end DialectBridge
