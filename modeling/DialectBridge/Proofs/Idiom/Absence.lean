import DialectBridge.Idiom.Audit
import DialectBridge.Idiom.Oracle
import DialectBridge.Layout
import DialectBridge.Proofs.Idiom.Outside
import DialectBridge.Proofs.Lexical.Plain
import DialectBridge.SerialColumn

/-!
# Scripts without idioms

Every idiom and construct of Oracle shows by a word. A plain script that holds none of these words is
left alone by the replacement of idioms, by the audit, by the step for columns that sequences feed, and
by the tidying of the layout.
-/

namespace DialectBridge

open Pattern

/-- The words in the patterns of the idioms and constructs of Oracle. -/
def oracleWords : List Text :=
  ["STORAGE", "SYSDATE", "SYSTIMESTAMP", "NVL", "TABLESPACE", "PCTFREE", "PCTUSED", "INITRANS",
    "MAXTRANS", "VARCHAR2", "NUMBER", "DECODE", "NVL2", "ROWNUM", "DUAL", "TO_NUMBER", "INSTR",
    "CONNECT", "BY"]

theorem oracleWords_bare : ∀ w ∈ oracleWords, IsBareWord w := by decide +kernel

/-! ## What the patterns demand -/

section

variable {w : Text}

theorem demands_function (hw : w ∈ oracleWords) (p : Pattern) :
    Demands (seq edge (seq (text w) (seq gap (seq (letter '(') p)))) w :=
  have hbare := oracleWords_bare w hw
  demands_word opens_edge (closes_paren p) hbare.ne_nil hbare.bare

theorem demands_whole (hw : w ∈ oracleWords) : Demands (sequence [edge, text w, edge]) w :=
  have hbare := oracleWords_bare w hw
  demands_word opens_edge (closes_edge.seq empty) hbare.ne_nil hbare.bare

theorem demands_option (hw : w ∈ oracleWords) (p : Pattern) :
    Demands (seq space (seq (text w) (seq space p))) w :=
  have hbare := oracleWords_bare w hw
  demands_word opens_space (closes_space.seq p) hbare.ne_nil hbare.bare

end

/-- Every idiom demands a word. -/
theorem exists_demands_of_idiom {r : IdiomRule} (hr : r ∈ oracleIdioms) :
    ∃ w ∈ oracleWords, Demands r.pattern w := by
  simp only [oracleIdioms, List.mem_cons, List.not_mem_nil, or_false] at hr
  rcases hr with rfl | rfl | rfl | rfl | rfl | rfl | rfl | rfl | rfl | rfl | rfl | rfl | rfl | rfl
  · exact ⟨"SYSDATE", by decide +kernel, demands_whole (by decide +kernel)⟩
  · exact ⟨"SYSTIMESTAMP", by decide +kernel, demands_whole (by decide +kernel)⟩
  · exact ⟨"NVL", by decide +kernel, demands_function (by decide +kernel) _⟩
  · exact ⟨"TABLESPACE", by decide +kernel, demands_option (by decide +kernel) _⟩
  · exact ⟨"PCTFREE", by decide +kernel, demands_option (by decide +kernel) _⟩
  · exact ⟨"PCTUSED", by decide +kernel, demands_option (by decide +kernel) _⟩
  · exact ⟨"INITRANS", by decide +kernel, demands_option (by decide +kernel) _⟩
  · exact ⟨"MAXTRANS", by decide +kernel, demands_option (by decide +kernel) _⟩
  · exact ⟨"VARCHAR2", by decide +kernel, demands_whole (by decide +kernel)⟩
  · exact ⟨"NUMBER", by decide +kernel, demands_function (by decide +kernel) _⟩
  · exact ⟨"NUMBER", by decide +kernel, demands_function (by decide +kernel) _⟩
  · exact ⟨"NUMBER", by decide +kernel, demands_function (by decide +kernel) _⟩
  · exact ⟨"NUMBER", by decide +kernel, demands_function (by decide +kernel) _⟩
  · exact ⟨"NUMBER", by decide +kernel, demands_whole (by decide +kernel)⟩

/-- Every construct demands a word, except for the mark of an outer join. -/
theorem exists_demands_of_construct {c : OracleConstruct} (hc : c ≠ .outerJoin) :
    ∃ w ∈ oracleWords, Demands c.pattern w := by
  cases c with
  | decode => exact ⟨"DECODE", by decide +kernel, demands_function (by decide +kernel) _⟩
  | nvl2 => exact ⟨"NVL2", by decide +kernel, demands_function (by decide +kernel) _⟩
  | rownum => exact ⟨"ROWNUM", by decide +kernel, demands_whole (by decide +kernel)⟩
  | dual => exact ⟨"DUAL", by decide +kernel, demands_whole (by decide +kernel)⟩
  | toNumber => exact ⟨"TO_NUMBER", by decide +kernel, demands_function (by decide +kernel) _⟩
  | instr => exact ⟨"INSTR", by decide +kernel, demands_function (by decide +kernel) _⟩
  | connectBy =>
    have hbare := oracleWords_bare "CONNECT" (by decide +kernel)
    exact ⟨"CONNECT", by decide +kernel, demands_word opens_edge (closes_space.seq _) hbare.ne_nil hbare.bare⟩
  | outerJoin => exact absurd rfl hc

/-- A column that a sequence feeds shows by its default value. -/
theorem demands_serial : Demands SerialColumn.pattern "DEFAULT" := by
  have hbare := Keyword.default.isBareWord_text
  have hdefault : Demands (seq space (seq (text "DEFAULT") (seq space
      (sequence [capture 2 SerialColumn.sequenceName, letter '.', text "NEXTVAL", edge])))) "DEFAULT" :=
    demands_word opens_space (closes_space.seq _) hbare.ne_nil hbare.bare
  exact ((((hdefault.seq _).seq _).seq _).seq _).seq _

/-- The mark of an outer join holds a plus sign. -/
theorem mem_of_outerJoin {s t : Site} (h : Reaches OracleConstruct.outerJoin.pattern s t) :
    ∃ c ∈ s.text, sameLetter '+' c = true := by
  obtain ⟨u, hopen, v, hgap, w, ⟨c, rest, hafter, hc, -⟩, -⟩ := h
  refine ⟨c, ?_, hc⟩
  rw [← hopen.text_eq, ← hgap.text_eq, Site.text, hafter]
  simp

/-! ## Steps that change nothing -/

/-- Where no token is the word of a clause, no clause is removed. -/
theorem Clause.remove_eq_self {word : Text} {ts : List Token} (h : ∀ t ∈ ts, t.isWord word = false)
    (pending : Text) : remove word pending ts = pending ++ Token.textOf ts := by
  induction ts generalizing pending with
  | nil => simp [remove]
  | cons t ts ih =>
    have hnone : after? word (t :: ts) = none := by
      cases ts with
      | nil => rfl
      | cons u us => simp [after?, h t List.mem_cons_self]
    rw [remove_token hnone, ih fun u hu => h u (List.mem_cons_of_mem _ hu)]
    simp

namespace Replaced

variable {r : Replaced} {name : Text} {rule : IdiomRule} {rules : List IdiomRule}

/-- The rules applied one after another. -/
def applyRules (r : Replaced) (rules : List IdiomRule) : Replaced :=
  rules.foldl (fun r rule => r.step rule.name (changeCode rule.replace)) r

theorem step_of_eq {change : Text → Text} (h : change r.text = r.text) : r.step name change = r :=
  if_pos h

theorem applyRules_cons : r.applyRules (rule :: rules) = (r.step rule.name (changeCode rule.replace)).applyRules rules :=
  rfl

theorem applyRules_append (r : Replaced) (rules rules' : List IdiomRule) :
    r.applyRules (rules ++ rules') = (r.applyRules rules).applyRules rules' :=
  List.foldl_append

theorem mem_applied_step (h : name ∈ r.applied) (change : Text → Text) (name' : Text) :
    name ∈ (r.step name' change).applied := by
  simp only [step]
  split
  · exact h
  · exact List.mem_append_left _ h

theorem mem_applied_applyRules (h : name ∈ r.applied) : name ∈ (r.applyRules rules).applied := by
  induction rules generalizing r with
  | nil => exact h
  | cons rule rules ih => exact ih (mem_applied_step h _ _)

/-- A step whose name is missing has changed nothing. -/
theorem eq_of_notMem_step {change : Text → Text} (h : name ∉ (r.step name change).applied) : change r.text = r.text := by
  refine Decidable.byContradiction fun hchange => h ?_
  rw [step, if_neg hchange]
  exact List.mem_append_right _ List.mem_cons_self

theorem eq_of_notMem_applyRules (h : rule.name ∉ (r.applyRules (rule :: rules)).applied) :
    changeCode rule.replace r.text = r.text :=
  eq_of_notMem_step fun hmem => h (mem_applied_applyRules (r := r.step _ _) hmem)

theorem eq_of_forall_notMem (h : ∀ rule ∈ rules, rule.name ∉ (r.applyRules rules).applied) :
    ∀ rule ∈ rules, changeCode rule.replace r.text = r.text := by
  induction rules with
  | nil => exact List.forall_mem_nil _
  | cons rule rules ih =>
    have hrule := eq_of_notMem_applyRules (h rule List.mem_cons_self)
    rw [applyRules_cons, step_of_eq hrule] at h
    exact List.forall_mem_cons.2 ⟨hrule, ih fun rule hmem => h rule (List.mem_cons_of_mem _ hmem)⟩

theorem applyRules_of_eq (h : ∀ rule ∈ rules, changeCode rule.replace r.text = r.text) : r.applyRules rules = r := by
  induction rules with
  | nil => rfl
  | cons rule rules ih =>
    obtain ⟨hrule, hrules⟩ := List.forall_mem_cons.1 h
    rw [applyRules_cons, step_of_eq hrule, ih hrules]

end Replaced

/-- A script that loses no clause and that no rule changes stays as it is. -/
theorem replaceOracleIdioms_of_eq {script : Text} (hclause : removeClause "STORAGE" script = script)
    (hrules : ∀ r ∈ oracleIdioms, changeCode r.replace script = script) :
    replaceOracleIdioms script = ⟨script, []⟩ := by
  have hfirst : Replaced.step ⟨script, []⟩ "storage" (removeClause "STORAGE") = ⟨script, []⟩ := Replaced.step_of_eq hclause
  show (Replaced.step ⟨script, []⟩ "storage" (removeClause "STORAGE")).applyRules oracleIdioms = _
  rw [hfirst]
  exact Replaced.applyRules_of_eq hrules

/-- Where no name is left, nothing has changed. -/
theorem eq_of_applied_nil {script : Text} (h : (replaceOracleIdioms script).applied = []) :
    removeClause "STORAGE" script = script ∧ ∀ r ∈ oracleIdioms, changeCode r.replace script = script := by
  have hnone (name : Text) : name ∉ (replaceOracleIdioms script).applied := h ▸ List.not_mem_nil
  have hclause : removeClause "STORAGE" script = script :=
    Replaced.eq_of_notMem_step (r := ⟨script, []⟩) fun hmem => hnone _ (Replaced.mem_applied_applyRules hmem)
  have hfirst : Replaced.step ⟨script, []⟩ "storage" (removeClause "STORAGE") = ⟨script, []⟩ := Replaced.step_of_eq hclause
  refine ⟨hclause, Replaced.eq_of_forall_notMem (r := ⟨script, []⟩) fun rule _ => ?_⟩
  rw [← hfirst]
  exact hnone rule.name

theorem replaceOracleIdioms_eq_self_iff {script : Text} :
    replaceOracleIdioms script = ⟨script, []⟩ ↔
      removeClause "STORAGE" script = script ∧ ∀ r ∈ oracleIdioms, changeCode r.replace script = script :=
  ⟨fun h => eq_of_applied_nil (congrArg Replaced.applied h), fun h => replaceOracleIdioms_of_eq h.1 h.2⟩

/-- A script that is code as a whole is changed as a whole. -/
theorem changeCode_of_code {t : Text} (h : segments t = [⟨.code, t⟩]) (change : Text → Text) :
    changeCode change t = change t := by
  simp [changeCode, changeSegments, h]

section

variable {is : List Item}

/-- A plain script without the words of idioms has no idioms. -/
theorem replaceOracleIdioms_render (h : Item.Plain is) (hne : is ≠ []) (hlast : is.getLast? ≠ some .blank)
    (hwords : ∀ w ∈ oracleWords, ¬ (Item.render is).HoldsWord w) :
    replaceOracleIdioms (Item.render is) = ⟨Item.render is, []⟩ := by
  have hcode := Item.segments_render h hlast hne
  have hstorage : removeClause "STORAGE" (Item.render is) = Item.render is := by
    have hmem : ("STORAGE" : Text) ∈ oracleWords := by decide +kernel
    rw [removeClause, Clause.remove_eq_self, List.nil_append, textOf_scan]
    intro t ht
    refine Bool.eq_false_iff.2 fun hsame => hwords _ hmem ?_
    exact Item.holdsWord_of_isWord h hlast (oracleWords_bare _ hmem) ht hsame
  refine replaceOracleIdioms_of_eq hstorage fun r hr => ?_
  obtain ⟨w, hw, hdemands⟩ := exists_demands_of_idiom hr
  rw [changeCode_of_code hcode]
  exact replaceMatches_of_hasMatch r.pattern.matcher_takesPrefix _ (hasMatch_of_demands hdemands (hwords w hw))

/-- No character of a plain text is a plus sign, a semicolon or a line break. -/
theorem not_sameLetter_of_plain (h : Item.Plain is) {c : Char} (hc : c ∈ Item.render is) :
    sameLetter '+' c = false ∧ sameLetter ';' c = false ∧ sameLetter '\n' c = false := by
  have hascii : c.toNat < 128 := by
    rcases Item.mem_render h.sound hc with hbare | rfl | rfl | rfl | rfl | rfl
    · exact toNat_lt_of_bare hbare
    all_goals decide
  refine forall_ascii (P := fun c => (isBare c = true ∨ c = '(' ∨ c = ')' ∨ c = ',' ∨ c = '.' ∨ c = ' ') →
    sameLetter '+' c = false ∧ sameLetter ';' c = false ∧ sameLetter '\n' c = false) (by decide +kernel)
    hascii (Item.mem_render h.sound hc)

/-- A plain script without the words of constructs has no constructs. -/
theorem oracleConstructs_render (h : Item.Plain is) (hne : is ≠ []) (hlast : is.getLast? ≠ some .blank)
    (hwords : ∀ w ∈ oracleWords, ¬ (Item.render is).HoldsWord w) :
    oracleConstructs (Item.render is) = [] := by
  have hcode : codeOf (Item.render is) = Item.render is := by
    simp [codeOf, Item.segments_render h hlast hne, Text.joinWith]
  refine List.filter_eq_nil_iff.2 fun c _ => ?_
  rw [hcode, Bool.not_eq_true]
  by_cases hc : c = .outerJoin
  · subst hc
    refine hasMatch_of_reaches fun s t hs hreach => ?_
    obtain ⟨d, hd, hplus⟩ := mem_of_outerJoin hreach
    rw [(not_sameLetter_of_plain h (hs ▸ hd)).1] at hplus
    cases hplus
  · obtain ⟨w, hw, hdemands⟩ := exists_demands_of_construct hc
    exact hasMatch_of_demands hdemands (hwords w hw)

/-- A plain script without a default value has no serial columns. -/
theorem makeSerial_render (h : Item.Plain is) (hne : is ≠ []) (hlast : is.getLast? ≠ some .blank)
    (hdefault : ¬ (Item.render is).HoldsWord "DEFAULT") : makeSerial (Item.render is) = Item.render is := by
  rw [makeSerial, changeCode_of_code (Item.segments_render h hlast hne)]
  exact replaceMatches_of_hasMatch (SerialColumn.pattern).matcher_takesPrefix _
    (hasMatch_of_demands demands_serial hdefault)

/-- A plain script without blanks around it is tidy. -/
theorem tidy_render (h : Item.Plain is) (hne : is ≠ []) (hhead : is.head? ≠ some .blank)
    (hlast : is.getLast? ≠ some .blank) : Layout.tidy (Item.render is) = Item.render is := by
  have hblank : hasMatch Layout.blankLines.matcher (Item.render is) = false :=
    hasMatch_of_start rfl fun c hc => by
      simp [Layout.blankLines, Pattern.sequence, startsWith, nullable, (not_sameLetter_of_plain h hc).2.2]
  have htrailing : hasMatch Layout.trailingSpace.matcher (Item.render is) = false :=
    hasMatch_of_start rfl fun c hc => by
      simp [Layout.trailingSpace, Pattern.sequence, startsWith, nullable, (not_sameLetter_of_plain h hc).2.1]
  rw [Layout.tidy, changeCode_of_code (Item.segments_render h hlast hne), Layout.tidyCode,
    replaceMatches_of_hasMatch Layout.blankLines.matcher_takesPrefix _ hblank,
    replaceMatches_of_hasMatch Layout.trailingSpace.matcher_takesPrefix _ htrailing,
    Item.trim_render h hhead hlast]

end

end DialectBridge
