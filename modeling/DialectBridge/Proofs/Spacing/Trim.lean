import DialectBridge.Proofs.Lexical.Tiling
import DialectBridge.Proofs.Rename.Shapes
import DialectBridge.Proofs.Spacing.Statements
import DialectBridge.Proofs.Text.Trim

/-!
# Whitespace around a script

Whitespace at the start of a script goes into its first gap, and whitespace at its end into the gap in
front of the end or into a quotation that is left open. No table depends on these (`tables_trim`).
-/

namespace DialectBridge

open Scan Token

/-! ## Tables that read the same -/

theorem Column.ReadsAlike.eq {c e : Column} (h : c.ReadsAlike Eq e) : e = c := by
  obtain ⟨name, dataType, nullable, isPrimaryKey, isUnique, default⟩ := c
  obtain ⟨name', dataType', nullable', isPrimaryKey', isUnique', default'⟩ := e
  have hdefault : default = default' := by
    have hrel := h.default
    cases hrel with
    | none => rfl
    | some heq => rw [heq]
  obtain rfl : name' = name := h.name
  obtain rfl : dataType = dataType' := h.dataType
  obtain rfl : nullable' = nullable := h.nullable
  obtain rfl : isPrimaryKey' = isPrimaryKey := h.isPrimaryKey
  obtain rfl : isUnique' = isUnique := h.isUnique
  rw [hdefault]

theorem Table.ReadsAlike.eq {t u : Table} (h : t.ReadsAlike Eq u) : u = t := by
  obtain ⟨name, columns, primaryKey, foreignKeys, indexes, statement, dialect⟩ := t
  obtain ⟨name', columns', primaryKey', foreignKeys', indexes', statement', dialect'⟩ := u
  have hcolumns : List.Forall₂ Eq columns columns' := List.Forall₂.imp (fun _ _ hc => hc.eq.symm) h.columns
  rw [List.forall₂_eq_eq_eq] at hcolumns
  obtain rfl : name' = name := h.name
  obtain rfl : primaryKey' = primaryKey := h.primaryKey
  obtain rfl : foreignKeys' = foreignKeys := h.foreignKeys
  obtain rfl : indexes' = indexes := h.indexes
  obtain rfl : statement = statement' := h.statement
  obtain rfl : dialect' = dialect := h.dialect
  rw [hcolumns]

/-! ## The end of a script -/

namespace Scan

/-- Blanks at the end of a text that is a gap leave a gap when they go. -/
theorem gap_of_append_blank {x b : Text} (hb : ∀ c ∈ b, isBlank c = true) (h : (gap (x ++ b)).2 = []) :
    (gap x).2 = [] := by
  cases hr : (gap x).2 with
  | nil => rfl
  | cons c r =>
    have hnone := trivia?_gap_snd x
    have htext := gap_text x
    rw [hr] at hnone htext
    -- what stands at the end of `x` is no trivia, and blanks behind it do not change that
    have hmore : trivia? (c :: (r ++ b)) = none := by
      rw [trivia?_eq_none_iff] at hnone ⊢
      refine ⟨hnone.1, ?_⟩
      cases r with
      | cons d r => exact hnone.2
      | nil =>
        have hhead {d : Char} (hd : isBlank d = false) : ([] ++ b).head? ≠ some d := fun hd' => by
          have hmem : d ∈ b := List.mem_of_head? hd'
          rw [hb d hmem] at hd
          cases hd
        exact ⟨fun hc => hhead (d := '-') (by decide) hc.2, fun hc => hhead (d := '*') (by decide) hc.2⟩
    have hgap := gap_append (t := x) (g := (gap x).1) (h := []) (c := c) (r := r) (s := r ++ b) (by simp) (by simp [hr])
    rw [gap_of_none hmore, ← List.cons_append] at hgap
    have htext' : Trivia.textOf (gap x).1 ++ (c :: r ++ b) = x ++ b := by
      rw [← List.append_assoc]
      exact congrArg (· ++ b) htext
    rw [htext'] at hgap
    rw [hgap] at h
    cases h

end Scan

/-- The token `u` is the token `t`, unless it is the end of a script or a quotation that is left open. -/
structure Token.EndsAlike (t u : Token) : Prop where
  agree : AgreeUpToSpacing t u
  same : t.kind ≠ .eof → (∀ cause, t.kind ≠ .error cause) → u = t

/-- Tokens that are the same but for the end of the script are read as the same. -/
theorem respacing_endsAlike : Respacing (List.Forall₂ EndsAlike) Eq where
  agree _ _ h := h.imp fun _ _ htu => htu.agree.toAgreeUpToGap
  tail _ _ _ _ h := by
    cases h with
    | cons _ hrest => exact hrest
  front ts us ts' us' h hts hus hlen := by
    obtain ⟨more, rfl⟩ := hts
    obtain ⟨more', rfl⟩ := hus
    have htake := List.forall₂_take ts'.length h
    rwa [List.take_left, hlen, List.take_left] at htake
  verbatim ts us h hchain := by
    have hall := hchain.closed
    have hsame : us = ts := by
      clear hchain
      induction h with
      | nil => rfl
      | cons htu _ ih =>
        obtain ⟨ht, hts⟩ := List.forall_mem_cons.1 hall
        rw [htu.same ht.1 ht.2, ih hts]
    rw [hsame]

theorem trimEnd_initial (t : Text) : Text.trimEnd t <+: t := by
  have hsuffix := List.dropWhile_suffix isBlank (l := t.reverse)
  rwa [← List.reverse_prefix, List.reverse_reverse] at hsuffix

theorem head?_trimEnd {t : Text} (h : Text.trimEnd t ≠ []) : (Text.trimEnd t).head? = t.head? := by
  obtain ⟨b, hb⟩ := trimEnd_initial t
  obtain ⟨c, u, hu⟩ := List.exists_cons_of_ne_nil h
  rw [hu] at hb ⊢
  rw [← hb]
  rfl

theorem trim_trim (t : Text) : Text.trim (Text.trim t) = Text.trim t := by
  have hstart : Text.trimStart (Text.trim t) = Text.trim t := by
    by_cases hnil : Text.trim t = []
    · rw [hnil]
      rfl
    · have hhead : (Text.trim t).head?.any isBlank = false := by
        rw [Text.trim, head?_trimEnd hnil]
        exact Text.head?_any_dropWhile isBlank t
      have hkept : ([] ++ Text.trim t).dropWhile isBlank = Text.trim t := Text.dropWhile_run (List.forall_mem_nil _) hhead
      exact hkept
  rw [Text.trim, hstart, Text.trim, Text.trimEnd_trimEnd]

/-- What trimming takes away is whitespace. -/
theorem exists_trimEnd_append (t : Text) : ∃ b, t = Text.trimEnd t ++ b ∧ ∀ c ∈ b, isBlank c = true := by
  refine ⟨(t.reverse.takeWhile isBlank).reverse, ?_, fun c hc => ?_⟩
  · rw [Text.trimEnd_eq, ← List.reverse_append, List.takeWhile_append_dropWhile, List.reverse_reverse]
  · exact Text.forall_mem_takeWhile isBlank _ c (List.mem_reverse.1 hc)

/-- An open quotation stays one when the whitespace at its end goes. -/
theorem Token.Fits.trimEnd_unclosed {t : Token} {rest : Text} {cause : LexicalError} (h : t.Fits rest)
    (hkind : t.kind = .error cause) : Token.Fits ⟨t.gap, t.kind, Text.trimEnd t.lexeme⟩ [] := by
  obtain ⟨q, body, hq, hlexeme, hopen, hreads⟩ := h.exists_unclosed hkind
  obtain ⟨b, hbody, hb⟩ := exists_trimEnd_append body
  have hquote : b.head? ≠ some q := fun hhead => by
    have hblank := hb q (List.mem_of_head? hhead)
    rw [(blank_of_quote hq).1] at hblank
    cases hblank
  have htrimmed : Text.trimEnd t.lexeme = q :: Text.trimEnd body := by
    rw [hlexeme]
    exact Text.trimEnd_append (p := [q]) (blank_of_quote hq).1 body
  rw [hbody] at hopen
  rw [htrimmed]
  exact Token.Fits.behind (u := ⟨[], t.kind, q :: Text.trimEnd body⟩) (hreads _ (quotedBody_of_append hopen hquote)) h

theorem Token.Fits.trimEnd {t : Token} {rest : Text} (h : t.Fits rest) :
    Token.Fits ⟨t.gap, t.kind, Text.trimEnd t.lexeme⟩ [] := by
  by_cases hclosed : ∀ cause, t.kind ≠ .error cause
  · rw [Text.trimEnd_eq_self.2 (h.getLast?_lexeme hclosed)]
    exact h.alike (.of_initial _ List.nil_prefix)
  · obtain ⟨cause, hkind⟩ : ∃ cause, t.kind = .error cause := by simpa using hclosed
    exact h.trimEnd_unclosed hkind

theorem Token.Fits.trimEnd_text {t : Token} {rest : Text} (h : t.Fits rest) :
    Text.trimEnd t.text = t.gapText ++ Text.trimEnd t.lexeme := by
  -- the first sign of the token keeps the whitespace in front of it
  refine Text.trimEnd_append_of_ne (fun hnil => ?_) _
  obtain ⟨c, l, hl, -⟩ := h.token_eq
  have hhead := h.head?_lexeme
  have hblank := Text.trimEnd_eq_nil.1 hnil
  rw [hl] at hhead hblank
  rw [List.head?_cons, Option.any_some, hblank c List.mem_cons_self] at hhead
  cases hhead

theorem scan_trimEnd (script : Text) : List.Forall₂ EndsAlike (scan script) (scan (Text.trimEnd script)) := by
  induction script using scan_induction with
  | gap g hg =>
    obtain ⟨b, htext, hb⟩ := exists_trimEnd_append (Trivia.textOf g)
    have hrest : (Scan.gap (Text.trimEnd (Trivia.textOf g))).2 = [] :=
      gap_of_append_blank hb (by rw [← htext, hg])
    rw [scan_of_gap_nil hg, scan_of_gap_nil (Prod.ext rfl hrest)]
    exact .cons ⟨⟨⟨rfl, fun _ => rfl⟩, fun h => absurd rfl h⟩, fun h => absurd rfl h⟩ .nil
  | token t rest hfits ih =>
    by_cases hclosed : ∀ cause, t.kind ≠ .error cause
    · have hlast : t.text.getLast?.any isBlank = false := by
        rw [Token.text, Text.getLast?_append_right _ hfits.lexeme_ne_nil]
        exact hfits.getLast?_lexeme hclosed
      have hread : t.Fits (Text.trimEnd rest) := hfits.alike (.of_initial _ (trimEnd_initial rest))
      rw [Text.trimEnd_append hlast, scan_of_fits hfits, scan_of_fits hread]
      exact .cons ⟨.refl t, fun _ _ => rfl⟩ ih
    · obtain ⟨cause, hkind⟩ : ∃ cause, t.kind = .error cause := by simpa using hclosed
      obtain rfl := hfits.rest_eq_nil hkind
      have hread := hfits.trimEnd_unclosed hkind
      have htext : Text.trimEnd (t.text ++ []) = Token.text ⟨t.gap, t.kind, Text.trimEnd t.lexeme⟩ ++ [] := by
        rw [List.append_nil, List.append_nil, hfits.trimEnd_text]
        rfl
      rw [htext, scan_of_fits hfits, scan_of_fits hread]
      refine .cons ⟨⟨⟨rfl, fun h => absurd hkind (h cause)⟩, fun _ => Iff.rfl⟩, fun _ h => absurd hkind (h cause)⟩ ?_
      exact List.forall₂_same.2 fun u _ => ⟨.refl u, fun _ _ => rfl⟩

/-! ## Scripts -/

theorem tables_trimStart (dialect : Dialect) (script : Text) :
    Script.tables dialect (Text.trimStart script) = Script.tables dialect script := by
  obtain ⟨g, hscan⟩ := exists_scan_withGap (gap_dropWhile_blank script)
  rw [Script.tables, Text.trimStart, hscan, Script.findings_withGap, Script.tables]

/-- Whitespace around a script means nothing. -/
theorem tables_trim (dialect : Dialect) (script : Text) :
    Script.tables dialect (Text.trim script) = Script.tables dialect script := by
  have hend := (respacing_endsAlike.tight fun _ _ h => h.imp fun _ _ htu => htu.agree).tablesOf dialect (scan_trimEnd (Text.trimStart script))
  have hequal : List.Forall₂ Eq (Script.tables dialect (Text.trimStart script)) (Script.tables dialect (Text.trim script)) :=
    hend.imp fun _ _ htu => htu.eq.symm
  rw [List.forall₂_eq_eq_eq] at hequal
  rw [← hequal, tables_trimStart]

end DialectBridge
