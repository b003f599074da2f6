import DialectBridge.Proofs.Lexical.Insertion
import DialectBridge.Proofs.Spacing.Statements

/-!
# More whitespace and comments

Whitespace and comments mean nothing to a script. Where two tokens have a gap between them, more of both
may be put into the gap: the script declares the same tables, and what is kept as written is still
scanned to tokens of the same kinds (`tables_fill`).
-/

namespace DialectBridge

open Scan Token

/-! ## Fillers -/

/-- What can be put into a gap: whitespace, a block comment, or a line comment with its line break. -/
inductive IsFiller : Text → Prop where
  | blank {b : Text} (blank : ∀ c ∈ b, isBlank c = true) : IsFiller b
  | block {comment : Text} (block : IsBlockComment comment) : IsFiller comment
  | line {body : Text} (line : '\n' ∉ body) : IsFiller ('-' :: '-' :: (body ++ ['\n']))

/-- A filler is nothing but trivia, whatever follows. -/
theorem IsFiller.gap {x : Text} (h : IsFiller x) {y : Text} (hy : trivia? y = none) : (Scan.gap (x ++ y)).2 = y := by
  have hrest : (Scan.gap y).2 = y := congrArg Prod.snd (gap_of_none hy)
  cases h with
  | blank hb => rw [gap_blank_append hb, hrest]
  | block hblock =>
    obtain ⟨body, rfl, hfirst⟩ := hblock
    have htrivia : trivia? ('/' :: '*' :: (body ++ ['*', '/']) ++ y) =
        some (.comment ('/' :: '*' :: (body ++ ['*', '/'])), y) := by
      simp only [List.cons_append, trivia?]
      rw [blockBody_of_closed (blockBody_of_first hfirst) (List.suffix_append _ _)]
    rw [gap_of_trivia htrivia, hrest]
  | @line body hbody =>
    have hrun : ∀ c ∈ body, (c != '\n') = true := fun c hc => bne_iff_ne.2 fun h => hbody (h ▸ hc)
    have hstop : ('\n' :: y).head?.any (· != '\n') = false := rfl
    have htrivia : trivia? ('-' :: '-' :: (body ++ ['\n']) ++ y) =
        some (.comment ('-' :: '-' :: body), '\n' :: y) := by
      simp only [List.cons_append, List.append_assoc, List.nil_append, trivia?]
      rw [Text.takeWhile_run hrun hstop, Text.dropWhile_run hrun hstop]
    -- the line break is a blank in front of `y`
    have hbreak : (Scan.gap ('\n' :: y)).2 = (Scan.gap y).2 :=
      gap_blank_append (b := ['\n']) (List.all_eq_true.1 (by decide)) y
    rw [gap_of_trivia htrivia, hbreak, hrest]

/-! ## Tokens of two scripts -/

/-- The texts are scanned to tokens of the same kinds. -/
def SameKinds (s t : Text) : Prop :=
  (scan t).map Token.kind = (scan s).map Token.kind

/-- A chain that is written down is scanned to tokens of its kinds. -/
theorem map_kind_scan_verbatim {ts : List Token} (h : Chain ts) :
    (scan (verbatim ts)).map Token.kind = ts.map Token.kind ++ [.eof] := by
  rw [scan_verbatim h, List.map_append]
  cases ts <;> rfl

/-- Parts of two scripts that are the same but for their gaps. -/
structure PartsAgree (script script' : Text) (ts us : List Token) : Prop where
  agree : List.Forall₂ AgreeUpToSpacing ts us
  left : ∃ back, ts ++ back <:+ scan script
  right : ∃ back, us ++ back <:+ scan script'

/-- The tokens of the second script can be written down where those of the first one can. -/
theorem PartsAgree.chain {script script' : Text} {ts us : List Token} (h : PartsAgree script script' ts us)
    (hchain : Chain ts) : Chain us := by
  obtain ⟨back, hback⟩ := h.right
  refine .of_closed hback fun u hu => ?_
  have hkinds : us.map Token.kind = ts.map Token.kind := map_eq_of_forall₂ (fun _ _ htu => htu.kind) h.agree
  obtain ⟨t, ht, hkind⟩ := List.mem_map.1 (hkinds ▸ List.mem_map_of_mem hu)
  rw [← hkind]
  exact hchain.closed t ht

theorem respacing_partsAgree (script script' : Text) : Respacing (PartsAgree script script') SameKinds where
  agree _ _ h := h.agree.imp fun _ _ htu => htu.toAgreeUpToGap
  tail t u ts us h := by
    obtain ⟨hagree, ⟨back, hback⟩, back', hback'⟩ := h
    cases hagree with
    | cons _ hrest =>
      exact ⟨hrest, ⟨back, (List.suffix_cons _ _).trans hback⟩, back', (List.suffix_cons _ _).trans hback'⟩
  front ts us ts' us' h hts hus hlen := by
    obtain ⟨hagree, ⟨back, hback⟩, back', hback'⟩ := h
    obtain ⟨more, rfl⟩ := hts
    obtain ⟨more', rfl⟩ := hus
    rw [List.append_assoc] at hback hback'
    refine ⟨?_, ⟨_, hback⟩, _, hback'⟩
    have htake := List.forall₂_take ts'.length hagree
    rwa [List.take_left, hlen, List.take_left] at htake
  verbatim ts us h hchain := by
    rw [SameKinds, map_kind_scan_verbatim hchain, map_kind_scan_verbatim (h.chain hchain),
      map_eq_of_forall₂ (fun _ _ htu => htu.kind) h.agree]

/-- Scripts with the same tokens but for their gaps declare the same tables. -/
theorem tables_of_agree {script script' : Text} (h : List.Forall₂ AgreeUpToSpacing (scan script) (scan script'))
    (dialect : Dialect) :
    List.Forall₂ (Table.ReadsAlike SameKinds) (Script.tables dialect script) (Script.tables dialect script') :=
  ((respacing_partsAgree script script').tight fun _ _ h => h.agree).tablesOf dialect
    ⟨h, ⟨[], by simp⟩, [], by simp⟩

/-! ## Filling a gap -/

/-- Whitespace and comments mean nothing. Where a token other than the end stands behind a gap, a filler may
be put in front of it: the script declares the same tables in the same order, with the same names, flags,
keys, references, indexes and default values present. What is kept as written is scanned to tokens of the
same kinds. -/
theorem tables_fill {script filler : Text} {us vs : List Token} {t : Token} (hscan : scan script = us ++ t :: vs)
    (heof : t.kind ≠ .eof) (hgap : t.gap ≠ []) (hfiller : IsFiller filler) (dialect : Dialect) :
    List.Forall₂ (Table.ReadsAlike SameKinds) (Script.tables dialect script)
      (Script.tables dialect (textOf us ++ (t.gapText ++ (filler ++ (t.lexeme ++ textOf vs))))) := by
  obtain ⟨g, hg, hfilled⟩ := scan_fill hscan heof hgap fun y hy => hfiller.gap hy
  refine tables_of_agree ?_ dialect
  rw [hscan, hfilled]
  refine List.rel_append (List.forall₂_same.2 fun u _ => .refl u) (.cons ?_ (List.forall₂_same.2 fun u _ => .refl u))
  exact ⟨⟨rfl, fun _ => rfl⟩, fun _ => iff_of_false hg hgap⟩

/-- A comment in the middle of a type with two words. -/
theorem tables_fill_comment :
    let us : List Token := (scan "CREATE TABLE t (a DOUBLE PRECISION DEFAULT 1)").take 6
    let vs : List Token := (scan "CREATE TABLE t (a DOUBLE PRECISION DEFAULT 1)").drop 7
    let t : Token := ⟨[.blank " "], .identifier "PRECISION", "PRECISION"⟩
    (scan "CREATE TABLE t (a DOUBLE PRECISION DEFAULT 1)" = us ++ t :: vs ∧ t.kind ≠ .eof ∧ t.gap ≠ [] ∧
      IsFiller "-- wide\n") ∧
    textOf us ++ (t.gapText ++ ("-- wide\n".toList ++ (t.lexeme ++ textOf vs))) =
      "CREATE TABLE t (a DOUBLE -- wide\nPRECISION DEFAULT 1)".toList ∧
    List.Forall₂ (Table.ReadsAlike SameKinds) (Script.tables .oracle "CREATE TABLE t (a DOUBLE PRECISION DEFAULT 1)")
      (Script.tables .oracle "CREATE TABLE t (a DOUBLE -- wide\nPRECISION DEFAULT 1)") := by
  intro us vs t
  have hscan : scan "CREATE TABLE t (a DOUBLE PRECISION DEFAULT 1)" = us ++ t :: vs := by decide +kernel
  have hfiller : IsFiller "-- wide\n" := @IsFiller.line " wide" (by decide)
  have htext : textOf us ++ (t.gapText ++ ("-- wide\n".toList ++ (t.lexeme ++ textOf vs))) =
      "CREATE TABLE t (a DOUBLE -- wide\nPRECISION DEFAULT 1)".toList := by decide +kernel
  refine ⟨⟨hscan, by decide, by decide, hfiller⟩, htext, ?_⟩
  have hfilled := tables_fill hscan (by decide) (by decide) hfiller .oracle
  rw [htext] at hfilled
  exact hfilled

end DialectBridge
