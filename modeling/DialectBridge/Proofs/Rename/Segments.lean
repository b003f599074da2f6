import DialectBridge.Proofs.Lexical.Tiling
import DialectBridge.Proofs.Pattern.Word
import DialectBridge.Proofs.Rename.Tokens

/-!
# Replacing segment by segment

Names are replaced in each segment by itself, while a segment of code holds many tokens. Put together
from the tokens it is replaced token by token (`resumeSegments_segments`), so that reading the changed
script gives the renamed tokens (`scan_replaceNames`) and the changed segments
(`segments_replaceNames`).
-/

namespace DialectBridge

open Scan Segment

namespace Glossary

variable {g : Glossary} {p : Char → Prop}

/-- The segment with its listed words replaced, if it holds names. -/
def renameSegment (g : Glossary) (s : Segment) : Segment :=
  if holdsNames s.kind then { s with text := g.replace s.text } else s

/-- What replacing makes of segments, the first of which may go on within a word. -/
def resumeSegments (g : Glossary) (inside : Bool) : List Segment → List Segment
  | [] => []
  | s :: ss =>
    (if s.kind = .code then { s with text := g.resume inside s.text } else g.renameSegment s) ::
      ss.map g.renameSegment

@[simp] theorem kind_renameSegment (s : Segment) : (g.renameSegment s).kind = s.kind := by
  unfold renameSegment
  split <;> rfl

theorem textOf_map_renameSegment (ss : List Segment) :
    textOf (ss.map g.renameSegment) = ss.flatMap fun s => if holdsNames s.kind then g.replace s.text else s.text := by
  induction ss with
  | nil => rfl
  | cons s ss ih =>
    rw [List.map_cons, textOf_cons, ih, List.flatMap_cons, renameSegment]
    split <;> rfl

theorem renameSegment_text_ne_nil (hg : g.ListsNames p) {s : Segment} (hs : s.text.Over p) (hne : s.text ≠ []) :
    (g.renameSegment s).text ≠ [] := by
  unfold renameSegment
  split
  · exact fun h => hne ((replace_eq_nil hg hs).1 h)
  · exact hne

theorem resumeSegments_false (ss : List Segment) : g.resumeSegments false ss = ss.map g.renameSegment := by
  cases ss with
  | nil => rfl
  | cons s ss =>
    rw [resumeSegments, List.map_cons]
    split
    · next hcode => simp [renameSegment, holdsNames, hcode]
    · rfl

/-- Only code goes on within a word. -/
theorem resumeSegments_of_not_code {ss : List Segment} (h : ∀ s ∈ ss.head?, s.kind ≠ .code) (inside : Bool) :
    g.resumeSegments inside ss = ss.map g.renameSegment := by
  cases ss with
  | nil => rfl
  | cons s ss => rw [resumeSegments, if_neg (h s rfl), List.map_cons]

/-- A piece of code in front of segments is replaced by itself if it is so in front of every text. -/
theorem resumeSegments_push_code {f out : Text} {inside next : Bool} {ss : List Segment} (hg : g.ListsNames p)
    (hf : f ≠ []) (hout : out ≠ [])
    (h : ∀ b, b <+: textOf ss → g.resume inside (f ++ b) = out ++ g.resume next b) :
    g.resumeSegments inside (push ⟨.code, f⟩ ss) = push ⟨.code, out⟩ (g.resumeSegments next ss) := by
  by_cases hj : Joins ⟨.code, f⟩ ss
  · obtain ⟨f', b, more, heq, rfl⟩ := joins_cases hj
    cases heq
    have hjoined := h b (by simp)
    rw [push_code, resumeSegments, if_pos rfl, resumeSegments, if_pos rfl, push_code]
    show (⟨.code, g.resume inside (f ++ b)⟩ : Segment) :: _ = _
    rw [hjoined]
  · have halone := h [] List.nil_prefix
    rw [List.append_nil, resume_stop rfl next, replace_nil hg, List.append_nil] at halone
    have hss : ∀ s ∈ ss.head?, s.kind ≠ .code := fun s hs hk => hj ⟨rfl, s, hs, hk⟩
    have hj' : ¬ Joins ⟨.code, out⟩ (ss.map g.renameSegment) := by
      rintro ⟨-, q, hq, hk⟩
      rw [List.head?_map] at hq
      obtain ⟨s, hs, rfl⟩ := Option.map_eq_some_iff.1 hq
      exact hss s hs (by rwa [kind_renameSegment] at hk)
    rw [push_apart hf hj, resumeSegments, if_pos rfl, resumeSegments_of_not_code hss next, push_apart hout hj']
    show (⟨.code, g.resume inside f⟩ : Segment) :: _ = _
    rw [halone]

theorem resumeSegments_push_other (hg : g.ListsNames p) {s : Segment} (hs : s.kind ≠ .code) (hne : s.text ≠ [])
    (hover : s.text.Over p) (inside : Bool) (ss : List Segment) :
    g.resumeSegments inside (push s ss) = push (g.renameSegment s) (g.resumeSegments false ss) := by
  have hj : ¬ Joins (g.renameSegment s) (ss.map g.renameSegment) := fun h => hs (by rw [← h.1, kind_renameSegment])
  rw [push_apart hne fun h => hs h.1, resumeSegments, if_neg hs, resumeSegments_false,
    push_apart (renameSegment_text_ne_nil hg hover hne) hj]

theorem resumeSegments_push_settled (hg : g.ListsNames p) {f : Text} {inside : Bool} {ss : List Segment} (hne : f ≠ [])
    (hf : f.isSettled inside = true) (hover : Text.Over (f ++ textOf ss) p) :
    g.resumeSegments inside (push ⟨.code, f⟩ ss) = push ⟨.code, f⟩ (g.resumeSegments (f.endsInside inside) ss) := by
  refine resumeSegments_push_code hg hne hne fun b hb => resume_settled hg hf (hover.subset ?_)
  exact List.append_subset.2 ⟨List.subset_append_left _ _, List.subset_append_of_subset_right _ hb.subset⟩

/-! ## The segments of a token -/

/-- A gap is copied. A word that goes on in front of it ends there, unless it is empty. -/
theorem resumeSegments_gap (hg : g.ListsNames p) {gap : List Trivia} (hgap : ∀ x ∈ gap, ∃ u rest, trivia? u = some (x, rest))
    {ss : List Segment} (hover : Text.Over (Trivia.textOf gap ++ textOf ss) p) (inside : Bool) :
    g.resumeSegments inside ((gap.map ofTrivia).foldr push ss) =
      (gap.map ofTrivia).foldr push (g.resumeSegments (inside && (Trivia.textOf gap).isEmpty) ss) := by
  induction gap generalizing inside with
  | nil => simp
  | cons x gap ih =>
    obtain ⟨⟨u, rest, hx⟩, hgap⟩ := List.forall_mem_cons.1 hgap
    have hne := trivia?_text_ne_nil hx
    rw [Trivia.textOf_cons, List.append_assoc] at hover
    obtain ⟨hfirst, htail⟩ := Text.Over.append_iff.1 hover
    have hempty : (Trivia.textOf (x :: gap)).isEmpty = false := by simp [hne]
    have hrest := ih hgap htail false
    rw [Bool.false_and] at hrest
    rw [hempty, Bool.and_false, List.map_cons, List.foldr_cons, List.foldr_cons, ← hrest]
    cases x with
    | comment text => exact resumeSegments_push_other hg (by simp [ofTrivia]) hne hfirst inside _
    | blank run =>
      have hblank := (blank_of_trivia? hx).1
      have hother : ∀ c ∈ run, isIdentifierCharacter c = false := fun c hc => not_identifier_of_blank (hblank c hc)
      have hends : run.endsInside inside = false := by
        have hne : run ≠ [] := hne
        rw [Text.endsInside_eq hne, List.getLast?_eq_some_getLast hne]
        exact hother _ (List.getLast_mem hne)
      have hwhole : Text.Over (run ++ textOf ((gap.map ofTrivia).foldr push ss)) p := by
        rw [textOf_foldr_push, textOf_map_ofTrivia]
        exact Text.Over.append_iff.2 ⟨hfirst, htail⟩
      have hpush :=
        resumeSegments_push_settled hg (show run ≠ [] from hne) (Text.isSettled_of_not_identifier hother inside) hwhole
      rw [hends] at hpush
      exact hpush

theorem ofLexeme_word {t : Token} (h : t.kind = wordKind t.lexeme) : ofLexeme t = ⟨.code, t.lexeme⟩ := by
  rcases wordKind_cases t.lexeme with ⟨k, hk⟩ | hk <;> simp [ofLexeme, h, hk]

/-- The lexeme of a token is replaced by itself. -/
theorem resumeSegments_lexeme (hg : g.ListsNames p) {t : Token} {rest : Text} (h : t.Fits rest)
    (hover : Text.Over (t.lexeme ++ rest) p) (inside : Bool) :
    g.resumeSegments inside (push (ofLexeme t) (segments rest)) =
      push (ofLexeme (g.renameToken inside t)) (g.resumeSegments t.runsOn (segments rest)) := by
  have hlexeme := (Text.Over.append_iff.1 hover).1
  have hne := h.lexeme_ne_nil
  have hnew := (fits_renameToken hg h hlexeme inside).lexeme_ne_nil
  -- what code in front of the segments of `rest` needs to know about them
  have hcode {next : Bool} (hkind : ofLexeme t = ⟨.code, t.lexeme⟩)
      (hkind' : ofLexeme (g.renameToken inside t) = ⟨.code, (g.renameToken inside t).lexeme⟩)
      (hstep : ∀ b, b <+: rest → g.resume inside (t.lexeme ++ b) = (g.renameToken inside t).lexeme ++ g.resume next b) :
      g.resumeSegments inside (push (ofLexeme t) (segments rest)) =
        push (ofLexeme (g.renameToken inside t)) (g.resumeSegments next (segments rest)) := by
    rw [hkind, hkind']
    exact resumeSegments_push_code hg hne hnew (by rwa [segments_text])
  cases h.shape with
  | word hword hkind hstop =>
    have hruns : t.runsOn = false := by
      rcases wordKind_cases t.lexeme with ⟨k, hk⟩ | hk <;> simp [Token.runsOn, hkind, hk]
    rw [hruns]
    refine hcode (ofLexeme_word hkind) (ofLexeme_word ?_) fun b hb => ?_
    · rw [renameToken_of_word hkind]
      split
      · exact hkind
      · rfl
    have hbstop : b.head?.any isIdentifierCharacter = false := by
      obtain ⟨u, rfl⟩ := hb
      cases b with
      | nil => rfl
      | cons c b => exact hstop
    have hbover : Text.Over (t.lexeme ++ b) p := hover.subset
      (List.append_subset.2 ⟨List.subset_append_left _ _, List.subset_append_of_subset_right _ hb.subset⟩)
    rw [resume_run hg hne hword.forall_identifier hbover hbstop, resume_false, renameToken_of_word hkind]
    cases inside with
    | true => rfl
    | false => rw [← replace_word hg hne hword.forall_identifier hlexeme]; rfl
  | literal value hkind hl =>
    have hsegment : ofLexeme t = ⟨.literal, t.lexeme⟩ := by simp [ofLexeme, hkind]
    have hruns : t.runsOn = false := by simp [Token.runsOn, hkind]
    have hkeep : g.renameToken inside t = t := by rw [renameToken, hkind]
    rw [hkeep, hsegment, resumeSegments_push_other hg (by simp) hne hlexeme, hruns]
    rfl
  | name quote value hmem hkind hl hstop =>
    have hsegment : ofLexeme t = ⟨.quoted, t.lexeme⟩ := by simp [ofLexeme, hkind]
    have hruns : t.runsOn = false := by simp [Token.runsOn, hkind]
    rw [hsegment, resumeSegments_push_other hg (by simp) hne hlexeme, hruns, renameToken, hkind]
    rfl
  | unclosed quote body cause hmem hkind hl hopen hreads hstop =>
    have hruns : t.runsOn = false := by simp [Token.runsOn, hkind]
    have hnew : g.renameToken inside t = { t with lexeme := g.replace t.lexeme } := by rw [renameToken, hkind]
    rw [hruns]
    refine hcode (by simp [ofLexeme, hkind]) (by simp [hnew, ofLexeme, hkind]) fun b hb => ?_
    obtain rfl : b = [] := List.prefix_nil.1 (hstop ▸ hb)
    have hhead : t.lexeme.head?.any isIdentifierCharacter = false := by
      rw [hl]
      exact not_identifier_of_quote hmem
    rw [List.append_nil, resume_stop hhead, resume_false, replace_nil hg, List.append_nil, hnew]
  | plain hkind hsettled hends =>
    have hsegment : ofLexeme t = ⟨.code, t.lexeme⟩ := by
      unfold ofLexeme
      split <;> simp_all [TokenKind.isPlain]
    have hkeep := renameToken_of_isPlain (g := g) hkind inside
    rw [← hends inside]
    refine hcode hsegment (by rw [hkeep, hsegment]) fun b hb => ?_
    rw [hkeep]
    refine resume_settled hg (hsettled inside) (hover.subset ?_)
    exact List.append_subset.2 ⟨List.subset_append_left _ _, List.subset_append_of_subset_right _ hb.subset⟩

/-- Replacing segment by segment gives the segments of the renamed tokens. -/
theorem resumeSegments_segments (hg : g.ListsNames p) {s : Text} (hs : s.Over p) (inside : Bool) :
    g.resumeSegments inside (segments s) = merge ((g.renameTokens inside (scan s)).flatMap ofToken) := by
  induction s using scan_induction generalizing inside with
  | gap gap hgap =>
    have hmem : ∀ x ∈ gap, ∃ u rest, trivia? u = some (x, rest) := fun x hx =>
      trivia?_of_mem_gap (t := Trivia.textOf gap) (by rwa [hgap])
    have hmerge : merge ([⟨gap, .eof, []⟩].flatMap ofToken) = (gap.map ofTrivia).foldr push [] := by
      simp [merge, ofToken, ofLexeme, push_of_empty]
    have hwhole : Text.Over (Trivia.textOf gap ++ textOf []) p := by simpa using hs
    rw [segments_of_gap hgap, resumeSegments_gap hg hmem hwhole inside, scan_of_gap_nil hgap, renameTokens_eof, hmerge]
    rfl
  | token t rest hfits ih =>
    have hmem : ∀ x ∈ t.gap, ∃ u r, trivia? u = some (x, r) := fun x hx =>
      trivia?_of_mem_gap (t := t.text ++ rest) (by rwa [hfits.gap_eq])
    obtain ⟨-, hrest⟩ := Text.Over.append_iff.1 hs
    have htext : t.text ++ rest = Trivia.textOf t.gap ++ (t.lexeme ++ rest) := by
      rw [Token.text, List.append_assoc]
      rfl
    have hover := hs
    rw [htext] at hover
    have hlexeme := resumeSegments_lexeme hg hfits (Text.Over.append_iff.1 hover).2 (t.isJoined inside)
    have hwhole : Text.Over (Trivia.textOf t.gap ++ textOf (push (ofLexeme t) (segments rest))) p := by
      rwa [textOf_push, segments_text, text_ofLexeme]
    rw [segments_of_fits hfits, resumeSegments_gap hg hmem hwhole inside, scan_of_fits hfits, renameTokens,
      List.flatMap_cons, merge, List.foldr_append, ofToken, List.foldr_append, gap_renameToken]
    show (t.gap.map ofTrivia).foldr push (g.resumeSegments (t.isJoined inside) (push (ofLexeme t) (segments rest))) = _
    rw [hlexeme, ih hrest]
    rfl

theorem textOf_merge_ofToken (ts : List Token) : textOf (merge (ts.flatMap ofToken)) = Token.textOf ts := by
  rw [textOf_merge]
  induction ts with
  | nil => rfl
  | cons t ts ih => rw [List.flatMap_cons, textOf_append, ih, textOf_ofToken, Token.textOf_cons]

/-! ## Scripts -/

theorem replaceNames_eq_textOf (t : Text) : g.replaceNames t = textOf ((segments t).map g.renameSegment) := by
  rw [textOf_map_renameSegment]
  rfl

/-- Without listed words the script stays as it is. -/
theorem replaceNames_of_empty (script : Text) : (⟨[]⟩ : Glossary).replaceNames script = script := by
  have hreplace (t : Text) : (⟨[]⟩ : Glossary).replace t = t := by
    refine replaceMatches_eq_self (fun before after taken value h => ?_) fun m _ => ?_
    · cases h
    · rw [replacement?]
      split <;> rfl
  have hid : (fun s : Segment => if holdsNames s.kind then (⟨[]⟩ : Glossary).replace s.text else s.text) =
      Segment.text := by
    funext s
    rw [hreplace, ite_self]
  rw [replaceNames, changeSegments, hid]
  exact segments_text script

/-- Names are replaced token by token. -/
theorem replaceNames_eq (hg : g.ListsNames p) {s : Text} (hs : s.Over p) :
    g.replaceNames s = Token.textOf (g.renameTokens false (scan s)) := by
  rw [replaceNames_eq_textOf, ← resumeSegments_false, resumeSegments_segments hg hs, textOf_merge_ofToken]

/-- The tokens of a script with replaced names are the renamed tokens of the script. -/
theorem scan_replaceNames (hg : g.ListsNames p) {s : Text} (hs : s.Over p) :
    scan (g.replaceNames s) = g.renameTokens false (scan s) := by
  rw [replaceNames_eq hg hs, scan_renameTokens hg hs]

/-- The segments of a script with replaced names are those of the script with their names replaced. -/
theorem segments_replaceNames (hg : g.ListsNames p) {s : Text} (hs : s.Over p) :
    segments (g.replaceNames s) = (segments s).map g.renameSegment := by
  rw [segments, scan_replaceNames hg hs, ← resumeSegments_false, resumeSegments_segments hg hs]
  rfl

end Glossary

end DialectBridge
