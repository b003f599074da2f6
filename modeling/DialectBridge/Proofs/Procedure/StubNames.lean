import Mathlib.Data.List.Nodup
import DialectBridge.Procedure.Python
import DialectBridge.Proofs.Procedure.FirstHeader
import DialectBridge.Proofs.Procedure.SnakeCase

/-!
# Names in stubs

A start that is taken off a name may leave too little of it. A stub for a header with bare names has no name exactly
if that of the procedure is underscores alone behind its start (`ofScript_name_eq_nil_iff`), while its parameters keep
theirs. The arguments of a stub are distinct exactly if no name of an input is that of another one, or `self`, behind a
start that is taken off (`ofScript_arguments_nodup_iff`).
-/

namespace DialectBridge

/-! ## Names without their start -/

namespace Naming

variable {start name : Text}

theorem withoutStart_append {s rest : Text} (hs : Text.same s start) (hrest : rest ≠ []) :
    withoutStart start (s ++ rest) = rest := by
  have hlength : s.length = start.length := by
    rw [← Text.length_lower s, Text.same_iff.1 hs, Text.length_lower]
  have hlt : start.length < (s ++ rest).length := by
    rw [List.length_append, ← hlength]
    exact Nat.lt_add_of_pos_right (List.length_pos_iff.2 hrest)
  rw [withoutStart, ← hlength, List.take_left, List.drop_left, hlength, hs, Bool.true_and, if_pos (by simpa using hlt)]

/-- A start is taken off in front of something that is left. -/
theorem withoutStart_cases (start name : Text) : withoutStart start name = name ∨
    ∃ s, Text.same s start ∧ name = s ++ withoutStart start name ∧ withoutStart start name ≠ [] := by
  unfold withoutStart
  split
  · next h =>
    rw [Bool.and_eq_true, decide_eq_true_iff] at h
    refine .inr ⟨name.take start.length, h.1, (List.take_append_drop _ _).symm, fun hnil => ?_⟩
    exact absurd (List.drop_eq_nil_iff.1 hnil) (Nat.not_le.2 h.2)
  · exact .inl rfl

theorem mem_of_mem_withoutStart {c : Char} (h : c ∈ withoutStart start name) : c ∈ name := by
  unfold withoutStart at h
  split at h
  · exact List.mem_of_mem_drop h
  · exact h

theorem forall_underscore_iff {t : Text} (h : t ≠ []) :
    (∀ c ∈ t, c = '_') ↔ ∃ n, t = List.replicate (n + 1) '_' := by
  constructor
  · intro hall
    obtain ⟨c, t, rfl⟩ := List.exists_cons_of_ne_nil h
    exact ⟨t.length, List.eq_replicate_of_mem hall⟩
  · rintro ⟨n, rfl⟩ c hc
    exact List.eq_of_mem_replicate hc

/-- The part of a name behind its last dot. -/
def lastPart (name : Text) : Text :=
  (Text.splitOn '.' name).getLastD []

theorem lastPart_mem (name : Text) : lastPart name ∈ Text.splitOn '.' name := by
  obtain ⟨part, parts, hparts⟩ := List.exists_cons_of_ne_nil (Text.splitOn_ne_nil '.' name)
  rw [lastPart, hparts, List.getLastD_cons]
  exact List.getLastD_mem_cons

/-- Behind its start the name is underscores alone. -/
def IsUnderscores (start name : Text) : Prop :=
  ∃ s n, name = s ++ List.replicate (n + 1) '_' ∧ (s = [] ∨ Text.same s start)

theorem isUnderscores_iff (h : name ≠ []) : IsUnderscores start name ↔ ∀ c ∈ withoutStart start name, c = '_' := by
  constructor
  · rintro ⟨s, n, rfl, rfl | hs⟩
    · exact fun c hc => List.eq_of_mem_replicate (mem_of_mem_withoutStart hc)
    · rw [withoutStart_append hs (by simp)]
      exact fun c hc => List.eq_of_mem_replicate hc
  · intro hall
    rcases withoutStart_cases start name with hkept | ⟨s, hs, heq, hne⟩
    · rw [hkept] at hall
      obtain ⟨n, hn⟩ := (forall_underscore_iff h).1 hall
      exact ⟨[], n, hn, .inl rfl⟩
    · obtain ⟨n, hn⟩ := (forall_underscore_iff hne).1 hall
      exact ⟨s, n, by rw [← hn, ← heq], .inr hs⟩

/-- A method loses its name if that of the procedure is underscores alone. -/
theorem methodName_eq_nil_iff {procedure : Text} (h : lastPart procedure ≠ []) :
    methodName [] procedure = [] ↔ IsUnderscores "SP_" (lastPart procedure) := by
  rw [isUnderscores_iff h, ← snakeCase_eq_nil_iff]
  rfl

theorem parameterName_ne_nil {declared : Text} (h : declared ≠ []) : parameterName [] declared ≠ [] := by
  show withoutStart "p_" declared.lowercase ≠ []
  rcases withoutStart_cases "p_" declared.lowercase with hkept | ⟨s, -, -, hne⟩
  · rw [hkept]
    exact Text.lowercase_ne_nil h
  · exact hne

/-! ## Names that meet -/

/-- The name `x` is `y` behind the start `p_`, and `y` stays as it is. -/
def Meets (x y : Text) : Prop :=
  x = "p_" ++ y ∧ y ≠ [] ∧ ("p_".toList <+: y → y = "p_")

variable {x y : Text}

instance (x y : Text) : Decidable (Meets x y) :=
  inferInstanceAs (Decidable (_ ∧ _ ∧ (_ → _)))

/-- In lower case there is one spelling of the start. -/
theorem withoutStart_lower_cases (hx : x.lower = x) : withoutStart "p_" x = x ∨
    (x = "p_" ++ withoutStart "p_" x ∧ withoutStart "p_" x ≠ []) := by
  rcases withoutStart_cases "p_" x with hkept | ⟨s, hs, heq, hne⟩
  · exact .inl hkept
  · refine .inr ⟨?_, hne⟩
    have hlower : s.lower = s := by
      rw [heq, Text.lower, List.map_append] at hx
      exact (List.append_inj hx (List.length_map _)).1
    have hstart : s = "p_" := by
      rw [← hlower, Text.same_iff.1 hs]
      decide
    exact heq.trans (by rw [hstart])

theorem withoutStart_eq_self_iff (hy : y.lower = y) :
    withoutStart "p_" y = y ↔ ("p_".toList <+: y → y = "p_") := by
  constructor
  · rintro hkept ⟨rest, hrest⟩
    by_contra hne
    have hrest' : rest ≠ [] := by
      rintro rfl
      rw [List.append_nil] at hrest
      exact hne hrest.symm
    rw [← hrest, withoutStart_append (Text.same_refl _) hrest'] at hkept
    exact absurd (List.self_eq_append_left.1 hkept) (by decide)
  · intro honly
    rcases withoutStart_lower_cases hy with hkept | ⟨heq, hne⟩
    · exact hkept
    · have hlength := congrArg List.length (heq.symm.trans (honly ⟨_, heq.symm⟩))
      rw [List.length_append, Nat.add_eq_left, List.length_eq_zero_iff] at hlength
      exact absurd hlength hne

theorem Meets.withoutStart_eq (h : Meets x y) (hy : y.lower = y) : withoutStart "p_" x = withoutStart "p_" y := by
  obtain ⟨rfl, hne, honly⟩ := h
  rw [withoutStart_append (Text.same_refl _) hne, (withoutStart_eq_self_iff hy).2 honly]

theorem Meets.ne (h : Meets x y) : x ≠ y := by
  obtain ⟨rfl, -, -⟩ := h
  exact fun heq => absurd (List.append_left_eq_self.1 heq) (by decide)

/-- Of two names that become one, one is the other behind the start. -/
theorem withoutStart_inj (hx : x.lower = x) (hy : y.lower = y) (h : withoutStart "p_" x = withoutStart "p_" y) :
    x = y ∨ Meets x y ∨ Meets y x := by
  rcases withoutStart_lower_cases hx with hx' | ⟨hx', hxne⟩ <;>
    rcases withoutStart_lower_cases hy with hy' | ⟨hy', hyne⟩
  · exact .inl (by rw [← hx', h, hy'])
  · refine .inr (.inr ⟨?_, ?_, (withoutStart_eq_self_iff hx).1 hx'⟩)
    · rw [← hx', h, ← hy']
    · rwa [← hx', h]
  · refine .inr (.inl ⟨?_, ?_, (withoutStart_eq_self_iff hy).1 hy'⟩)
    · rw [← hy', ← h, ← hx']
    · rwa [← hy', ← h]
  · exact .inl (by rw [hx', h, ← hy'])

/-- What becomes the name of the receiver. -/
theorem withoutStart_eq_receiver_iff (hx : x.lower = x) : withoutStart "p_" x = "self" ↔ x = "self" ∨ x = "p_self" := by
  constructor
  · intro h
    rcases withoutStart_lower_cases hx with hkept | ⟨heq, -⟩
    · exact .inl (hkept.symm.trans h)
    · rw [heq, h]
      exact .inr (by decide)
  · rintro (rfl | rfl) <;> decide

end Naming

/-! ## Names of stubs -/

namespace MethodStub

open Naming

variable {script : Text}

theorem ofScript_of_signature {s : Signature} (entities : Entities) (hs : Signature.ofScript? script = some s) :
    ofScript entities script = .ok (ofSignature entities s) := by
  rw [ofScript, hs]

/-- A script whose first header has bare names becomes a stub, without a name exactly if that of the procedure is
underscores alone, which `SP_` may stand in front of. No parameter is without a name. -/
theorem ofScript_name_eq_nil_iff {ts : List Token} {h : Header} (hfirst : Header.IsFirst script ts h)
    (hbare : h.HasBareNames ts) : ∃ stub, ofScript [] script = .ok stub ∧ stub.procedure = h.name ∧
      (stub.name = [] ↔ IsUnderscores "SP_" (lastPart h.name)) ∧ ∀ p ∈ stub.parameters, p.name ≠ [] := by
  have hs : Signature.ofScript? script = some h.signature := by
    rw [Signature.ofScript?, hfirst.search_eq, Option.map_some]
  obtain ⟨rest, hread⟩ := hfirst.read
  have hlast : IsWord (lastPart h.name) :=
    isQualifiedName_iff.1 (hbare.isQualifiedName hfirst.place) _ (lastPart_mem h.name)
  refine ⟨_, ofScript_of_signature [] hs, rfl, methodName_eq_nil_iff hlast.ne_nil, fun p hp => ?_⟩
  obtain ⟨declared, hdeclared, rfl⟩ := List.mem_map.1 hp
  exact parameterName_ne_nil (hbare.isWord_parameter hfirst.place hread declared hdeclared).ne_nil

/-- A name that is nothing but the start of procedures, and a parameter that is nothing but that of parameters. -/
theorem ofScript_name_bare_start :
    let script : Text := "CREATE PROCEDURE hr.SP_ (p_ IN NUMBER)"
    ∃ stub, ofScript [] script = .ok stub ∧ stub.name ≠ [] ∧ ∀ p ∈ stub.parameters, p.name ≠ [] := by
  intro script
  obtain ⟨⟨h, rest⟩, hread⟩ : ∃ r, Header.read (scan script) = .ok r := by
    have hok : (Header.read (scan script)).toOption.isSome := by decide +kernel
    cases hrun : Header.read (scan script) with
    | ok r => exact ⟨r, rfl⟩
    | error e => rw [hrun] at hok; cases hok
  have hfirst : Header.IsFirst script (scan script) h :=
    ⟨List.suffix_refl _, ⟨rest, hread⟩, fun us hus hlonger => absurd hus.length_le (Nat.not_le.2 hlonger)⟩
  have hbare := Header.hasBareNames_of_unquoted (by decide +kernel) (List.suffix_refl _) hread
  obtain ⟨stub, hstub, hprocedure, hname, hparameters⟩ := ofScript_name_eq_nil_iff hfirst hbare
  refine ⟨stub, hstub, fun hnil => ?_, hparameters⟩
  have hprocedure' : (ofScript [] script).toOption.map MethodStub.procedure = some "hr.SP_" := by decide +kernel
  rw [hstub] at hprocedure'
  rw [← hprocedure, Option.some.inj hprocedure'] at hname
  have hall := (isUnderscores_iff (by decide)).1 (hname.1 hnil)
  exact absurd (hall 'S' (by decide)) (by decide)

/-- Behind the start the underscores are all that is left, and none of them stays. -/
theorem ofScript_name_underscores :
    (ofScript [] "CREATE PROCEDURE SP__ IS BEGIN NULL; END;").toOption.map MethodStub.name = some [] := by
  decide +kernel

/-- The names of the arguments of the method. -/
def arguments (s : MethodStub) : List Text :=
  ("self" : Text) :: s.inputs.map StubParameter.name

/-- The line of an argument in front of its hint. -/
def lineOf (name hint : Text) : Text :=
  "        " ++ (name ++ hint) ++ ","

/-- The lines of a method in which these are the arguments. -/
def ListArguments (names lines : List Text) : Prop :=
  ∃ (first result : Text) (hints back : List Text), hints.length = names.length ∧
    lines = first :: (List.zipWith lineOf names hints ++ ("    ) -> " ++ result ++ ":") :: back)

theorem argumentLine_eq (p : StubParameter) : argumentLine p = lineOf p.name (": " ++ p.type.hint) :=
  congrArg (fun t : Text => "        " ++ t ++ ",") (List.append_assoc p.name ": ".toList p.type.hint)

theorem listArguments_lines (s : MethodStub) : ListArguments s.arguments s.lines := by
  have hself : "        self,".toList = lineOf "self" [] := by decide
  obtain ⟨back, hback⟩ : ∃ back, s.lines = ("    async def " ++ s.name ++ "(") ::
      ("        self," :: (s.inputs.map argumentLine ++ ("    ) -> " ++ returnHint s.returnForm ++ ":") :: back)) := by
    simp only [lines, List.append_assoc, List.cons_append, List.nil_append]
    exact ⟨_, rfl⟩
  refine ⟨"    async def " ++ s.name ++ "(", returnHint s.returnForm,
    [] :: s.inputs.map (fun p => ": " ++ p.type.hint), back, by simp [arguments], hback.trans ?_⟩
  have hinputs : s.inputs.map argumentLine = s.inputs.map fun p => lineOf p.name (": " ++ p.type.hint) :=
    List.map_congr_left fun p _ => argumentLine_eq p
  rw [arguments, List.zipWith_cons_cons, List.zipWith_map, List.zipWith_self, hself, hinputs, List.cons_append]

end MethodStub

/-- The names of the parameters that go in, in lower case. -/
def Signature.inputNames (s : Signature) : List Text :=
  (s.parameters.filter fun p => p.direction.isInput).map fun p => p.name.lowercase

namespace MethodStub

open Naming

variable {script : Text}

theorem arguments_ofSignature (s : Signature) :
    (ofSignature [] s).arguments = ("self" : Text) :: s.inputNames.map (withoutStart "p_") := by
  rw [arguments, inputs, ofSignature, Signature.inputNames, List.filter_map, List.map_map, List.map_map]
  rfl

/-- Names that are distinct up to case become distinct arguments, other than `self`, exactly if none of them is `self`,
or another one that stays as it is, behind a start that is taken off. -/
theorem ofScript_arguments_nodup_iff {s : Signature} (hs : Signature.ofScript? script = some s)
    (hnodup : (s.parameters.map fun p => p.name.lowercase).Nodup) : ∃ stub, ofScript [] script = .ok stub ∧
      ListArguments stub.arguments stub.lines ∧
      stub.arguments = ("self" : Text) :: s.inputNames.map (withoutStart "p_") ∧
      (stub.arguments.Nodup ↔ (∀ x ∈ s.inputNames, x ≠ "self" ∧ x ≠ "p_self") ∧
        ∀ x ∈ s.inputNames, ∀ y ∈ s.inputNames, ¬Meets x y) := by
  refine ⟨_, ofScript_of_signature [] hs, listArguments_lines _, arguments_ofSignature s, ?_⟩
  have hlower : ∀ x ∈ s.inputNames, x.lower = x :=
    List.forall_mem_map.2 fun p _ => Text.lower_lowercase p.name
  have hdistinct : s.inputNames.Nodup := hnodup.sublist (List.filter_sublist.map _)
  rw [arguments_ofSignature, List.nodup_cons, List.nodup_map_iff_inj_on hdistinct]
  refine and_congr ?_ ⟨fun hinj x hx y hy hmeets => ?_, fun hmeets x hx y hy heq => ?_⟩
  · rw [List.mem_map]
    refine ⟨fun hself x hx => ?_, fun hself => ?_⟩
    · rw [← not_or, ← withoutStart_eq_receiver_iff (hlower x hx)]
      exact fun heq => hself ⟨x, hx, heq⟩
    · rintro ⟨x, hx, heq⟩
      rw [withoutStart_eq_receiver_iff (hlower x hx)] at heq
      exact not_or.2 (hself x hx) heq
  · exact hmeets.ne (hinj x hx y hy (hmeets.withoutStart_eq (hlower y hy)))
  · rcases withoutStart_inj (hlower x hx) (hlower y hy) heq with heq | hxy | hyx
    · exact heq
    · exact absurd hxy (hmeets x hx y hy)
    · exact absurd hyx (hmeets y hy x hx)

/-- A start behind a start, and a start that is a name. -/
theorem ofScript_arguments_distinct :
    let script : Text := "CREATE PROCEDURE f (p_Id IN NUMBER, p_p_id DATE, P_ IN OUT INT, id OUT INT)"
    ∃ stub, ofScript [] script = .ok stub ∧ stub.arguments = ["self", "id", "p_id", "p_"] ∧ stub.arguments.Nodup := by
  intro script
  have hs : Signature.ofScript? script = some ⟨"f", [⟨"p_Id", .input, "NUMBER"⟩, ⟨"p_p_id", .input, "DATE"⟩,
      ⟨"P_", .both, "INT"⟩, ⟨"id", .output, "INT"⟩], []⟩ := by
    decide +kernel
  obtain ⟨stub, hstub, -, harguments, hnodup⟩ := ofScript_arguments_nodup_iff hs (by decide +kernel)
  exact ⟨stub, hstub, harguments.trans (by decide +kernel), hnodup.2 (by decide +kernel)⟩

/-- Two parameters with distinct names become arguments of the same name. -/
theorem ofScript_arguments_meet :
    let script : Text := "CREATE PROCEDURE f (p_id IN NUMBER, id IN NUMBER) IS"
    ∃ s stub, Signature.ofScript? script = some s ∧ (s.parameters.map fun p => p.name.lowercase).Nodup ∧
      ofScript [] script = .ok stub ∧ ¬(stub.inputs.map StubParameter.name).Nodup := by
  intro script
  have hs : Signature.ofScript? script =
      some ⟨"f", [⟨"p_id", .input, "NUMBER"⟩, ⟨"id", .input, "NUMBER"⟩], []⟩ := by
    decide +kernel
  exact ⟨_, _, hs, by decide +kernel, ofScript_of_signature [] hs, by decide +kernel⟩

end MethodStub

end DialectBridge
