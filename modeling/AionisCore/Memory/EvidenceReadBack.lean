import AionisCore.Execution.VerifierResult
import AionisCore.Memory.EvidenceRecord
import Mathlib.Algebra.BigOperators.Group.List.Basic

/-!
# Reading back the verifier's evidence

The runtime verifier writes a record that its own schema bounds by 64 references
of 512 code units; the schema that reads it back bounds them by 32 references
of 256.
-/

namespace AionisCore.Memory

open Lib Lib.JsString Lib.Zod Lib.Json AionisCore.Execution

def boundaryName : RuntimeVerificationBoundary → String
  | .runtimeOrchestrator => "runtime_orchestrator"
  | .externalVerifier => "external_verifier"

/-- The record the verifier's evidence is stored as. -/
def evidenceRecord (e : RuntimeVerifierExecutionEvidenceV1) : Fields :=
  [("schema_version", .str "execution_evidence_v1"),
   ("validation_passed", optBool e.validationPassed),
   ("after_exit_revalidated", optBool e.afterExitRevalidated),
   ("fresh_shell_probe_passed", optBool e.freshShellProbePassed),
   ("validation_boundary", .str (boundaryName e.validationBoundary)),
   ("failure_reason", optStr e.failureReason),
   ("false_confidence_detected", .bool e.falseConfidenceDetected),
   ("evidence_refs", .arr (e.evidenceRefs.map .str))]

def consumerBoundary : RuntimeVerificationBoundary → ExecutionValidationBoundary
  | .runtimeOrchestrator => .runtimeOrchestrator
  | .externalVerifier => .externalVerifier

/-- The same evidence in the reader's terms. -/
def asConsumed (e : RuntimeVerifierExecutionEvidenceV1) : ExecutionEvidenceV1 where
  validationPassed := e.validationPassed
  afterExitRevalidated := e.afterExitRevalidated
  freshShellProbePassed := e.freshShellProbePassed
  validationBoundary := consumerBoundary e.validationBoundary
  failureReason := e.failureReason
  falseConfidenceDetected := e.falseConfidenceDetected
  evidenceRefs := e.evidenceRefs

theorem evidenceRecord_eq (e : RuntimeVerifierExecutionEvidenceV1) :
    evidenceRecord e = (asConsumed e).record := by
  have hname : boundaryName e.validationBoundary =
      (consumerBoundary e.validationBoundary).name := by
    cases e.validationBoundary <;> rfl
  rw [evidenceRecord, hname]
  rfl

variable {e : RuntimeVerifierExecutionEvidenceV1}

/-- The reader accepts the verifier's record unchanged if the references fit, and rejects it
otherwise. -/
theorem parseEvidence_evidenceRecord
    (hreason : nullableText (some 256) e.failureReason = some e.failureReason)
    (hrefs : ∀ r ∈ e.evidenceRefs, Trimmed r ∧ r ≠ "") :
    parseEvidence (some (.obj (evidenceRecord e))) =
      if RefsFit e.evidenceRefs then some (asConsumed e) else none := by
  rw [evidenceRecord_eq]
  exact parseEvidence_record hreason hrefs

/-! ## Extraction and assessment -/

/-- The fields the trust gate decides on are those the verifier wrote. -/
structure SameVerdicts (e : RuntimeVerifierExecutionEvidenceV1) (e' : ExecutionEvidenceV1) :
    Prop where
  validationPassed : e'.validationPassed = e.validationPassed
  afterExitRevalidated : e'.afterExitRevalidated = e.afterExitRevalidated
  freshShellProbePassed : e'.freshShellProbePassed = e.freshShellProbePassed
  validationBoundary : e'.validationBoundary = consumerBoundary e.validationBoundary
  failureReason : e'.failureReason = e.failureReason
  falseConfidenceDetected : e'.falseConfidenceDetected = e.falseConfidenceDetected

/-- Stored in slots, the evidence is what extraction returns, and the gate does not miss it. -/
structure ReadsBack (e : RuntimeVerifierExecutionEvidenceV1) : Prop where
  extracted : ∀ slots metrics,
    get slots "execution_evidence_v1" = some (.obj (evidenceRecord e)) →
    ∃ e', extractExecutionEvidenceFromSlots slots metrics = some (some e') ∧ SameVerdicts e e'
  assessed : ∀ args : AssessArgs, args.evidence = some (.obj (evidenceRecord e)) →
    "missing_execution_evidence" ∉ (assessExecutionEvidence args).reasons

theorem take_failureReason_ne (r : String) :
    take 128 ("failure_reason:" ++ r) ≠ "missing_execution_evidence" := by
  intro h
  have hl := congrArg (fun s : String => s.toList.head?) h
  have htake : (take 128 ("failure_reason:" ++ r)).toList.head? = some 'f' := by
    rw [take, String.toList_ofList, String.toList_append]
    rfl
  simp only [htake] at hl
  revert hl
  decide

theorem not_missing_of_evidence (g : GateRequirements) (e : ExecutionEvidenceV1) :
    "missing_execution_evidence" ∉ gateReasons g (some e) := by
  have hverdict : ∀ (b : Bool) (v : Option Bool) (x y : String),
      x ≠ "missing_execution_evidence" → y ≠ "missing_execution_evidence" →
      "missing_execution_evidence" ∉ verdictReason b v x y := by
    intro b v x y hx hy h
    unfold verdictReason at h
    split at h
    · split at h
      · exact hx (List.mem_singleton.1 h).symm
      · exact hy (List.mem_singleton.1 h).symm
    · exact List.not_mem_nil h
  intro h
  simp only [gateReasons, evidenceReasons, List.mem_append, List.mem_map] at h
  rcases h with (((((h | h) | h) | h) | h) | h) | ⟨r, -, h⟩
  · split at h <;> simp at h
  · exact hverdict _ _ _ _ (by decide) (by decide) h
  · exact hverdict _ _ _ _ (by decide) (by decide) h
  · exact hverdict _ _ _ _ (by decide) (by decide) h
  · split at h
    · split at h <;> simp at h
    · simp at h
  · split at h <;> simp at h
  · exact take_failureReason_ne r h

theorem readsBack_iff_refsFit
    (hreason : nullableText (some 256) e.failureReason = some e.failureReason)
    (hrefs : ∀ r ∈ e.evidenceRefs, Trimmed r ∧ r ≠ "") : ReadsBack e ↔ RefsFit e.evidenceRefs := by
  have hparse := parseEvidence_evidenceRecord hreason hrefs
  constructor
  · intro h
    by_contra hfit
    rw [if_neg hfit] at hparse
    have hnone : extractExecutionEvidenceFromSlots
        [("execution_evidence_v1", .obj (evidenceRecord e))] none = some none := by
      rw [extractExecutionEvidenceFromSlots, get_cons, if_pos rfl, hparse]
      rfl
    obtain ⟨e', he', -⟩ := h.extracted [("execution_evidence_v1", .obj (evidenceRecord e))] none
      (by rw [get_cons, if_pos rfl])
    rw [hnone] at he'
    cases he'
  · intro hfit
    rw [if_pos hfit] at hparse
    refine ⟨fun slots metrics hslot => ⟨asConsumed e, ?_, ⟨rfl, rfl, rfl, rfl, rfl, rfl⟩⟩,
      fun args hargs hmem => ?_⟩
    · rw [extractExecutionEvidenceFromSlots, hslot, hparse]
      rfl
    · simp only [assessExecutionEvidence, hargs, hparse] at hmem
      exact not_missing_of_evidence _ _ (List.mem_eraseDups.1 (List.mem_of_mem_take hmem))

/-! ## The references the verifier writes -/

/-- Cutting at 64 references does not bring more than 32 of them below the bound. -/
theorem refsFit_uniqueStrings {values : List String} :
    RefsFit (uniqueStrings values 64) ↔ RefsFit (distinctStrings values) := by
  unfold RefsFit uniqueStrings
  rw [List.length_take]
  constructor
  · rintro ⟨hlen, hall⟩
    rw [List.take_of_length_le (by omega)] at hall
    exact ⟨by omega, hall⟩
  · rintro ⟨hlen, hall⟩
    exact ⟨by omega, fun r hr => hall r (List.mem_of_mem_take hr)⟩

/-- Evidence whose references come from `uniqueStrings` reads back when the distinct references
fit. -/
theorem readsBack_iff_of_parse {raw : RuntimeVerifierExecutionEvidenceV1} {refs : List String}
    (hraw : raw.evidenceRefs = uniqueStrings refs 64) (h : raw.parse = some e) :
    ReadsBack e ↔ RefsFit (distinctStrings refs) := by
  obtain ⟨hreason, hlist, -⟩ := RuntimeVerifierExecutionEvidenceV1.parse_eq_some.1 h
  rw [hraw, stringList, trimmedList_of_clean uniqueStrings_clean] at hlist
  rw [readsBack_iff_refsFit (nullableText_of_nullableText hreason)
    (hlist.2 ▸ uniqueStrings_clean), hlist.2, refsFit_uniqueStrings]

/-- The command leaves room for its prefix, and the references are short and few. -/
structure RequestRefsFit (r : RuntimeVerificationRequestV1) : Prop where
  command : length r.command ≤ 231
  refs : ∀ ref ∈ r.evidenceRefs, length ref ≤ 256
  count : (distinctStrings (requestRefs r)).length ≤ 32

theorem requestEvidence_readsBack_iff {q r : RuntimeVerificationRequestV1}
    {result : RuntimeVerificationCommandResultV1} {claimed : Bool} {reason : Option String}
    (hq : q.parse = some r)
    (h : buildRuntimeVerifierExecutionEvidenceV1 q result claimed reason = some e) :
    ReadsBack e ↔ RequestRefsFit r := by
  unfold buildRuntimeVerifierExecutionEvidenceV1 at h
  rw [hq, Option.bind_eq_bind, Option.bind_some] at h
  rw [readsBack_iff_of_parse rfl h, RefsFit, requestRefs_length_le hq (by omega)]
  constructor
  · rintro ⟨hcount, hcmd, hrefs⟩
    exact ⟨by omega, hrefs, hcount⟩
  · rintro ⟨hcmd, hrefs, hcount⟩
    exact ⟨hcount, by omega, hrefs⟩

/-- The references of the results are short, and with one for each request they are few. -/
structure AggregateRefsFit (requests : List RuntimeVerificationRequestV1)
    (results : List RuntimeVerificationResultV1) : Prop where
  refs : ∀ res ∈ results, ∀ ref ∈ res.executionEvidence.evidenceRefs, length ref ≤ 256
  count : (distinctStrings (aggregateRefs requests results)).length ≤ 32

section

variable {requestsIn requests : List RuntimeVerificationRequestV1}
  {resultsIn results : List RuntimeVerificationResultV1}
  (hq : requestsIn.mapM (·.parse) = some requests)
  (hr : resultsIn.mapM (·.parse) = some results)

include hq hr

theorem aggregateRefs_length_le :
    (∀ ref ∈ distinctStrings (aggregateRefs requests results), length ref ≤ 256) ↔
      ∀ res ∈ results, ∀ ref ∈ res.executionEvidence.evidenceRefs, length ref ≤ 256 := by
  have hclean : ∀ res ∈ results, ∀ ref ∈ res.executionEvidence.evidenceRefs,
      Trimmed ref ∧ ref ≠ "" := by
    intro res hres ref href
    obtain ⟨raw, -, hraw⟩ := exists_left_of_forall₂ (mapM_eq_some.1 hr) hres
    obtain ⟨-, he, -⟩ := RuntimeVerificationResultV1.parse_eq_some.1 hraw
    obtain ⟨-, hl, -⟩ := RuntimeVerifierExecutionEvidenceV1.parse_eq_some.1 he
    obtain ⟨x, -, hx⟩ := exists_left_of_forall₂ (trimmedList_eq_some.1 hl).2 href
    obtain ⟨rfl, hne, -⟩ := trimmed_eq_some.1 hx
    exact ⟨trimmed_trim x, hne⟩
  constructor
  · intro hall res hres ref href
    obtain ⟨ht, hne⟩ := hclean res hres ref href
    refine hall ref (mem_distinctStrings.2 ⟨⟨ref, ?_, ht⟩, hne⟩)
    exact List.mem_append_right _ (List.mem_flatMap.2 ⟨res, hres, href⟩)
  · intro hall ref href
    obtain ⟨⟨y, hy, rfl⟩, -⟩ := mem_distinctStrings.1 href
    rcases List.mem_append.1 hy with hy | hy
    · rcases List.mem_append.1 hy with hy | hy
      · rw [List.mem_singleton.1 hy]
        decide
      · obtain ⟨r, hmem, rfl⟩ := List.mem_map.1 hy
        obtain ⟨q, -, hqr⟩ := exists_left_of_forall₂ (mapM_eq_some.1 hq) hmem
        obtain ⟨⟨hid, hidne, hidlen⟩, -, -⟩ := parsed_request hqr
        have hidT : Trimmed ("runtime_verifier:" ++ r.verifierId) := hid.append rfl rfl hidne
        have hprefix : length "runtime_verifier:" = 17 := by rfl
        rw [hidT, length_append]
        omega
    · obtain ⟨res, hres, hin⟩ := List.mem_flatMap.1 hy
      rw [(hclean res hres y hin).1]
      exact hall res hres y hin

theorem aggregateEvidence_readsBack_iff {claimed : Bool} {blockedReasons : List String}
    (h : buildRuntimeVerifierAggregateExecutionEvidenceV1 requestsIn resultsIn claimed
      blockedReasons = some (some e)) : ReadsBack e ↔ AggregateRefsFit requests results := by
  unfold buildRuntimeVerifierAggregateExecutionEvidenceV1 at h
  rw [hq, hr] at h
  simp only [Option.bind_eq_bind, Option.bind_some, Option.pure_def] at h
  split at h
  · cases h
  · obtain ⟨e', he', h⟩ := Option.bind_eq_some_iff.1 h
    obtain rfl := Option.some.inj (Option.some.inj h)
    rw [readsBack_iff_of_parse rfl he', RefsFit, aggregateRefs_length_le hq hr]
    exact ⟨fun ⟨hc, hl⟩ => ⟨hl, hc⟩, fun ⟨hl, hc⟩ => ⟨hc, hl⟩⟩

end

/-- A call that produces evidence, for one request or for all of them. -/
inductive EvidenceCall where
  | single (request : RuntimeVerificationRequestV1) (result : RuntimeVerificationCommandResultV1)
      (agentClaimedSuccess : Bool) (failureReason : Option String)
  | aggregate (requests : List RuntimeVerificationRequestV1)
      (results : List RuntimeVerificationResultV1) (agentClaimedSuccess : Bool)
      (blockedReasons : List String)

/-- The evidence a call returns, if it returns any. -/
def EvidenceCall.evidence : EvidenceCall → Option RuntimeVerifierExecutionEvidenceV1
  | .single q result claimed reason =>
    buildRuntimeVerifierExecutionEvidenceV1 q result claimed reason
  | .aggregate qs results claimed reasons =>
    (buildRuntimeVerifierAggregateExecutionEvidenceV1 qs results claimed reasons).join

/-- The bounds on what a call is given, once parsed. -/
def EvidenceCall.RefsFit : EvidenceCall → Prop
  | .single q _ _ _ => ∃ r ∈ q.parse, RequestRefsFit r
  | .aggregate qs rs _ _ => ∃ requests ∈ qs.mapM (·.parse), ∃ results ∈ rs.mapM (·.parse),
      AggregateRefsFit requests results

/-- The evidence of a request and the aggregate evidence read back exactly when their references
stay within the bounds of the reader. -/
theorem verifierEvidence_readsBack_iff {call : EvidenceCall}
    {e : RuntimeVerifierExecutionEvidenceV1} (h : call.evidence = some e) :
    ReadsBack e ↔ call.RefsFit := by
  cases call with
  | single q result claimed reason =>
    have hbuild := h
    rw [EvidenceCall.evidence, buildRuntimeVerifierExecutionEvidenceV1, Option.bind_eq_bind,
      Option.bind_eq_some_iff] at h
    obtain ⟨r, hq, -⟩ := h
    rw [requestEvidence_readsBack_iff hq hbuild]
    simp [EvidenceCall.RefsFit, hq]
  | aggregate qs rs claimed reasons =>
    rw [EvidenceCall.evidence, Option.join_eq_some_iff] at h
    have hbuild := h
    rw [buildRuntimeVerifierAggregateExecutionEvidenceV1, Option.bind_eq_bind,
      Option.bind_eq_some_iff] at h
    obtain ⟨requests, hq, h⟩ := h
    obtain ⟨results, hr, -⟩ := Option.bind_eq_some_iff.1 h
    rw [aggregateEvidence_readsBack_iff hq hr hbuild]
    simp [EvidenceCall.RefsFit, hq, hr]

/-- A request whose command has 232 characters. -/
def longRequest : RuntimeVerificationRequestV1 := { verifierId := "v", command := xs 232 }

theorem longRequest_parse : longRequest.parse = some longRequest :=
  xs_parse (by omega) (by omega)

theorem longRequest_evidence : ∃ e,
    buildRuntimeVerifierExecutionEvidenceV1 longRequest passed false none = some e := by
  have hlen : length longRequest.command = 232 := xs_length 232
  exact buildEvidence_of_short longRequest_parse rfl (by omega)

theorem verifierEvidence_readsBack_iff_long : ∃ e,
    (EvidenceCall.single longRequest passed false none).evidence = some e ∧
      (ReadsBack e ↔ (EvidenceCall.single longRequest passed false none).RefsFit) := by
  obtain ⟨e, he⟩ := longRequest_evidence
  exact ⟨e, he, verifierEvidence_readsBack_iff he⟩

/-- The evidence of a passed check with a long command is lost on the way to the gate. -/
theorem longRequest_not_readsBack : ∃ e,
    buildRuntimeVerifierExecutionEvidenceV1 longRequest passed false none = some e ∧
      e.validationPassed = some true ∧ ¬ ReadsBack e := by
  obtain ⟨e, he⟩ := longRequest_evidence
  refine ⟨e, he, ?_, fun h => ?_⟩
  · unfold buildRuntimeVerifierExecutionEvidenceV1 at he
    rw [longRequest_parse, Option.bind_eq_bind, Option.bind_some] at he
    rw [(RuntimeVerifierExecutionEvidenceV1.parse_eq_some.1 he).2.2]
    rfl
  · have hcmd := ((requestEvidence_readsBack_iff longRequest_parse he).1 h).command
    have hlen : length longRequest.command = 232 := xs_length 232
    omega

end AionisCore.Memory
