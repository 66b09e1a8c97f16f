import AionisCore.Memory.ContractTrust
import AionisCore.Execution.Verification

/-!
# Execution evidence

`extractExecutionEvidenceFromSlots` reads execution evidence from the slots of a
node: a record stored under `execution_evidence_v1` if the schema accepts it,
else evidence compiled from weaker sources. `assessExecutionEvidence` is the
trust gate over it. An outer `none` stands for a schema error.
-/

namespace AionisCore.Memory

open Lib Lib.JsString Lib.Zod Lib.Json

inductive ExecutionValidationBoundary where
  | unknown
  | agentSelf
  | runtimeOrchestrator
  | externalVerifier
  deriving DecidableEq, Repr

def executionValidationBoundarySchema : Schema ExecutionValidationBoundary :=
  enum [("unknown", .unknown), ("agent_self", .agentSelf),
    ("runtime_orchestrator", .runtimeOrchestrator), ("external_verifier", .externalVerifier)]

structure ExecutionEvidenceV1 where
  validationPassed : Option Bool := none
  afterExitRevalidated : Option Bool := none
  freshShellProbePassed : Option Bool := none
  validationBoundary : ExecutionValidationBoundary := .unknown
  failureReason : Option String := none
  falseConfidenceDetected : Bool := false
  evidenceRefs : List String := []
  deriving DecidableEq, Repr

/-- `EvidenceStringList`, without its default. -/
def evidenceStringList : Schema (List String) := array 32 (trimmedString (some 256))

def executionEvidenceV1Schema (r : Fields) : Option ExecutionEvidenceV1 := do
  literal "execution_evidence_v1" (get r "schema_version")
  let validationPassed ← withDefault none (nullable boolean) (get r "validation_passed")
  let afterExitRevalidated ← withDefault none (nullable boolean) (get r "after_exit_revalidated")
  let freshShellProbePassed ←
    withDefault none (nullable boolean) (get r "fresh_shell_probe_passed")
  let validationBoundary ←
    withDefault .unknown executionValidationBoundarySchema (get r "validation_boundary")
  let failureReason ←
    withDefault none (nullable (trimmedString (some 256))) (get r "failure_reason")
  let falseConfidenceDetected ← withDefault false boolean (get r "false_confidence_detected")
  let evidenceRefs ← withDefault [] evidenceStringList (get r "evidence_refs")
  return { validationPassed, afterExitRevalidated, freshShellProbePassed, validationBoundary,
           failureReason, falseConfidenceDetected, evidenceRefs }

/-- `ExecutionEvidenceV1Schema.parse` on evidence the code has put together. -/
def ExecutionEvidenceV1.parse (e : ExecutionEvidenceV1) : Option ExecutionEvidenceV1 := do
  let failureReason ← nullableText (some 256) e.failureReason
  let evidenceRefs ← trimmedList 32 256 e.evidenceRefs
  return { e with failureReason, evidenceRefs }

def parseEvidence (value : Option Json) : Option ExecutionEvidenceV1 :=
  (asRecord value).bind fun record =>
    executionEvidenceV1Schema (spread [("schema_version", .str "execution_evidence_v1")] record)

def nullableString : Option Json → Option String
  | some (.str s) => if trim s ≠ "" then some (trim s) else none
  | _ => none

/-- The first of the keys that holds a boolean. -/
def booleanField (record : Option Fields) (keys : List String) : Option Bool :=
  keys.findSome? fun k => boolean (field record k)

/-- The ASCII part of `toLowerCase`, which the Kelvin sign maps into. -/
def lowerChar (c : Char) : Char := if c.toNat = 0x212A then 'k' else c.toLower

def toLowerCase (s : String) : String := String.ofList (s.toList.map lowerChar)

def statusToValidation (value : Option Json) : Option Bool :=
  match (nullableString value).map toLowerCase with
  | none => none
  | some status =>
    if status ∈ ["ok", "pass", "passed", "success", "succeeded", "complete", "completed"] then
      some true
    else if status ∈ ["fail", "failed", "failure", "error", "errored", "blocked", "timeout",
        "timed_out"] then some false
    else none

/-- `.replace(/[-\s]+/g, "_")`; the flag tells whether a run is being replaced. -/
def joinWords : Bool → List Char → List Char
  | _, [] => []
  | inRun, c :: cs =>
    if c = '-' ∨ isWhite c then
      if inRun then joinWords true cs else '_' :: joinWords true cs
    else c :: joinWords false cs

def normalizeValidationBoundary (value : Option Json) : ExecutionValidationBoundary :=
  match nullableString value with
  | none => .unknown
  | some s =>
    let raw := String.ofList (joinWords false (toLowerCase s).toList)
    if raw ∈ ["agent", "agent_self", "same_agent", "self", "self_reported", "worker_self"] then
      .agentSelf
    else if raw ∈ ["runtime", "runtime_orchestrator", "orchestrator", "parent",
        "parent_process"] then .runtimeOrchestrator
    else if raw ∈ ["external", "external_probe", "external_verifier", "verifier",
        "independent_verifier"] then .externalVerifier
    else .unknown

/-- `record[k1] ?? record[k2] ?? …`. -/
def firstField (record : Fields) (keys : List String) : Option Json :=
  keys.foldr (fun k rest => orElse (get record k) rest) none

/-- `nullableString(record[k1]) ?? nullableString(record[k2]) ?? …`. -/
def firstText (record : Fields) (keys : List String) : Option String :=
  keys.findSome? fun k => nullableString (get record k)

mutual

/-- The references one value adds: those nested in it, then its own. -/
def refsOf : Json → List String
  | .arr xs => ((refsOfList xs).eraseDups).take 32
  | .obj fields =>
    let nested := refsOfFields fields
    (((nested.lookup "evidence_refs").getD [] ++
        (nested.lookup "evidenceRefs").getD []).eraseDups).take 32 ++
      (firstText fields ["ref", "uri", "id", "evidence_ref"]).toList
  | .str s => (nullableString (some (.str s))).toList
  | _ => []

def refsOfList : List Json → List String
  | [] => []
  | x :: xs => refsOf x ++ refsOfList xs

def refsOfFields : List (String × Json) → List (String × List String)
  | [] => []
  | f :: fs => refsOfField f :: refsOfFields fs

def refsOfField : String × Json → String × List String
  | (k, v) => (k, refsOf v)

end

/-- `uniqueEvidenceRefs` with its limit of 32; an undefined entry adds nothing. -/
def uniqueEvidenceRefs (values : List (Option Json)) : List String :=
  ((values.reduceOption.flatMap refsOf).eraseDups).take 32

mutual

def failureReasonOf : Json → Option String
  | .arr xs => firstFailureReason xs
  | .obj fields => firstText fields ["failure_reason", "failureReason", "error", "reason"]
  | _ => none

def firstFailureReason : List Json → Option String
  | [] => none
  | x :: xs => (failureReasonOf x).or (firstFailureReason xs)

end

def validationKeys : List String :=
  ["validation_passed", "validationPassed", "passed", "ok", "success"]

def afterExitKeys : List String :=
  ["after_exit_revalidated", "afterExitRevalidated", "after_exit_validation_passed",
    "must_hold_after_exit_passed"]

def freshShellKeys : List String :=
  ["fresh_shell_probe_passed", "freshShellProbePassed", "fresh_shell_revalidated",
    "fresh_shell_validation_passed", "revalidate_from_fresh_shell_passed"]

def boundaryKeys : List String :=
  ["validation_boundary", "validationBoundary", "validation_actor", "validationActor",
    "probe_actor", "probeActor", "verifier_actor", "verifierActor"]

/-- `statusToValidation(record[k1]) ?? statusToValidation(record[k2]) ?? …`. -/
def firstStatus (record : Fields) (keys : List String) : Option Bool :=
  keys.findSome? fun k => statusToValidation (get record k)

/-- False confidence, as a record states it or as its status contradicts the verdicts. -/
def falseConfidence (record : Fields) (verdicts : List (Option Bool)) : Bool :=
  booleanField (some record) ["false_confidence_detected", "falseConfidenceDetected"] = some true ||
    (statusToValidation (get record "status") = some true && verdicts.any (· = some false))

/-- The evidence read off a record, given its verdict, failure reason and references. -/
def recordEvidence (record : Fields) (validationPassed : Option Bool)
    (failureReason : Option String) (evidenceRefs : List String) : ExecutionEvidenceV1 :=
  let afterExitRevalidated := booleanField (some record) afterExitKeys
  let freshShellProbePassed := booleanField (some record) freshShellKeys
  { validationPassed, afterExitRevalidated, freshShellProbePassed, failureReason, evidenceRefs
    validationBoundary := normalizeValidationBoundary (firstField record boundaryKeys)
    falseConfidenceDetected :=
      falseConfidence record [validationPassed, afterExitRevalidated, freshShellProbePassed] }

/-- Evidence that says nothing is no evidence; other evidence must pass the schema. -/
def evidenceIfAny (e : ExecutionEvidenceV1) : Option (Option ExecutionEvidenceV1) :=
  if e.validationPassed = none ∧ e.afterExitRevalidated = none ∧ e.freshShellProbePassed = none ∧
      e.failureReason = none ∧ e.falseConfidenceDetected = false then some none
  else e.parse.map some

def compileEvidenceFromRecord (record : Option Fields) (evidenceRefs : List (Option Json)) :
    Option (Option ExecutionEvidenceV1) :=
  match record with
  | none => some none
  | some record =>
    let validationPassed := (booleanField (some record) validationKeys).or
      (firstStatus record ["status", "validation_status", "source_run_status", "result",
        "outcome"])
    let failureReason := (firstText record ["failure_reason", "error", "reason"]).or
      ((firstFailureReason evidenceRefs.reduceOption).or
        (if validationPassed = some false then nullableString (get record "summary") else none))
    evidenceIfAny (recordEvidence record validationPassed failureReason
      (uniqueEvidenceRefs ([get record "evidence_refs", get record "evidenceRefs",
        get record "ref", get record "uri", get record "id"] ++ evidenceRefs)))

/-- `a ?? b` where either may raise. -/
def orEvidence (a b : Option (Option ExecutionEvidenceV1)) :
    Option (Option ExecutionEvidenceV1) :=
  a.bind fun
    | some e => some (some e)
    | none => b

/-- The first entry of an array that compiles to evidence. -/
def compileFirst (evidenceRefs : List (Option Json)) :
    List Json → Option (Option ExecutionEvidenceV1)
  | [] => some none
  | x :: xs => orEvidence (compileEvidenceFromRecord (asRecord (some x)) evidenceRefs)
      (compileFirst evidenceRefs xs)

def compileEvidenceFromArray (value : Option Json) : Option (Option ExecutionEvidenceV1) :=
  match asArray value with
  | none => some none
  | some xs =>
    match xs.findSome? fun x => parseEvidence (some x) with
    | some e => some (some e)
    | none => compileFirst (xs.map some) xs

def metricEvidence (metrics : Option Json) : Option (Option ExecutionEvidenceV1) :=
  match asRecord metrics with
  | none => some none
  | some record =>
    let successRatio := match get record "success_ratio" with
      | some (.num q) => some q
      | _ => none
    let validationPassed := (booleanField (some record) validationKeys).or
      ((firstStatus record ["status", "validation_status"]).or
        (successRatio.map fun q => decide (1 ≤ q)))
    let failureReason := (firstText record ["failure_reason", "error", "reason"]).or
      (if validationPassed = some false then some "source_metrics_validation_failed"
      else if successRatio.any (· < 1) then some "source_metrics_success_ratio_below_one"
      else none)
    let refs := uniqueEvidenceRefs [get record "evidence_refs", get record "evidenceRefs",
      get record "ref", get record "uri", get record "id"]
    evidenceIfAny (recordEvidence record validationPassed failureReason
      (if refs = [] then ["source.metrics"] else refs))

def extractExecutionEvidenceFromSlots (slots : Fields) (metrics : Option Json) :
    Option (Option ExecutionEvidenceV1) :=
  let executionResultSummary := asRecord (get slots "execution_result_summary")
  let compileSummary := asRecord (get slots "compile_summary")
  let refs := [get slots "execution_evidence", get slots "execution_packet_v1"]
  orEvidence (some (parseEvidence (get slots "execution_evidence_v1"))) <|
  orEvidence (some (parseEvidence (field executionResultSummary "execution_evidence_v1"))) <|
  orEvidence (compileEvidenceFromRecord executionResultSummary refs) <|
  orEvidence (compileEvidenceFromRecord compileSummary refs) <|
  orEvidence (compileEvidenceFromArray (get slots "execution_evidence")) <|
  orEvidence (compileEvidenceFromArray (field executionResultSummary "execution_evidence")) <|
  metricEvidence metrics

/-! ## The trust gate -/

/-- The lists of an outcome contract that the trust gate reads. -/
structure OutcomeContract where
  successInvariants : List String := []
  environmentAssumptions : List String := []
  mustHoldAfterExit : List String := []
  externalVisibilityRequirements : List String := []

/-- The part of an execution contract that the trust gate reads. -/
structure ExecutionContractV1 where
  contractTrust : Option ContractTrust := none
  outcome : OutcomeContract := {}
  serviceLifecycleConstraints : List Execution.ServiceLifecycleConstraintV1 := []

def inferRequiresAfterExit (contract : Option ExecutionContractV1) : Bool :=
  contract.any fun c => !c.outcome.mustHoldAfterExit.isEmpty ||
    c.serviceLifecycleConstraints.any (·.mustSurviveAgentExit)

/-- A case-insensitive search for one of the words. -/
def mentions (words : List String) (text : String) : Bool :=
  words.any fun w => w.toList <:+: text.toList.map Char.toLower

def cleanShellWords : List String := ["clean_client", "clean client", "fresh_shell", "fresh shell"]

def inferRequiresFreshShell (contract : Option ExecutionContractV1) : Bool :=
  contract.any fun c => c.serviceLifecycleConstraints.any (·.revalidateFromFreshShell) ||
    c.outcome.environmentAssumptions.any (mentions (["new shell"] ++ cleanShellWords)) ||
    c.outcome.successInvariants.any (mentions cleanShellWords) ||
    c.outcome.externalVisibilityRequirements.any (mentions cleanShellWords)

inductive AssessmentStatus where
  | succeeded
  | failed
  | incomplete
  | unknown
  deriving DecidableEq, Repr

structure DecisiveFields where
  validationPassed : Option Bool
  afterExitRevalidated : Option Bool
  freshShellProbePassed : Option Bool
  validationBoundary : ExecutionValidationBoundary
  falseConfidenceDetected : Bool
  failureReasonPresent : Bool
  requiresAfterExitRevalidation : Bool
  requiresFreshShellProbe : Bool
  requiresExternalValidationBoundary : Bool
  deriving DecidableEq, Repr

structure ExecutionEvidenceAssessmentV1 where
  status : AssessmentStatus
  allowsAuthoritative : Bool
  allowsStablePromotion : Bool
  requestedTrust : Option ContractTrust
  effectiveTrust : Option ContractTrust
  reasons : List String
  decisiveFields : DecisiveFields
  deriving DecidableEq, Repr

def deriveStatus (evidence : Option ExecutionEvidenceV1) (reasons : List String) :
    AssessmentStatus :=
  match evidence with
  | none => .unknown
  | some e =>
    if e.validationPassed = some false ∨ e.afterExitRevalidated = some false ∨
        e.freshShellProbePassed = some false ∨ e.falseConfidenceDetected then .failed
    else if reasons ≠ [] then .incomplete
    else .succeeded

def hasExplicitExecutionEvidenceRef (evidence : Option ExecutionEvidenceV1) : Bool :=
  evidence.any fun e => e.evidenceRefs.any (· ≠ "source.metrics")

def validationBoundaryAllowsExternalVerification (e : ExecutionEvidenceV1) : Bool :=
  e.validationBoundary = .runtimeOrchestrator || e.validationBoundary = .externalVerifier

/-- What the gate requires of the evidence. -/
structure GateRequirements where
  afterExitRevalidation : Bool
  freshShellProbe : Bool

def GateRequirements.external (g : GateRequirements) : Bool :=
  g.afterExitRevalidation || g.freshShellProbe

/-- A verdict that is required and not `true` gives one of two reasons. -/
def verdictReason (required : Bool) (verdict : Option Bool) (failed missing : String) :
    List String :=
  if required ∧ verdict ≠ some true then [if verdict = some false then failed else missing]
  else []

/-- The reasons against evidence that was read. -/
def evidenceReasons (g : GateRequirements) (e : ExecutionEvidenceV1) : List String :=
  (if hasExplicitExecutionEvidenceRef (some e) then [] else
    ["missing_explicit_execution_evidence"]) ++
  verdictReason true e.validationPassed "validation_failed" "missing_validation_passed" ++
  verdictReason g.afterExitRevalidation e.afterExitRevalidated "after_exit_revalidation_failed"
    "missing_after_exit_revalidation" ++
  verdictReason g.freshShellProbe e.freshShellProbePassed "fresh_shell_probe_failed"
    "missing_fresh_shell_probe" ++
  (if g.external ∧ !validationBoundaryAllowsExternalVerification e then
    [if e.validationBoundary = .agentSelf then "agent_self_validation_boundary"
     else "missing_external_validation_boundary"] else []) ++
  (if e.falseConfidenceDetected then ["false_confidence_detected"] else []) ++
  e.failureReason.toList.map fun r => take 128 ("failure_reason:" ++ r)

def gateReasons (g : GateRequirements) : Option ExecutionEvidenceV1 → List String
  | none => ["missing_execution_evidence"]
  | some e => evidenceReasons g e

/-- The arguments of `assessExecutionEvidence`. -/
structure AssessArgs where
  executionContract : Option ExecutionContractV1 := none
  evidence : Option Json := none
  requestedTrust : Option Json := none
  requiresAfterExitRevalidation : Option Bool := none
  requiresFreshShellProbe : Option Bool := none

/-- `normalizeTrust(requestedTrust ?? contract?.contract_trust)`. -/
def AssessArgs.trust (args : AssessArgs) : Option ContractTrust :=
  match orElse args.requestedTrust none with
  | some v => contractTrustSchema (some v)
  | none => args.executionContract.bind (·.contractTrust)

def AssessArgs.requirements (args : AssessArgs) : GateRequirements where
  afterExitRevalidation :=
    args.requiresAfterExitRevalidation.getD (inferRequiresAfterExit args.executionContract)
  freshShellProbe :=
    args.requiresFreshShellProbe.getD (inferRequiresFreshShell args.executionContract)

def assessExecutionEvidence (args : AssessArgs) : ExecutionEvidenceAssessmentV1 :=
  let evidence := parseEvidence args.evidence
  let g := args.requirements
  let reasons := gateReasons g evidence
  let status := deriveStatus evidence reasons
  let explicit := hasExplicitExecutionEvidenceRef evidence
  let authoritative := args.trust = some .authoritative && status = .succeeded && explicit
  { status
    allowsAuthoritative := authoritative
    allowsStablePromotion := status = .succeeded && explicit
    requestedTrust := args.trust
    effectiveTrust :=
      if args.trust = some .authoritative ∧ !authoritative then some .advisory else args.trust
    reasons := (reasons.eraseDups).take 16
    decisiveFields :=
      { validationPassed := evidence.bind (·.validationPassed)
        afterExitRevalidated := evidence.bind (·.afterExitRevalidated)
        freshShellProbePassed := evidence.bind (·.freshShellProbePassed)
        validationBoundary := (evidence.map (·.validationBoundary)).getD .unknown
        falseConfidenceDetected := evidence.any (·.falseConfidenceDetected)
        failureReasonPresent := (evidence.bind (·.failureReason)).isSome
        requiresAfterExitRevalidation := g.afterExitRevalidation
        requiresFreshShellProbe := g.freshShellProbe
        requiresExternalValidationBoundary := g.external } }

end AionisCore.Memory
