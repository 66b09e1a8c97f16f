import AionisCore.Execution.Types
import AionisCore.Memory.EvidenceRecord

/-!
# The runtime authority gate

The gate grants authority over a contract when the contract binds a verifiable
outcome and the execution evidence proves it. The evidence is what the caller
passes, else what extraction reads off the slots. `none` from the gate stands for
a schema error of the extraction.
-/

namespace AionisCore.Memory

open Lib Lib.JsString Lib.Zod Lib.Json

/-! ## Contracts -/

structure ExecutionContractOutcome extends OutcomeContract where
  acceptanceChecks : List String := []

/-- An execution contract as far as the gate reads it. -/
structure GateContract where
  contractTrust : Option ContractTrust := none
  outcome : ExecutionContractOutcome := {}
  serviceLifecycleConstraints : List Execution.ServiceLifecycleConstraint := []

/-- The part that the evidence assessment reads. -/
def GateContract.toExecutionContractV1 (c : GateContract) : ExecutionContractV1 where
  contractTrust := c.contractTrust
  outcome := c.outcome.toOutcomeContract
  serviceLifecycleConstraints :=
    c.serviceLifecycleConstraints.map (·.toServiceLifecycleConstraintV1)

/-- `CONTRACT_TRUST_RANK`. -/
def ContractTrust.rank : ContractTrust → Nat
  | observational => 0
  | advisory => 1
  | authoritative => 2

/-- `normalizeContractTrust(requestedTrust ?? contract?.contract_trust)`. -/
def requestedContractTrust (requestedTrust : Option Json) (contract : Option GateContract) :
    Option ContractTrust :=
  match orElse requestedTrust none with
  | some v => contractTrustSchema (some v)
  | none => contract.bind (·.contractTrust)

/-- A normalized trust as it is passed on. -/
def trustValue (trust : Option ContractTrust) : Option Json := trust.map fun t => .str t.name

/-! ## The outcome contract gate -/

def genericSuccessInvariants : List String :=
  ["all_acceptance_checks_pass", "target_files_reflect_the_intended_change_surface"]

/-- `stringList`. -/
def outcomeStringList (values : List String) : List String := (values.map trim).filter (· ≠ "")

def nonEmptyString (value : Option String) : Bool := value.any fun s => trim s ≠ ""

def isDurableServiceLifecycleConstraint (c : Execution.ServiceLifecycleConstraint) : Bool :=
  c.serviceKind ∈ [.http, .tcp, .process] || nonEmptyString c.endpoint ||
    nonEmptyString c.launchReference

def GateContract.durable (c : GateContract) : List Execution.ServiceLifecycleConstraint :=
  c.serviceLifecycleConstraints.filter isDurableServiceLifecycleConstraint

structure OutcomeDecisiveFields where
  acceptanceCheckCount : Nat
  successInvariantCount : Nat
  meaningfulSuccessInvariantCount : Nat
  mustHoldAfterExitCount : Nat
  externalVisibilityRequirementCount : Nat
  serviceLifecycleConstraintCount : Nat
  durableServiceLifecycleConstraintCount : Nat
  serviceMustSurviveAgentExitCount : Nat
  serviceRevalidateFromFreshShellCount : Nat
  serviceDetachThenProbeCount : Nat
  serviceHealthCheckCount : Nat
  deriving DecidableEq, Repr

def outcomeDecisiveFields (c : GateContract) : OutcomeDecisiveFields where
  acceptanceCheckCount := (outcomeStringList c.outcome.acceptanceChecks).length
  successInvariantCount := (outcomeStringList c.outcome.successInvariants).length
  meaningfulSuccessInvariantCount :=
    ((outcomeStringList c.outcome.successInvariants).filter (· ∉ genericSuccessInvariants)).length
  mustHoldAfterExitCount := (outcomeStringList c.outcome.mustHoldAfterExit).length
  externalVisibilityRequirementCount :=
    (outcomeStringList c.outcome.externalVisibilityRequirements).length
  serviceLifecycleConstraintCount := c.serviceLifecycleConstraints.length
  durableServiceLifecycleConstraintCount := c.durable.length
  serviceMustSurviveAgentExitCount := (c.durable.filter (·.mustSurviveAgentExit)).length
  serviceRevalidateFromFreshShellCount := (c.durable.filter (·.revalidateFromFreshShell)).length
  serviceDetachThenProbeCount := (c.durable.filter (·.detachThenProbe)).length
  serviceHealthCheckCount := (c.durable.map fun s => (outcomeStringList s.healthChecks).length).sum

def hasVerifiableOutcome (c : GateContract) : Bool :=
  0 < (outcomeDecisiveFields c).meaningfulSuccessInvariantCount ||
    (0 < (outcomeDecisiveFields c).acceptanceCheckCount &&
      (outcomeStringList c.outcome.successInvariants).contains "all_acceptance_checks_pass") ||
    (0 < (outcomeDecisiveFields c).mustHoldAfterExitCount &&
      0 < (outcomeDecisiveFields c).externalVisibilityRequirementCount)

def reasonIf (p : Bool) (reason : String) : List String := if p then [reason] else []

def outcomeReasons (c : GateContract) : List String :=
  let f := outcomeDecisiveFields c
  let durableCount := f.durableServiceLifecycleConstraintCount
  reasonIf (!hasVerifiableOutcome c) "missing_verifiable_success_outcome" ++
  reasonIf (0 < durableCount && f.mustHoldAfterExitCount = 0) "missing_must_hold_after_exit" ++
  reasonIf (0 < durableCount && f.externalVisibilityRequirementCount = 0)
    "missing_external_visibility_requirements" ++
  reasonIf (0 < durableCount && f.serviceMustSurviveAgentExitCount < durableCount)
    "missing_service_must_survive_agent_exit" ++
  reasonIf (0 < durableCount && f.serviceRevalidateFromFreshShellCount < durableCount)
    "missing_service_revalidate_from_fresh_shell" ++
  reasonIf (0 < durableCount && f.serviceDetachThenProbeCount < durableCount)
    "missing_service_detach_then_probe" ++
  reasonIf (0 < durableCount && f.serviceHealthCheckCount = 0) "missing_service_health_check"

inductive GateStatus where
  | sufficient
  | insufficient
  deriving DecidableEq, Repr

def gateStatus (reasons : List String) : GateStatus :=
  if reasons = [] then .sufficient else .insufficient

/-- The trust that is left of the requested one. -/
def effectiveTrust (requestedTrust : Option ContractTrust) (allowsAuthoritative : Bool) :
    Option ContractTrust :=
  if requestedTrust = some .authoritative ∧ !allowsAuthoritative then some .advisory
  else requestedTrust

structure OutcomeContractGate where
  status : GateStatus
  allowsAuthoritative : Bool
  requestedTrust : Option ContractTrust
  effectiveTrust : Option ContractTrust
  reasons : List String
  requiresServiceLifecycleOutcome : Bool
  decisiveFields : OutcomeDecisiveFields
  deriving DecidableEq, Repr

/-- A missing contract reads as one with nothing in it. -/
def buildOutcomeContractGate (contract : Option GateContract) (requestedTrust : Option Json) :
    OutcomeContractGate :=
  let c := contract.getD {}
  let trust := requestedContractTrust requestedTrust contract
  let reasons := outcomeReasons c
  let allowsAuthoritative := trust = some .authoritative && reasons = []
  { status := gateStatus reasons
    allowsAuthoritative
    requestedTrust := trust
    effectiveTrust := effectiveTrust trust allowsAuthoritative
    reasons
    requiresServiceLifecycleOutcome := 0 < c.durable.length
    decisiveFields := outcomeDecisiveFields c }

/-! ## The runtime authority gate -/

structure RuntimeAuthorityArgs where
  executionContract : Option GateContract := none
  requestedTrust : Option Json := none
  slots : Fields := []
  metrics : Option Json := none
  evidence : Option Json := none

structure RuntimeAuthorityGateV1 where
  status : GateStatus
  allowsAuthoritative : Bool
  allowsStablePromotion : Bool
  requestedTrust : Option ContractTrust
  effectiveTrust : Option ContractTrust
  reasons : List String
  outcomeContractGate : OutcomeContractGate
  executionEvidenceAssessment : ExecutionEvidenceAssessmentV1
  deriving DecidableEq, Repr

/-- `args.evidence ?? extractExecutionEvidenceFromSlots(…)`. -/
def executionEvidence (args : RuntimeAuthorityArgs) : Option (Option Json) :=
  match orElse args.evidence none with
  | some v => some (some v)
  | none =>
    (extractExecutionEvidenceFromSlots args.slots args.metrics).map
      (·.map fun e => .obj e.record)

/-- The arguments the gate assesses the evidence with. -/
def assessArgs (args : RuntimeAuthorityArgs) (evidence : Option Json) : AssessArgs where
  executionContract := args.executionContract.map (·.toExecutionContractV1)
  evidence := evidence
  requestedTrust :=
    trustValue (requestedContractTrust args.requestedTrust args.executionContract)

/-- The gate over the evidence it has. -/
def authorityGate (args : RuntimeAuthorityArgs) (evidence : Option Json) :
    RuntimeAuthorityGateV1 :=
  let trust := requestedContractTrust args.requestedTrust args.executionContract
  let outcomeGate := buildOutcomeContractGate args.executionContract (trustValue trust)
  let assessment := assessExecutionEvidence (assessArgs args evidence)
  let reasons := ((outcomeGate.reasons.map ("outcome_contract:" ++ ·) ++
    assessment.reasons.map ("execution_evidence:" ++ ·)).eraseDups).take 16
  let allowsAuthoritative := trust = some .authoritative && outcomeGate.allowsAuthoritative &&
    assessment.allowsAuthoritative
  { status := gateStatus reasons
    allowsAuthoritative
    allowsStablePromotion := assessment.allowsStablePromotion &&
      (trust ≠ some .authoritative || outcomeGate.allowsAuthoritative)
    requestedTrust := trust
    effectiveTrust := effectiveTrust trust allowsAuthoritative
    reasons
    outcomeContractGate := outcomeGate
    executionEvidenceAssessment := assessment }

def buildRuntimeAuthorityGate (args : RuntimeAuthorityArgs) : Option RuntimeAuthorityGateV1 :=
  (executionEvidence args).map (authorityGate args)

/-! ## What the gates decide -/

/-- The contract states an outcome that can be verified. -/
def VerifiableOutcome (o : ExecutionContractOutcome) : Prop :=
  (∃ s ∈ outcomeStringList o.successInvariants, s ∉ genericSuccessInvariants) ∨
  (outcomeStringList o.acceptanceChecks ≠ [] ∧
    "all_acceptance_checks_pass" ∈ outcomeStringList o.successInvariants) ∨
  (outcomeStringList o.mustHoldAfterExit ≠ [] ∧
    outcomeStringList o.externalVisibilityRequirements ≠ [])

/-- The durable services of a contract are bound to outlive the agent and to be probed. -/
structure ServicesBound (c : GateContract) : Prop where
  mustSurvive : ∀ s ∈ c.durable, s.mustSurviveAgentExit
  freshShell : ∀ s ∈ c.durable, s.revalidateFromFreshShell
  detachThenProbe : ∀ s ∈ c.durable, s.detachThenProbe
  healthCheck : c.durable ≠ [] → ∃ s ∈ c.durable, outcomeStringList s.healthChecks ≠ []
  mustHold : c.durable ≠ [] → outcomeStringList c.outcome.mustHoldAfterExit ≠ []
  visibility : c.durable ≠ [] → outcomeStringList c.outcome.externalVisibilityRequirements ≠ []

/-- Evidence that passes by itself, whatever is required of it. -/
structure CleanPass (e : ExecutionEvidenceV1) : Prop where
  passed : e.validationPassed = some true
  afterExit : e.afterExitRevalidated ≠ some false
  freshShell : e.freshShellProbePassed ≠ some false
  confident : e.falseConfidenceDetected = false
  noFailure : e.failureReason = none
  explicit : ∃ r ∈ e.evidenceRefs, r ≠ "source.metrics"

/-- The evidence has the proofs the contract requires. -/
structure RequiredProofs (c : GateContract) (e : ExecutionEvidenceV1) : Prop where
  afterExit : inferRequiresAfterExit (some c.toExecutionContractV1) →
    e.afterExitRevalidated = some true
  freshShell : inferRequiresFreshShell (some c.toExecutionContractV1) →
    e.freshShellProbePassed = some true
  boundary : inferRequiresAfterExit (some c.toExecutionContractV1) ∨
    inferRequiresFreshShell (some c.toExecutionContractV1) →
    e.validationBoundary = .runtimeOrchestrator ∨ e.validationBoundary = .externalVerifier

end AionisCore.Memory
