import AionisCore.Lib.Dedup
import AionisCore.Lib.JsNumber
import AionisCore.Lib.Zod

/-!
# The runtime verifier

Requests are read off an execution packet: one for each health check of a
service lifecycle constraint and one for each pending validation, the first one
for each command text. Each executed request yields execution evidence, and the
results together yield the aggregate evidence that the trust gate reads.
`none` stands for a schema error.
-/

namespace AionisCore.Execution

open Lib Lib.JsString Lib.Zod

/-- The fields of a service lifecycle constraint that the verifier reads. -/
structure ServiceLifecycleConstraintV1 where
  label : String
  endpoint : Option String := none
  mustSurviveAgentExit : Bool := false
  revalidateFromFreshShell : Bool := false
  healthChecks : List String := []
  deriving DecidableEq, Repr

/-- The fields of an execution packet that the verifier reads. -/
structure ExecutionPacketV1 where
  stateId : String
  serviceLifecycleConstraints : List ServiceLifecycleConstraintV1 := []
  pendingValidations : List String := []
  evidenceRefs : List String := []
  deriving DecidableEq, Repr

inductive RuntimeVerificationBoundary where
  | runtimeOrchestrator
  | externalVerifier
  deriving DecidableEq, Repr

structure RuntimeVerificationRequestV1 where
  verifierId : String
  command : String
  cwd : Option String := none
  timeoutMs : Nat := 30000
  freshShell : Bool := true
  afterAgentExit : Bool := false
  externalVisibilityRequired : Bool := false
  validationBoundary : RuntimeVerificationBoundary := .runtimeOrchestrator
  evidenceRefs : List String := []
  deriving DecidableEq, Repr

/-- `StringList`. -/
def stringList : List String → Option (List String) := trimmedList 64 512

def RuntimeVerificationRequestV1.parse (r : RuntimeVerificationRequestV1) :
    Option RuntimeVerificationRequestV1 := do
  let verifierId ← trimmed (some 128) r.verifierId
  let command ← trimmed (some 4096) r.command
  let cwd ← nullableText none r.cwd
  guard (0 < r.timeoutMs ∧ r.timeoutMs ≤ 300000)
  let evidenceRefs ← stringList r.evidenceRefs
  return { r with verifierId, command, cwd, evidenceRefs }

structure RuntimeVerificationCommandResultV1 where
  exitCode : Option Int
  timedOut : Bool
  stdoutTail : String := ""
  stderrTail : String := ""
  durationMs : Nat := 0
  success : Bool
  deriving DecidableEq, Repr

structure RuntimeVerifierExecutionEvidenceV1 where
  validationPassed : Option Bool
  afterExitRevalidated : Option Bool
  freshShellProbePassed : Option Bool
  validationBoundary : RuntimeVerificationBoundary
  failureReason : Option String
  falseConfidenceDetected : Bool
  evidenceRefs : List String
  deriving DecidableEq, Repr

def RuntimeVerifierExecutionEvidenceV1.parse (e : RuntimeVerifierExecutionEvidenceV1) :
    Option RuntimeVerifierExecutionEvidenceV1 := do
  let failureReason ← nullableText (some 256) e.failureReason
  let evidenceRefs ← stringList e.evidenceRefs
  return { e with failureReason, evidenceRefs }

structure RuntimeVerificationResultV1 where
  request : RuntimeVerificationRequestV1
  commandResult : RuntimeVerificationCommandResultV1
  executionEvidence : RuntimeVerifierExecutionEvidenceV1
  deriving DecidableEq, Repr

def RuntimeVerificationResultV1.parse (r : RuntimeVerificationResultV1) :
    Option RuntimeVerificationResultV1 := do
  let request ← r.request.parse
  let executionEvidence ← r.executionEvidence.parse
  return { r with request, executionEvidence }

/-! ## Requests -/

/-- `[a-zA-Z0-9:_-]`. -/
def isVerifierIdChar (c : Char) : Bool := c.isAlphanum || c = ':' || c = '_' || c = '-'

/-- `.replace(/_+/g, "_")`. -/
def collapseUnderscores (cs : List Char) : List Char :=
  cs.foldr (fun c acc => if c = '_' ∧ acc.head? = some '_' then acc else c :: acc) []

def verifierId (parts : List String) : String :=
  let cs := (":".intercalate parts).toList.map fun c => if isVerifierIdChar c then c else '_'
  let normalized := ((collapseUnderscores cs).dropWhile (· = '_')).rdropWhile (· = '_')
  take 128 (if normalized = [] then "runtime_verifier" else String.ofList normalized)

/-- `\w`. -/
def isWordChar (c : Char) : Bool := c.isAlphanum || c = '_'

/-- The word `w` starts here, with a word boundary at both ends. -/
def wordHere (w : String) (prev : Option Char) (cs : List Char) : Bool :=
  w.toList.isPrefixOf cs && !prev.any isWordChar && !(cs.drop w.length).head?.any isWordChar

/-- A match of the pattern starts at some position of the text. -/
def externalFrom : Option Char → List Char → Bool
  | _, [] => false
  | prev, c :: cs =>
    ["curl", "wget", "nc"].any (wordHere · prev (c :: cs)) ||
      ["http://", "https://", "localhost", "127.0.0.1"].any (·.toList.isPrefixOf (c :: cs)) ||
      externalFrom (some c) cs

/-- `/\b(curl|wget|nc)\b|https?:\/\/|localhost|127\.0\.0\.1/i`. -/
def commandLooksExternal (command : String) : Bool :=
  externalFrom none (command.toList.map Char.toLower)

structure RequestOptions where
  includePendingValidations : Bool := true
  validationBoundary : RuntimeVerificationBoundary := .runtimeOrchestrator
  timeoutMs : Nat := 30000

section Requests

variable (packet : ExecutionPacketV1) (options : RequestOptions)

/-- The request for a health check, before it is parsed. -/
def healthCheckRequest (constraint : ServiceLifecycleConstraintV1) (constraintIndex : Nat)
    (command : String) (commandIndex : Nat) : RuntimeVerificationRequestV1 where
  verifierId := verifierId
    [packet.stateId, constraint.label, toString constraintIndex, toString commandIndex]
  command := command
  timeoutMs := options.timeoutMs
  freshShell := constraint.revalidateFromFreshShell || constraint.mustSurviveAgentExit
  afterAgentExit := constraint.mustSurviveAgentExit
  externalVisibilityRequired :=
    constraint.endpoint.any (· ≠ "") || commandLooksExternal command
  validationBoundary := options.validationBoundary
  evidenceRefs := uniqueStrings
    (["execution_packet:" ++ packet.stateId, "service_lifecycle:" ++ constraint.label] ++
      (match constraint.endpoint with
        | some e => [if e ≠ "" then "endpoint:" ++ e else ""]
        | none => [""]) ++ packet.evidenceRefs) 64

/-- The request for a pending validation, before it is parsed. -/
def pendingValidationRequest (command : String) (index : Nat) : RuntimeVerificationRequestV1 where
  verifierId := verifierId [packet.stateId, "pending_validation", toString index]
  command := command
  timeoutMs := options.timeoutMs
  freshShell := true
  afterAgentExit := false
  externalVisibilityRequired := commandLooksExternal command
  validationBoundary := options.validationBoundary
  evidenceRefs := uniqueStrings
    (["execution_packet:" ++ packet.stateId, "pending_validation:" ++ toString index] ++
      packet.evidenceRefs) 64

/-- The requests in the order of the packet, commands repeated. -/
def packetRequests : List RuntimeVerificationRequestV1 :=
  (packet.serviceLifecycleConstraints.zipIdx.flatMap fun c =>
    c.1.healthChecks.zipIdx.map fun h => healthCheckRequest packet options c.1 c.2 h.1 h.2) ++
  if options.includePendingValidations then
    packet.pendingValidations.zipIdx.map fun v => pendingValidationRequest packet options v.1 v.2
  else []

/-- A command that was seen before is skipped. -/
def buildRuntimeVerificationRequestsFromPacketV1 : Option (List RuntimeVerificationRequestV1) :=
  (firstBy (·.command) (packetRequests packet options)).mapM (·.parse)

end Requests

/-! ## Evidence -/

def exitCodeDecimal (n : Int) : Decimal := Decimal.ofScaled (decide (n < 0)) n.natAbs 0

def failureReasonFor (result : RuntimeVerificationCommandResultV1) : Option String :=
  if result.success then none
  else if result.timedOut then some "runtime_verifier_timeout"
  else some ("runtime_verifier_exit_code_" ++
    match result.exitCode with
    | some n => String.ofList (exitCodeDecimal n).text
    | none => "null")

/-- The references of the evidence for one request. -/
def requestRefs (request : RuntimeVerificationRequestV1) : List String :=
  ["runtime_verifier:" ++ request.verifierId, "runtime_verifier_command:" ++ request.command,
    if request.afterAgentExit then "runtime_verifier:after_agent_exit" else "",
    if request.freshShell then "runtime_verifier:fresh_shell" else "",
    if request.externalVisibilityRequired then "runtime_verifier:external_visibility" else ""] ++
  request.evidenceRefs

def buildRuntimeVerifierExecutionEvidenceV1 (requestIn : RuntimeVerificationRequestV1)
    (commandResult : RuntimeVerificationCommandResultV1) (agentClaimedSuccess : Bool)
    (failureReason : Option String) : Option RuntimeVerifierExecutionEvidenceV1 := do
  let request ← requestIn.parse
  RuntimeVerifierExecutionEvidenceV1.parse
    { validationPassed := some commandResult.success
      afterExitRevalidated := if request.afterAgentExit then some commandResult.success else none
      freshShellProbePassed := if request.freshShell then some commandResult.success else none
      validationBoundary := request.validationBoundary
      failureReason := failureReason <|> failureReasonFor commandResult
      falseConfidenceDetected := agentClaimedSuccess && !commandResult.success
      evidenceRefs := uniqueStrings (requestRefs request) 64 }

def buildRuntimeVerificationResultV1 (requestIn : RuntimeVerificationRequestV1)
    (commandResult : RuntimeVerificationCommandResultV1) (agentClaimedSuccess : Bool)
    (failureReason : Option String) : Option RuntimeVerificationResultV1 := do
  let request ← requestIn.parse
  let executionEvidence ←
    buildRuntimeVerifierExecutionEvidenceV1 request commandResult agentClaimedSuccess failureReason
  RuntimeVerificationResultV1.parse { request, commandResult, executionEvidence }

def firstFailedResult (results : List RuntimeVerificationResultV1) :
    Option RuntimeVerificationResultV1 :=
  results.find? fun r => !r.commandResult.success

/-- The verdict over the requested results, in request order. -/
def satisfiedLoop (resultByVerifierId : String → Option RuntimeVerificationResultV1) :
    List RuntimeVerificationRequestV1 → Option Bool
  | [] => some true
  | request :: rest =>
    match resultByVerifierId request.verifierId with
    | none => none
    | some result =>
      if result.commandResult.success then satisfiedLoop resultByVerifierId rest else some false

def allRequestedResultsSatisfied (requests : List RuntimeVerificationRequestV1)
    (results : List RuntimeVerificationResultV1)
    (predicate : RuntimeVerificationRequestV1 → Bool) : Option Bool :=
  let requested := requests.filter predicate
  -- a later result replaces an earlier one with the same verifier id
  if requested = [] then none
  else satisfiedLoop (fun id => results.reverse.find? (·.request.verifierId = id)) requested

def aggregateValidationPassed (requests : List RuntimeVerificationRequestV1)
    (results : List RuntimeVerificationResultV1) : Option Bool :=
  if results.any fun r => !r.commandResult.success then some false
  else if requests = [] then none
  else if results.length < requests.length then none
  else some true

/-- The references of the aggregate evidence. -/
def aggregateRefs (requests : List RuntimeVerificationRequestV1)
    (results : List RuntimeVerificationResultV1) : List String :=
  ["runtime_verifier:aggregate"] ++ requests.map (fun r => "runtime_verifier:" ++ r.verifierId) ++
    results.flatMap (·.executionEvidence.evidenceRefs)

/-- The outer option is a schema error, the inner one `null`. -/
def buildRuntimeVerifierAggregateExecutionEvidenceV1
    (requestsIn : List RuntimeVerificationRequestV1) (resultsIn : List RuntimeVerificationResultV1)
    (agentClaimedSuccess : Bool) (blockedReasons : List String) :
    Option (Option RuntimeVerifierExecutionEvidenceV1) := do
  let requests ← requestsIn.mapM (·.parse)
  let results ← resultsIn.mapM (·.parse)
  if requests = [] ∧ results = [] then return none
  let evidence ← RuntimeVerifierExecutionEvidenceV1.parse
    { validationPassed := aggregateValidationPassed requests results
      afterExitRevalidated := allRequestedResultsSatisfied requests results (·.afterAgentExit)
      freshShellProbePassed := allRequestedResultsSatisfied requests results (·.freshShell)
      validationBoundary :=
        if requests.any (·.validationBoundary = .externalVerifier) then .externalVerifier
        else .runtimeOrchestrator
      failureReason :=
        ((firstFailedResult results).bind (·.executionEvidence.failureReason)) <|>
          blockedReasons.find? fun reason => trim reason ≠ ""
      falseConfidenceDetected :=
        agentClaimedSuccess && results.any fun r => !r.commandResult.success
      evidenceRefs := uniqueStrings (aggregateRefs requests results) 64 }
  return some evidence

/-! ## What parsing keeps -/

variable {r r' : RuntimeVerificationRequestV1}

theorem RuntimeVerificationRequestV1.parse_eq_some :
    r.parse = some r' ↔
      trimmed (some 128) r.verifierId = some r'.verifierId ∧
      trimmed (some 4096) r.command = some r'.command ∧
      nullableText none r.cwd = some r'.cwd ∧ (0 < r.timeoutMs ∧ r.timeoutMs ≤ 300000) ∧
      stringList r.evidenceRefs = some r'.evidenceRefs ∧
      r' = { r with verifierId := r'.verifierId, command := r'.command, cwd := r'.cwd,
                    evidenceRefs := r'.evidenceRefs } := by
  unfold RuntimeVerificationRequestV1.parse
  simp only [Option.bind_eq_bind, Option.bind_eq_some_iff, Option.pure_def, Option.some.injEq,
    guard_eq_some]
  constructor
  · rintro ⟨v, hv, c, hc, d, hd, _, hu, e, he, rfl⟩
    exact ⟨hv, hc, hd, hu, he, rfl⟩
  · rintro ⟨hv, hc, hd, hu, he, hr⟩
    exact ⟨_, hv, _, hc, _, hd, (), hu, _, he, hr.symm⟩

theorem RuntimeVerificationRequestV1.parse_parse (h : r.parse = some r') : r'.parse = some r' := by
  obtain ⟨hv, hc, hd, hu, he, hr⟩ := parse_eq_some.1 h
  refine parse_eq_some.2 ⟨trimmed_of_trimmed hv, trimmed_of_trimmed hc,
    nullableText_of_nullableText hd, ?_, trimmedList_of_trimmedList he, rfl⟩
  rw [hr]
  exact hu

/-- Parsing trims the command and keeps what it is asked to wait for. -/
theorem RuntimeVerificationRequestV1.parse_command (h : r.parse = some r') :
    r'.command = trim r.command ∧
      r'.afterAgentExit = r.afterAgentExit := by
  obtain ⟨-, hc, -, -, -, hr⟩ := parse_eq_some.1 h
  refine ⟨(trimmed_eq_some.1 hc).1, ?_⟩
  rw [hr]

theorem RuntimeVerifierExecutionEvidenceV1.parse_eq_some
    {e e' : RuntimeVerifierExecutionEvidenceV1} :
    e.parse = some e' ↔ nullableText (some 256) e.failureReason = some e'.failureReason ∧
      stringList e.evidenceRefs = some e'.evidenceRefs ∧
      e' = { e with failureReason := e'.failureReason, evidenceRefs := e'.evidenceRefs } := by
  unfold RuntimeVerifierExecutionEvidenceV1.parse
  simp only [Option.bind_eq_bind, Option.bind_eq_some_iff, Option.pure_def, Option.some.injEq]
  constructor
  · rintro ⟨f, hf, l, hl, rfl⟩
    exact ⟨hf, hl, rfl⟩
  · rintro ⟨hf, hl, he⟩
    exact ⟨_, hf, _, hl, he.symm⟩

theorem RuntimeVerifierExecutionEvidenceV1.exists_parse {e : RuntimeVerifierExecutionEvidenceV1}
    (hf : ∃ reason, nullableText (some 256) e.failureReason = some reason)
    (hl : ∃ refs, stringList e.evidenceRefs = some refs) : ∃ e', e.parse = some e' := by
  obtain ⟨reason, hf⟩ := hf
  obtain ⟨refs, hl⟩ := hl
  exact ⟨{ e with failureReason := reason, evidenceRefs := refs },
    parse_eq_some.2 ⟨hf, hl, rfl⟩⟩

theorem RuntimeVerifierExecutionEvidenceV1.parse_parse
    {e e' : RuntimeVerifierExecutionEvidenceV1} (h : e.parse = some e') :
    e'.parse = some e' := by
  obtain ⟨hf, hl, he⟩ := parse_eq_some.1 h
  exact parse_eq_some.2 ⟨nullableText_of_nullableText hf, trimmedList_of_trimmedList hl, rfl⟩

theorem RuntimeVerificationResultV1.parse_eq_some {r r' : RuntimeVerificationResultV1} :
    r.parse = some r' ↔ r.request.parse = some r'.request ∧
      r.executionEvidence.parse = some r'.executionEvidence ∧
      r' = { r with request := r'.request, executionEvidence := r'.executionEvidence } := by
  unfold RuntimeVerificationResultV1.parse
  simp only [Option.bind_eq_bind, Option.bind_eq_some_iff, Option.pure_def, Option.some.injEq]
  constructor
  · rintro ⟨q, hq, e, he, rfl⟩
    exact ⟨hq, he, rfl⟩
  · rintro ⟨hq, he, hr⟩
    exact ⟨_, hq, _, he, hr.symm⟩

theorem RuntimeVerificationResultV1.parse_parse {r r' : RuntimeVerificationResultV1}
    (h : r.parse = some r') : r'.parse = some r' := by
  obtain ⟨hq, he, -⟩ := parse_eq_some.1 h
  exact parse_eq_some.2 ⟨RuntimeVerificationRequestV1.parse_parse hq,
    RuntimeVerifierExecutionEvidenceV1.parse_parse he, rfl⟩

/-- The result of a parsed request is about that request and that outcome. -/
theorem buildRuntimeVerificationResultV1_eq_some {request : RuntimeVerificationRequestV1}
    {outcome : RuntimeVerificationCommandResultV1} {claimed : Bool} {reason : Option String}
    {result : RuntimeVerificationResultV1} (hq : request.parse = some request)
    (h : buildRuntimeVerificationResultV1 request outcome claimed reason = some result) :
    result.request = request ∧ result.commandResult = outcome ∧ result.parse = some result := by
  unfold buildRuntimeVerificationResultV1 at h
  simp only [hq, Option.bind_eq_bind, Option.bind_some, Option.bind_eq_some_iff] at h
  obtain ⟨e, -, h⟩ := h
  obtain ⟨hrq, -, hr⟩ := RuntimeVerificationResultV1.parse_eq_some.1 h
  refine ⟨?_, by rw [hr], RuntimeVerificationResultV1.parse_parse h⟩
  exact (Option.some.inj (hq.symm.trans hrq)).symm

end AionisCore.Execution
