import AionisCore.Execution.Verification

/-!
# The verification surface

A control asks for the requests of a packet to be planned or executed. At most
`maxRequests` of them are kept, those that need the agent to have exited are
blocked until it has, and the summary reports whether the results are
authoritative evidence. What the commands return is a parameter of the run.
-/

namespace AionisCore.Execution

open Lib Lib.JsString Lib.Zod

inductive RuntimeVerificationMode where
  | off
  | plan
  | execute
  deriving DecidableEq, Repr

inductive RuntimeVerifierAgentLifecycleState where
  | unknown
  | agentRunning
  | agentExited
  deriving DecidableEq, Repr

inductive RuntimeVerificationExecutionState where
  | off
  | planned
  | executed
  | partiallyExecuted
  | blocked
  | noRequests
  deriving DecidableEq, Repr

/-- A parsed control; the fields of kind `Prop` are the bounds of its schema. -/
structure RuntimeVerificationControlV1 where
  mode : RuntimeVerificationMode := .plan
  agentLifecycleState : RuntimeVerifierAgentLifecycleState := .unknown
  includePendingValidations : Bool := true
  validationBoundary : RuntimeVerificationBoundary := .runtimeOrchestrator
  timeoutMs : Nat := 30000
  maxRequests : Nat := 8
  cwd : Option String := none
  agentClaimedSuccess : Bool := false
  timeoutMs_ok : 0 < timeoutMs ∧ timeoutMs ≤ 300000 := by decide
  maxRequests_ok : 0 < maxRequests ∧ maxRequests ≤ 32 := by decide
  cwd_ok : ∀ s ∈ cwd, trimmed none s = some s := by simp

structure BlockedRequest where
  verifierId : String
  command : String
  reason : String
  deriving DecidableEq, Repr

structure RuntimeVerificationSummaryV1 where
  requiresAfterAgentExit : Bool
  requiresFreshShell : Bool
  externalVisibilityRequired : Bool
  validationPassed : Option Bool
  afterExitRevalidated : Option Bool
  freshShellProbePassed : Option Bool
  falseConfidenceDetected : Bool
  authoritativeEvidenceReady : Bool
  reasonCodes : List String
  deriving DecidableEq, Repr

structure RuntimeVerificationSurfaceV1 where
  requestedMode : RuntimeVerificationMode
  executionState : RuntimeVerificationExecutionState
  agentLifecycleState : RuntimeVerifierAgentLifecycleState
  requestCount : Nat
  executableRequestCount : Nat
  blockedRequestCount : Nat
  resultCount : Nat
  requests : List RuntimeVerificationRequestV1
  blockedRequests : List BlockedRequest
  results : List RuntimeVerificationResultV1
  executionEvidence : List RuntimeVerifierExecutionEvidenceV1
  evidenceForTrustGate : Option RuntimeVerifierExecutionEvidenceV1
  summary : RuntimeVerificationSummaryV1
  deriving DecidableEq, Repr

/-- The arguments of `buildSurface`, defaults filled in. -/
structure SurfaceParts where
  requests : List RuntimeVerificationRequestV1
  executableRequests : List RuntimeVerificationRequestV1 := []
  blockedRequests : List BlockedRequest := []
  results : List RuntimeVerificationResultV1 := []
  executionBlockedReason : Option String := none

/-- `z.string().min(1).max(128)`. -/
def reasonOk (s : String) : Bool := s ≠ "" && length s ≤ 128

section Surface

variable (control : RuntimeVerificationControlV1) (parts : SurfaceParts)

def reasonCodes (evidence : Option RuntimeVerifierExecutionEvidenceV1) : List String :=
  (if control.mode = .off then ["runtime_verification_off"] else []) ++
  (if parts.requests = [] ∧ control.mode ≠ .off then ["no_runtime_verification_requests"]
    else []) ++
  (if control.mode = .plan ∧ parts.requests ≠ [] then ["planned_not_executed"] else []) ++
  parts.executionBlockedReason.toList.filter (· ≠ "") ++
  parts.blockedRequests.map (·.reason) ++
  (if parts.results.any fun r => !r.commandResult.success then ["runtime_verifier_failed"]
    else []) ++
  (if evidence.any (·.falseConfidenceDetected) then ["false_confidence_detected"] else []) ++
  (if evidence.any (·.validationPassed = some true) then ["validation_passed"] else []) ++
  (if evidence.any (·.afterExitRevalidated = some true) then ["after_exit_revalidated"]
    else []) ++
  if evidence.any (·.freshShellProbePassed = some true) then ["fresh_shell_probe_passed"] else []

/-- Whether the results are authoritative evidence. -/
def authoritativeEvidenceReady (evidence : Option RuntimeVerifierExecutionEvidenceV1) : Bool :=
  match evidence with
  | none => false
  | some e =>
    e.validationPassed = some true &&
      (!parts.requests.any (·.afterAgentExit) || e.afterExitRevalidated = some true) &&
      (!parts.requests.any (·.freshShell) || e.freshShellProbePassed = some true) &&
      !e.falseConfidenceDetected && parts.blockedRequests.isEmpty

def buildRuntimeVerificationSummary (evidence : Option RuntimeVerifierExecutionEvidenceV1) :
    Option RuntimeVerificationSummaryV1 :=
  let codes := uniqueStrings (reasonCodes control parts evidence) 16
  if codes.all reasonOk then
    some
      { requiresAfterAgentExit := parts.requests.any (·.afterAgentExit)
        requiresFreshShell := parts.requests.any (·.freshShell)
        externalVisibilityRequired := parts.requests.any (·.externalVisibilityRequired)
        validationPassed := evidence.bind (·.validationPassed)
        afterExitRevalidated := evidence.bind (·.afterExitRevalidated)
        freshShellProbePassed := evidence.bind (·.freshShellProbePassed)
        falseConfidenceDetected := evidence.any (·.falseConfidenceDetected)
        authoritativeEvidenceReady := authoritativeEvidenceReady parts evidence
        reasonCodes := codes }
  else none

def executionState : RuntimeVerificationExecutionState :=
  if control.mode = .off then .off
  else if parts.requests = [] then .noRequests
  else if control.mode = .plan then .planned
  else if parts.executionBlockedReason.any (· ≠ "") ∨
      parts.blockedRequests ≠ [] ∧ parts.executableRequests = [] then .blocked
  else if parts.blockedRequests ≠ [] ∨ parts.results.length < parts.requests.length then
    .partiallyExecuted
  else .executed

/-- The aggregate evidence of the results, if there are any. -/
def evidenceForTrustGate : Option (Option RuntimeVerifierExecutionEvidenceV1) :=
  if parts.results = [] then some none
  else buildRuntimeVerifierAggregateExecutionEvidenceV1 parts.requests parts.results
    control.agentClaimedSuccess (parts.blockedRequests.map (·.reason))

def buildSurface : Option RuntimeVerificationSurfaceV1 := do
  let evidence ← evidenceForTrustGate control parts
  let summary ← buildRuntimeVerificationSummary control parts evidence
  guard (parts.blockedRequests.all fun b => reasonOk b.reason)
  return {
    requestedMode := control.mode
    executionState := executionState control parts
    agentLifecycleState := control.agentLifecycleState
    requestCount := parts.requests.length
    executableRequestCount := parts.executableRequests.length
    blockedRequestCount := parts.blockedRequests.length
    resultCount := parts.results.length
    requests := parts.requests
    blockedRequests := parts.blockedRequests
    results := parts.results
    executionEvidence := parts.results.map (·.executionEvidence)
    evidenceForTrustGate := evidence
    summary }

/-- A request waits for the agent to exit. -/
def isBlocked (request : RuntimeVerificationRequestV1) : Bool :=
  request.afterAgentExit && control.agentLifecycleState ≠ .agentExited

/-- `splitExecutableRequests`. -/
def executableRequests (requests : List RuntimeVerificationRequestV1) :
    List RuntimeVerificationRequestV1 :=
  requests.filter fun r => !isBlocked control r

def blockRequest (reason : String) (r : RuntimeVerificationRequestV1) : BlockedRequest :=
  ⟨r.verifierId, r.command, reason⟩

def blockedRequests (requests : List RuntimeVerificationRequestV1) : List BlockedRequest :=
  (requests.filter (isBlocked control)).map (blockRequest "agent_exit_not_confirmed")

/-- The requests a surface plans: the first `maxRequests`, in the working directory asked for. -/
def plannedRequests (input : Option ExecutionPacketV1) :
    Option (List RuntimeVerificationRequestV1) :=
  match input with
  | none => some []
  | some packet =>
    if control.mode = .off then some []
    else do
      let requests ← buildRuntimeVerificationRequestsFromPacketV1 packet
        { includePendingValidations := control.includePendingValidations
          validationBoundary := control.validationBoundary
          timeoutMs := control.timeoutMs }
      (requests.take control.maxRequests).mapM fun request =>
        RuntimeVerificationRequestV1.parse { request with cwd := control.cwd <|> request.cwd }

def buildRuntimeVerificationSurfaceV1 (input : Option ExecutionPacketV1) :
    Option RuntimeVerificationSurfaceV1 := do
  let requests ← plannedRequests control input
  buildSurface control
    { requests
      executableRequests := executableRequests control requests
      blockedRequests := blockedRequests control requests }

/-- Running one command, given what the process returns. -/
def runRuntimeVerifierCommandV1 (outcome : RuntimeVerificationCommandResultV1)
    (input : RuntimeVerificationRequestV1) : Option RuntimeVerificationResultV1 := do
  let request ← input.parse
  buildRuntimeVerificationResultV1 request outcome control.agentClaimedSuccess none

structure RunOptions where
  allowExecution : Bool := true
  executionBlockedReason : Option String := none

/-- `outcomes k` is what the `k`-th command that is executed returns. -/
def runRuntimeVerificationSurfaceV1 (input : Option ExecutionPacketV1) (options : RunOptions)
    (outcomes : Nat → RuntimeVerificationCommandResultV1) :
    Option RuntimeVerificationSurfaceV1 := do
  let planned ← buildRuntimeVerificationSurfaceV1 control input
  if control.mode ≠ .execute ∨ planned.requestCount = 0 then return planned
  let reason := options.executionBlockedReason.getD "runtime_verifier_execution_blocked"
  if options.allowExecution = false then
    buildSurface control
      { requests := planned.requests
        blockedRequests := planned.requests.map (blockRequest reason)
        executionBlockedReason := some reason }
  else do
    let executable := executableRequests control planned.requests
    let results ← executable.zipIdx.mapM fun r =>
      runRuntimeVerifierCommandV1 control (outcomes r.2) r.1
    buildSurface control
      { requests := planned.requests
        executableRequests := executable
        blockedRequests := blockedRequests control planned.requests
        results }

end Surface

/-! ## Ready surfaces -/

theorem aggregateValidationPassed_eq_true {requests : List RuntimeVerificationRequestV1}
    {results : List RuntimeVerificationResultV1} :
    aggregateValidationPassed requests results = some true ↔
      (∀ r ∈ results, r.commandResult.success = true) ∧ requests ≠ [] ∧
        requests.length ≤ results.length := by
  unfold aggregateValidationPassed
  by_cases hf : (results.any fun r => !r.commandResult.success) = true
  · rw [if_pos hf]
    obtain ⟨r, hr, hs⟩ := List.any_eq_true.1 hf
    refine iff_of_false (by simp) fun h => ?_
    simp [h.1 r hr] at hs
  · have hall : ∀ r ∈ results, r.commandResult.success = true := by simpa using hf
    rw [if_neg hf]
    by_cases hn : requests = []
    · simp [hn]
    · by_cases hl : results.length < requests.length
      · simp [hn, hl]
      · rw [if_neg hn, if_neg hl]
        exact iff_of_true rfl ⟨hall, hn, Nat.le_of_not_lt hl⟩

/-- On parsed requests and results the aggregate reports their joint verdicts. -/
theorem aggregate_flags {requests : List RuntimeVerificationRequestV1}
    {results : List RuntimeVerificationResultV1} {claimed : Bool} {reasons : List String}
    {e : RuntimeVerifierExecutionEvidenceV1} (hq : ∀ r ∈ requests, r.parse = some r)
    (hr : ∀ r ∈ results, r.parse = some r)
    (h : buildRuntimeVerifierAggregateExecutionEvidenceV1 requests results claimed reasons =
      some (some e)) :
    ¬ (requests = [] ∧ results = []) ∧
      e.validationPassed = aggregateValidationPassed requests results ∧
      e.afterExitRevalidated = allRequestedResultsSatisfied requests results (·.afterAgentExit) ∧
      e.freshShellProbePassed = allRequestedResultsSatisfied requests results (·.freshShell) := by
  unfold buildRuntimeVerifierAggregateExecutionEvidenceV1 at h
  rw [mapM_eq_self hq, mapM_eq_self hr] at h
  simp only [Option.bind_eq_bind, Option.bind_some, Option.pure_def] at h
  split at h
  · cases h
  · next hsome =>
    obtain ⟨e', he', h⟩ := Option.bind_eq_some_iff.1 h
    obtain rfl := Option.some.inj (Option.some.inj h)
    rw [(RuntimeVerifierExecutionEvidenceV1.parse_eq_some.1 he').2.2]
    exact ⟨hsome, rfl, rfl, rfl⟩

section Ready

variable {control : RuntimeVerificationControlV1} {parts : SurfaceParts}
  {s : RuntimeVerificationSurfaceV1} {requests : List RuntimeVerificationRequestV1}

theorem buildSurface_eq_some (h : buildSurface control parts = some s) :
    ∃ evidence, evidenceForTrustGate control parts = some evidence ∧
      s.requestCount = parts.requests.length ∧ s.requests = parts.requests ∧
      s.results = parts.results ∧ s.agentLifecycleState = control.agentLifecycleState ∧
      s.summary.authoritativeEvidenceReady = authoritativeEvidenceReady parts evidence := by
  unfold buildSurface at h
  simp only [Option.bind_eq_bind, Option.bind_eq_some_iff, Option.pure_def, Option.some.injEq,
    guard_eq_some] at h
  obtain ⟨evidence, hev, summary, hsum, _, _, rfl⟩ := h
  refine ⟨evidence, hev, rfl, rfl, rfl, rfl, ?_⟩
  unfold buildRuntimeVerificationSummary at hsum
  dsimp only at hsum
  split at hsum
  · obtain rfl := Option.some.inj hsum
    rfl
  · cases hsum

/-- A surface is ready only with a result for each request, all of them successful, and none
blocked. -/
theorem buildSurface_ready (hq : ∀ r ∈ parts.requests, r.parse = some r)
    (hr : ∀ r ∈ parts.results, r.parse = some r) (h : buildSurface control parts = some s)
    (hready : s.summary.authoritativeEvidenceReady = true) :
    parts.blockedRequests = [] ∧ (∀ r ∈ parts.results, r.commandResult.success = true) ∧
      parts.requests ≠ [] ∧ parts.requests.length ≤ parts.results.length := by
  obtain ⟨evidence, hev, -, -, -, -, hs⟩ := buildSurface_eq_some h
  rw [hs] at hready
  cases evidence with
  | none => simp [authoritativeEvidenceReady] at hready
  | some e =>
    simp only [authoritativeEvidenceReady, Bool.and_eq_true, decide_eq_true_eq,
      List.isEmpty_iff] at hready
    unfold evidenceForTrustGate at hev
    split at hev
    · cases hev
    · rw [← aggregateValidationPassed_eq_true, ← (aggregate_flags hq hr hev).2.1]
      exact ⟨hready.2, hready.1.1.1.1⟩

theorem buildSurface_not_ready (hres : parts.results = [])
    (h : buildSurface control parts = some s) :
    s.summary.authoritativeEvidenceReady = false := by
  obtain ⟨evidence, hev, -, -, -, -, hs⟩ := buildSurface_eq_some h
  rw [evidenceForTrustGate, if_pos hres] at hev
  obtain rfl := Option.some.inj hev
  exact hs

theorem plannedRequests_parse {input : Option ExecutionPacketV1}
    (h : plannedRequests control input = some requests) : ∀ r ∈ requests, r.parse = some r := by
  intro r hr
  unfold plannedRequests at h
  cases input with
  | none => obtain rfl := Option.some.inj h; simp at hr
  | some packet =>
    dsimp only at h
    split at h
    · obtain rfl := Option.some.inj h; simp at hr
    · obtain ⟨built, -, h⟩ := Option.bind_eq_some_iff.1 h
      obtain ⟨q, -, hq⟩ := exists_left_of_forall₂ (mapM_eq_some.1 h) hr
      exact RuntimeVerificationRequestV1.parse_parse hq

theorem runRuntimeVerifierCommandV1_eq_some {outcome : RuntimeVerificationCommandResultV1}
    {request : RuntimeVerificationRequestV1} {result : RuntimeVerificationResultV1}
    (hq : request.parse = some request)
    (h : runRuntimeVerifierCommandV1 control outcome request = some result) :
    result.request = request ∧ result.parse = some result := by
  unfold runRuntimeVerifierCommandV1 at h
  simp only [hq, Option.bind_eq_bind, Option.bind_some] at h
  obtain ⟨hreq, -, hp⟩ := buildRuntimeVerificationResultV1_eq_some hq h
  exact ⟨hreq, hp⟩

theorem results_of_mapM {results : List RuntimeVerificationResultV1}
    {outcomes : Nat → RuntimeVerificationCommandResultV1} (hq : ∀ r ∈ requests, r.parse = some r)
    (h : (requests.zipIdx.mapM fun r =>
      runRuntimeVerifierCommandV1 control (outcomes r.2) r.1) = some results) :
    List.Forall₂ (fun r res => res.request = r) requests results ∧
      ∀ res ∈ results, res.parse = some res := by
  have hall := mapM_eq_some.1 h
  have hmem : ∀ p ∈ requests.zipIdx, p.1 ∈ requests := by
    rintro ⟨r, k⟩ hp
    exact (List.mem_zipIdx' hp).2 ▸ List.getElem_mem _
  constructor
  · have hzip : List.Forall₂ (fun p res => res.request = p.1) requests.zipIdx results := by
      refine List.Forall₂.imp (fun p res hp => ?_)
        ((List.forall₂_and_left requests.zipIdx results).2 ⟨hmem, hall⟩)
      exact (runRuntimeVerifierCommandV1_eq_some (hq _ hp.1) hp.2).1
    rw [← List.zipIdx_map_fst 0 requests, List.forall₂_map_left_iff]
    exact hzip
  · intro res hres
    obtain ⟨p, hp, hrun⟩ := exists_left_of_forall₂ hall hres
    exact (runRuntimeVerifierCommandV1_eq_some (hq _ (hmem p hp)) hrun).2

theorem blockedRequests_eq_nil :
    blockedRequests control requests = [] ↔ ∀ r ∈ requests, isBlocked control r = false := by
  simp [blockedRequests, List.filter_eq_nil_iff]

/-- What a ready surface of a run is made of: no planned request is blocked and each has a
successful result. -/
theorem run_ready {input : Option ExecutionPacketV1} {options : RunOptions}
    {outcomes : Nat → RuntimeVerificationCommandResultV1}
    (h : runRuntimeVerificationSurfaceV1 control input options outcomes = some s)
    (hready : s.summary.authoritativeEvidenceReady = true) :
    s.agentLifecycleState = control.agentLifecycleState ∧
      ∃ requests, plannedRequests control input = some requests ∧
        (∀ r ∈ requests, isBlocked control r = false) ∧
        List.Forall₂ (fun r res => res.request = r) requests s.results ∧
        ∀ res ∈ s.results, res.commandResult.success = true := by
  unfold runRuntimeVerificationSurfaceV1 at h
  obtain ⟨planned, hplanned, h⟩ := Option.bind_eq_some_iff.1 h
  obtain ⟨requests, hreqs, hplanned⟩ := Option.bind_eq_some_iff.1 hplanned
  obtain ⟨-, -, -, hpr, -, -, -⟩ := buildSurface_eq_some hplanned
  have hparse := plannedRequests_parse hreqs
  have hidle := buildSurface_not_ready rfl hplanned
  dsimp only at h
  split at h
  · obtain rfl := Option.some.inj h
    simp [hidle] at hready
  · split at h
    · rw [buildSurface_not_ready rfl h] at hready
      cases hready
    · obtain ⟨results, hresults, h⟩ := Option.bind_eq_some_iff.1 h
      dsimp only at hpr
      rw [hpr] at hresults h
      obtain ⟨-, -, -, -, hsr, hsa, -⟩ := buildSurface_eq_some h
      have hexec : ∀ r ∈ executableRequests control requests, r.parse = some r :=
        fun r hr => hparse r (List.mem_filter.1 hr).1
      obtain ⟨hforall, hres⟩ := results_of_mapM hexec hresults
      obtain ⟨hblocked, hsucc, -, -⟩ := buildSurface_ready hparse hres h hready
      have hnone := blockedRequests_eq_nil.1 hblocked
      have hall : executableRequests control requests = requests :=
        List.filter_eq_self.2 fun r hr => by simp [hnone r hr]
      rw [hall] at hforall
      exact ⟨hsa, requests, hreqs, hnone, hsr ▸ hforall, hsr ▸ hsucc⟩

end Ready

/-! ## The commands of a packet -/

section Commands

variable (packet : ExecutionPacketV1)

/-- Every command the packet asks to verify, repeated ones included. -/
def listedCommands (includePending : Bool) : List String :=
  packet.serviceLifecycleConstraints.flatMap (·.healthChecks) ++
    if includePending then packet.pendingValidations else []

/-- The first constraint that lists the command must survive the agent's exit. -/
def firstListingSurvives (command : String) : Bool :=
  (packet.serviceLifecycleConstraints.find? (command ∈ ·.healthChecks)).any
    (·.mustSurviveAgentExit)

variable (options : RequestOptions)

theorem packetRequests_commands :
    (packetRequests packet options).map (·.command) =
      listedCommands packet options.includePendingValidations := by
  have hcs : ∀ (cs : List ServiceLifecycleConstraintV1) (n : Nat),
      ((cs.zipIdx n).flatMap fun c => c.1.healthChecks.zipIdx.map fun h =>
        healthCheckRequest packet options c.1 c.2 h.1 h.2).map (·.command) =
      cs.flatMap (·.healthChecks) := by
    intro cs
    induction cs with
    | nil => simp
    | cons c cs ih =>
      intro n
      rw [List.zipIdx_cons, List.flatMap_cons, List.map_append, ih, List.flatMap_cons,
        List.map_map]
      exact congrArg (· ++ _) (List.zipIdx_map_fst 0 c.healthChecks)
  rw [packetRequests, List.map_append, hcs, listedCommands]
  split
  · rw [List.map_map]
    exact congrArg (_ ++ ·) (List.zipIdx_map_fst 0 packet.pendingValidations)
  · simp

/-- Within one constraint all requests wait for the agent's exit, or none does. -/
theorem find?_healthChecks (con : ServiceLifecycleConstraintV1) (i : Nat) (command : String) :
    ((con.healthChecks.zipIdx.map fun h => healthCheckRequest packet options con i h.1 h.2).find?
        (·.command = command)).map (·.afterAgentExit) =
      if command ∈ con.healthChecks then some con.mustSurviveAgentExit else none := by
  rw [List.find?_map, Option.map_map]
  split
  · next hmem =>
    rw [← List.zipIdx_map_fst 0 con.healthChecks, List.mem_map] at hmem
    obtain ⟨h, hh, rfl⟩ := hmem
    cases hf : con.healthChecks.zipIdx.find? ((fun r => decide (r.command = h.1)) ∘
        fun h => healthCheckRequest packet options con i h.1 h.2) with
    | none =>
      rw [List.find?_eq_none] at hf
      have hne := hf h hh
      simp only [Function.comp_apply, decide_eq_true_eq] at hne
      exact absurd rfl hne
    | some k => rfl
  · next hmem =>
    rw [Option.map_eq_none_iff, List.find?_eq_none]
    rintro ⟨h, k⟩ hh
    have hin : h ∈ con.healthChecks := (List.mem_zipIdx' hh).2 ▸ List.getElem_mem _
    simp only [Function.comp_apply, decide_eq_true_eq]
    exact fun he => hmem (he ▸ hin)

theorem find?_constraints (command : String) : ∀ (cs : List ServiceLifecycleConstraintV1) (n : Nat),
    (((cs.zipIdx n).flatMap fun c => c.1.healthChecks.zipIdx.map fun h =>
        healthCheckRequest packet options c.1 c.2 h.1 h.2).find?
        (·.command = command)).map (·.afterAgentExit) =
      (cs.find? (command ∈ ·.healthChecks)).map (·.mustSurviveAgentExit)
  | [], _ => rfl
  | c :: cs, n => by
    have hc := find?_healthChecks packet options c n command
    rw [List.zipIdx_cons, List.flatMap_cons, List.find?_append, Option.map_or, hc,
      find?_constraints command cs (n + 1)]
    by_cases hmem : command ∈ c.healthChecks
    · rw [List.find?_cons_of_pos (by simpa using hmem), if_pos hmem]
      rfl
    · rw [List.find?_cons_of_neg (by simpa using hmem), if_neg hmem]
      rfl

/-- The request kept for a command waits for the agent's exit if the first constraint that lists
it does. -/
theorem afterAgentExit_of_mem_firstBy {r : RuntimeVerificationRequestV1}
    (h : r ∈ firstBy (·.command) (packetRequests packet options)) :
    r.afterAgentExit = firstListingSurvives packet r.command := by
  rw [mem_firstBy, packetRequests, List.find?_append] at h
  have hcs := find?_constraints packet options r.command packet.serviceLifecycleConstraints 0
  cases hf : packet.serviceLifecycleConstraints.find? (r.command ∈ ·.healthChecks) with
  | some con =>
    rw [hf] at hcs
    obtain ⟨k, hk, hafter⟩ := Option.map_eq_some_iff.1 hcs
    rw [hk] at h
    obtain rfl := Option.some.inj h
    rw [firstListingSurvives, hf, hafter]
    rfl
  | none =>
    rw [hf, Option.map_none, Option.map_eq_none_iff] at hcs
    rw [hcs, Option.none_or] at h
    have hmem := List.mem_of_find?_eq_some h
    rw [firstListingSurvives, hf, Option.any_none]
    split at hmem
    · obtain ⟨v, -, rfl⟩ := List.mem_map.1 hmem
      rfl
    · simp at hmem

/-- The commands a surface keeps: the distinct ones, cut to `maxRequests`. -/
def keptCommands (control : RuntimeVerificationControlV1) : List String :=
  (firstBy id (listedCommands packet control.includePendingValidations)).take control.maxRequests

/-- The planned requests are those of the kept commands, trimmed. -/
theorem exists_plannedRequest {control : RuntimeVerificationControlV1}
    {requests : List RuntimeVerificationRequestV1} (hmode : control.mode ≠ .off)
    (h : plannedRequests control (some packet) = some requests) {x : String} {P : Bool → Prop} :
    (∃ r ∈ requests, r.command = x ∧ P r.afterAgentExit) ↔
      ∃ c ∈ keptCommands packet control, trim c = x ∧ P (firstListingSurvives packet c) := by
  rw [plannedRequests, if_neg hmode] at h
  obtain ⟨built, hbuilt, hcwd⟩ := Option.bind_eq_some_iff.1 h
  have hkept : keptCommands packet control = ((firstBy (·.command) (packetRequests packet
      { includePendingValidations := control.includePendingValidations
        validationBoundary := control.validationBoundary
        timeoutMs := control.timeoutMs })).take control.maxRequests).map (·.command) := by
    rw [List.map_take, map_firstBy, packetRequests_commands, keptCommands]
  have hfirst := List.forall₂_take control.maxRequests (mapM_eq_some.1 hbuilt)
  have hsecond := mapM_eq_some.1 hcwd
  -- a request is parsed twice: on its own, and with the working directory of the control
  have hparse : ∀ {k q r : RuntimeVerificationRequestV1}, k.parse = some q →
      RuntimeVerificationRequestV1.parse { q with cwd := control.cwd <|> q.cwd } = some r →
      r.command = trim k.command ∧ r.afterAgentExit = k.afterAgentExit := by
    intro k q r hk hq
    obtain ⟨hkc, hka⟩ := RuntimeVerificationRequestV1.parse_command hk
    obtain ⟨hqc, hqa⟩ := RuntimeVerificationRequestV1.parse_command hq
    exact ⟨by rw [hqc, hkc, trim_trim], by rw [hqa, hka]⟩
  constructor
  · rintro ⟨r, hr, rfl, hP⟩
    obtain ⟨q, hq, hqr⟩ := exists_left_of_forall₂ hsecond hr
    obtain ⟨k, hk, hkq⟩ := exists_left_of_forall₂ hfirst hq
    obtain ⟨hc, ha⟩ := hparse hkq hqr
    refine ⟨k.command, hkept ▸ List.mem_map_of_mem hk, hc.symm, ?_⟩
    rwa [← afterAgentExit_of_mem_firstBy packet _ (List.mem_of_mem_take hk), ← ha]
  · rintro ⟨c, hc, rfl, hP⟩
    rw [hkept] at hc
    obtain ⟨k, hk, rfl⟩ := List.mem_map.1 hc
    obtain ⟨q, hq, hkq⟩ := exists_right_of_forall₂ hfirst hk
    obtain ⟨r, hr, hqr⟩ := exists_right_of_forall₂ hsecond hq
    obtain ⟨hc, ha⟩ := hparse hkq hqr
    refine ⟨r, hr, hc, ?_⟩
    rwa [ha, afterAgentExit_of_mem_firstBy packet _ (List.mem_of_mem_take hk)]

end Commands

/-! ## What readiness vouches for -/

/-- The command ran and succeeded; commands run trimmed. -/
def Verified (s : RuntimeVerificationSurfaceV1) (command : String) : Prop :=
  ∃ res ∈ s.results, res.request.command = trim command ∧ res.commandResult.success = true

/-- The command ran after the agent was confirmed to have exited. -/
def VerifiedAfterExit (s : RuntimeVerificationSurfaceV1) (command : String) : Prop :=
  ∃ res ∈ s.results, res.request.command = trim command ∧ res.request.afterAgentExit = true ∧
    s.agentLifecycleState = .agentExited

/-- What a ready surface is read as. -/
structure VouchesFor (packet : ExecutionPacketV1) (includePending : Bool)
    (s : RuntimeVerificationSurfaceV1) : Prop where
  healthChecks : ∀ c ∈ packet.serviceLifecycleConstraints, ∀ h ∈ c.healthChecks, Verified s h
  pending : includePending = true → ∀ v ∈ packet.pendingValidations, Verified s v
  survivors : ∀ c ∈ packet.serviceLifecycleConstraints, c.mustSurviveAgentExit = true →
    ∀ h ∈ c.healthChecks, VerifiedAfterExit s h

/-- Every listed command is among those kept, and a check that must survive the agent's exit is
kept under a constraint that says so. -/
structure KeepsAll (packet : ExecutionPacketV1) (control : RuntimeVerificationControlV1) :
    Prop where
  listed : ∀ c ∈ listedCommands packet control.includePendingValidations,
    ∃ k ∈ keptCommands packet control, trim k = trim c
  survivors : ∀ c ∈ packet.serviceLifecycleConstraints, c.mustSurviveAgentExit = true →
    ∀ h ∈ c.healthChecks, ∃ k ∈ keptCommands packet control,
      trim k = trim h ∧ firstListingSurvives packet k = true

section Ready

variable {packet : ExecutionPacketV1} {control : RuntimeVerificationControlV1}
  {options : RunOptions} {outcomes : Nat → RuntimeVerificationCommandResultV1}
  {s : RuntimeVerificationSurfaceV1}

/-- A ready surface vouches for the packet exactly when the requests kept cover it. -/
theorem ready_vouchesFor_iff (hmode : control.mode = .execute)
    (hrun : runRuntimeVerificationSurfaceV1 control (some packet) options outcomes = some s)
    (hready : s.summary.authoritativeEvidenceReady = true) :
    VouchesFor packet control.includePendingValidations s ↔ KeepsAll packet control := by
  obtain ⟨hstate, requests, hreqs, hblocked, hres, hsucc⟩ := run_ready hrun hready
  have hoff : control.mode ≠ .off := by rw [hmode]; decide
  have hverified : ∀ c, Verified s c ↔ ∃ k ∈ keptCommands packet control, trim k = trim c := by
    intro c
    have hk := exists_plannedRequest packet hoff hreqs (x := trim c) (P := fun _ => True)
    simp only [and_true] at hk
    rw [← hk]
    constructor
    · rintro ⟨res, hmem, hc, -⟩
      obtain ⟨r, hr, rfl⟩ := exists_left_of_forall₂ hres hmem
      exact ⟨_, hr, hc⟩
    · rintro ⟨r, hr, hc⟩
      obtain ⟨res, hmem, rfl⟩ := exists_right_of_forall₂ hres hr
      exact ⟨res, hmem, hc, hsucc res hmem⟩
  have hafter : ∀ c, VerifiedAfterExit s c ↔ ∃ k ∈ keptCommands packet control,
      trim k = trim c ∧ firstListingSurvives packet k = true := by
    intro c
    rw [← exists_plannedRequest packet hoff hreqs (x := trim c) (P := (· = true))]
    constructor
    · rintro ⟨res, hmem, hc, ha, -⟩
      obtain ⟨r, hr, rfl⟩ := exists_left_of_forall₂ hres hmem
      exact ⟨_, hr, hc, ha⟩
    · rintro ⟨r, hr, hc, ha⟩
      obtain ⟨res, hmem, rfl⟩ := exists_right_of_forall₂ hres hr
      refine ⟨res, hmem, hc, ha, ?_⟩
      -- the request waits for the exit and was not blocked
      simpa [isBlocked, ha, hstate] using hblocked _ hr
  constructor
  · rintro ⟨hchecks, hpending, hsurv⟩
    refine ⟨fun c hc => ?_, fun c hc hm h hh => (hafter h).1 (hsurv c hc hm h hh)⟩
    rw [← hverified]
    rcases List.mem_append.1 hc with hc | hc
    · obtain ⟨con, hcon, hin⟩ := List.mem_flatMap.1 hc
      exact hchecks con hcon c hin
    · split at hc
      · next hp => exact hpending hp c hc
      · simp at hc
  · rintro ⟨hlisted, hsurv⟩
    refine ⟨fun c hc h hh => (hverified h).2 (hlisted h ?_), fun hp v hv =>
      (hverified v).2 (hlisted v ?_), fun c hc hm h hh => (hafter h).2 (hsurv c hc hm h hh)⟩
    · exact List.mem_append_left _ (List.mem_flatMap.2 ⟨c, hc, hh⟩)
    · rw [listedCommands, hp]
      exact List.mem_append_right _ hv

end Ready

/-- Two constraints with one health check; only the second must survive the agent's exit. -/
def sharedCheckPacket : ExecutionPacketV1 where
  stateId := "s"
  serviceLifecycleConstraints :=
    [{ label := "web", healthChecks := ["c"] },
     { label := "job", mustSurviveAgentExit := true, healthChecks := ["c"] }]

def executeControl : RuntimeVerificationControlV1 := { mode := .execute }

def passed : RuntimeVerificationCommandResultV1 :=
  { exitCode := some 0, timedOut := false, success := true }

theorem sharedCheck_run : (runRuntimeVerificationSurfaceV1 executeControl
    (some sharedCheckPacket) {} fun _ => passed).map (fun s =>
      (s.summary.authoritativeEvidenceReady, s.agentLifecycleState)) = some (true, .unknown) := by
  decide +kernel

theorem ready_vouchesFor_iff_sharedCheck : ∃ s,
    runRuntimeVerificationSurfaceV1 executeControl (some sharedCheckPacket) {}
      (fun _ => passed) = some s ∧
    (VouchesFor sharedCheckPacket executeControl.includePendingValidations s ↔
      KeepsAll sharedCheckPacket executeControl) := by
  obtain ⟨s, hs, hread⟩ := Option.map_eq_some_iff.1 sharedCheck_run
  exact ⟨s, hs, ready_vouchesFor_iff rfl hs (Prod.mk.inj hread).1⟩

/-- The surface is ready although the check that must survive the agent's exit never ran after
it: the agent is not even known to have exited. -/
theorem ready_without_exit : ∃ s,
    runRuntimeVerificationSurfaceV1 executeControl (some sharedCheckPacket) {}
      (fun _ => passed) = some s ∧
    s.summary.authoritativeEvidenceReady = true ∧ s.agentLifecycleState = .unknown ∧
    ¬ VouchesFor sharedCheckPacket executeControl.includePendingValidations s := by
  obtain ⟨s, hs, hread⟩ := Option.map_eq_some_iff.1 sharedCheck_run
  obtain ⟨hready, hstate⟩ := Prod.mk.inj hread
  refine ⟨s, hs, hready, hstate, fun h => ?_⟩
  obtain ⟨res, -, -, -, hexit⟩ := h.survivors
    { label := "job", mustSurviveAgentExit := true, healthChecks := ["c"] }
    (by decide) rfl "c" (by decide)
  rw [hstate] at hexit
  cases hexit

end AionisCore.Execution
