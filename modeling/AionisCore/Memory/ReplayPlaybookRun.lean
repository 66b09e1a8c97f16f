import AionisCore.Memory.Replay
import AionisCore.Memory.ReplayRunGates

/-!
# The run of a playbook

`replayPlaybookRun` after its playbook was found: the checks that end with a configuration,
and the loop over the steps. Each step either stops at a gate or hands its command to an
executor, is recorded, and changes the counters. What the executors and the machine answer
to a step, and what recording it does, are given. The patches of guided repairs, the results'
summaries and the recorded output signatures are left out.
-/

namespace AionisCore.Memory

open Lib Lib.JsString

/-! ## Configuration -/

inductive ReplayGuidedRepairStrategy where
  | deterministicSkip
  | heuristicPatch
  | httpSynth
  | builtinLlm
  deriving DecidableEq, Repr

def ReplayGuidedRepairStrategy.ofName? : String → Option ReplayGuidedRepairStrategy
  | "deterministic_skip" => some .deterministicSkip
  | "heuristic_patch" => some .heuristicPatch
  | "http_synth" => some .httpSynth
  | "builtin_llm" => some .builtinLlm
  | _ => none

structure ReplayLocalExecutorOptions where
  enabled : Bool
  localProcess : Bool
  allowedCommands : List String

/-- The options of the server. `sandboxBudgetGuard` is what the guard answers, where there is
one. -/
structure ReplayPlaybookRunOptions where
  localExecutor : Option ReplayLocalExecutorOptions := none
  sandboxExecutor : Bool := false
  writeOptions : Bool := true
  guidedRepairStrategy : ReplayGuidedRepairStrategy := .deterministicSkip
  allowRequestBuiltinLlm : Bool := false
  sandboxBudgetGuard : Except RequestError Unit := .ok ()

/-- The request, and what the run takes from the playbook's row. -/
structure ReplayPlaybookRunInput where
  requestedMode : ReplayRunMode
  deterministicGate : Option Json := none
  params : Json.Fields := []
  playbookStatus : Option String
  slots : Json.Fields
  maxSteps : Nat := 200

/-- `steps_template`, cut off. -/
def ReplayPlaybookRunInput.stepsRaw (input : ReplayPlaybookRunInput) : List Json :=
  ((Json.asArray (Json.get input.slots "steps_template")).getD []).take input.maxSteps

def ReplayPlaybookRunInput.gate (stableJson : Json → String) (input : ReplayPlaybookRunInput) :
    ReplayDeterministicGateEvaluation :=
  evaluateReplayDeterministicGate stableJson input.requestedMode input.deterministicGate
    input.playbookStatus input.slots

def ReplayPlaybookRunInput.flag (input : ReplayPlaybookRunInput) (name : String) : Bool :=
  Json.get input.params name = some (.bool true)

def ReplayPlaybookRunInput.text (input : ReplayPlaybookRunInput) (name : String) : Option String :=
  Store.toStringOrNull (Json.get input.params name)

def ReplayPlaybookRunInput.requestedCommands (input : ReplayPlaybookRunInput) : List String :=
  asStringArray (Json.get input.params "allowed_commands")

def ReplayPlaybookRunInput.backend (input : ReplayPlaybookRunInput) : ReplayExecutionBackend :=
  normalizeReplayExecutionBackend (input.text "execution_backend")

structure ReplayRunConfig where
  mode : ReplayRunMode
  backend : ReplayExecutionBackend
  sensitiveReviewMode : ReplaySensitiveReviewMode
  allowSensitiveExec : Bool
  allowedCommands : List String
  guidedRepairStrategy : ReplayGuidedRepairStrategy
  autoConfirm : Bool
  stopOnFailure : Bool
  recordRun : Bool

def ReplayExecutionBackend.name : ReplayExecutionBackend → String
  | .localProcess => "local_process"
  | .sandboxSync => "sandbox_sync"
  | .sandboxAsync => "sandbox_async"

section Config

variable (stableJson : Json → String) (opts : ReplayPlaybookRunOptions)
  (input : ReplayPlaybookRunInput)

def serverCommands : List String := (opts.localExecutor.map (·.allowedCommands)).getD []

/-- The commands of the server that the request names, or all where it names none. -/
def replayAllowedCommands : List String :=
  (serverCommands opts).filter fun cmd =>
    input.requestedCommands.isEmpty || isAllowedReplayCommand cmd input.requestedCommands

def backendDetails : Option Json.Fields :=
  some [("execution_backend", .str input.backend.name)]

/-- The executor of the request is there. -/
def checkReplayExecutor : Except RequestError Unit :=
  if input.backend = .localProcess then
    if (opts.localExecutor.any fun e => e.enabled && e.localProcess) then .ok ()
    else .error ⟨400, "replay_executor_not_enabled",
      "strict/guided replay with local_process requires SANDBOX_ENABLED=true and " ++
        "SANDBOX_EXECUTOR_MODE=local_process.", backendDetails input⟩
  else if opts.sandboxExecutor then .ok ()
  else .error ⟨400, "replay_sandbox_executor_not_enabled",
    "sandbox replay backend is not configured on this deployment", backendDetails input⟩

def replayRepairStrategy : Except RequestError ReplayGuidedRepairStrategy :=
  let requested := (input.text "guided_repair_strategy").bind ReplayGuidedRepairStrategy.ofName?
  if requested = some .builtinLlm ∧ opts.guidedRepairStrategy ≠ .builtinLlm ∧
      !opts.allowRequestBuiltinLlm then
    .error ⟨400, "replay_guided_repair_strategy_not_allowed",
      "params.guided_repair_strategy=builtin_llm is not allowed by server policy", none⟩
  else .ok (requested.getD opts.guidedRepairStrategy)

def checkReplayBudget : Except RequestError Unit :=
  if input.backend = .localProcess then .ok () else opts.sandboxBudgetGuard

/-- The checks before the first step: `none` is a simulation. -/
def replayRunConfig : Except RequestError (Option ReplayRunConfig) := do
  let gate := input.gate stableJson
  if gate.decision = .rejected then
    throw ⟨409, "replay_deterministic_gate_mismatch",
      "deterministic replay gate did not match the selected playbook version", none⟩
  else if gate.effectiveMode = .simulate then return none
  else if input.backend = .sandboxAsync ∧ gate.effectiveMode = .strict then
    throw ⟨400, "replay_strict_async_not_supported",
      "strict replay does not support async sandbox execution; use sandbox_sync or local_process.",
      backendDetails input⟩
  else
    checkReplayExecutor opts input
    if !opts.writeOptions then
      throw ⟨500, "replay_run_write_options_missing",
        "strict/guided replay requires write options wiring.", none⟩
    else if !input.flag "allow_local_exec" then
      throw ⟨400, "replay_local_exec_consent_required",
        "strict/guided replay requires params.allow_local_exec=true as explicit execution consent.",
        backendDetails input⟩
    else if replayAllowedCommands opts input = [] then
      throw ⟨400, "replay_allowed_commands_empty",
        "No allowed commands remain for replay execution after allowlist filtering.",
        some [("requested_commands", .arr (input.requestedCommands.map .str))]⟩
    else
      let guidedRepairStrategy ← replayRepairStrategy opts input
      checkReplayBudget opts input
      return some {
        mode := gate.effectiveMode
        backend := input.backend
        sensitiveReviewMode :=
          normalizeReplaySensitiveReviewMode (input.text "sensitive_review_mode")
        allowSensitiveExec := input.flag "allow_sensitive_exec"
        allowedCommands := replayAllowedCommands opts input
        guidedRepairStrategy
        autoConfirm := input.flag "auto_confirm"
        stopOnFailure := Json.get input.params "stop_on_failure" ≠ some (.bool false)
        recordRun := Json.get input.params "record_run" ≠ some (.bool false) }

end Config

/-! ## Steps -/

/-- The fields of a step of the template. -/
def replayStepObj (step : Json) : Json.Fields := (Json.asRecord (some step)).getD []

section TemplateStep

variable (stepObj : Json.Fields)

/-- `Number(step_index ?? 0) || null`. -/
def replayStepIndex (host : RuleHost) : Option JsNumber :=
  match host.numberOf (Json.orElse (Json.get stepObj "step_index") (some (.num 0))) with
  | .nan => none
  | .finite q => if q = 0 then none else some (.finite q)
  | .infinity positive => some (.infinity positive)

def replayToolName : Option String := Store.toStringOrNull (Json.get stepObj "tool_name")

def replaySafetyLevel : String :=
  (Store.toStringOrNull (Json.get stepObj "safety_level")).getD "needs_confirm"

def replayExpectedSignature : Json :=
  (Json.orElse (Json.get stepObj "expected_output_signature") none).getD .null

def replayToolInput : Json :=
  (Json.orElse (Json.get stepObj "tool_input_template")
    (Json.orElse (Json.get stepObj "tool_input") none)).getD (.obj [])

/-- The conditions of a field, where it is an array. -/
def replayConditions (name : String) : List Json :=
  (Json.asArray (Json.get stepObj name)).getD []

def replayArgv : List String := parseStepArgv stepObj (replayToolName stepObj)

end TemplateStep

inductive ReplayStepStatus where
  | success
  | partly
  | failed
  deriving DecidableEq, Repr

structure ReplayStepReport where
  stepIndex : Option JsNumber
  toolName : Option String
  status : ReplayStepStatus
  readiness : ReplayReadiness
  preconditions : Option (List PreconditionResult) := none
  command : Option String := none
  argv : Option (List String) := none
  allowedCommands : Option (List String) := none
  sensitiveReview : Option ReplaySensitiveReview := none
  executionBackend : Option ReplayExecutionBackend := none
  sandboxRunId : Option String := none
  execution : Option LocalCommandOutcome := none
  signature : Option SignatureEvaluation := none
  postconditions : Option (List PreconditionResult) := none
  repairApplied : Bool := false
  pending : Bool := false
  error : Option String := none

structure ReplayRunCounters where
  executedSteps : Nat := 0
  succeededSteps : Nat := 0
  failedSteps : Nat := 0
  repairedSteps : Nat := 0
  blockedSteps : Nat := 0
  skippedSteps : Nat := 0
  pendingSteps : Nat := 0
  deriving DecidableEq, Repr

abbrev ReplayRunStepCounterDelta := ReplayRunCounters

def applyReplayRunStepDelta (counters : ReplayRunCounters) (delta : ReplayRunStepCounterDelta) :
    ReplayRunCounters where
  executedSteps := counters.executedSteps + delta.executedSteps
  succeededSteps := counters.succeededSteps + delta.succeededSteps
  failedSteps := counters.failedSteps + delta.failedSteps
  repairedSteps := counters.repairedSteps + delta.repairedSteps
  blockedSteps := counters.blockedSteps + delta.blockedSteps
  skippedSteps := counters.skippedSteps + delta.skippedSteps
  pendingSteps := counters.pendingSteps + delta.pendingSteps

/-- What is recorded before a step. -/
structure ReplayStepBeforeBody where
  stepIndex : JsNumber
  toolName : String
  toolInput : Json
  expectedOutputSignature : Json
  preconditions : List Json
  safetyLevel : String

/-- What is recorded of a step. -/
structure ReplayStepAfterBody where
  stepId : Option String
  stepIndex : Option JsNumber
  status : ReplayStepStatus
  postconditions : List PreconditionResult := []
  repairApplied : Bool := false
  repairNote : Option String := none
  error : Option String := none

structure ReplayHandledStepResult where
  report : ReplayStepReport
  delta : ReplayRunStepCounterDelta
  stop : Bool
  body : ReplayStepAfterBody

/-- The gate that stops a step. -/
structure ReplayStepGate where
  decision : ReplayRunGateDecision
  preconditions : Option (List PreconditionResult) := none
  countBlocked : Bool := false

/-- What the machine and the executors answer to a step. -/
structure ReplayWorld where
  before : ReplayMachine
  after : ReplayMachine
  executors : ReplayExecutors

section Step

variable (host : RuleHost) (cfg : ReplayRunConfig) (world : ReplayWorld) (stepId : Option String)
  (stepObj : Json.Fields)

def replayPreChecks : List PreconditionResult :=
  (replayConditions stepObj "preconditions").map (evaluatePrecondition host world.before)

/-- The first gate that does not let the step pass. -/
def replayStepGate : Option ReplayStepGate :=
  let preChecks := replayPreChecks host world stepObj
  let argv := replayArgv stepObj
  let command := commandOf argv
  ((resolveReplayPreconditionGate preChecks).map fun gate => ⟨gate, some preChecks, true⟩) <|>
  ((resolveReplayConfirmationGate (replaySafetyLevel stepObj) cfg.autoConfirm).map
    ({ decision := · })) <|>
  ((resolveReplayUnsupportedToolGate (replayToolName stepObj)).map ({ decision := · })) <|>
  ((resolveReplayCommandAllowlistGate argv cfg.allowedCommands).map ({ decision := · })) <|>
  ((resolveReplaySensitiveCommandGate command argv (detectSensitiveCommand command argv)
    cfg.sensitiveReviewMode cfg.allowSensitiveExec).map fun gate => ⟨gate, none, true⟩)

def handleReplayStrictGateStep (gate : ReplayStepGate) : ReplayHandledStepResult where
  report := {
    stepIndex := replayStepIndex stepObj host
    toolName := replayToolName stepObj
    status := .failed
    readiness := .blocked
    preconditions := gate.preconditions
    command := gate.decision.command
    allowedCommands := gate.decision.allowedCommands
    sensitiveReview := gate.decision.sensitiveReview
    error := some gate.decision.reason.name }
  delta := { failedSteps := 1, blockedSteps := if gate.countBlocked then 1 else 0 }
  stop := cfg.stopOnFailure
  body := {
    stepId
    stepIndex := replayStepIndex stepObj host
    status := .failed
    error := some gate.decision.reason.name }

def handleReplayGuidedGateStep (gate : ReplayStepGate) : ReplayHandledStepResult where
  report := {
    stepIndex := replayStepIndex stepObj host
    toolName := replayToolName stepObj
    status := .partly
    readiness := gate.decision.readiness
    preconditions := gate.preconditions
    command := gate.decision.command
    argv := gate.decision.sensitiveReview.map (·.argv)
    sensitiveReview := gate.decision.sensitiveReview
    repairApplied := true }
  delta := {
    repairedSteps := 1
    skippedSteps := 1
    blockedSteps := if gate.countBlocked then 1 else 0 }
  stop := false
  body := {
    stepId
    stepIndex := replayStepIndex stepObj host
    status := .partly
    repairApplied := true
    repairNote := some gate.decision.reason.name }

def handleReplayPendingStep (sandboxRunId : Option String) : ReplayHandledStepResult :=
  let guided := cfg.mode != .strict
  let status := if guided then ReplayStepStatus.partly else .failed
  { report := {
      stepIndex := replayStepIndex stepObj host
      toolName := replayToolName stepObj
      status
      readiness := .pending
      command := some (commandOf (replayArgv stepObj))
      argv := some (replayArgv stepObj)
      executionBackend := some cfg.backend
      sandboxRunId
      pending := true
      error := some "sandbox_async_execution_pending" }
    delta := {
      executedSteps := 1
      pendingSteps := 1
      repairedSteps := if guided then 1 else 0
      failedSteps := if guided then 0 else 1 }
    stop := !guided && cfg.stopOnFailure
    body := {
      stepId
      stepIndex := replayStepIndex stepObj host
      status
      repairApplied := guided
      repairNote := if guided then some "sandbox_async_execution_pending" else none
      error := if guided then none else some "sandbox_async_execution_pending" } }

/-- The review of a sensitive command that is executed all the same. -/
def replaySensitiveReviewInfo : Option ReplaySensitiveReview :=
  let argv := replayArgv stepObj
  let command := commandOf argv
  let sensitive := detectSensitiveCommand command argv
  if sensitive.sensitive then
    some { command, argv, reason := sensitive.reason, riskLevel := sensitive.riskLevel
           override := some (cfg.sensitiveReviewMode, cfg.allowSensitiveExec) }
  else none

/-- What the three reports on an executed step share. -/
def replayExecutionReport (sandboxRunId : Option String) (execution : LocalCommandOutcome)
    (signature : SignatureEvaluation) (postconditions : List PreconditionResult)
    (status : ReplayStepStatus) (readiness : ReplayReadiness) : ReplayStepReport where
  stepIndex := replayStepIndex stepObj host
  toolName := replayToolName stepObj
  status
  readiness
  command := some (commandOf (replayArgv stepObj))
  argv := some (replayArgv stepObj)
  executionBackend := some cfg.backend
  sandboxRunId
  sensitiveReview := replaySensitiveReviewInfo cfg stepObj
  execution := some execution
  signature := some signature
  postconditions := some postconditions

section Executed

variable (sandboxRunId : Option String) (execution : LocalCommandOutcome)
  (signature : SignatureEvaluation) (postconditions : List PreconditionResult)

def handleReplaySuccessStep : ReplayHandledStepResult where
  report := replayExecutionReport host cfg stepObj sandboxRunId execution signature postconditions
    .success .ready
  delta := { executedSteps := 1, succeededSteps := 1 }
  stop := false
  body := { stepId, stepIndex := replayStepIndex stepObj host, status := .success, postconditions }

def handleReplayStrictFailureStep : ReplayHandledStepResult :=
  let error := resolveReplayExecutionFailureReason execution
  { report := { replayExecutionReport host cfg stepObj sandboxRunId execution signature
      postconditions .failed .blocked with error := some error }
    delta := { executedSteps := 1, failedSteps := 1 }
    stop := cfg.stopOnFailure
    body := {
      stepId
      stepIndex := replayStepIndex stepObj host
      status := .failed
      postconditions
      error := some error } }

def handleReplayGuidedFailureStep : ReplayHandledStepResult :=
  let error := resolveReplayExecutionFailureReason execution
  { report := { replayExecutionReport host cfg stepObj sandboxRunId execution signature
      postconditions .partly .partly with repairApplied := true }
    delta := { executedSteps := 1, repairedSteps := 1 }
    stop := false
    body := {
      stepId
      stepIndex := replayStepIndex stepObj host
      status := .partly
      postconditions
      repairApplied := true
      repairNote := some error
      error := some error } }

end Executed

/-- A step whose command was handed to the executor. -/
def handleReplayExecutedStep (exec : ReplayCommandExecutionResult) : ReplayHandledStepResult :=
  match exec.outcome with
  | none => handleReplayPendingStep host cfg stepId stepObj exec.sandboxRunId
  | some outcome =>
    let signature := evaluateExpectedSignature host (replayExpectedSignature stepObj) outcome
    let postconditions := (replayConditions stepObj "postconditions").map
      (evaluatePostcondition host world.after outcome)
    if isReplayExecutionPassed outcome signature postconditions then
      handleReplaySuccessStep host cfg stepId stepObj exec.sandboxRunId outcome signature
        postconditions
    else if cfg.mode = .strict then
      handleReplayStrictFailureStep host cfg stepId stepObj exec.sandboxRunId outcome signature
        postconditions
    else
      handleReplayGuidedFailureStep host cfg stepId stepObj exec.sandboxRunId outcome signature
        postconditions

def handleReplayGateStep (gate : ReplayStepGate) : ReplayHandledStepResult :=
  if cfg.mode = .strict then handleReplayStrictGateStep host cfg stepId stepObj gate
  else handleReplayGuidedGateStep host stepId stepObj gate

end Step

/-! ## The loop -/

/-- The records of a run in a store `σ`: of its start, of its steps, where a step that is begun
gets an id, and of its end. -/
structure ReplayRecorder (σ : Type) where
  runStart : σ → ReplayRunConfig → Except RequestError σ
  stepBefore : σ → ReplayStepBeforeBody → Except RequestError (Option String × σ)
  stepAfter : σ → ReplayStepAfterBody → Except RequestError σ
  runEnd : σ → ReplayStepStatus → ReplayRunCounters → Except RequestError σ

inductive ReplayLoopStatus where
  | running
  | stopped
  | raised (error : RequestError)

/-- The run between two steps. `handed` are the commands handed to the executor, each with the
position of its step. -/
structure ReplayRunState (σ : Type) where
  store : σ
  counters : ReplayRunCounters := {}
  reports : List ReplayStepReport := []
  handed : List (Nat × List String) := []
  status : ReplayLoopStatus := .running

section Loop

variable {σ : Type} (host : RuleHost) (cfg : ReplayRunConfig) (recorder : ReplayRecorder σ)

/-- The step is begun: its id, where it is recorded. -/
def recordStepBefore (store : σ) (stepObj : Json.Fields) :
    Except RequestError (Option String × σ) :=
  match replayStepIndex stepObj host, replayToolName stepObj with
  | some stepIndex, some toolName =>
    if cfg.recordRun then
      recorder.stepBefore store {
        stepIndex
        toolName
        toolInput := replayToolInput stepObj
        expectedOutputSignature := replayExpectedSignature stepObj
        preconditions := replayConditions stepObj "preconditions"
        safetyLevel := replaySafetyLevel stepObj }
    else .ok (none, store)
  | _, _ => .ok (none, store)

def recordStepAfter (store : σ) (body : ReplayStepAfterBody) : Except RequestError σ :=
  if cfg.recordRun then recorder.stepAfter store body else .ok store

/-- The step is recorded, reported and counted. -/
def ReplayRunState.finish (s : ReplayRunState σ) (handled : ReplayHandledStepResult) :
    ReplayRunState σ :=
  match recordStepAfter cfg recorder s.store handled.body with
  | .error error => { s with status := .raised error }
  | .ok store =>
    { s with
      store
      reports := s.reports ++ [handled.report]
      counters := applyReplayRunStepDelta s.counters handled.delta
      status := if handled.stop then .stopped else .running }

/-- One step of a run that goes on. -/
def ReplayRunState.process (world : ReplayWorld) (s : ReplayRunState σ) (stepObj : Json.Fields) :
    ReplayRunState σ :=
  match recordStepBefore host cfg recorder s.store stepObj with
  | .error error => { s with status := .raised error }
  | .ok (stepId, store) =>
    match replayStepGate host cfg world stepObj with
    | some gate =>
      { s with store }.finish cfg recorder (handleReplayGateStep host cfg stepId stepObj gate)
    | none =>
      let argv := replayArgv stepObj
      let s := { s with store, handed := s.handed ++ [(s.reports.length, argv)] }
      match executeReplayCommand cfg.backend world.executors argv with
      | .error error => { s with status := .raised error }
      | .ok exec =>
        s.finish cfg recorder (handleReplayExecutedStep host cfg world stepId stepObj exec)

variable (worlds : Nat → ReplayWorld)

/-- `worlds` holds what is answered to the step of a position. -/
def ReplayRunState.step (s : ReplayRunState σ) (step : Json) : ReplayRunState σ :=
  match s.status with
  | .running =>
    s.process host cfg recorder (worlds s.reports.length) (replayStepObj step)
  | _ => s

def replaySteps (s : ReplayRunState σ) (steps : List Json) : ReplayRunState σ :=
  steps.foldl (ReplayRunState.step host cfg recorder worlds) s

/-- The status of the run. -/
def replayRunStatus (counters : ReplayRunCounters) : ReplayStepStatus :=
  if cfg.mode = .strict then if 0 < counters.failedSteps then .failed else .success
  else if 0 < counters.failedSteps then .failed
  else if 0 < counters.repairedSteps ∨ 0 < counters.skippedSteps then .partly
  else .success

def recordRunStart (store : σ) : Except RequestError σ :=
  if cfg.recordRun then recorder.runStart store cfg else .ok store

def recordRunEnd (store : σ) (counters : ReplayRunCounters) : Except RequestError σ :=
  if cfg.recordRun then recorder.runEnd store (replayRunStatus cfg counters) counters
  else .ok store

/-- The run with all its records, in the state in which it ends. -/
def replayRun (store : σ) (steps : List Json) : ReplayRunState σ :=
  match recordRunStart cfg recorder store with
  | .error error => { store, status := .raised error }
  | .ok store =>
    let s := replaySteps host cfg recorder worlds { store } steps
    match s.status with
    | .raised _ => s
    | _ =>
      match recordRunEnd cfg recorder s.store s.counters with
      | .error error => { s with status := .raised error }
      | .ok store => { s with store }

/-- What a run that returns has done is what its steps have done. -/
theorem replayRun_eq (store : σ) (steps : List Json) :
    (∃ error, recordRunStart cfg recorder store = .error error ∧
      replayRun host cfg recorder worlds store steps = { store, status := .raised error }) ∨
    ∃ start, recordRunStart cfg recorder store = .ok start ∧
      (replayRun host cfg recorder worlds store steps).handed =
        (replaySteps host cfg recorder worlds { store := start } steps).handed ∧
      (replayRun host cfg recorder worlds store steps).reports =
        (replaySteps host cfg recorder worlds { store := start } steps).reports ∧
      (replayRun host cfg recorder worlds store steps).counters =
        (replaySteps host cfg recorder worlds { store := start } steps).counters ∧
      ((∃ error, (replayRun host cfg recorder worlds store steps).status = .raised error) ∨
        (replayRun host cfg recorder worlds store steps).status =
          (replaySteps host cfg recorder worlds { store := start } steps).status) := by
  unfold replayRun
  split
  · next error herror => exact Or.inl ⟨error, herror, rfl⟩
  · next start hstart =>
    refine Or.inr ⟨start, hstart, ?_⟩
    dsimp only
    split
    · next error herror => exact ⟨rfl, rfl, rfl, Or.inl ⟨error, herror⟩⟩
    · split
      · next error _ => exact ⟨rfl, rfl, rfl, Or.inl ⟨error, rfl⟩⟩
      · exact ⟨rfl, rfl, rfl, Or.inr rfl⟩

/-- The run of a playbook that was found: `none` is a simulation. -/
def replayPlaybookRunFound (stableJson : Json → String) (opts : ReplayPlaybookRunOptions)
    (input : ReplayPlaybookRunInput) (store : σ) :
    Except RequestError (Option (ReplayRunConfig × ReplayRunState σ)) :=
  match replayRunConfig stableJson opts input with
  | .error error => .error error
  | .ok none => .ok none
  | .ok (some cfg) =>
    let s := replayRun host cfg recorder worlds store input.stepsRaw
    match s.status with
    | .raised error => .error error
    | _ => .ok (some (cfg, s))

theorem replayPlaybookRunFound_eq_some {stableJson : Json → String}
    {opts : ReplayPlaybookRunOptions} {input : ReplayPlaybookRunInput}
    {store : σ} {s : ReplayRunState σ} {cfg : ReplayRunConfig}
    (h : replayPlaybookRunFound host recorder worlds stableJson opts input store =
      .ok (some (cfg, s))) :
    replayRunConfig stableJson opts input = .ok (some cfg) ∧
      s = replayRun host cfg recorder worlds store input.stepsRaw ∧
      ∀ error, s.status ≠ .raised error := by
  unfold replayPlaybookRunFound at h
  split at h
  · cases h
  · cases h
  · next cfg' hcfg =>
    dsimp only at h
    split at h
    · cases h
    · next hstatus =>
      obtain ⟨rfl, rfl⟩ := Prod.mk.inj (Option.some.inj (Except.ok.inj h))
      exact ⟨hcfg, rfl, hstatus⟩

end Loop

/-! ## A small run -/

def silentRecorder : ReplayRecorder Unit where
  runStart _ _ := .ok ()
  stepBefore _ _ := .ok (none, ())
  stepAfter _ _ := .ok ()
  runEnd _ _ _ := .ok ()

def sampleMachine : ReplayMachine where
  fileExists _ := false
  commandAvailable _ := false
  env _ := none
  portFree _ _ := false
  cwd := "/"

/-- Every command exits with success. -/
def sampleWorld : ReplayWorld where
  before := sampleMachine
  after := sampleMachine
  executors := ⟨.ok ⟨"", "", some 0, none⟩, .error ⟨500, "", "", none⟩, 0⟩

def commandStep (safetyLevel : String) (argv : List String) : Json := .obj [
  ("step_index", .num 1),
  ("tool_name", .str "command"),
  ("safety_level", .str safetyLevel),
  ("tool_input", .obj [("argv", .arr (argv.map .str))])]

def serverOptions (commands : List String) : ReplayPlaybookRunOptions where
  localExecutor := some ⟨true, true, commands⟩

/-- A strict run of one step, with consent. -/
def strictInput (step : Json) : ReplayPlaybookRunInput where
  requestedMode := .strict
  params := [("allow_local_exec", .bool true)]
  playbookStatus := some "active"
  slots := [("steps_template", .arr [step])]

/-- The same without records. -/
def unrecordedInput (step : Json) : ReplayPlaybookRunInput :=
  { strictInput step with
    params := [("allow_local_exec", .bool true), ("record_run", .bool false)] }

end AionisCore.Memory
