import AionisCore.Memory.AutomationGraph
import AionisCore.Memory.ReplayExecution

/-!
# The gates of a replay

The deterministic gate decides on the mode of the whole run. The gates of a step are asked
in turn, and the first that does not let it pass decides what becomes of it.
-/

namespace AionisCore.Memory

open Lib Lib.JsString

/-! ## The deterministic gate -/

inductive ReplayGateMismatch where
  | fallback
  | reject
  deriving DecidableEq, Repr

structure ReplayDeterministicGateResolved where
  enabled : Bool
  preferDeterministicExecution : Bool
  onMismatch : ReplayGateMismatch
  requiredStatuses : List String
  requestMatchers : Option Json.Fields
  requestPolicyConstraints : Option Json.Fields

def resolveReplayDeterministicGate (input : Option Json) : ReplayDeterministicGateResolved :=
  match Json.asRecord input with
  | none => ⟨false, false, .fallback, ["shadow", "active"], none, none⟩
  | some obj =>
    let requiredStatusesRaw := (Json.asArray (Json.get obj "required_statuses")).getD
      [.str "shadow", .str "active"]
    let requiredStatuses := requiredStatusesRaw.filterMap fun v => Store.toStringOrNull (some v)
    { enabled := Json.get obj "enabled" ≠ some (.bool false)
      preferDeterministicExecution :=
        Json.get obj "prefer_deterministic_execution" ≠ some (.bool false)
      onMismatch := if Json.get obj "on_mismatch" = some (.str "reject") then .reject else .fallback
      requiredStatuses := if requiredStatuses ≠ [] then requiredStatuses else ["shadow", "active"]
      requestMatchers := Json.asRecord (Json.get obj "matchers")
      requestPolicyConstraints := Json.asRecord (Json.get obj "policy_constraints") }

inductive ReplayGateOutcome where
  | disabled
  | matched
  | promotedToStrict
  | fallbackToRequestedMode
  | rejected
  deriving DecidableEq, Repr

structure ReplayDeterministicGateEvaluation where
  enabled : Bool
  requestedMode : ReplayRunMode
  effectiveMode : ReplayRunMode
  decision : ReplayGateOutcome
  mismatchReasons : List String
  inferenceSkipped : Bool
  playbookStatus : String
  requiredStatuses : List String
  statusMatch : Bool
  matchersMatch : Bool
  policyConstraintsMatch : Bool
  matched : Bool

/-- `stableJson` is `stableJsonForFingerprint`. -/
def evaluateReplayDeterministicGate (stableJson : Json → String) (requestedMode : ReplayRunMode)
    (gateInput : Option Json) (playbookStatus : Option String) (playbookSlots : Json.Fields) :
    ReplayDeterministicGateEvaluation :=
  let gate := resolveReplayDeterministicGate gateInput
  let playbookStatus := playbookStatus.getD "draft"
  let same (requested : Option Json.Fields) (field : String) : Bool :=
    requested.all fun fields => stableJson (.obj fields) ==
      stableJson (.obj ((Json.asRecord (Json.get playbookSlots field)).getD []))
  let statusMatch := decide (playbookStatus ∈ gate.requiredStatuses)
  let matchersMatch := same gate.requestMatchers "matchers"
  let policyConstraintsMatch := same gate.requestPolicyConstraints "policy_constraints"
  let matched := gate.enabled && statusMatch && matchersMatch && policyConstraintsMatch
  let effectiveMode :=
    if matched && gate.preferDeterministicExecution && requestedMode == .simulate then .strict
    else requestedMode
  { enabled := gate.enabled
    requestedMode
    effectiveMode
    decision :=
      if !gate.enabled then .disabled
      else if matched then
        if effectiveMode = .strict ∧ requestedMode = .simulate then .promotedToStrict else .matched
      else if gate.onMismatch = .reject then .rejected
      else .fallbackToRequestedMode
    mismatchReasons :=
      (if gate.enabled && !statusMatch then ["status_not_allowed_for_deterministic_replay"]
        else []) ++
      (if gate.enabled && !matchersMatch then ["matcher_fingerprint_mismatch"] else []) ++
      (if gate.enabled && !policyConstraintsMatch then ["policy_constraints_fingerprint_mismatch"]
        else [])
    inferenceSkipped := matched && effectiveMode == .strict
    playbookStatus
    requiredStatuses := gate.requiredStatuses
    statusMatch
    matchersMatch
    policyConstraintsMatch
    matched }

/-- A simulation is promoted by a gate that is enabled and matched, to a strict run. -/
theorem effectiveMode_of_simulate {stableJson : Json → String} {requestedMode : ReplayRunMode}
    {gateInput : Option Json} {playbookStatus : Option String} {playbookSlots : Json.Fields}
    {e : ReplayDeterministicGateEvaluation}
    (he : evaluateReplayDeterministicGate stableJson requestedMode gateInput playbookStatus
      playbookSlots = e) :
    e.effectiveMode = requestedMode ∨
      requestedMode = .simulate ∧ e.effectiveMode = .strict ∧ e.enabled = true ∧
        e.matched = true := by
  subst he
  unfold evaluateReplayDeterministicGate
  dsimp only
  split
  · next h =>
    simp only [Bool.and_eq_true, beq_iff_eq] at h
    refine Or.inr ⟨h.2, rfl, h.1.1.1.1.1, ?_⟩
    simp only [Bool.and_eq_true]
    exact h.1.1
  · exact Or.inl rfl

/-! ## The gates of a step -/

inductive ReplayGateReason where
  | preconditionsFailed
  | preconditionsUnknown
  | manualOnlyStep
  | confirmationRequired
  | unsupportedToolForCommandExecutor
  | commandNotAllowedOrMissing
  | sensitiveCommandRequiresOverride
  deriving DecidableEq, Repr

def ReplayGateReason.name : ReplayGateReason → String
  | .preconditionsFailed => "preconditions_failed"
  | .preconditionsUnknown => "preconditions_unknown"
  | .manualOnlyStep => "manual_only_step"
  | .confirmationRequired => "confirmation_required"
  | .unsupportedToolForCommandExecutor => "unsupported_tool_for_command_executor"
  | .commandNotAllowedOrMissing => "command_not_allowed_or_missing"
  | .sensitiveCommandRequiresOverride => "sensitive_command_requires_override"

/-- Once a sensitive command is executed, the review also names the mode and whether the override
was used. -/
structure ReplaySensitiveReview where
  command : String
  argv : List String
  reason : Option String
  riskLevel : ReplayRiskLevel
  override : Option (ReplaySensitiveReviewMode × Bool) := none
  deriving DecidableEq

inductive ReplayReadiness where
  | ready
  | blocked
  | unknown
  | partly
  | pending
  deriving DecidableEq, Repr

structure ReplayRunGateDecision where
  reason : ReplayGateReason
  readiness : ReplayReadiness
  detail : String
  command : Option String := none
  allowedCommands : Option (List String) := none
  sensitiveReview : Option ReplaySensitiveReview := none

def resolveReplayPreconditionGate (preChecks : List PreconditionResult) :
    Option ReplayRunGateDecision :=
  if preChecks.any (·.state == .fail) then
    some { reason := .preconditionsFailed, readiness := .blocked
           detail := "one or more replay preconditions failed" }
  else if preChecks.any (·.state == .unknown) then
    some { reason := .preconditionsUnknown, readiness := .unknown
           detail := "one or more replay preconditions remained unknown" }
  else none

def resolveReplayConfirmationGate (safetyLevel : String) (autoConfirm : Bool) :
    Option ReplayRunGateDecision :=
  if safetyLevel = "manual_only" then
    some { reason := .manualOnlyStep, readiness := .blocked
           detail := "step requires manual execution and cannot be auto-replayed" }
  else if safetyLevel = "needs_confirm" ∧ !autoConfirm then
    some { reason := .confirmationRequired, readiness := .blocked
           detail := "step requires explicit confirmation before replay execution" }
  else none

def resolveReplayUnsupportedToolGate (toolName : Option String) : Option ReplayRunGateDecision :=
  if isReplayCommandTool toolName then none
  else
    some { reason := .unsupportedToolForCommandExecutor, readiness := .unknown
           detail := "tool is not mapped to the command-style replay executor" }

def resolveReplayCommandAllowlistGate (argv : List String) (allowedCommands : List String) :
    Option ReplayRunGateDecision :=
  let command := commandOf argv
  if argv ≠ [] ∧ command ≠ "" ∧ isSafeCommandReference command ∧
      isAllowedReplayCommand command allowedCommands then none
  else
    some {
      reason := .commandNotAllowedOrMissing
      readiness := .blocked
      detail := if command ≠ "" then s!"command '{command}' is not allowed" else "argv is missing"
      command := if command ≠ "" then some command else none
      allowedCommands := some allowedCommands }

def resolveReplaySensitiveCommandGate (command : String) (argv : List String)
    (sensitive : SensitiveCommand) (sensitiveReviewMode : ReplaySensitiveReviewMode)
    (allowSensitiveExec : Bool) : Option ReplayRunGateDecision :=
  if !sensitive.sensitive || sensitiveReviewMode != .block || allowSensitiveExec then none
  else
    some {
      reason := .sensitiveCommandRequiresOverride
      readiness := .blocked
      detail := "sensitive replay command requires explicit override"
      command := some command
      sensitiveReview := some {
        command, argv, reason := sensitive.reason, riskLevel := sensitive.riskLevel } }

/-! ## What a gate lets pass -/

theorem preconditionGate_eq_none {preChecks : List PreconditionResult} :
    resolveReplayPreconditionGate preChecks = none ↔ ∀ c ∈ preChecks, c.state = .pass := by
  unfold resolveReplayPreconditionGate
  constructor
  · intro h c hc
    split at h
    · cases h
    · next hfail =>
      split at h
      · cases h
      · next hunknown =>
        simp only [List.any_eq_true, beq_iff_eq, not_exists, not_and] at hfail hunknown
        cases hstate : c.state with
        | pass => rfl
        | fail => exact absurd hstate (hfail c hc)
        | unknown => exact absurd hstate (hunknown c hc)
  · intro h
    have hnot : ∀ state, state ≠ CheckState.pass →
        preChecks.any (·.state == state) = false := by
      intro state hne
      rw [List.any_eq_false]
      intro c hc heq
      rw [h c hc, beq_iff_eq] at heq
      exact hne heq.symm
    rw [hnot .fail (by decide), hnot .unknown (by decide)]
    rfl

theorem confirmationGate_eq_none {safetyLevel : String} {autoConfirm : Bool} :
    resolveReplayConfirmationGate safetyLevel autoConfirm = none ↔
      safetyLevel ≠ "manual_only" ∧ (safetyLevel = "needs_confirm" → autoConfirm = true) := by
  unfold resolveReplayConfirmationGate
  by_cases hmanual : safetyLevel = "manual_only"
  · rw [if_pos hmanual]
    exact iff_of_false nofun fun h => h.1 hmanual
  · rw [if_neg hmanual]
    cases autoConfirm
    · by_cases hneeds : safetyLevel = "needs_confirm"
      · rw [if_pos ⟨hneeds, rfl⟩]
        exact iff_of_false nofun fun h => Bool.false_ne_true (h.2 hneeds)
      · rw [if_neg fun h => hneeds h.1]
        exact iff_of_true rfl ⟨hmanual, fun h => absurd h hneeds⟩
    · rw [if_neg fun h => Bool.false_ne_true h.2]
      exact iff_of_true rfl ⟨hmanual, fun _ => rfl⟩

theorem unsupportedToolGate_eq_none {toolName : Option String} :
    resolveReplayUnsupportedToolGate toolName = none ↔ isReplayCommandTool toolName = true := by
  unfold resolveReplayUnsupportedToolGate
  split
  · next h => exact iff_of_true rfl h
  · next h => exact iff_of_false nofun h

theorem commandAllowlistGate_eq_none {argv allowedCommands : List String} :
    resolveReplayCommandAllowlistGate argv allowedCommands = none ↔
      argv ≠ [] ∧ commandOf argv ≠ "" ∧ isSafeCommandReference (commandOf argv) = true ∧
        isAllowedReplayCommand (commandOf argv) allowedCommands = true := by
  unfold resolveReplayCommandAllowlistGate
  dsimp only
  split
  · next h => exact iff_of_true rfl h
  · next h => exact iff_of_false nofun h

theorem sensitiveCommandGate_eq_none {command : String} {argv : List String}
    {sensitive : SensitiveCommand} {mode : ReplaySensitiveReviewMode} {allow : Bool} :
    resolveReplaySensitiveCommandGate command argv sensitive mode allow = none ↔
      (sensitive.sensitive = true → mode = .warn ∨ allow = true) := by
  unfold resolveReplaySensitiveCommandGate
  cases hsensitive : sensitive.sensitive <;> cases mode <;> cases allow <;> simp

end AionisCore.Memory
