import AionisCore.Lib.Run
import AionisCore.Memory.AutomationBindings
import AionisCore.Memory.Tenant
import AionisCore.Store.AutomationRunStore
import AionisCore.Store.AutomationStore

/-!
# Lite automation runs

`continueAutomationRun` goes through the nodes of a graph in topological order. It stops at
an approval, at a node that fails and where all nodes are done, and it waits at every
playbook for the replay; while it waits other calls run, and in between nothing does. A run
is kept here with the calls that execute it, the nodes that were started and the replays
that were asked for.
-/

namespace AionisCore.Memory

open Lib Lib.JsString Store Util

/-! ## Replays -/

/-- The body of a replay; `actor` stands for the four identity fields. -/
structure ReplayRequest where
  tenantId : String
  scope : String
  actor : Option String
  playbookId : String
  version : Option Nat
  mode : ReplayRunMode
  params : ResolvedFields

structure LiteAutomationReplayResult where
  mode : Option Json := none
  playbook : Option Json := none
  run : Option Json := none
  summary : Option Json := none
  execution : Option Json := none
  steps : Option Json := none

def toStringOrNull : Option Json → Option String
  | some (.str s) => if trim s = "" then none else some s
  | _ => none

def toPositiveIntOrNull : Option Json → Option Nat
  | some (.num q) => if q.den = 1 ∧ 0 < q.num then some q.num.toNat else none
  | _ => none

mutual

/-- `String(value)`; no number reads like a status, whatever its digits. -/
def statusText : Json → String
  | .null => "null"
  | .bool b => if b then "true" else "false"
  | .num q => toString q
  | .str s => s
  | .arr items => String.intercalate "," (statusTexts items)
  | .obj _ => "[object Object]"

def statusTexts : List Json → List String
  | [] => []
  | .null :: items => "" :: statusTexts items
  | item :: items => statusText item :: statusTexts items

end

namespace LiteAutomationReplayResult

variable (result : LiteAutomationReplayResult)

/-- `replayStatus`. -/
def status : String :=
  if result.mode == some (.str "simulate") then
    let readiness := toStringOrNull (Json.field (Json.asRecord result.summary) "replay_readiness")
    if readiness = some "ready" ∨ readiness = some "success" then "success" else "failed"
  else
    match Json.field (Json.asRecord result.run) "status" with
    | none | some .null => "failed"
    | some status => (statusText status).toLower

def runId : Option String := toStringOrNull (Json.field (Json.asRecord result.run) "run_id")

def playbookVersion : Option Nat :=
  toPositiveIntOrNull (Json.field (Json.asRecord result.playbook) "version")

def output : Json.Fields := [
  ("playbook", (result.playbook.getD .null)),
  ("mode", (result.mode.getD .null)),
  ("run", (result.run.getD .null)),
  ("summary", (result.summary.getD .null)),
  ("execution", (result.execution.getD .null)),
  ("steps", .arr (((Json.asArray result.steps).getD []).take 20))]

/-- What a replay tells of its playbook. -/
def record (version : Option Nat) (node : LiteAutomationRunNodeRecord) :
    LiteAutomationRunNodeRecord :=
  { node with
    outputSnapshotJson := result.output
    playbookVersion := result.playbookVersion.or version
    playbookRunId := result.runId }

end LiteAutomationReplayResult

/-! ## Calls of `continueAutomationRun` -/

inductive ExecutionStage where
  /-- At the `await` of `replayRunner`, with the nodes that come after. -/
  | replaying (nodeId : String) (version : Option Nat) (rest : List String)
    (nodeOutputs : Json.Fields)
  | returned
  | rejected

structure AutomationExecution where
  graph : AutomationGraph
  actor : Option String
  params : Json.Fields
  resumeReason : Option String
  stage : ExecutionStage

/-- A node is started: its id, and the nodes of the run as they were read for it. -/
structure NodeStart where
  nodeId : String
  nodes : List LiteAutomationRunNodeRecord

structure AutomationRun where
  view : LiteAutomationRunView
  executions : List AutomationExecution := []
  starts : List NodeStart := []
  replays : List (String × ReplayRequest) := []

/-- What the code takes from its surroundings between two `await`s. -/
structure AutomationTurn where
  now : String
  number : String → Option ℚ
  /-- Whether the two objects that a condition node compares are one. -/
  identical : String → Bool

namespace AutomationRun

variable (run : AutomationRun) (e : AutomationExecution) (turn : AutomationTurn)

def updateRun (patch : LiteAutomationRunRecord → LiteAutomationRunRecord) : AutomationRun :=
  { run with view := run.view.updateRun turn.now patch }

def updateRunNode (nodeId : String)
    (patch : LiteAutomationRunNodeRecord → LiteAutomationRunNodeRecord) : AutomationRun :=
  { run with view := run.view.updateRunNode nodeId turn.now patch }

/-- The run is paused on a node. -/
def pauseRun (reason : RunPauseReason) (status code nodeId message : String) : AutomationRun :=
  let summary := summarizeRunNodes run.view.nodes
  run.updateRun turn fun record => { record with
    lifecycleState := .paused
    pauseReason := reason
    statusSummary := status
    rootCauseCode := code
    rootCauseNodeId := nodeId
    rootCauseMessage := message
    summaryJson := summary
    pausedAt := turn.now }

/-- The run has failed at a node. -/
def failRun (code nodeId message : String) : AutomationRun :=
  let summary := summarizeRunNodes run.view.nodes
  run.updateRun turn fun record => { record with
    lifecycleState := .terminal
    terminalOutcome := some .failed
    statusSummary := "failed"
    rootCauseCode := code
    rootCauseNodeId := nodeId
    rootCauseMessage := message
    summaryJson := summary
    endedAt := turn.now }

/-- All nodes are done. -/
def completeRun : AutomationRun :=
  let summary := summarizeRunNodes run.view.nodes
  run.updateRun turn fun record => { record with
    lifecycleState := .terminal
    terminalOutcome := some .succeeded
    statusSummary := "succeeded"
    summaryJson := summary
    endedAt := turn.now }

def startRun : AutomationRun :=
  run.updateRun turn fun record => { record with
    lifecycleState := .running
    pauseReason := none
    terminalOutcome := none
    statusSummary := "running"
    rootCauseCode := none
    rootCauseNodeId := none
    rootCauseMessage := none
    startedAt := some (record.startedAt.getD turn.now)
    pausedAt := none
    endedAt := none }

/-- The node is started; `nodes` of the start are the ones read before. -/
def startNode (nodeId : String) (inputs : ResolvedFields) : AutomationRun :=
  { run.updateRunNode turn nodeId (·.start turn.now (definedFields inputs)) with
    starts := run.starts ++ [{ nodeId, nodes := run.view.nodes }] }

/-! ## The loop over the nodes -/

/-- After a node: on to the next one, or the call waits or returns. -/
inductive Advanced where
  | next (nodeOutputs : Json.Fields)
  | stopped (stage : ExecutionStage)

/-- The node has failed, and the run with it. -/
def failAt (nodeId code nodeMessage runMessage : String) (output : Json.Fields) :
    AutomationRun × Advanced :=
  ((run.updateRunNode turn nodeId (·.fail turn.now code nodeMessage output)).failRun turn code
    nodeId runMessage, .stopped .returned)

def succeedAt (nodeId : String) (output nodeOutputs : Json.Fields) : AutomationRun × Advanced :=
  (run.updateRunNode turn nodeId (·.succeed turn.now output),
    .next (Json.set nodeOutputs nodeId (.obj output)))

def isMissing : Option Json → Bool
  | none | some .null | some (.str "") => true
  | _ => false

/-- A started node, by its kind. -/
def runNode (nodeId : String) (inputs : ResolvedFields) (ctx : BindingContext)
    (rest : List String) : AutomationNodeKind → AutomationRun × Advanced
  | .approval _ =>
    if run.view.executionMode = .shadow then
      run.succeedAt turn nodeId [
        ("shadow_auto_approved", .bool true),
        ("approval_reason", .str "shadow_execution_skips_human_gate"),
        ("approved_at", .str turn.now)] ctx.nodeOutputs
    else
      ((run.updateRunNode turn nodeId (·.pause turn.now .approvalRequired)).pauseRun turn
        .approvalRequired "paused_for_approval" "approval_required" nodeId
        "automation paused on approval node", .stopped .returned)
  | .condition expression =>
    if evaluateConditionExpression expression ctx (turn.identical nodeId) then
      run.succeedAt turn nodeId [("result", .bool true)] ctx.nodeOutputs
    else run.failAt turn nodeId "condition_failed" "condition node evaluated to false"
      "condition node evaluated to false" [("result", .bool false)]
  | .artifactGate refs =>
    let resolved := refs.map fun ref => (ref, resolveBindingValue ctx (.str ref))
    let missing := resolved.filter fun artifact => isMissing artifact.2
    if missing = [] then
      run.succeedAt turn nodeId
        [("artifacts", .arr (resolved.map fun artifact => artifact.2.getD .null))] ctx.nodeOutputs
    else run.failAt turn nodeId "artifact_gate_missing" "required artifacts were not available"
      "artifact gate requirements not satisfied"
      [("missing_artifacts", .arr (missing.map fun artifact => .str artifact.1))]
  | .playbook playbookId version mode =>
    let request : ReplayRequest := {
      tenantId := run.view.tenantId
      scope := run.view.scope
      actor := e.actor
      playbookId
      version
      mode := if run.view.executionMode = .shadow then .simulate else mode.getD .simulate
      params := ((resolvedFields e.params).spread inputs).spread
        (resolvedFields [("record_run", .bool true), ("stop_on_failure", .bool true)]) }
    ({ run with replays := run.replays ++ [(nodeId, request)] },
      .stopped (.replaying nodeId version rest ctx.nodeOutputs))

/-- `mapNodeById`, on unique ids. -/
def nodeOf (nodeId : String) : Option AutomationGraphNode :=
  Table.row? (·.nodeId) e.graph.nodes nodeId

/-- One round of the loop. -/
def advance (nodeId : String) (rest : List String) (nodeOutputs : Json.Fields) :
    AutomationRun × Advanced :=
  match run.view.node? nodeId with
  | none => (run, .next nodeOutputs)
  | some current =>
    if current.lifecycleState = .terminal then
      (run, .next (if current.terminalOutcome = some .succeeded then
          Json.set nodeOutputs nodeId (.obj current.outputSnapshotJson) else nodeOutputs))
    else
      match nodeOf e nodeId with
      | none => (run, .next nodeOutputs)
      | some node =>
        let ctx := { params := e.params, nodeOutputs, number := turn.number }
        let inputs := resolveFields ctx (node.inputs.getD [])
        match e.resumeReason with
        | some reason =>
          if current.lifecycleState = .paused ∧ current.pauseReason = some .approvalRequired then
            let output := [
              ("approved_at", .str turn.now),
              ("approval_reason", .str reason),
              ("approved_by", Json.orNull e.actor)]
            (run.updateRunNode turn nodeId (·.approve turn.now output),
              .next (Json.set nodeOutputs nodeId (.obj output)))
          else (run.startNode turn nodeId inputs).runNode e turn nodeId inputs ctx rest node.kind
        | none =>
          (run.startNode turn nodeId inputs).runNode e turn nodeId inputs ctx rest node.kind

/-- The loop over the rest of the order. -/
def loop : AutomationRun → List String → Json.Fields → AutomationRun × ExecutionStage
  | run, [], _ => (run.completeRun turn, .returned)
  | run, nodeId :: rest, nodeOutputs =>
    match run.advance e turn nodeId rest nodeOutputs with
    | (run, .next nodeOutputs) => loop run rest nodeOutputs
    | (run, .stopped stage) => (run, stage)

def buildNodeOutputs (nodes : List LiteAutomationRunNodeRecord) : Json.Fields :=
  (nodes.filter fun node => node.terminalOutcome = some .succeeded).map fun node =>
    (node.nodeId, .obj node.outputSnapshotJson)

def continueAutomationRun : AutomationRun × ExecutionStage :=
  match validateAutomationGraph e.graph with
  | .error _ => (run, .rejected)
  | .ok validation =>
    (run.startRun turn).loop e turn validation.topologicalOrder (buildNodeOutputs run.view.nodes)

/-- `continueAutomationRun` from the end of a replay on. -/
def afterReplay (result : LiteAutomationReplayResult) (nodeId : String) (version : Option Nat)
    (rest : List String) (nodeOutputs : Json.Fields) : AutomationRun × ExecutionStage :=
  if result.status = "success" ∨ result.status = "succeeded" then
    (run.updateRunNode turn nodeId fun node =>
      result.record version (node.succeed turn.now result.output)).loop e turn rest
        (Json.set nodeOutputs nodeId (.obj result.output))
  else if result.status = "partial" then
    ((run.updateRunNode turn nodeId fun node =>
      result.record version (node.pause turn.now .repairRequired)).pauseRun turn .repairRequired
        "paused_for_repair" "guided_repair_pending" nodeId
        "playbook replay entered guided repair state", .returned)
  else
    ((run.updateRunNode turn nodeId fun node =>
      result.record version (node.fail turn.now "playbook_run_failed" "playbook replay failed"
        result.output)).failRun turn "playbook_run_failed" nodeId "playbook replay failed",
      .returned)

/-! ## Operations on a run -/

/-- A new call of `continueAutomationRun`. -/
def execute : AutomationRun :=
  let (run, stage) := run.continueAutomationRun e turn
  { run with executions := run.executions ++ [{ e with stage }] }

/-- What `automationRunResumeLite` does to a run that waits for an approval. -/
def resume (graph : AutomationGraph) (actor reason : Option String) : AutomationRun :=
  run.execute {
    graph
    actor
    params := run.view.paramsJson
    resumeReason := some (reason.getD "operator_resume")
    stage := .returned } turn

/-- What `automationRunCancelLite` does to a run that is not terminal. -/
def cancel (reason : Option String) : AutomationRun :=
  let message := reason.getD "automation run cancelled by operator"
  let nodes := run.view.nodes.map fun node =>
    if node.lifecycleState = .terminal then node else node.cancel turn.now message
  { run with view := { run.view with nodes } }.updateRun turn fun record => { record with
    lifecycleState := .terminal
    terminalOutcome := some .cancelled
    statusSummary := "cancelled"
    rootCauseCode := some "automation_run_cancelled"
    rootCauseMessage := some message
    summaryJson := summarizeRunNodes nodes
    endedAt := some turn.now
    pauseReason := none }

/-- The replay of a call ends with a result, or is rejected. -/
def settle (i : Nat) (result : Option LiteAutomationReplayResult) : Option AutomationRun :=
  run.executions[i]?.bind fun e =>
    match e.stage with
    | .replaying nodeId version rest nodeOutputs =>
      let (run, stage) := match result with
        | none => (run, ExecutionStage.rejected)
        | some result => run.afterReplay e turn result nodeId version rest nodeOutputs
      some { run with executions := run.executions.set i { e with stage } }
    | _ => none

end AutomationRun

end AionisCore.Memory
