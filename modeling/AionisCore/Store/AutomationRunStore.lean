import AionisCore.Lib.Table
import AionisCore.Memory.AutomationGraph

/-!
# The Lite store of automation runs

A run and its nodes, as `getRun` reads them. Node rows are only written together with their
run, so that the store is the list of its runs. An update reads a record, patches it and
writes it back with its keys as they were.
-/

namespace AionisCore.Store

open Lib Lib.Table Memory

inductive RunLifecycleState where
  | queued
  | running
  | paused
  | terminal
  deriving DecidableEq, Repr

inductive RunPauseReason where
  | approvalRequired
  | repairRequired
  | dependencyWait
  | operatorPause
  deriving DecidableEq, Repr

inductive RunTerminalOutcome where
  | succeeded
  | failed
  | cancelled
  deriving DecidableEq, Repr

inductive AutomationExecutionMode where
  | default
  | shadow
  deriving DecidableEq, Repr

inductive NodeLifecycleState where
  | pending
  | ready
  | running
  | paused
  | terminal
  deriving DecidableEq, Repr

inductive NodePauseReason where
  | approvalRequired
  | repairRequired
  deriving DecidableEq, Repr

inductive NodeTerminalOutcome where
  | succeeded
  | failed
  | rejected
  | skipped
  deriving DecidableEq, Repr

/-- The column `node_kind`. -/
inductive NodeKind where
  | playbook
  | approval
  | condition
  | artifactGate
  deriving DecidableEq, Repr

structure LiteAutomationRunRecord where
  runId : String
  tenantId : String
  scope : String
  automationId : String
  automationVersion : Nat
  requestedBy : Option String
  executionMode : AutomationExecutionMode
  lifecycleState : RunLifecycleState := .queued
  pauseReason : Option RunPauseReason := none
  terminalOutcome : Option RunTerminalOutcome := none
  statusSummary : String := "queued"
  rootCauseCode : Option String := none
  rootCauseNodeId : Option String := none
  rootCauseMessage : Option String := none
  paramsJson : Json.Fields
  summaryJson : Json.Fields := []
  startedAt : Option String := none
  pausedAt : Option String := none
  endedAt : Option String := none
  createdAt : String
  updatedAt : String

structure LiteAutomationRunNodeRecord where
  runId : String
  nodeId : String
  nodeKind : NodeKind
  lifecycleState : NodeLifecycleState
  pauseReason : Option NodePauseReason := none
  terminalOutcome : Option NodeTerminalOutcome := none
  statusSummary : String
  dependsOn : List String
  errorCode : Option String := none
  errorMessage : Option String := none
  playbookId : Option String := none
  playbookVersion : Option Nat := none
  playbookRunId : Option String := none
  approvalKey : Option String := none
  inputSnapshotJson : Json.Fields := []
  outputSnapshotJson : Json.Fields := []
  startedAt : Option String := none
  pausedAt : Option String := none
  endedAt : Option String := none
  createdAt : String
  updatedAt : String

structure LiteAutomationRunView extends LiteAutomationRunRecord where
  nodes : List LiteAutomationRunNodeRecord

/-! ## Creation -/

/-- `deriveInitialNodeState`: the nodes a node depends on, and its state. -/
def deriveInitialNodeState (nodeId : String) (graph : AutomationGraph) :
    List String × NodeLifecycleState × String :=
  let dependsOn := (graph.edges.filter fun edge =>
    edge.target = nodeId ∧ edge.type ≠ .onFailure).map (·.source)
  if dependsOn = [] then (dependsOn, .ready, "ready") else (dependsOn, .pending, "pending")

theorem deriveInitialNodeState_state (nodeId : String) (graph : AutomationGraph) :
    (deriveInitialNodeState nodeId graph).2.1 = .ready ∨
      (deriveInitialNodeState nodeId graph).2.1 = .pending := by
  unfold deriveInitialNodeState
  dsimp only
  split
  · exact .inl rfl
  · exact .inr rfl

def AutomationNodeKind.column : AutomationNodeKind → NodeKind
  | .playbook .. => .playbook
  | .approval _ => .approval
  | .condition _ => .condition
  | .artifactGate _ => .artifactGate

/-- The row of a node in a new run. -/
def initialNode (runId : String) (graph : AutomationGraph) (now : String)
    (node : AutomationGraphNode) : LiteAutomationRunNodeRecord :=
  let initial := deriveInitialNodeState node.nodeId graph
  { runId
    nodeId := node.nodeId
    nodeKind := AutomationNodeKind.column node.kind
    lifecycleState := initial.2.1
    statusSummary := initial.2.2
    dependsOn := initial.1
    playbookId := match node.kind with
      | .playbook playbookId .. => some playbookId
      | _ => none
    playbookVersion := match node.kind with
      | .playbook _ version _ => version
      | _ => none
    approvalKey := match node.kind with
      | .approval approvalKey => approvalKey
      | _ => none
    createdAt := now
    updatedAt := now }

structure CreateRun where
  runId : String
  tenantId : String
  scope : String
  automationId : String
  automationVersion : Nat
  requestedBy : Option String
  executionMode : AutomationExecutionMode
  paramsJson : Json.Fields
  graph : AutomationGraph

/-- The rows that `createRun` inserts. -/
def createRun (args : CreateRun) (now : String) : LiteAutomationRunView where
  runId := args.runId
  tenantId := args.tenantId
  scope := args.scope
  automationId := args.automationId
  automationVersion := args.automationVersion
  requestedBy := args.requestedBy
  executionMode := args.executionMode
  paramsJson := args.paramsJson
  createdAt := now
  updatedAt := now
  nodes := args.graph.nodes.map (initialNode args.runId args.graph now)

/-! ## Patches of a node -/

/-- `status_summary` of a pause. -/
def pausedSummary : NodePauseReason → String
  | .approvalRequired => "paused_for_approval"
  | .repairRequired => "paused_for_repair"

namespace LiteAutomationRunNodeRecord

variable (now : String) (node : LiteAutomationRunNodeRecord)

def start (inputs : Json.Fields) : LiteAutomationRunNodeRecord :=
  { node with
    lifecycleState := .running
    pauseReason := none
    statusSummary := "running"
    inputSnapshotJson := inputs
    startedAt := some (node.startedAt.getD now) }

def succeed (output : Json.Fields) : LiteAutomationRunNodeRecord :=
  { node with
    lifecycleState := .terminal
    terminalOutcome := some .succeeded
    statusSummary := "succeeded"
    outputSnapshotJson := output
    endedAt := now }

def fail (code message : String) (output : Json.Fields) : LiteAutomationRunNodeRecord :=
  { node with
    lifecycleState := .terminal
    terminalOutcome := some .failed
    statusSummary := "failed"
    errorCode := code
    errorMessage := message
    outputSnapshotJson := output
    endedAt := now }

def pause (reason : NodePauseReason) : LiteAutomationRunNodeRecord :=
  { node with
    lifecycleState := .paused
    pauseReason := reason
    statusSummary := pausedSummary reason
    pausedAt := now }

/-- An approval that was waited for. -/
def approve (output : Json.Fields) : LiteAutomationRunNodeRecord :=
  { node.succeed now output with pauseReason := none }

/-- A node of a cancelled run. -/
def cancel (message : String) : LiteAutomationRunNodeRecord :=
  { node with
    lifecycleState := .terminal
    terminalOutcome := some .rejected
    statusSummary := "cancelled"
    errorCode := some "automation_run_cancelled"
    errorMessage := some message
    endedAt := some now
    updatedAt := now }

/-- A patch keeps the keys and the kind of the node. -/
def merge (patch : LiteAutomationRunNodeRecord → LiteAutomationRunNodeRecord) :
    LiteAutomationRunNodeRecord :=
  { patch node with
    runId := node.runId
    nodeId := node.nodeId
    nodeKind := node.nodeKind
    updatedAt := now }

end LiteAutomationRunNodeRecord

/-! ## Updates -/

namespace LiteAutomationRunView

variable {view : LiteAutomationRunView} {now nodeId : String}

def updateRun (view : LiteAutomationRunView) (now : String)
    (patch : LiteAutomationRunRecord → LiteAutomationRunRecord) : LiteAutomationRunView :=
  let existing := view.toLiteAutomationRunRecord
  { view with toLiteAutomationRunRecord := { patch existing with
      runId := existing.runId
      tenantId := existing.tenantId
      scope := existing.scope
      automationId := existing.automationId
      automationVersion := existing.automationVersion
      updatedAt := now } }

def updateRunNode (view : LiteAutomationRunView) (nodeId now : String)
    (patch : LiteAutomationRunNodeRecord → LiteAutomationRunNodeRecord) : LiteAutomationRunView :=
  { view with nodes :=
    Table.update (·.nodeId) nodeId (fun _ => true) (·.merge now patch) view.nodes }

/-- `run.nodes.find((node) => node.node_id === nodeId)`. -/
def node? (view : LiteAutomationRunView) (nodeId : String) : Option LiteAutomationRunNodeRecord :=
  row? (·.nodeId) view.nodes nodeId

theorem node?_updateRunNode {id : String}
    {patch : LiteAutomationRunNodeRecord → LiteAutomationRunNodeRecord} :
    (view.updateRunNode nodeId now patch).node? id =
      (view.node? id).map fun node => if id = nodeId then node.merge now patch else node := by
  have hrow := @row?_update _ _ (·.nodeId) view.nodes _ (·.merge now patch) (fun _ => true) nodeId
    (fun _ => rfl) id
  simp only [and_true] at hrow
  exact hrow

end LiteAutomationRunView

/-! ## Summaries -/

def NodeLifecycleState.name : NodeLifecycleState → String
  | .pending => "pending"
  | .ready => "ready"
  | .running => "running"
  | .paused => "paused"
  | .terminal => "terminal"

def NodeTerminalOutcome.name : NodeTerminalOutcome → String
  | .succeeded => "succeeded"
  | .failed => "failed"
  | .rejected => "rejected"
  | .skipped => "skipped"

/-- How often each name occurs. -/
def countNames (names : List String) : Json.Fields :=
  names.eraseDups.map fun name => (name, .num (names.count name))

def summarizeRunNodes (nodes : List LiteAutomationRunNodeRecord) : Json.Fields := [
  ("total_nodes", .num nodes.length),
  ("lifecycle_counts", .obj (countNames (nodes.map (·.lifecycleState.name)))),
  ("terminal_outcome_counts", .obj (countNames (nodes.filterMap fun node =>
    node.terminalOutcome.map (·.name))))]

end AionisCore.Store
