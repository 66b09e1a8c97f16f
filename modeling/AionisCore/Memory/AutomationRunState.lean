import AionisCore.Memory.AutomationLite

/-!
# The lifecycle of an automation run

What a run comes to as far as its lifecycle goes: the state, pause reason and outcome of the
run and of its nodes, the nodes that were started (with what the others were then), the
replays that were asked for and where the calls stand. `Round` is one round of the loop over
the nodes, `Loop` the loop, and `Step` an operation on the run.
-/

namespace AionisCore.Memory

open Lib Store Function

@[ext]
structure NodeStatus where
  lifecycle : NodeLifecycleState
  pauseReason : Option NodePauseReason := none
  outcome : Option NodeTerminalOutcome := none
  deriving DecidableEq, Repr

@[ext]
structure RunStatus where
  lifecycle : RunLifecycleState
  pauseReason : Option RunPauseReason := none
  outcome : Option RunTerminalOutcome := none
  deriving DecidableEq, Repr

namespace NodeStatus

variable (n : NodeStatus)

def start : NodeStatus := { n with lifecycle := .running, pauseReason := none }

def succeed : NodeStatus := { n with lifecycle := .terminal, outcome := some .succeeded }

def fail : NodeStatus := { n with lifecycle := .terminal, outcome := some .failed }

def pause (reason : NodePauseReason) : NodeStatus :=
  { n with lifecycle := .paused, pauseReason := some reason }

def approve : NodeStatus := { n.succeed with pauseReason := none }

def cancel : NodeStatus := { n with lifecycle := .terminal, outcome := some .rejected }

/-- The node waits for an approval. -/
def awaitsApproval : Bool :=
  n.lifecycle = .paused ∧ n.pauseReason = some .approvalRequired

end NodeStatus

namespace RunStatus

variable (s : RunStatus)

def pause (reason : RunPauseReason) : RunStatus :=
  { s with lifecycle := .paused, pauseReason := some reason }

def fail : RunStatus := { s with lifecycle := .terminal, outcome := some .failed }

def complete : RunStatus := { s with lifecycle := .terminal, outcome := some .succeeded }

end RunStatus

/-- Where a call of `continueAutomationRun` stands. -/
inductive Position where
  | replaying (nodeId : String) (rest : List String)
  | returned
  | rejected
  deriving DecidableEq, Repr

/-- A call: whether it resumes the run, and where it stands. -/
structure Call where
  resuming : Bool
  position : Position
  deriving DecidableEq, Repr

@[ext]
structure RunState where
  status : RunStatus
  node : String → Option NodeStatus
  /-- Each started node, with the nodes as they were before the start. -/
  starts : List (String × (String → Option NodeStatus)) := []
  replays : List String := []
  calls : List Call := []

namespace RunState

def patchNode (a : RunState) (id : String) (f : NodeStatus → NodeStatus) : RunState :=
  { a with node := update a.node id ((a.node id).map f) }

def start (a : RunState) (id : String) : RunState :=
  { a.patchNode id (·.start) with starts := a.starts ++ [(id, a.node)] }

/-- Every node has the property. -/
def Nodes (Q : NodeStatus → Prop) (a : RunState) : Prop := ∀ id n, a.node id = some n → Q n

section Patch

variable {a : RunState} {id j : String} {f : NodeStatus → NodeStatus}

theorem node_patchNode_self : (a.patchNode id f).node id = (a.node id).map f := update_self ..

theorem node_patchNode_of_ne (h : j ≠ id) : (a.patchNode id f).node j = a.node j :=
  update_of_ne h ..

theorem Nodes.patchNode {Q : NodeStatus → Prop} (h : a.Nodes Q)
    (hf : ∀ n, a.node id = some n → Q (f n)) : (a.patchNode id f).Nodes Q := by
  intro j n hn
  by_cases hj : j = id
  · subst hj
    rw [node_patchNode_self] at hn
    obtain ⟨m, hm, rfl⟩ := Option.map_eq_some_iff.1 hn
    exact hf m hm
  · rw [node_patchNode_of_ne hj] at hn
    exact h j n hn

theorem node_start_self : (a.start id).node id = (a.node id).map (·.start) :=
  node_patchNode_self

theorem Nodes.start {Q : NodeStatus → Prop} (h : a.Nodes Q)
    (hf : ∀ n, a.node id = some n → Q n.start) : (a.start id).Nodes Q :=
  h.patchNode hf

end Patch

/-- After a round: on to the next node, or the call stands somewhere. -/
inductive Ended where
  | next
  | stopped (position : Position)

/-- The loop starts the node. -/
structure Startable (resuming : Bool) (a : RunState) (id : String) (n : NodeStatus) : Prop where
  node : a.node id = some n
  unfinished : n.lifecycle ≠ .terminal
  not_approved : ¬ (resuming ∧ n.awaitsApproval)

/-- One round of the loop, at the node `id` with the nodes `rest` after it. -/
inductive Round (kind : String → Option NodeKind) (shadow resuming : Bool) (a : RunState)
    (id : String) (rest : List String) : RunState → Ended → Prop where
  | missing (h : a.node id = none) : Round kind shadow resuming a id rest a .next
  | skip {n} (h : a.node id = some n) (hterminal : n.lifecycle = .terminal) :
    Round kind shadow resuming a id rest a .next
  | unknown (hkind : kind id = none) : Round kind shadow resuming a id rest a .next
  | approve {n} (h : a.node id = some n) (hawaits : n.awaitsApproval) (hresuming : resuming) :
    Round kind shadow resuming a id rest (a.patchNode id (·.approve)) .next
  | succeed {n k} (h : Startable resuming a id n) (hkind : kind id = some k)
    (hplaybook : k ≠ .playbook) (happroval : k = .approval → shadow) :
    Round kind shadow resuming a id rest ((a.start id).patchNode id (·.succeed)) .next
  | pause {n} (h : Startable resuming a id n) (hkind : kind id = some .approval)
    (hdefault : shadow = false) :
    Round kind shadow resuming a id rest
      { (a.start id).patchNode id (·.pause .approvalRequired) with
        status := a.status.pause .approvalRequired }
      (.stopped .returned)
  | fail {n k} (h : Startable resuming a id n) (hkind : kind id = some k)
    (hplaybook : k ≠ .playbook) (happroval : k ≠ .approval) :
    Round kind shadow resuming a id rest
      { (a.start id).patchNode id (·.fail) with
        status := a.status.fail }
      (.stopped .returned)
  | replay {n} (h : Startable resuming a id n) (hkind : kind id = some .playbook) :
    Round kind shadow resuming a id rest
      { a.start id with replays := a.replays ++ [id] } (.stopped (.replaying id rest))

/-- The loop over the rest of the order. -/
inductive Loop (kind : String → Option NodeKind) (shadow resuming : Bool) :
    RunState → List String → RunState → Position → Prop where
  | done {a} : Loop kind shadow resuming a [] { a with status := a.status.complete } .returned
  | next {a b c id rest position} (hround : Round kind shadow resuming a id rest b .next)
    (hloop : Loop kind shadow resuming b rest c position) :
    Loop kind shadow resuming a (id :: rest) c position
  | stop {a b id rest position}
    (hround : Round kind shadow resuming a id rest b (.stopped position)) :
    Loop kind shadow resuming a (id :: rest) b position

/-- The kinds of the nodes of a graph. -/
def kindOf (graph : AutomationGraph) (nodeId : String) : Option NodeKind :=
  (Table.row? (·.nodeId) graph.nodes nodeId).map fun node => AutomationNodeKind.column node.kind

/-- A new call of `continueAutomationRun`. -/
inductive Continue (graph : AutomationGraph) (shadow resuming : Bool) (a : RunState) :
    RunState → Position → Prop where
  | invalid (h : ¬ graph.Accepted) : Continue graph shadow resuming a a .rejected
  | loop {b position} (h : graph.Accepted)
    (hloop : Loop (kindOf graph) shadow resuming { a with status := { lifecycle := .running } }
      graph.topologicalOrder b position) : Continue graph shadow resuming a b position

/-- How a replay ends. -/
inductive ReplayEnd where
  | threw
  | succeeded
  | partly
  | failed
  deriving DecidableEq, Repr

/-- What a call does when its replay ends. -/
inductive Settle (kind : String → Option NodeKind) (shadow resuming : Bool) (a : RunState)
    (id : String) (rest : List String) : ReplayEnd → RunState → Position → Prop where
  | threw : Settle kind shadow resuming a id rest .threw a .rejected
  | succeeded {b position}
    (hloop : Loop kind shadow resuming (a.patchNode id (·.succeed)) rest b position) :
    Settle kind shadow resuming a id rest .succeeded b position
  | partly : Settle kind shadow resuming a id rest .partly
      { a.patchNode id (·.pause .repairRequired) with
        status := a.status.pause .repairRequired }
      .returned
  | failed : Settle kind shadow resuming a id rest .failed
      { a.patchNode id (·.fail) with
        status := a.status.fail }
      .returned

def cancel (a : RunState) : RunState :=
  { a with
    status := { lifecycle := .terminal, outcome := some .cancelled }
    node := fun id => (a.node id).map fun n => if n.lifecycle = .terminal then n else n.cancel }

/-- A run that was just created. -/
def queued (graph : AutomationGraph) : RunState where
  status := { lifecycle := .queued }
  node id := (Table.row? (·.nodeId) graph.nodes id).map fun node =>
    { lifecycle := (deriveInitialNodeState node.nodeId graph).2.1 }

/-- An operation on a run. -/
inductive RunOp where
  | resume
  | cancel
  | settle (i : Nat) (ended : ReplayEnd)

/-- An operation that is not refused. -/
inductive Step (graph : AutomationGraph) (shadow : Bool) (a : RunState) :
    RunOp → RunState → Prop where
  | resume {b position} (hpaused : a.status.lifecycle = .paused)
    (hreason : a.status.pauseReason = some .approvalRequired)
    (h : Continue graph shadow true a b position) :
    Step graph shadow a .resume { b with calls := b.calls ++ [⟨true, position⟩] }
  | cancel (h : a.status.lifecycle ≠ .terminal) : Step graph shadow a .cancel a.cancel
  | settle {i resuming id rest ended b position}
    (hcall : a.calls[i]? = some ⟨resuming, .replaying id rest⟩)
    (h : Settle (kindOf graph) shadow resuming a id rest ended b position) :
    Step graph shadow a (.settle i ended) { b with calls := b.calls.set i ⟨resuming, position⟩ }

end RunState

/-! ## The state of a run of the kernel -/

def nodeStatus (node : LiteAutomationRunNodeRecord) : NodeStatus :=
  ⟨node.lifecycleState, node.pauseReason, node.terminalOutcome⟩

def runStatus (record : LiteAutomationRunRecord) : RunStatus :=
  ⟨record.lifecycleState, record.pauseReason, record.terminalOutcome⟩

/-- The states of nodes, by their ids. -/
def statusIn (nodes : List LiteAutomationRunNodeRecord) (nodeId : String) : Option NodeStatus :=
  (Table.row? (·.nodeId) nodes nodeId).map nodeStatus

def ExecutionStage.position : ExecutionStage → Position
  | .replaying nodeId _ rest _ => .replaying nodeId rest
  | .returned => .returned
  | .rejected => .rejected

def AutomationExecution.call (e : AutomationExecution) : Call where
  resuming := e.resumeReason.isSome
  position := e.stage.position

namespace AutomationRun

def state (run : AutomationRun) : RunState where
  status := runStatus run.view.toLiteAutomationRunRecord
  node := statusIn run.view.nodes
  starts := run.starts.map fun start => (start.nodeId, statusIn start.nodes)
  replays := run.replays.map (·.1)
  calls := run.executions.map (·.call)

def shadow (run : AutomationRun) : Bool := run.view.executionMode = .shadow

def Advanced.ended : Advanced → RunState.Ended
  | .next _ => .next
  | .stopped stage => .stopped stage.position

open RunState

variable {run : AutomationRun} {e : AutomationExecution} {turn : AutomationTurn}
  {nodeId : String} {rest : List String} {nodeOutputs : Json.Fields}

theorem state_updateRunNode {patch : LiteAutomationRunNodeRecord → LiteAutomationRunNodeRecord}
    {f : NodeStatus → NodeStatus} (hf : ∀ node, nodeStatus (patch node) = f (nodeStatus node)) :
    (run.updateRunNode turn nodeId patch).state = run.state.patchNode nodeId f := by
  refine RunState.ext rfl (funext fun id => ?_) rfl rfl rfl
  show ((run.view.updateRunNode nodeId turn.now patch).node? id).map nodeStatus = _
  rw [LiteAutomationRunView.node?_updateRunNode, Option.map_map]
  unfold patchNode
  dsimp only
  by_cases hid : id = nodeId
  · subst hid
    rw [update_self]
    show _ = Option.map f ((run.view.node? id).map nodeStatus)
    rw [Option.map_map]
    refine Option.map_congr fun node _ => ?_
    rw [Function.comp, if_pos rfl]
    exact hf node
  · rw [update_of_ne hid]
    refine Option.map_congr fun node _ => ?_
    rw [Function.comp, if_neg hid]

theorem state_startRun :
    (run.startRun turn).state = { run.state with status := { lifecycle := .running } } := rfl

theorem state_pauseRun {reason : RunPauseReason} {status code message : String} :
    (run.pauseRun turn reason status code nodeId message).state =
      { run.state with status := run.state.status.pause reason } := rfl

theorem state_failRun {code message : String} :
    (run.failRun turn code nodeId message).state =
      { run.state with status := run.state.status.fail } := rfl

end AutomationRun

end AionisCore.Memory
