import AionisCore.Memory.AutomationRunState
import AionisCore.Memory.AutomationSystem

/-!
# The kernel and the lifecycle of its runs

What a call does to a run, from one `await` to the next, is an operation of the lifecycle.
`Frame` is what such a piece of a call leaves alone: the keys and the mode of the run, the
ids, kinds and dependencies of its nodes, and the calls.
-/

namespace AionisCore.Memory

open Lib Lib.Table Store

def nodeLayout (node : LiteAutomationRunNodeRecord) : String × NodeKind × List String :=
  (node.nodeId, node.nodeKind, node.dependsOn)

/-- How a replay ends, as the calls tell it apart. -/
def replayEnd : Option LiteAutomationReplayResult → RunState.ReplayEnd
  | none => .threw
  | some result =>
    if result.status = "success" ∨ result.status = "succeeded" then .succeeded
    else if result.status = "partial" then .partly
    else .failed

namespace AutomationRun

open RunState

variable {run run' run'' : AutomationRun} {e : AutomationExecution} {turn : AutomationTurn}
  {nodeId : String} {rest : List String} {nodeOutputs : Json.Fields}

def layout (run : AutomationRun) : List (String × NodeKind × List String) :=
  run.view.nodes.map nodeLayout

/-- What of the row of a run is never written again. -/
structure RunKey where
  runId : String
  automation : AutomationKey
  automationVersion : Nat
  executionMode : AutomationExecutionMode
  paramsJson : Json.Fields

def key (run : AutomationRun) : RunKey where
  runId := run.view.runId
  automation := ⟨run.view.tenantId, run.view.scope, run.view.automationId⟩
  automationVersion := run.view.automationVersion
  executionMode := run.view.executionMode
  paramsJson := run.view.paramsJson

structure Frame (run run' : AutomationRun) : Prop where
  key : run'.key = run.key
  layout : run'.layout = run.layout
  executions : run'.executions = run.executions
  starts : ∀ start ∈ run'.starts, start ∈ run.starts ∨ start.nodes.map nodeLayout = run.layout

theorem Frame.refl (run : AutomationRun) : Frame run run :=
  ⟨rfl, rfl, rfl, fun _ h => .inl h⟩

theorem Frame.trans (h : Frame run run') (h' : Frame run' run'') : Frame run run'' where
  key := h'.key.trans h.key
  layout := h'.layout.trans h.layout
  executions := h'.executions.trans h.executions
  starts := by
    intro start hstart
    rcases h'.starts start hstart with hstart | hstart
    · exact h.starts start hstart
    · exact .inr (hstart.trans h.layout)

theorem Frame.shadow (h : Frame run run') : run'.shadow = run.shadow :=
  congrArg (fun k : RunKey => decide (k.executionMode = .shadow)) h.key

/-! ## Patches -/

/-- A patch of a node, by what it does to the state of the node. -/
structure NodePatch (patch : LiteAutomationRunNodeRecord → LiteAutomationRunNodeRecord)
    (f : NodeStatus → NodeStatus) : Prop where
  status : ∀ node, nodeStatus (patch node) = f (nodeStatus node)
  dependsOn : ∀ node, (patch node).dependsOn = node.dependsOn

theorem frame_updateRunNode {patch : LiteAutomationRunNodeRecord → LiteAutomationRunNodeRecord}
    {f : NodeStatus → NodeStatus} (h : NodePatch patch f) :
    Frame run (run.updateRunNode turn nodeId patch) := by
  refine ⟨rfl, ?_, rfl, fun _ h => .inl h⟩
  show (Table.update _ _ _ _ run.view.nodes).map nodeLayout = _
  unfold Table.update layout
  rw [List.map_map]
  refine List.map_congr_left fun node _ => ?_
  rw [Function.comp]
  split
  · unfold nodeLayout LiteAutomationRunNodeRecord.merge
    dsimp only
    rw [h.dependsOn]
  · rfl

theorem frame_startNode {inputs : ResolvedFields} :
    Frame run (run.startNode turn nodeId inputs) := by
  have h := @frame_updateRunNode run turn nodeId (·.start turn.now (definedFields inputs))
    (·.start) ⟨fun _ => rfl, fun _ => rfl⟩
  refine ⟨h.key, h.layout, h.executions, fun start hstart => ?_⟩
  rcases List.mem_append.1 hstart with hstart | hstart
  · exact .inl hstart
  · rw [List.mem_singleton.1 hstart]
    exact .inr rfl

theorem state_startNode {inputs : ResolvedFields} :
    (run.startNode turn nodeId inputs).state = run.state.start nodeId := by
  have h := @state_updateRunNode run turn nodeId (·.start turn.now (definedFields inputs))
    (·.start) fun _ => rfl
  have hnode := congrArg RunState.node h
  refine RunState.ext rfl hnode ?_ rfl rfl
  exact List.map_append

theorem succeedAt_spec {output outputs : Json.Fields} :
    (run.succeedAt turn nodeId output outputs).1.state =
        run.state.patchNode nodeId (·.succeed) ∧
      Frame run (run.succeedAt turn nodeId output outputs).1 :=
  ⟨state_updateRunNode fun _ => rfl,
    frame_updateRunNode (f := (·.succeed)) ⟨fun _ => rfl, fun _ => rfl⟩⟩

theorem failAt_spec {code nodeMessage runMessage : String} {output : Json.Fields} :
    (run.failAt turn nodeId code nodeMessage runMessage output).1.state =
        { run.state.patchNode nodeId (·.fail) with status := run.state.status.fail } ∧
      Frame run (run.failAt turn nodeId code nodeMessage runMessage output).1 := by
  have h := @state_updateRunNode run turn nodeId
    (·.fail turn.now code nodeMessage output) (·.fail) fun _ => rfl
  have hframe := @frame_updateRunNode run turn nodeId
    (·.fail turn.now code nodeMessage output) (·.fail) ⟨fun _ => rfl, fun _ => rfl⟩
  refine ⟨?_, hframe.key, hframe.layout, hframe.executions, hframe.starts⟩
  unfold failAt
  dsimp only
  rw [state_failRun, h]
  rfl

theorem state_replayAsked {request : String × ReplayRequest} :
    ({ run with replays := run.replays ++ [request] } : AutomationRun).state =
      { run.state with replays := run.state.replays ++ [request.1] } :=
  RunState.ext rfl rfl rfl List.map_append rfl

/-! ## The loop -/

/-- What a round leads to, and that it is a frame. -/
def Rounds (e : AutomationExecution) (run : AutomationRun) (nodeId : String) (rest : List String)
    (out : AutomationRun × Advanced) : Prop :=
  Round (kindOf e.graph) run.shadow e.resumeReason.isSome run.state nodeId rest out.1.state
    (Advanced.ended out.2) ∧ Frame run out.1

section Started

variable {n : NodeStatus} {k : NodeKind} {started : AutomationRun}

section

variable (h : Startable e.resumeReason.isSome run.state nodeId n)

include h

theorem succeedAt_rounds {output outputs : Json.Fields} (hkind : kindOf e.graph nodeId = some k)
    (hplaybook : k ≠ .playbook) (happroval : k = .approval → run.shadow)
    (hstarted : started.state = run.state.start nodeId) (hframe : Frame run started) :
    Rounds e run nodeId rest (started.succeedAt turn nodeId output outputs) := by
  obtain ⟨hstate, hrest⟩ := @succeedAt_spec started turn nodeId output outputs
  refine ⟨?_, hframe.trans hrest⟩
  rw [hstate, hstarted]
  exact .succeed h hkind hplaybook happroval

theorem failAt_rounds {code nodeMessage runMessage : String} {output : Json.Fields}
    (hkind : kindOf e.graph nodeId = some k)
    (hplaybook : k ≠ .playbook) (happroval : k ≠ .approval)
    (hstarted : started.state = run.state.start nodeId) (hframe : Frame run started) :
    Rounds e run nodeId rest
      (started.failAt turn nodeId code nodeMessage runMessage output) := by
  obtain ⟨hstate, hrest⟩ := @failAt_spec started turn nodeId code nodeMessage runMessage output
  refine ⟨?_, hframe.trans hrest⟩
  rw [hstate, hstarted]
  exact .fail h hkind hplaybook happroval

/-- A started node runs as its kind tells. -/
theorem runNode_rounds {inputs : ResolvedFields} {ctx : BindingContext} {kind : AutomationNodeKind}
    (hkind : kindOf e.graph nodeId = some (AutomationNodeKind.column kind))
    (hstarted : started.state = run.state.start nodeId) (hframe : Frame run started) :
    Rounds e run nodeId rest (started.runNode e turn nodeId inputs ctx rest kind) := by
  have hmode : started.view.executionMode = run.view.executionMode :=
    congrArg RunKey.executionMode hframe.key
  cases kind with
  | approval approvalKey =>
    simp only [runNode]
    split
    · next hshadow =>
      refine succeedAt_rounds h hkind (fun hk => by cases hk) (fun _ => ?_) hstarted hframe
      exact decide_eq_true (hmode ▸ hshadow)
    · next hdefault =>
      have hstate := @state_updateRunNode started turn nodeId
        (·.pause turn.now .approvalRequired) (·.pause .approvalRequired) fun _ => rfl
      have hpaused := hframe.trans (@frame_updateRunNode started turn nodeId
        (·.pause turn.now .approvalRequired) (·.pause .approvalRequired)
        ⟨fun _ => rfl, fun _ => rfl⟩)
      refine ⟨?_, hpaused.key, hpaused.layout, hpaused.executions, hpaused.starts⟩
      dsimp only
      rw [state_pauseRun, hstate, hstarted]
      exact .pause h hkind (decide_eq_false (hmode ▸ hdefault))
  | condition _ | artifactGate _ =>
    simp only [runNode]
    split
    · exact succeedAt_rounds h hkind (fun hk => by cases hk) (fun hk => by cases hk)
        hstarted hframe
    · exact failAt_rounds h hkind (fun hk => by cases hk) (fun hk => by cases hk) hstarted hframe
  | playbook playbookId version mode =>
    simp only [runNode]
    refine ⟨?_, hframe.key, hframe.layout, hframe.executions, hframe.starts⟩
    dsimp only
    rw [state_replayAsked, hstarted]
    exact .replay h hkind

end

end Started

variable {stage : ExecutionStage}

theorem advance_rounds : Rounds e run nodeId rest (run.advance e turn nodeId rest nodeOutputs) := by
  unfold advance
  split
  · next hnone =>
    exact ⟨.missing (congrArg (Option.map nodeStatus) hnone), .refl run⟩
  · next current hcurrent =>
    have hnode : run.state.node nodeId = some (nodeStatus current) :=
      congrArg (Option.map nodeStatus) hcurrent
    split
    · next hterminal => exact ⟨.skip hnode hterminal, .refl run⟩
    · next hunfinished =>
      split
      · next hnone => exact ⟨.unknown (congrArg (Option.map _) hnone), .refl run⟩
      · next node hmem =>
        have hkind : kindOf e.graph nodeId = some (AutomationNodeKind.column node.kind) :=
          congrArg (Option.map _) hmem
        have hrun : ∀ inputs ctx,
            ¬ (e.resumeReason.isSome ∧ (nodeStatus current).awaitsApproval) →
            Rounds e run nodeId rest ((run.startNode turn nodeId inputs).runNode e turn nodeId
              inputs ctx rest node.kind) :=
          fun inputs ctx hnot => runNode_rounds ⟨hnode, hunfinished, hnot⟩ hkind state_startNode
            frame_startNode
        dsimp only
        split
        · next reason hreason =>
          split
          · next hawaits =>
            refine ⟨?_, frame_updateRunNode (f := (·.approve)) ⟨fun _ => rfl, fun _ => rfl⟩⟩
            rw [state_updateRunNode (f := (·.approve)) fun _ => rfl]
            exact .approve hnode (decide_eq_true hawaits) (by rw [hreason]; rfl)
          · next hawaits => exact hrun _ _ fun h => hawaits (of_decide_eq_true h.2)
        · next hreason =>
          refine hrun _ _ fun h => ?_
          rw [hreason] at h
          cases h.1

theorem loop_refines {run' : AutomationRun} (h : run.loop e turn rest nodeOutputs = (run', stage)) :
    Loop (kindOf e.graph) run.shadow e.resumeReason.isSome run.state rest run'.state
      stage.position ∧ Frame run run' := by
  induction rest generalizing run nodeOutputs with
  | nil =>
    obtain ⟨rfl, rfl⟩ := Prod.mk.inj h
    exact ⟨.done, rfl, rfl, rfl, fun _ h => .inl h⟩
  | cons nodeId rest ih =>
    unfold loop at h
    have hround := @advance_rounds run e turn nodeId rest nodeOutputs
    split at h
    · next next outputs hadvance =>
      rw [hadvance] at hround
      obtain ⟨hloop, hframe⟩ := ih h
      rw [hround.2.shadow] at hloop
      exact ⟨.next hround.1 hloop, hround.2.trans hframe⟩
    · next next stopped hadvance =>
      rw [hadvance] at hround
      obtain ⟨rfl, rfl⟩ := Prod.mk.inj h
      exact ⟨.stop hround.1, hround.2⟩

theorem continueAutomationRun_refines {run' : AutomationRun}
    (h : run.continueAutomationRun e turn = (run', stage)) :
    Continue e.graph run.shadow e.resumeReason.isSome run.state run'.state stage.position ∧
      Frame run run' := by
  unfold continueAutomationRun at h
  split at h
  · next err herr =>
    obtain ⟨rfl, rfl⟩ := Prod.mk.inj h
    refine ⟨.invalid fun haccepted => ?_, .refl run⟩
    rw [AutomationGraph.validate_of_accepted haccepted] at herr
    cases herr
  · next validation hvalid =>
    obtain ⟨haccepted, horder⟩ := AutomationGraph.accepted_of_validate hvalid
    obtain ⟨hloop, hframe⟩ := loop_refines h
    rw [horder, state_startRun] at hloop
    exact ⟨.loop haccepted hloop,
      hframe.key, hframe.layout, hframe.executions, hframe.starts⟩

/-- What a replay tells of its playbook is no part of the state. -/
theorem record_spec {patch : LiteAutomationRunNodeRecord → LiteAutomationRunNodeRecord}
    {f : NodeStatus → NodeStatus} (result : LiteAutomationReplayResult) (version : Option Nat)
    (h : NodePatch patch f) :
    (run.updateRunNode turn nodeId fun node => result.record version (patch node)).state =
        run.state.patchNode nodeId f ∧
      Frame run (run.updateRunNode turn nodeId fun node => result.record version (patch node)) :=
  ⟨state_updateRunNode h.status, frame_updateRunNode (f := f) ⟨h.status, h.dependsOn⟩⟩

theorem afterReplay_refines {run' : AutomationRun} {result : LiteAutomationReplayResult}
    {version : Option Nat}
    (h : run.afterReplay e turn result nodeId version rest nodeOutputs = (run', stage)) :
    Settle (kindOf e.graph) run.shadow e.resumeReason.isSome run.state nodeId rest
      (replayEnd (some result)) run'.state stage.position ∧ Frame run run' := by
  unfold afterReplay at h
  unfold replayEnd
  dsimp only
  split at h
  · next hsuccess =>
    rw [if_pos hsuccess]
    obtain ⟨hstate, hrecord⟩ := @record_spec run turn nodeId (·.succeed turn.now result.output)
      (·.succeed) result version ⟨fun _ => rfl, fun _ => rfl⟩
    obtain ⟨hloop, hframe⟩ := loop_refines h
    rw [hstate] at hloop
    exact ⟨.succeeded hloop, hrecord.trans hframe⟩
  · next hsuccess =>
    rw [if_neg hsuccess]
    split at h
    · next hpartly =>
      rw [if_pos hpartly]
      obtain ⟨rfl, rfl⟩ := Prod.mk.inj h
      obtain ⟨hstate, hframe⟩ := @record_spec run turn nodeId (·.pause turn.now .repairRequired)
        (·.pause .repairRequired) result version ⟨fun _ => rfl, fun _ => rfl⟩
      refine ⟨?_, hframe.key, hframe.layout, hframe.executions, hframe.starts⟩
      rw [state_pauseRun, hstate]
      exact .partly
    · next hpartly =>
      rw [if_neg hpartly]
      obtain ⟨rfl, rfl⟩ := Prod.mk.inj h
      obtain ⟨hstate, hframe⟩ := @record_spec run turn nodeId
        (·.fail turn.now "playbook_run_failed" "playbook replay failed" result.output) (·.fail)
        result version ⟨fun _ => rfl, fun _ => rfl⟩
      refine ⟨?_, hframe.key, hframe.layout, hframe.executions, hframe.starts⟩
      rw [state_failRun, hstate]
      exact .failed

/-! ## Operations -/

/-- The run executes the graph. -/
structure Executes (graph : AutomationGraph) (run : AutomationRun) : Prop where
  layout : run.layout = graph.nodes.map fun node =>
    (node.nodeId, AutomationNodeKind.column node.kind, (deriveInitialNodeState node.nodeId graph).1)
  starts : ∀ start ∈ run.starts, start.nodes.map nodeLayout = run.layout
  graphs : ∀ e ∈ run.executions, e.graph = graph

variable {graph : AutomationGraph}

theorem Executes.frame (h : Executes graph run) (hframe : Frame run run') :
    Executes graph run' where
  layout := hframe.layout.trans h.layout
  starts := by
    intro start hstart
    rw [hframe.layout]
    rcases hframe.starts start hstart with hstart | hstart
    · exact h.starts start hstart
    · exact hstart
  graphs := hframe.executions ▸ h.graphs

theorem createRun_refines {args : CreateRun} {now : String} :
    ({ view := createRun args now } : AutomationRun).state = .queued args.graph ∧
      Executes args.graph { view := createRun args now } := by
  refine ⟨RunState.ext rfl (funext fun id => ?_) rfl rfl rfl,
    ⟨?_, fun _ hstart => (List.not_mem_nil hstart).elim, fun _ he => (List.not_mem_nil he).elim⟩⟩
  · show (row? (·.nodeId) (args.graph.nodes.map (initialNode args.runId args.graph now)) id).map
      nodeStatus = _
    rw [row?_of_map, Option.map_map]
    rfl
  · show (args.graph.nodes.map (initialNode args.runId args.graph now)).map nodeLayout = _
    rw [List.map_map]
    rfl

/-- What a new call does to a run. -/
theorem execute_refines (h : Executes graph run) (he : e.graph = graph) :
    (∃ b position, Continue graph run.shadow e.resumeReason.isSome run.state b position ∧
      (run.execute e turn).state =
        { b with calls := b.calls ++ [⟨e.resumeReason.isSome, position⟩] }) ∧
    Executes graph (run.execute e turn) ∧ (run.execute e turn).key = run.key := by
  rcases hcall : run.continueAutomationRun e turn with ⟨run', stage⟩
  obtain ⟨hcontinue, hframe⟩ := continueAutomationRun_refines hcall
  have hexecutes := h.frame hframe
  unfold execute
  rw [hcall]
  refine ⟨⟨run'.state, stage.position, he ▸ hcontinue, ?_⟩,
    ⟨hexecutes.layout, hexecutes.starts, fun e' he' => ?_⟩, hframe.key⟩
  · exact RunState.ext rfl rfl rfl rfl List.map_append
  · rcases List.mem_append.1 he' with he' | he'
    · exact hexecutes.graphs e' he'
    · rw [List.mem_singleton.1 he']
      exact he

/-- A run that is created and then executed. -/
theorem started_refines {args : CreateRun} {now : String} (he : e.graph = args.graph)
    (hresume : e.resumeReason = none)
    (hrun : ({ view := createRun args now } : AutomationRun).execute
      e turn = run) :
    (∃ b position, Continue args.graph run.shadow false (.queued args.graph) b position ∧
      run.state = { b with calls := b.calls ++ [⟨false, position⟩] }) ∧
    Executes args.graph run ∧ run.view.runId = args.runId ∧
      run.key.automation = ⟨args.tenantId, args.scope, args.automationId⟩ ∧
      run.key.automationVersion = args.automationVersion := by
  obtain ⟨hqueued, hexecutes⟩ := @createRun_refines args now
  obtain ⟨⟨b, position, hcontinue, hstate⟩, hexecutes, hkey⟩ :=
    @execute_refines _ e turn _ hexecutes he
  rw [hrun] at hstate hexecutes hkey
  have hshadow := congrArg (fun k : RunKey => decide (k.executionMode = .shadow)) hkey
  rw [hqueued, hresume, show AutomationRun.shadow { view := createRun args now } = run.shadow from
    hshadow.symm] at hcontinue
  rw [hresume] at hstate
  exact ⟨⟨b, position, hcontinue, hstate⟩, hexecutes, congrArg RunKey.runId hkey,
    congrArg RunKey.automation hkey, congrArg RunKey.automationVersion hkey⟩

theorem resume_refines {actor reason : Option String} (h : Executes graph run)
    (hpaused : run.view.lifecycleState = .paused)
    (hreason : run.view.pauseReason = some .approvalRequired) :
    RunState.Step graph run.shadow run.state .resume (run.resume turn graph actor reason).state ∧
      Executes graph (run.resume turn graph actor reason) ∧
      (run.resume turn graph actor reason).key = run.key := by
  unfold resume
  obtain ⟨⟨b, position, hcontinue, hstate⟩, hrest⟩ := @execute_refines run {
    graph
    actor
    params := run.view.paramsJson
    resumeReason := some (reason.getD "operator_resume")
    stage := .returned } turn graph h rfl
  refine ⟨?_, hrest⟩
  rw [hstate]
  exact .resume hpaused hreason hcontinue

theorem cancel_refines {reason : Option String} (h : Executes graph run)
    (hlive : run.view.lifecycleState ≠ .terminal) :
    RunState.Step graph run.shadow run.state .cancel (run.cancel turn reason).state ∧
      Executes graph (run.cancel turn reason) ∧ (run.cancel turn reason).key = run.key := by
  let message := reason.getD "automation run cancelled by operator"
  let cancelNode := fun node : LiteAutomationRunNodeRecord =>
    if node.lifecycleState = .terminal then node else node.cancel turn.now message
  have hlayout : ∀ node, nodeLayout (cancelNode node) = nodeLayout node := by
    intro node
    dsimp only [cancelNode]
    split <;> rfl
  have hid : ∀ node, (cancelNode node).nodeId = node.nodeId := fun node =>
    congrArg Prod.fst (hlayout node)
  have hnode : ∀ node, nodeStatus (cancelNode node) =
      if (nodeStatus node).lifecycle = .terminal then nodeStatus node
      else (nodeStatus node).cancel := by
    intro node
    dsimp only [cancelNode]
    by_cases hterminal : node.lifecycleState = .terminal
    · rw [if_pos hterminal, if_pos (show (nodeStatus node).lifecycle = _ from hterminal)]
    · rw [if_neg hterminal, if_neg (show (nodeStatus node).lifecycle ≠ _ from hterminal)]
      rfl
  have hsame : (run.cancel turn reason).layout = run.layout := by
    show (run.view.nodes.map cancelNode).map nodeLayout = _
    rw [List.map_map]
    exact List.map_congr_left fun node _ => hlayout node
  refine ⟨?_, ⟨hsame.trans h.layout, hsame ▸ h.starts, h.graphs⟩, rfl⟩
  refine cast (congrArg (RunState.Step _ _ _ _) ?_) (Step.cancel hlive)
  refine RunState.ext rfl (funext fun id => Eq.symm ?_) rfl rfl rfl
  show (row? (·.nodeId) (run.view.nodes.map cancelNode) id).map nodeStatus = _
  rw [row?_map hid, Option.map_map]
  show _ = (Option.map nodeStatus (row? (·.nodeId) run.view.nodes id)).map _
  rw [Option.map_map]
  exact Option.map_congr fun node _ => hnode node

theorem settle_refines {i : Nat} {result : Option LiteAutomationReplayResult}
    (h : Executes graph run) (hsettle : run.settle turn i result = some run') :
    RunState.Step graph run.shadow run.state (.settle i (replayEnd result)) run'.state ∧
      Executes graph run' ∧ run'.key = run.key := by
  obtain ⟨e, he, hsettle⟩ := Option.bind_eq_some_iff.1 hsettle
  have hgraph := h.graphs e (List.mem_of_getElem? he)
  split at hsettle
  · next nodeId version rest nodeOutputs hstage =>
    have hcall : run.state.calls[i]? =
        some ⟨e.resumeReason.isSome, .replaying nodeId rest⟩ := by
      show (run.executions.map (·.call))[i]? = _
      rw [List.getElem?_map, he]
      show some (Call.mk _ e.stage.position) = _
      rw [hstage]
      rfl
    have hset : ∀ (ended : AutomationRun) (stage : ExecutionStage),
        Settle (kindOf e.graph) run.shadow e.resumeReason.isSome run.state nodeId rest
          (replayEnd result) ended.state stage.position → Frame run ended →
        some { ended with executions := ended.executions.set i { e with stage } } = some run' →
        RunState.Step graph run.shadow run.state (.settle i (replayEnd result)) run'.state ∧
          Executes graph run' ∧ run'.key = run.key := by
      intro ended stage hended hframe hrun
      obtain rfl := Option.some.inj hrun
      have hexecutes := h.frame hframe
      refine ⟨?_, ⟨hexecutes.layout, hexecutes.starts, fun e' he' => ?_⟩, hframe.key⟩
      · have hstep := Step.settle hcall (hgraph ▸ hended)
        refine cast (congrArg (Step _ _ _ _) ?_) hstep
        refine RunState.ext rfl rfl rfl rfl ?_
        show _ = (ended.executions.set i { e with stage }).map AutomationExecution.call
        rw [List.map_set]
        rfl
      · rcases List.mem_or_eq_of_mem_set he' with he' | rfl
        · exact hexecutes.graphs e' he'
        · exact hgraph
    cases result with
    | none => exact hset run .rejected .threw (.refl run) hsettle
    | some result =>
      dsimp only at hsettle
      rcases hafter : run.afterReplay e turn result nodeId version rest nodeOutputs with
        ⟨ended, stage⟩
      rw [hafter] at hsettle
      obtain ⟨hended, hframe⟩ := afterReplay_refines hafter
      exact hset ended stage hended hframe hsettle
  · cases hsettle

end AutomationRun

end AionisCore.Memory
