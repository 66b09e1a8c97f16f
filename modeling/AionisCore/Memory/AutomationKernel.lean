import AionisCore.Lib.Trace
import AionisCore.Memory.AutomationRefinement

/-!
# Runs of the kernel

Every run of the kernel executes the graph of its version, which is accepted and never
changes. A step of the kernel leaves a run as it is, creates it, or is one operation on it;
so that what the operations of the lifecycle keep holds of every run at every time.
-/

namespace AionisCore.Memory

open Lib Lib.Table Store

namespace AutomationSystem

variable {defaults : AutomationDefaults} {s s' : AutomationSystem} {event : AutomationEvent}
  {r : String} {run : AutomationRun} {graph : AutomationGraph}

/-- The run executes the graph of its version. -/
structure Hosts (s : AutomationSystem) (run : AutomationRun) (graph : AutomationGraph) : Prop where
  version : ∃ row, s.definitions.version? run.key.automation run.key.automationVersion = some row ∧
    row.graph = graph
  accepted : graph.Accepted
  executes : AutomationRun.Executes graph run

structure Hosted (s : AutomationSystem) : Prop where
  versions : ∀ row ∈ s.definitions.versions, row.graph.Accepted
  runs : ∀ run ∈ s.runs, ∃ graph, s.Hosts run graph

variable {run' : AutomationRun}

theorem Hosts.graph_eq {graph' : AutomationGraph} (h : s.Hosts run graph) (h' : s.Hosts run' graph')
    (hkey : run'.key = run.key) : graph' = graph := by
  obtain ⟨row, hrow, rfl⟩ := h.version
  obtain ⟨row', hrow', rfl⟩ := h'.version
  rw [hkey, hrow] at hrow'
  rw [Option.some.inj hrow']

theorem Hosts.nodeIds_eq (h : s.Hosts run graph) :
    run.view.nodes.map (·.nodeId) = graph.nodes.map (·.nodeId) := by
  have hlayout := congrArg (List.map Prod.fst) h.executes.layout
  unfold AutomationRun.layout at hlayout
  rw [List.map_map, List.map_map] at hlayout
  exact hlayout

theorem Hosts.node_eq (h : s.Hosts run graph) {node : LiteAutomationRunNodeRecord}
    (hnode : node ∈ run.view.nodes) : run.state.node node.nodeId = some (nodeStatus node) := by
  have hunique : Table.Unique (·.nodeId) run.view.nodes := by
    unfold Table.Unique
    rw [h.nodeIds_eq]
    exact h.accepted.nodup
  exact congrArg (Option.map nodeStatus) (hunique.row? hnode)

/-! ## The store of the runs -/

theorem run?_putRun (run : AutomationRun) (r : String) : (s.putRun run).run? r =
    (s.run? r).map fun old => if r = run.view.runId then run else old := by
  have hrow := @row?_update_of_key _ _ (·.view.runId) s.runs _ (fun _ : AutomationRun => run)
    (fun _ => true) run.view.runId (fun _ _ => rfl) r
  simp only [and_true] at hrow
  exact hrow

theorem mem_runs_putRun {other : AutomationRun} (h : other ∈ (s.putRun run).runs) :
    other = run ∨ other ∈ s.runs := by
  obtain ⟨old, hold, rfl⟩ := List.mem_map.1 h
  split
  · exact .inl rfl
  · exact .inr hold

theorem run?_spec (h : s.run? r = some run) : run ∈ s.runs ∧ run.view.runId = r :=
  mem_of_row? h

theorem requireRunInScope_eq_ok {tenantId scope : String}
    (h : s.requireRunInScope tenantId scope r = .ok run) : s.run? r = some run ∧
      run.view.tenantId = tenantId ∧ run.view.scope = scope := by
  unfold requireRunInScope at h
  split at h
  · next found hfound =>
    obtain rfl := Except.ok.inj h
    obtain ⟨hrun, hscope⟩ := Option.filter_eq_some_iff.1 hfound
    exact ⟨hrun, of_decide_eq_true hscope⟩
  · cases h

theorem loadDefinitionForExecution_eq_ok {automation : AutomationKey} {version : Option Nat}
    {out : LiteAutomationDefinitionView}
    (h : s.loadDefinitionForExecution automation version = .ok out) :
    s.definitions.getDefinition automation version = some out := by
  unfold loadDefinitionForExecution at h
  split at h
  · cases h
  · next found hfound =>
    split at h
    · cases h
    · rw [hfound, Except.ok.inj h]

/-! ## What a step does to a run -/

/-- The run that a request names, in its tenant and scope. -/
def requested (defaults : AutomationDefaults) (s : AutomationSystem) (tenant : TenantRequest)
    (runId : String) : Except RequestError AutomationRun := do
  let tenancy ← resolveTenantScope tenant defaults.toTenantDefaults
  s.requireRunInScope tenancy.tenantId tenancy.scope runId

theorem requested_eq_ok {tenant : TenantRequest} (h : requested defaults s tenant r = .ok run) :
    s.run? r = some run := by
  obtain ⟨tenancy, -, h⟩ := bind_eq_ok.1 h
  exact (requireRunInScope_eq_ok h).1

/-- The operation on the run `r` that an event stands for. -/
inductive Performs (defaults : AutomationDefaults) (s : AutomationSystem) (r : String) :
    AutomationEvent → RunState.RunOp → Prop where
  | resume {request turn} (h : request.runId = r) :
    Performs defaults s r (.resume request turn) .resume
  | cancel {request turn run} (hid : request.runId = r)
    (h : requested defaults s request.tenant r = .ok run) :
    Performs defaults s r (.cancel request turn) .cancel
  | settle {i result turn} :
    Performs defaults s r (.settle r i result turn) (.settle i (replayEnd result))

inductive Evolves (defaults : AutomationDefaults) (s s' : AutomationSystem)
    (event : AutomationEvent) (r : String) : Prop where
  | same (h : s'.run? r = s.run? r) (hhosts : ∀ run graph, s.Hosts run graph → s'.Hosts run graph)
  | created {graph b position run} (hfree : s.run? r = none) (h : s'.run? r = some run)
    (hhosts : s'.Hosts run graph)
    (hcontinue : RunState.Continue graph run.shadow false (.queued graph) b position)
    (hstate : run.state = { b with calls := b.calls ++ [⟨false, position⟩] })
  | stepped {graph op run run'} (h : s.run? r = some run) (h' : s'.run? r = some run')
    (hperforms : Performs defaults s r event op)
    (hhosts : s.Hosts run graph) (hhosts' : s'.Hosts run' graph)
    (hshadow : run'.shadow = run.shadow)
    (hstep : RunState.Step graph run.shadow run.state op run'.state)

theorem shadow_eq (hkey : run'.key = run.key) : run'.shadow = run.shadow :=
  congrArg (fun k : AutomationRun.RunKey => decide (k.executionMode = .shadow)) hkey

/-- An operation on one of the runs. -/
theorem evolves_putRun {id : String} {op : RunState.RunOp} (hs : s.Hosted)
    (hrun : s.run? id = some run) (hhosts : s.Hosts run graph)
    (hperforms : Performs defaults s id event op)
    (hop : RunState.Step graph run.shadow run.state op run'.state ∧
      AutomationRun.Executes graph run' ∧ run'.key = run.key) :
    (s.putRun run').Hosted ∧ Evolves defaults s (s.putRun run') event r := by
  obtain ⟨hstep, hexecutes, hkey⟩ := hop
  have hid : run'.view.runId = id :=
    (congrArg AutomationRun.RunKey.runId hkey).trans (run?_spec hrun).2
  refine ⟨⟨hs.versions, fun other hother => ?_⟩, ?_⟩
  · rcases mem_runs_putRun hother with rfl | hother
    · exact ⟨graph, hkey ▸ hhosts.version, hhosts.accepted, hexecutes⟩
    · obtain ⟨g, hg⟩ := hs.runs other hother
      exact ⟨g, hg.version, hg.accepted, hg.executes⟩
  · by_cases hr : r = id
    · subst hr
      refine .stepped hrun ?_ hperforms hhosts
        ⟨hkey ▸ hhosts.version, hhosts.accepted, hexecutes⟩ (shadow_eq hkey) hstep
      rw [run?_putRun, hrun, hid, Option.map_some, if_pos rfl]
    · refine .same ?_ fun other g hg => ⟨hg.version, hg.accepted, hg.executes⟩
      rw [run?_putRun, hid]
      simp only [if_neg hr, Option.map_id']

theorem Hosted.hosts (hs : s.Hosted) (h : s.run? r = some run) : ∃ graph, s.Hosts run graph :=
  hs.runs run (run?_spec h).1

/-- The definition of a version has the graph of the runs of the version. -/
theorem graph_of_load {automation : AutomationKey} {version : Option Nat}
    {out : LiteAutomationDefinitionView}
    (hload : s.loadDefinitionForExecution automation version = .ok out) :
    s.definitions.version? automation (version.getD out.definition.latestVersion) =
      some out.version := by
  obtain ⟨definition, hdefinition, hout⟩ :=
    Option.bind_eq_some_iff.1 (loadDefinitionForExecution_eq_ok hload)
  obtain ⟨version, hversion, rfl⟩ := Option.map_eq_some_iff.1 hout
  exact hversion

variable {turn : AutomationTurn}

theorem resume_evolves {request : AutomationRunResumeRequest} (hs : s.Hosted)
    (h : s.automationRunResumeLite defaults request turn = .ok s') :
    s'.Hosted ∧ Evolves defaults s s' (.resume request turn) r := by
  obtain ⟨tenancy, -, h⟩ := bind_eq_ok.1 h
  obtain ⟨run, hrun, h⟩ := bind_eq_ok.1 h
  obtain ⟨hrun, -, -⟩ := requireRunInScope_eq_ok hrun
  split at h
  · cases h
  · next hpaused =>
    split at h
    · cases h
    · next hreason =>
      obtain ⟨definition, hload, h⟩ := bind_eq_ok.1 h
      obtain rfl := Except.ok.inj h
      obtain ⟨graph, hhosts⟩ := hs.hosts hrun
      obtain ⟨row, hrow, rfl⟩ := hhosts.version
      have hversion : definition.version = row :=
        Option.some.inj ((graph_of_load hload).symm.trans hrow)
      rw [hversion]
      exact evolves_putRun hs hrun hhosts (.resume rfl)
        (AutomationRun.resume_refines hhosts.executes (not_not.1 hpaused) (not_not.1 hreason))

theorem cancel_evolves {request : AutomationRunCancelRequest} (hs : s.Hosted)
    (h : s.automationRunCancelLite defaults request turn = .ok s') :
    s'.Hosted ∧ Evolves defaults s s' (.cancel request turn) r := by
  obtain ⟨tenancy, htenancy, h⟩ := bind_eq_ok.1 h
  obtain ⟨run, hscope, h⟩ := bind_eq_ok.1 h
  obtain ⟨hrun, -, -⟩ := requireRunInScope_eq_ok hscope
  split at h
  · cases h
  · next hlive =>
    obtain rfl := Except.ok.inj h
    obtain ⟨graph, hhosts⟩ := hs.hosts hrun
    exact evolves_putRun hs hrun hhosts (.cancel rfl (bind_eq_ok.2 ⟨tenancy, htenancy, hscope⟩))
      (AutomationRun.cancel_refines hhosts.executes hlive)

theorem create_evolves {request : AutomationCreateRequest} (hs : s.Hosted)
    (h : s.automationCreateLite defaults request = .ok s') :
    s'.Hosted ∧ Evolves defaults s s' (.create request) r := by
  obtain ⟨tenancy, -, h⟩ := bind_eq_ok.1 h
  split at h
  · cases h
  · next validation hvalid =>
    dsimp only at h
    split at h
    · cases h
    · next definitions hcreate =>
      obtain rfl := Except.ok.inj h
      have hkeep : ∀ run graph, s.Hosts run graph → Hosts { s with definitions } run graph := by
        rintro run graph ⟨⟨row, hrow, hgraph⟩, haccepted, hexecutes⟩
        exact ⟨⟨row, LiteAutomationStore.version?_createDefinition hcreate hrow, hgraph⟩,
          haccepted, hexecutes⟩
      refine ⟨⟨fun row hrow => ?_, fun run hrun => ?_⟩, .same rfl hkeep⟩
      · rcases LiteAutomationStore.mem_versions_createDefinition hcreate hrow with hrow | hrow
        · exact hs.versions row hrow
        · exact hrow ▸ (AutomationGraph.accepted_of_validate hvalid).1
      · obtain ⟨graph, hgraph⟩ := hs.runs run hrun
        exact ⟨graph, hkeep run graph hgraph⟩

theorem run_evolves {request : AutomationRunRequest} {runId : String} (hs : s.Hosted)
    (h : s.automationRunLite defaults request runId turn = .ok s') :
    s'.Hosted ∧ Evolves defaults s s' (.run request runId turn) r := by
  obtain ⟨tenancy, -, h⟩ := bind_eq_ok.1 h
  obtain ⟨definition, hload, h⟩ := bind_eq_ok.1 h
  split at h
  · cases h
  · next hfree =>
    obtain rfl := Except.ok.inj h
    have hrow := graph_of_load hload
    have hfree : s.run? runId = none := Option.not_isSome_iff_eq_none.1 hfree
    generalize hrun : AutomationRun.execute _ _ _ = run
    obtain ⟨⟨b, position, hcontinue, hstate⟩, hexecutes, hid, hautomation, hversion⟩ :=
      AutomationRun.started_refines rfl rfl hrun
    obtain ⟨hmem, hkey⟩ := mem_of_row? hrow
    have haccepted := hs.versions _ hmem
    have hnew : ∀ r, run? { s with runs := s.runs ++ [run] } r =
        (s.run? r).or (if r = runId then some run else none) := by
      intro r
      show row? (·.view.runId) (s.runs ++ [run]) r = _
      rw [row?_concat, hid]
      simp only [eq_comm, run?]
    have hhosts : Hosts { s with runs := s.runs ++ [run] } run definition.version.graph := by
      refine ⟨⟨_, ?_, rfl⟩, haccepted, hexecutes⟩
      rw [hautomation, hversion]
      exact (congrArg (s.definitions.version? _) (congrArg Prod.snd hkey)).trans hrow
    refine ⟨⟨hs.versions, fun other hother => ?_⟩, ?_⟩
    · rcases List.mem_append.1 hother with hother | hother
      · obtain ⟨graph, hgraph⟩ := hs.runs other hother
        exact ⟨graph, hgraph.version, hgraph.accepted, hgraph.executes⟩
      · rw [List.mem_singleton.1 hother]
        exact ⟨_, hhosts⟩
    · by_cases hr : r = runId
      · subst hr
        refine .created hfree ?_ hhosts hcontinue hstate
        rw [hnew, hfree, if_pos rfl, Option.none_or]
      · refine .same ?_ fun other g hg => ⟨hg.version, hg.accepted, hg.executes⟩
        rw [hnew, if_neg hr, Option.or_none]

theorem step_evolves (hs : s.Hosted) (h : s.step defaults event = some s') :
    s'.Hosted ∧ Evolves defaults s s' event r := by
  cases event with
  | create request =>
    obtain rfl := Option.some.inj h
    cases hout : s.automationCreateLite defaults request with
    | error err => exact ⟨hs, .same rfl fun _ _ => id⟩
    | ok s' => exact create_evolves hs hout
  | run request runId turn =>
    obtain rfl := Option.some.inj h
    cases hout : s.automationRunLite defaults request runId turn with
    | error err => exact ⟨hs, .same rfl fun _ _ => id⟩
    | ok s' => exact run_evolves hs hout
  | resume request turn =>
    obtain rfl := Option.some.inj h
    cases hout : s.automationRunResumeLite defaults request turn with
    | error err => exact ⟨hs, .same rfl fun _ _ => id⟩
    | ok s' => exact resume_evolves hs hout
  | cancel request turn =>
    obtain rfl := Option.some.inj h
    cases hout : s.automationRunCancelLite defaults request turn with
    | error err => exact ⟨hs, .same rfl fun _ _ => id⟩
    | ok s' => exact cancel_evolves hs hout
  | settle runId i result turn =>
    obtain ⟨run, hrun, h⟩ := Option.bind_eq_some_iff.1 h
    obtain ⟨run', hsettle, rfl⟩ := Option.map_eq_some_iff.1 h
    obtain ⟨graph, hhosts⟩ := hs.hosts hrun
    exact evolves_putRun hs hrun hhosts .settle
      (AutomationRun.settle_refines hhosts.executes hsettle)

theorem hosted_empty : Hosted {} :=
  ⟨fun _ h => (List.not_mem_nil h).elim, fun _ h => (List.not_mem_nil h).elim⟩

/-! ## Properties of a run -/

/-- The property holds of the run `r`, which is there. -/
def Has (P : AutomationGraph → Bool → RunState → Prop) (r : String) (s : AutomationSystem) : Prop :=
  s.Hosted ∧ ∃ run graph, s.run? r = some run ∧ s.Hosts run graph ∧ P graph run.shadow run.state

/-- The property holds of the run `r`, if there is one. -/
def Holds (P : AutomationGraph → Bool → RunState → Prop) (r : String) (s : AutomationSystem) :
    Prop := s.Hosted ∧ (s.run? r = none ∨ Has P r s)

variable {P : AutomationGraph → Bool → RunState → Prop} {C : RunState → RunState.RunOp → Prop}

/-- What every allowed operation keeps is kept by every allowed step. -/
theorem has_step (hop : ∀ {graph shadow a op b}, AutomationGraph.Accepted graph →
      P graph shadow a → C a op → RunState.Step graph shadow a op b → P graph shadow b)
    (hs : Has P r s)
    (hC : ∀ run op, s.run? r = some run → Performs defaults s r event op → C run.state op)
    (h : s.step defaults event = some s') : Has P r s' := by
  obtain ⟨hs, run, graph, hrun, hhosts, hP⟩ := hs
  obtain ⟨hs', hevolves⟩ := @step_evolves defaults s s' event r hs h
  refine ⟨hs', ?_⟩
  cases hevolves with
  | same hsame hkept => exact ⟨run, graph, hsame.trans hrun, hkept run graph hhosts, hP⟩
  | created hfree => exact absurd (hfree.symm.trans hrun) (Option.some_ne_none run).symm
  | stepped hold hnew hperforms hhosts' hkept hshadow hstep =>
    obtain rfl := Option.some.inj (hrun.symm.trans hold)
    obtain rfl := hhosts.graph_eq hhosts' rfl
    exact ⟨_, _, hnew, hkept, hshadow ▸ hop hhosts.accepted hP (hC _ _ hold hperforms) hstep⟩

/-- And what a new run has besides holds of the run at all times. -/
theorem holds_step (hcreated : ∀ {graph shadow b position}, AutomationGraph.Accepted graph →
      RunState.Continue graph shadow false (.queued graph) b position →
      P graph shadow { b with calls := b.calls ++ [⟨false, position⟩] })
    (hop : ∀ {graph shadow a op b}, AutomationGraph.Accepted graph → P graph shadow a → C a op →
      RunState.Step graph shadow a op b → P graph shadow b)
    (hs : Holds P r s)
    (hC : ∀ run op, s.run? r = some run → Performs defaults s r event op → C run.state op)
    (h : s.step defaults event = some s') : Holds P r s' := by
  obtain ⟨hosted, hfree | hhas⟩ := hs
  · obtain ⟨hs', hevolves⟩ := @step_evolves defaults s s' event r hosted h
    refine ⟨hs', ?_⟩
    cases hevolves with
    | same hsame hkept => exact .inl (hsame.trans hfree)
    | created _ hnew hhosts hcontinue hstate =>
      exact .inr ⟨hs', _, _, hnew, hhosts, hstate ▸ hcreated hhosts.accepted hcontinue⟩
    | stepped hold => exact absurd (hold.symm.trans hfree) (Option.some_ne_none _)
  · have hhas := has_step hop hhas hC h
    exact ⟨hhas.1, .inr hhas⟩

theorem holds_empty : Holds P r {} := ⟨hosted_empty, .inl rfl⟩

theorem Holds.has (h : Holds P r s) (hrun : s.run? r = some run) : Has P r s :=
  h.2.resolve_left fun hnone => Option.some_ne_none run (hrun.symm.trans hnone)

theorem Has.spec (h : Has P r s) (hrun : s.run? r = some run) :
    ∃ graph, s.Hosts run graph ∧ P graph run.shadow run.state := by
  obtain ⟨-, run', graph, hrun', hhosts, hP⟩ := h
  obtain rfl := Option.some.inj (hrun'.symm.trans hrun)
  exact ⟨graph, hhosts, hP⟩

end AutomationSystem

end AionisCore.Memory
