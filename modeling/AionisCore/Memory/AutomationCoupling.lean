import AionisCore.Memory.AutomationFinality

/-!
# Coupled fields of run records

A record has a pause reason where it is paused and an outcome where it is terminal. The
operations of a run keep this but for a cancel that finds a paused node, which keeps its
pause reason, and for a replay that ends in repair after a cancel, where the outcomes stay;
and a replay that is rejected leaves the run as it is.
-/

namespace AionisCore.Memory

open Lib Lib.Table Store

def NodeStatus.Coupled (n : NodeStatus) : Prop :=
  (n.pauseReason.isSome ↔ n.lifecycle = .paused) ∧ (n.outcome.isSome ↔ n.lifecycle = .terminal)

def RunStatus.Coupled (s : RunStatus) : Prop :=
  (s.pauseReason.isSome ↔ s.lifecycle = .paused) ∧ (s.outcome.isSome ↔ s.lifecycle = .terminal)

namespace NodeStatus

variable {n : NodeStatus}

theorem Coupled.outcome_none (h : n.Coupled) (hlive : n.lifecycle ≠ .terminal) :
    n.outcome = none :=
  Option.not_isSome_iff_eq_none.1 fun hsome => hlive (h.2.1 hsome)

theorem Coupled.pauseReason_none (h : n.Coupled) (hpaused : n.lifecycle ≠ .paused) :
    n.pauseReason = none :=
  Option.not_isSome_iff_eq_none.1 fun hsome => hpaused (h.1.1 hsome)

theorem Coupled.start (h : n.Coupled) (hlive : n.lifecycle ≠ .terminal) : n.start.Coupled := by
  unfold Coupled NodeStatus.start
  simp [h.outcome_none hlive]

/-- A node that is not paused may come to any end. -/
theorem Coupled.ends (h : n.Coupled) (hpaused : n.lifecycle ≠ .paused) :
    n.succeed.Coupled ∧ n.fail.Coupled ∧ n.cancel.Coupled := by
  unfold Coupled succeed fail cancel
  simp [h.pauseReason_none hpaused]

theorem Coupled.pause (h : n.Coupled) (hlive : n.lifecycle ≠ .terminal) (reason : NodePauseReason) :
    (n.pause reason).Coupled := by
  unfold Coupled NodeStatus.pause
  simp [h.outcome_none hlive]

theorem coupled_approve : n.approve.Coupled := by
  unfold Coupled approve succeed
  simp

end NodeStatus

namespace RunStatus

variable {s : RunStatus}

theorem Coupled.outcome_none (h : s.Coupled) (hlive : s.lifecycle ≠ .terminal) :
    s.outcome = none :=
  Option.not_isSome_iff_eq_none.1 fun hsome => hlive (h.2.1 hsome)

theorem Coupled.pause (h : s.Coupled) (hlive : s.lifecycle ≠ .terminal) (reason : RunPauseReason) :
    (s.pause reason).Coupled := by
  unfold Coupled RunStatus.pause
  simp [h.outcome_none hlive]

/-- A run that is not paused may come to any end. -/
theorem Coupled.ends (h : s.Coupled) (hpaused : s.lifecycle ≠ .paused) :
    s.complete.Coupled ∧ s.fail.Coupled := by
  have hreason : s.pauseReason = none :=
    Option.not_isSome_iff_eq_none.1 fun hsome => hpaused (h.1.1 hsome)
  unfold Coupled complete fail
  simp [hreason]

theorem Coupled.eq_running (h : s.Coupled) (hrunning : s.lifecycle = .running) :
    s = { lifecycle := .running } := by
  refine RunStatus.ext hrunning (Option.not_isSome_iff_eq_none.1 fun hsome => ?_)
    (h.outcome_none (by rw [hrunning]; decide))
  have hpaused := h.1.1 hsome
  rw [hrunning] at hpaused
  cases hpaused

theorem coupled_of_lifecycle {lifecycle : RunLifecycleState} (hpaused : lifecycle ≠ .paused)
    (hlive : lifecycle ≠ .terminal) : RunStatus.Coupled { lifecycle } := by
  unfold Coupled
  simp [hpaused, hlive]

end RunStatus

namespace RunState

variable {kind : String → Option NodeKind} {shadow resuming : Bool} {a b : RunState} {id : String}
  {rest order : List String} {position : Position} {graph : AutomationGraph}

/-! ## The loop -/

theorem Startable.started {n : NodeStatus} (h : Startable resuming a id n)
    (ha : a.Nodes (·.Coupled)) : (a.start id).Nodes (·.Coupled) ∧
      ∀ m, (a.start id).node id = some m → m.Coupled ∧ m.lifecycle = .running := by
  have hn := (ha id n h.node).start h.unfinished
  refine ⟨ha.start fun m hm => ?_, fun m hm => ?_⟩
  · obtain rfl := Option.some.inj (h.node.symm.trans hm)
    exact hn
  · rw [node_start_self, h.node] at hm
    obtain rfl := Option.some.inj hm
    exact ⟨hn, rfl⟩

theorem Round.coupled_next (h : Round kind shadow resuming a id rest b .next)
    (ha : a.Nodes (·.Coupled)) : b.Nodes (·.Coupled) := by
  cases h with
  | missing => exact ha
  | skip => exact ha
  | unknown => exact ha
  | approve => exact ha.patchNode fun n _ => NodeStatus.coupled_approve
  | succeed h =>
    obtain ⟨hall, hstarted⟩ := h.started ha
    refine hall.patchNode fun m hm => ?_
    obtain ⟨hm, hrunning⟩ := hstarted m hm
    exact (hm.ends (by rw [hrunning]; decide)).1

/-- Where a call stops, what it is left with. -/
structure Stands (a : RunState) (position : Position) : Prop where
  run : a.status.Coupled
  nodes : a.Nodes (·.Coupled)
  not_rejected : position ≠ .rejected
  waiting : ∀ id rest, position = .replaying id rest → a.status.lifecycle = .running ∧
    ∃ n, a.node id = some n ∧ n.lifecycle = .running

theorem Round.coupled_stopped (h : Round kind shadow resuming a id rest b (.stopped position))
    (ha : a.Nodes (·.Coupled)) (hstatus : a.status = { lifecycle := .running }) :
    Stands b position := by
  cases h with
  | pause h =>
    obtain ⟨hall, hstarted⟩ := h.started ha
    refine ⟨?_, hall.patchNode fun m hm => ?_, nofun, nofun⟩
    · show (a.status.pause _).Coupled
      rw [hstatus]
      exact (RunStatus.coupled_of_lifecycle (by decide) (by decide)).pause (by decide) _
    · obtain ⟨hm, hrunning⟩ := hstarted m hm
      exact hm.pause (by rw [hrunning]; decide) _
  | fail h =>
    obtain ⟨hall, hstarted⟩ := h.started ha
    refine ⟨?_, hall.patchNode fun m hm => ?_, nofun, nofun⟩
    · show a.status.fail.Coupled
      rw [hstatus]
      exact ((RunStatus.coupled_of_lifecycle (by decide) (by decide)).ends (by decide)).2
    · obtain ⟨hm, hrunning⟩ := hstarted m hm
      exact (hm.ends (by rw [hrunning]; decide)).2.1
  | replay h =>
    obtain ⟨hall, hstarted⟩ := h.started ha
    refine ⟨?_, hall, nofun, fun id' rest' hposition => ?_⟩
    · show a.status.Coupled
      rw [hstatus]
      exact RunStatus.coupled_of_lifecycle (by decide) (by decide)
    · cases hposition
      have hnode : (a.start id).node id = some _ := node_start_self.trans (congrArg _ h.node)
      refine ⟨?_, _, hnode, (hstarted _ hnode).2⟩
      show a.status.lifecycle = _
      rw [hstatus]

theorem Loop.coupled (h : Loop kind shadow resuming a order b position)
    (ha : a.Nodes (·.Coupled)) (hstatus : a.status = { lifecycle := .running }) :
    Stands b position := by
  induction h with
  | @done a =>
    refine ⟨?_, ha, nofun, nofun⟩
    show a.status.complete.Coupled
    rw [hstatus]
    exact ((RunStatus.coupled_of_lifecycle (by decide) (by decide)).ends (by decide)).1
  | next hround _ ih =>
    exact ih (hround.coupled_next ha) (hround.status_of_next.trans hstatus)
  | stop hround => exact hround.coupled_stopped ha hstatus

/-- Over nodes that are all terminal the loop only completes the run. -/
theorem Loop.of_terminal (h : Loop kind shadow resuming a order b position)
    (ha : a.Nodes (·.lifecycle = .terminal)) :
    b = { a with status := a.status.complete } ∧ position = .returned := by
  have hnot : ∀ {a : RunState} {id n}, a.Nodes (·.lifecycle = .terminal) →
      ¬ Startable resuming a id n :=
    fun ha hstart => hstart.unfinished (ha _ _ hstart.node)
  induction h with
  | done => exact ⟨rfl, rfl⟩
  | next hround _ ih =>
    cases hround with
    | missing => exact ih ha
    | skip => exact ih ha
    | unknown => exact ih ha
    | approve hn hawaits =>
      have hpaused := (of_decide_eq_true hawaits).1
      rw [ha _ _ hn] at hpaused
      cases hpaused
    | succeed h => exact absurd h (hnot ha)
  | stop hround =>
    cases hround with
    | pause h => exact absurd h (hnot ha)
    | fail h => exact absurd h (hnot ha)
    | replay h => exact absurd h (hnot ha)

/-! ## Operations -/

structure CoupledRun (a : RunState) : Prop where
  waits : Waits a
  run : a.status.Coupled
  nodes : a.Nodes (·.Coupled)
  waiting : ∀ (i : Nat) (resuming : Bool) (id : String) (rest : List String),
    a.calls[i]? = some ⟨resuming, .replaying id rest⟩ →
    (a.status.lifecycle = .running ∧ ∃ n, a.node id = some n ∧ n.lifecycle = .running) ∨
      (a.status.lifecycle = .terminal ∧ a.Nodes (·.lifecycle = .terminal))
  rejected : ∀ call ∈ a.calls, call.position = .rejected →
    a.status.lifecycle = .terminal ∧ ∀ i, ¬ a.WaitingAt i

/-- The operation does not take the records apart. -/
def KeepsCoupled (a : RunState) : RunOp → Prop
  | .cancel => a.Nodes (·.lifecycle ≠ .paused)
  | .settle _ .partly => a.status.lifecycle ≠ .terminal
  | .settle _ .threw => a.status.lifecycle ≠ .running
  | _ => True

/-- A run after a call has come to stand, if all the others have returned. -/
theorem Stands.coupledRun {calls : List Call} (h : Stands b position)
    (hwaits : Waits { b with calls })
    (hcalls : ∀ call ∈ calls, call.position = position ∨ call.position = .returned) :
    CoupledRun { b with calls } := by
  refine ⟨hwaits, h.run, h.nodes, fun i resuming id rest hi => .inl ?_,
    fun call hcall hrejected => ?_⟩
  · rcases hcalls _ (List.mem_of_getElem? hi) with hposition | hposition
    · exact h.waiting id rest hposition.symm
    · cases hposition
  · rcases hcalls call hcall with hposition | hposition
    · exact absurd (hposition.symm.trans hrejected) h.not_rejected
    · cases hrejected.symm.trans hposition

theorem CoupledRun.returned (ha : CoupledRun a) (hpaused : a.status.lifecycle = .paused)
    {call : Call} (hcall : call ∈ a.calls) : call.position = .returned := by
  obtain ⟨i, hi⟩ := List.mem_iff_getElem?.1 hcall
  cases hposition : call.position with
  | returned => rfl
  | rejected =>
    have hterminal := (ha.rejected call hcall hposition).1
    rw [hpaused] at hterminal
    cases hterminal
  | replaying id rest =>
    rcases ha.waits.held i ⟨call, hi, hposition ▸ trivial⟩ with hheld | ⟨hheld, -⟩
    · rw [hpaused] at hheld
      cases hheld
    · rw [hpaused] at hheld
      cases hheld

/-- All calls but the one that waits have returned. -/
theorem CoupledRun.others_returned {i j : Nat} {call : Call} (ha : CoupledRun a)
    (hi : a.WaitingAt i) (hj : a.calls[j]? = some call) (hne : j ≠ i) :
    call.position = .returned := by
  cases hposition : call.position with
  | returned => rfl
  | rejected => exact absurd hi ((ha.rejected call (List.mem_of_getElem? hj) hposition).2 i)
  | replaying id rest =>
    exact absurd (ha.waits.single j i ⟨call, hj, hposition ▸ trivial⟩ hi) hne

theorem CoupledRun.created (haccepted : graph.Accepted)
    (h : Continue graph shadow false (.queued graph) b position) :
    CoupledRun { b with calls := b.calls ++ [⟨false, position⟩] } := by
  have hwaits := Waits.created h
  have hcalls := h.calls
  cases h with
  | invalid hnot => exact absurd haccepted hnot
  | loop _ hloop =>
    have hstands : Stands b position := by
      refine hloop.coupled (fun id n hn => ?_) rfl
      obtain ⟨node, -, rfl⟩ := Option.map_eq_some_iff.1 hn
      rcases deriveInitialNodeState_state node.nodeId graph with hready | hpending
      · rw [hready]
        exact ⟨⟨nofun, nofun⟩, ⟨nofun, nofun⟩⟩
      · rw [hpending]
        exact ⟨⟨nofun, nofun⟩, ⟨nofun, nofun⟩⟩
    refine hstands.coupledRun hwaits fun call hcall => .inl ?_
    rw [hcalls] at hcall
    obtain rfl := List.mem_singleton.1 hcall
    rfl

theorem Settle.stands {ended : ReplayEnd} {i : Nat} (ha : CoupledRun a)
    (hcall : a.calls[i]? = some ⟨resuming, .replaying id rest⟩)
    (hop : KeepsCoupled a (.settle i ended)) (hthrew : ended ≠ .threw)
    (h : Settle kind shadow resuming a id rest ended b position) : Stands b position := by
  have hwaiting := ha.waiting i resuming id rest hcall
  have hnot_paused : a.status.lifecycle ≠ .paused := by
    rcases hwaiting with ⟨hlifecycle, -⟩ | ⟨hlifecycle, -⟩ <;> rw [hlifecycle] <;> decide
  have hnode : ∀ n, a.node id = some n → n.lifecycle ≠ .paused := by
    intro n hn
    rcases hwaiting with ⟨-, m, hm, hrunning⟩ | ⟨-, hterminal⟩
    · obtain rfl := Option.some.inj (hn.symm.trans hm)
      rw [hrunning]
      decide
    · rw [hterminal id n hn]
      decide
  cases h with
  | threw => exact absurd rfl hthrew
  | succeeded hloop =>
    have hnodes : (a.patchNode id (·.succeed)).Nodes (·.Coupled) :=
      ha.nodes.patchNode fun n hn => ((ha.nodes id n hn).ends (hnode n hn)).1
    rcases hwaiting with ⟨hrunning, -⟩ | ⟨hterminal, hall⟩
    · exact hloop.coupled hnodes (ha.run.eq_running hrunning)
    · obtain ⟨rfl, rfl⟩ := hloop.of_terminal (hall.patchNode fun n hn => rfl)
      exact ⟨(ha.run.ends hnot_paused).1, hnodes, nofun, nofun⟩
  | partly =>
    rcases hwaiting with ⟨hrunning, m, hm, hm_running⟩ | ⟨hterminal, -⟩
    · refine ⟨ha.run.pause (by rw [hrunning]; decide) _, ha.nodes.patchNode fun n hn => ?_,
        nofun, nofun⟩
      obtain rfl := Option.some.inj (hn.symm.trans hm)
      exact (ha.nodes id n hn).pause (by rw [hm_running]; decide) _
    · exact absurd hterminal hop
  | failed =>
    exact ⟨(ha.run.ends hnot_paused).2,
      ha.nodes.patchNode fun n hn => ((ha.nodes id n hn).ends (hnode n hn)).2.1, nofun, nofun⟩

theorem CoupledRun.step {op : RunOp} (haccepted : graph.Accepted) (ha : CoupledRun a)
    (hop : KeepsCoupled a op) (h : Step graph shadow a op b) : CoupledRun b := by
  have hwaits := ha.waits.step h
  cases h with
  | resume hpaused hreason hcontinue =>
    have hcalls := hcontinue.calls
    cases hcontinue with
    | invalid hnot => exact absurd haccepted hnot
    | loop _ hloop =>
      refine (hloop.coupled ha.nodes rfl).coupledRun hwaits fun call hcall => ?_
      rw [hcalls] at hcall
      rcases List.mem_append.1 hcall with hcall | hcall
      · exact .inr (ha.returned hpaused hcall)
      · rw [List.mem_singleton.1 hcall]
        exact .inl rfl
  | cancel hlive =>
    refine ⟨hwaits, ⟨⟨nofun, nofun⟩, ⟨fun _ => rfl, fun _ => rfl⟩⟩, fun id n hn => ?_,
      fun i _ _ _ hi => .inr ⟨rfl, fun id n hn => ?_⟩, fun call hcall hrejected => ?_⟩
    · obtain ⟨m, hm, rfl⟩ := Option.map_eq_some_iff.1 hn
      split
      · exact ha.nodes id m hm
      · exact ((ha.nodes id m hm).ends (hop id m hm)).2.2
    · obtain ⟨m, hm, rfl⟩ := Option.map_eq_some_iff.1 hn
      split
      · assumption
      · rfl
    · exact absurd (ha.rejected call hcall hrejected).1 hlive
  | @settle i resuming id rest ended b position hcall hsettle =>
    have hwaiting : a.WaitingAt i := ⟨_, hcall, trivial⟩
    by_cases hthrew : ended = .threw
    · subst hthrew
      have hset := fun j => ha.waits.of_settle (j := j) hcall hsettle
      cases hsettle
      have hterminal := (ha.waiting i resuming id rest hcall).resolve_left fun h => hop h.1
      refine ⟨hwaits, ha.run, ha.nodes, fun j _ _ _ hj => .inr hterminal,
        fun call hcall' hrejected => ⟨hterminal.1, fun j hj => (hset j hj).2⟩⟩
    · refine (hsettle.stands ha hcall hop hthrew).coupledRun hwaits fun call hmem => ?_
      obtain ⟨j, hj⟩ := List.mem_iff_getElem?.1 hmem
      rw [hsettle.calls] at hj
      by_cases hne : j = i
      · subst hne
        rw [List.getElem?_set_self (List.getElem?_eq_some_iff.1 hcall).1] at hj
        obtain rfl := Option.some.inj hj
        exact .inl rfl
      · rw [List.getElem?_set_ne (Ne.symm hne)] at hj
        exact .inr (ha.others_returned hwaiting hj hne)

end RunState

/-! ## The kernel -/

namespace AutomationSystem

variable {defaults : AutomationDefaults} {r : String} {s s' : AutomationSystem}
  {event : AutomationEvent} {run : AutomationRun}

/-- A cancel of the run finds no paused node; a replay of it that ends partial does not end
after a cancel, and one that is rejected ends after one. -/
def KeepsRecords (defaults : AutomationDefaults) (r : String) (s : AutomationSystem) :
    AutomationEvent → Prop
  | .cancel request _ => request.runId = r →
    ∀ run ∈ (requested defaults s request.tenant r).toOption,
      ∀ node ∈ run.view.nodes, node.lifecycleState ≠ .paused
  | .settle runId _ (some result) _ => runId = r → ∀ run ∈ s.run? r,
    run.view.lifecycleState = .terminal → result.status ≠ "partial"
  | .settle runId _ none _ => runId = r → ∀ run ∈ s.run? r, run.view.lifecycleState ≠ .running
  | _ => True

instance decidableKeepsRecords : Decidable (KeepsRecords defaults r s event) :=
  match event with
  | .cancel request _ => inferInstanceAs (Decidable (request.runId = r →
    ∀ run ∈ (requested defaults s request.tenant r).toOption,
      ∀ node ∈ run.view.nodes, node.lifecycleState ≠ .paused))
  | .settle runId _ (some result) _ => inferInstanceAs (Decidable (runId = r → ∀ run ∈ s.run? r,
    run.view.lifecycleState = .terminal → result.status ≠ "partial"))
  | .settle runId _ none _ => inferInstanceAs (Decidable (runId = r → ∀ run ∈ s.run? r,
    run.view.lifecycleState ≠ .running))
  | .create _ | .run .. | .resume .. => isTrue trivial

theorem keepsCoupled_of_keepsRecords (h : KeepsRecords defaults r s event) :
    ∀ run op, s.run? r = some run → Performs defaults s r event op →
      RunState.KeepsCoupled run.state op := by
  intro run op hrun hperforms
  cases hperforms with
  | resume => trivial
  | cancel hid hrequested =>
    intro id n hn
    obtain ⟨node, hnode, rfl⟩ := Option.map_eq_some_iff.1 hn
    obtain rfl := Option.some.inj (hrun.symm.trans (requested_eq_ok hrequested))
    exact h hid _ (toOption_eq_some.2 hrequested) node (mem_of_row? hnode).1
  | @settle i result turn =>
    cases result with
    | none => exact h rfl run hrun
    | some result =>
      unfold replayEnd
      dsimp only
      split
      · trivial
      · split
        · next hpartly => exact fun hterminal => h rfl run hrun hterminal hpartly
        · trivial

/-- The records of a run: each is coupled, and no call was rejected while the run is running. -/
structure RecordsCoupled (run : AutomationRun) : Prop where
  run_pause : run.view.pauseReason.isSome ↔ run.view.lifecycleState = .paused
  run_outcome : run.view.terminalOutcome.isSome ↔ run.view.lifecycleState = .terminal
  node_pause : ∀ node ∈ run.view.nodes, node.pauseReason.isSome ↔ node.lifecycleState = .paused
  node_outcome : ∀ node ∈ run.view.nodes,
    node.terminalOutcome.isSome ↔ node.lifecycleState = .terminal
  rejected : ∀ e ∈ run.executions, e.stage.position = .rejected →
    run.view.lifecycleState ≠ .running

/-- In a trace whose steps keep the records of the run coupled, they are at every time. -/
theorem records_stay_coupled (σ : Lib.Trace (step defaults)) (h0 : σ.state 0 = {})
    (hkeeps : σ.Always (KeepsRecords defaults r)) (n : Nat) (hrun : (σ.state n).run? r = some run) :
    RecordsCoupled run := by
  have hempty : Holds (fun _ _ => RunState.CoupledRun) r (σ.state 0) := by
    rw [h0]
    exact holds_empty
  have hholds := Trace.Always.stable hkeeps
    (fun s event s' hs hC h => holds_step (C := RunState.KeepsCoupled)
      (fun haccepted h => .created haccepted h)
      (fun haccepted ha hop h => ha.step haccepted hop h) hs
      (keepsCoupled_of_keepsRecords hC) h) hempty (Nat.zero_le n)
  obtain ⟨graph, hhosts, ha⟩ := (hholds.has hrun).spec hrun
  refine ⟨ha.run.1, ha.run.2, fun node hnode => ?_, fun node hnode => ?_, fun e he hrejected => ?_⟩
  · exact (ha.nodes _ _ (hhosts.node_eq hnode)).1
  · exact (ha.nodes _ _ (hhosts.node_eq hnode)).2
  · have hterminal := (ha.rejected e.call (List.mem_map_of_mem he) hrejected).1
    intro hrunning
    cases hrunning.symm.trans hterminal

def traceSignCancelled : Lib.Trace (step localDefaults) :=
  .ofRun {} (awaitSign ++ [cancelRelease]) (by decide +kernel)

def traceThrown : Lib.Trace (step localDefaults) :=
  .ofRun {} (startRelease ++ [.settle "r" 0 none quietTurn]) (by decide +kernel)

theorem records_stay_coupled_sample :
    ∃ run, (traceSigned.state 4).run? "r" = some run ∧ RecordsCoupled run := by
  have hlive : ((traceSigned.state 4).run? "r").isSome := by decide +kernel
  obtain ⟨run, hrun⟩ := Option.isSome_iff_exists.1 hlive
  exact ⟨run, hrun, records_stay_coupled traceSigned rfl
    (Trace.always_ofRun (by decide +kernel)) 4 hrun⟩

/-- A cancelled node keeps the reason for which it waited, and a run whose replay is rejected is
left running. -/
theorem cancelled_node_keeps_reason :
    (¬ ∀ (σ : Lib.Trace (step localDefaults)) (n : Nat), σ.state 0 = {} →
      ∀ run ∈ (σ.state n).run? "r", ∀ node ∈ run.view.nodes,
        node.pauseReason.isSome → node.lifecycleState = .paused) ∧
    ¬ ∀ (σ : Lib.Trace (step localDefaults)) (n : Nat), σ.state 0 = {} →
      ∀ run ∈ (σ.state n).run? "r", ∀ e ∈ run.executions, e.stage.position = .rejected →
        run.view.lifecycleState ≠ .running := by
  constructor
  · intro h
    have hcancelled := h traceSignCancelled 4 rfl
    revert hcancelled
    decide +kernel
  · intro h
    have hthrown := h traceThrown 3 rfl
    revert hthrown
    decide +kernel

end AutomationSystem

end AionisCore.Memory
