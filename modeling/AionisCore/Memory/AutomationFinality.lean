import AionisCore.Memory.AutomationKernel

/-!
# A run that has ended

One call of a run waits for a replay at most, and it waits while the run is running or was
cancelled. When the replay of a cancelled run ends, the call goes on as before: the run
becomes succeeded or failed, although no node is started. A run for which this never
happens stays as it ended.
-/

namespace AionisCore.Memory

open Lib Store

/-- The call waits for a replay. -/
def Position.Waiting : Position → Prop
  | .replaying .. => True
  | _ => False

namespace RunState

variable {kind : String → Option NodeKind} {shadow resuming : Bool} {a b : RunState} {id : String}
  {rest order : List String} {position : Position} {graph : AutomationGraph}

/-! ## What the loop leaves alone -/

variable {ended : ReplayEnd}

theorem Round.calls {ended : Ended} (h : Round kind shadow resuming a id rest b ended) :
    b.calls = a.calls := by
  cases h <;> rfl

theorem Round.status_of_next (h : Round kind shadow resuming a id rest b .next) :
    b.status = a.status := by
  cases h <;> rfl

theorem Loop.calls (h : Loop kind shadow resuming a order b position) : b.calls = a.calls := by
  induction h with
  | done => rfl
  | next hround _ ih => exact ih.trans hround.calls
  | stop hround => exact hround.calls

/-- A call that comes to wait keeps the state of the run. -/
theorem Loop.status_of_waiting (h : Loop kind shadow resuming a order b position)
    (hwaiting : position.Waiting) : b.status = a.status := by
  induction h with
  | done => exact hwaiting.elim
  | next hround _ ih => exact (ih hwaiting).trans hround.status_of_next
  | stop hround =>
    cases hround with
    | pause => exact hwaiting.elim
    | fail => exact hwaiting.elim
    | replay => rfl

theorem Continue.calls (h : Continue graph shadow resuming a b position) : b.calls = a.calls := by
  cases h with
  | invalid => rfl
  | loop _ hloop => exact hloop.calls

theorem Continue.status_of_waiting (h : Continue graph shadow resuming a b position)
    (hwaiting : position.Waiting) : b.status = { lifecycle := .running } := by
  cases h with
  | invalid => exact hwaiting.elim
  | loop _ hloop => exact hloop.status_of_waiting hwaiting

theorem Settle.calls (h : Settle kind shadow resuming a id rest ended b position) :
    b.calls = a.calls := by
  cases h with
  | threw => rfl
  | succeeded hloop => exact hloop.calls
  | partly => rfl
  | failed => rfl

theorem Settle.status_of_waiting (h : Settle kind shadow resuming a id rest ended b position)
    (hwaiting : position.Waiting) : b.status = a.status := by
  cases h with
  | threw => exact hwaiting.elim
  | succeeded hloop => exact hloop.status_of_waiting hwaiting
  | partly => exact hwaiting.elim
  | failed => exact hwaiting.elim

/-! ## The call that waits -/

/-- The `i`th call waits for a replay. -/
def WaitingAt (a : RunState) (i : Nat) : Prop :=
  ∃ call, a.calls[i]? = some call ∧ call.position.Waiting

/-- One call waits at most, and only in a run that is running or was cancelled. -/
structure Waits (a : RunState) : Prop where
  single : ∀ i j, a.WaitingAt i → a.WaitingAt j → i = j
  held : ∀ i, a.WaitingAt i → a.status.lifecycle = .running ∨
    (a.status.lifecycle = .terminal ∧ a.status.outcome = some .cancelled)

theorem waits_concat {call : Call} (hquiet : ∀ i, ¬ a.WaitingAt i)
    (hcall : call.position.Waiting → b.status.lifecycle = .running)
    (hcalls : b.calls = a.calls) : Waits { b with calls := b.calls ++ [call] } := by
  have hlast : ∀ i, WaitingAt { b with calls := b.calls ++ [call] } i →
      i = a.calls.length ∧ call.position.Waiting := by
    rintro i ⟨other, hother, hwaiting⟩
    have hother : (b.calls ++ [call])[i]? = some other := hother
    rw [hcalls] at hother
    rcases Nat.lt_trichotomy i a.calls.length with hi | rfl | hi
    · rw [List.getElem?_append_left hi] at hother
      exact (hquiet i ⟨other, hother, hwaiting⟩).elim
    · rw [List.getElem?_concat_length] at hother
      obtain rfl := Option.some.inj hother
      exact ⟨rfl, hwaiting⟩
    · rw [List.getElem?_eq_none (by simp; omega)] at hother
      cases hother
  refine ⟨fun i j hi hj => (hlast i hi).1.trans (hlast j hj).1.symm, fun i hi => .inl ?_⟩
  exact hcall (hlast i hi).2

/-- After a replay only the call that waited for it may wait. -/
theorem Waits.of_settle {i j : Nat} (ha : Waits a)
    (hcall : a.calls[i]? = some ⟨resuming, .replaying id rest⟩)
    (h : Settle kind shadow resuming a id rest ended b position)
    (hj : WaitingAt { b with calls := b.calls.set i ⟨resuming, position⟩ } j) :
    j = i ∧ position.Waiting := by
  obtain ⟨call, hset, hwaiting⟩ := hj
  have hset : (b.calls.set i ⟨resuming, position⟩)[j]? = some call := hset
  rw [h.calls] at hset
  by_cases hj : j = i
  · subst hj
    rw [List.getElem?_set_self (List.getElem?_eq_some_iff.1 hcall).1] at hset
    obtain rfl := Option.some.inj hset
    exact ⟨rfl, hwaiting⟩
  · rw [List.getElem?_set_ne (Ne.symm hj)] at hset
    exact absurd (ha.single j i ⟨call, hset, hwaiting⟩ ⟨_, hcall, trivial⟩) hj

theorem Waits.created (h : Continue graph shadow false (.queued graph) b position) :
    Waits { b with calls := b.calls ++ [⟨false, position⟩] } := by
  refine waits_concat (a := .queued graph) (fun i hi => ?_) (fun hwaiting => ?_) h.calls
  · obtain ⟨call, hcall, -⟩ := hi
    cases hcall
  · rw [h.status_of_waiting hwaiting]

theorem Waits.step {op : RunOp} (ha : Waits a) (h : Step graph shadow a op b) : Waits b := by
  cases h with
  | resume hpaused hreason hcontinue =>
    refine waits_concat (fun i hi => ?_) (fun hwaiting => ?_) hcontinue.calls
    · rcases ha.held i hi with hrunning | ⟨hterminal, -⟩
      · rw [hpaused] at hrunning
        cases hrunning
      · rw [hpaused] at hterminal
        cases hterminal
    · rw [hcontinue.status_of_waiting hwaiting]
  | cancel => exact ⟨ha.single, fun i hi => .inr ⟨rfl, rfl⟩⟩
  | settle hcall hsettle =>
    refine ⟨fun j k hj hk => ?_, fun j hj => ?_⟩
    · rw [(ha.of_settle hcall hsettle hj).1, (ha.of_settle hcall hsettle hk).1]
    · have hstatus := hsettle.status_of_waiting (ha.of_settle hcall hsettle hj).2
      dsimp only
      rw [hstatus]
      exact ha.held _ ⟨_, hcall, trivial⟩

/-! ## A run that stays as it ended -/

/-- The run has ended so, after these starts; a replay that ends in repair pauses it again. -/
structure Final (o : Option RunTerminalOutcome)
    (starts : List (String × (String → Option NodeStatus))) (a : RunState) : Prop where
  waits : Waits a
  outcome : a.status.outcome = o
  starts : a.starts = starts
  ended : a.status.lifecycle = .terminal ∨ a.status.lifecycle = .paused ∧
    a.status.pauseReason = some .repairRequired ∧ o = some .cancelled ∧ ∀ i, ¬ a.WaitingAt i

/-- No replay makes an ended run succeeded or failed. -/
def InTime (a : RunState) (op : RunOp) : Prop :=
  ∀ i ended, op = .settle i ended → a.status.lifecycle = .terminal →
    ended = .threw ∨ ended = .partly

theorem Final.step {o : Option RunTerminalOutcome}
    {starts : List (String × (String → Option NodeStatus))} {op : RunOp} (ha : Final o starts a)
    (hop : InTime a op) (h : Step graph shadow a op b) : Final o starts b := by
  have hwaits := ha.waits.step h
  cases h with
  | resume hpaused hreason hcontinue =>
    rcases ha.ended with hterminal | ⟨-, hrepair, -⟩
    · rw [hpaused] at hterminal
      cases hterminal
    · rw [hreason] at hrepair
      cases hrepair
  | cancel hlive =>
    rcases ha.ended with hterminal | ⟨-, -, hcancelled, -⟩
    · exact absurd hterminal hlive
    · exact ⟨hwaits, hcancelled.symm, ha.starts, .inl rfl⟩
  | settle hcall hsettle =>
    rcases ha.ended with hterminal | ⟨-, -, -, hquiet⟩
    · have hcancelled : a.status.outcome = some .cancelled := by
        rcases ha.waits.held _ ⟨_, hcall, trivial⟩ with hrunning | ⟨-, hcancelled⟩
        · rw [hterminal] at hrunning
          cases hrunning
        · exact hcancelled
      rcases hop _ _ rfl hterminal with rfl | rfl
      · cases hsettle
        exact ⟨hwaits, ha.outcome, ha.starts, .inl hterminal⟩
      · have hset := fun j => ha.waits.of_settle (j := j) hcall hsettle
        cases hsettle with
        | partly =>
          refine ⟨hwaits, ha.outcome, ha.starts, .inr ⟨rfl, rfl, ?_, fun j hj => (hset j hj).2⟩⟩
          exact ha.outcome.symm.trans hcancelled
    · exact absurd ⟨_, hcall, trivial⟩ (hquiet _)

end RunState

/-! ## The kernel -/

namespace AutomationSystem

variable {defaults : AutomationDefaults} {r : String} {s s' : AutomationSystem}
  {event : AutomationEvent}

/-- If a replay of the run ends with a result while the run is terminal, the result is partial. -/
def EndsInTime (r : String) (s : AutomationSystem) : AutomationEvent → Prop
  | .settle runId _ (some result) _ => runId = r → ∀ run ∈ s.run? r,
    run.view.lifecycleState = .terminal → result.status = "partial"
  | _ => True

instance decidableEndsInTime : Decidable (EndsInTime r s event) :=
  match event with
  | .settle runId _ (some result) _ => inferInstanceAs (Decidable (runId = r → ∀ run ∈ s.run? r,
    run.view.lifecycleState = .terminal → result.status = "partial"))
  | .settle _ _ none _ | .create _ | .run .. | .resume .. | .cancel .. => isTrue trivial

theorem inTime_of_endsInTime (h : EndsInTime r s event) :
    ∀ run op, s.run? r = some run → Performs defaults s r event op →
      RunState.InTime run.state op := by
  rintro run op hrun hperforms i ended rfl hterminal
  generalize hop : RunState.RunOp.settle i ended = op at hperforms
  cases hperforms with
  | resume => cases hop
  | cancel => cases hop
  | @settle _ result turn =>
    cases hop
    cases result with
    | none => exact .inl rfl
    | some result =>
      have hpartly : result.status = "partial" := h rfl run hrun hterminal
      refine .inr ?_
      unfold replayEnd
      dsimp only
      rw [hpartly]
      decide

theorem waits_holds {σ : Lib.Trace (step defaults)} (h0 : σ.state 0 = {}) (n : Nat) :
    Holds (fun _ _ a => a.Waits) r (σ.state n) := by
  refine Trace.invariant (P := Holds (fun _ _ a => a.Waits) r) ?_ (fun s event s' hs h => ?_) n
  · rw [h0]
    exact holds_empty
  · exact holds_step (C := fun _ _ => True) (fun _ h => .created h)
      (fun _ ha _ h => ha.step h) hs (fun _ _ _ _ => trivial) h

/-- In a trace in which no replay ends too late, a run that is terminal keeps its outcome and
starts no node. -/
theorem terminal_run_stays (σ : Lib.Trace (step defaults)) (h0 : σ.state 0 = {})
    (hintime : σ.Always (EndsInTime r)) {n m : Nat} (hnm : n ≤ m) {run : AutomationRun}
    (hrun : (σ.state n).run? r = some run) (hterminal : run.view.lifecycleState = .terminal) :
    ∃ run', (σ.state m).run? r = some run' ∧
      run'.view.terminalOutcome = run.view.terminalOutcome ∧
      run'.starts.map (·.nodeId) = run.starts.map (·.nodeId) := by
  have hwaits := (waits_holds h0 n).has hrun
  obtain ⟨graph, hhosts, ha⟩ := hwaits.spec hrun
  have hfinal : Has (fun _ _ => RunState.Final run.state.status.outcome run.state.starts) r
      (σ.state n) :=
    ⟨hwaits.1, run, graph, hrun, hhosts, ⟨ha, rfl, rfl, .inl hterminal⟩⟩
  obtain ⟨-, run', -, hrun', -, hlast⟩ := Trace.Always.stable hintime
    (fun s event s' hs hC h => has_step (C := RunState.InTime) (fun _ ha hop hstep =>
      ha.step hop hstep) hs (inTime_of_endsInTime hC) h) hfinal hnm
  refine ⟨run', hrun', hlast.outcome, ?_⟩
  have hstarts := congrArg (List.map Prod.fst) hlast.starts
  unfold AutomationRun.state at hstarts
  dsimp only at hstarts
  rw [List.map_map, List.map_map] at hstarts
  exact hstarts

/-- A playbook, then an approval. -/
def releaseGraph : AutomationGraph where
  nodes := [
    { nodeId := "build", kind := .playbook "build" none none },
    { nodeId := "sign", kind := .approval none }]
  edges := [{ source := "build", target := "sign" }]

def localDefaults : AutomationDefaults := { defaultScope := "local", defaultTenantId := "default" }

def noTenant : TenantRequest := { tenantId := none, scope := none }

def quietTurn : AutomationTurn where
  now := "2026-01-01T00:00:00.000Z"
  number _ := none
  identical _ := false

def replayed (status : String) : LiteAutomationReplayResult where
  run := some (.obj [("status", .str status)])

/-- The run `r` of the graph comes to wait for the replay of its playbook. -/
def startRelease : List AutomationEvent := [
  .create { tenant := noTenant, automationId := "release",
            name := "release", graph := releaseGraph },
  .run { tenant := noTenant, automationId := "release" } "r" quietTurn]

def cancelRelease : AutomationEvent := .cancel { tenant := noTenant, runId := "r" } quietTurn

/-- The playbook of the run succeeds, and the run waits for its approval. -/
def awaitSign : List AutomationEvent :=
  startRelease ++ [.settle "r" 0 (replayed "success") quietTurn]

def traceSigned : Lib.Trace (step localDefaults) :=
  .ofRun {} (awaitSign ++ [.resume { tenant := noTenant, runId := "r" } quietTurn])
    (by decide +kernel)

/-- The run is cancelled, and then the replay ends. -/
def cancelledFirst (status : String) : List AutomationEvent :=
  startRelease ++ [cancelRelease, .settle "r" 0 (replayed status) quietTurn]

def tracePartly : Lib.Trace (step localDefaults) :=
  .ofRun {} (cancelledFirst "partial") (by decide +kernel)

def traceSuccess : Lib.Trace (step localDefaults) :=
  .ofRun {} (cancelledFirst "success") (by decide +kernel)

theorem terminal_run_stays_sample : ∃ run run' : AutomationRun,
    (tracePartly.state 3).run? "r" = some run ∧ run.view.lifecycleState = .terminal ∧
    (tracePartly.state 4).run? "r" = some run' ∧
    run'.view.terminalOutcome = run.view.terminalOutcome ∧
    run'.starts.map (·.nodeId) = run.starts.map (·.nodeId) := by
  have hlive : ((tracePartly.state 3).run? "r").isSome := by decide +kernel
  have hterminal : ∀ run ∈ (tracePartly.state 3).run? "r",
      run.view.lifecycleState = .terminal := by decide +kernel
  obtain ⟨run, hrun⟩ := Option.isSome_iff_exists.1 hlive
  obtain ⟨run', hrun', hkept⟩ := terminal_run_stays (r := "r") tracePartly rfl
    (Trace.always_ofRun (by decide +kernel)) (show 3 ≤ 4 by omega) hrun (hterminal run hrun)
  exact ⟨run, run', hrun, hterminal run hrun, hrun', hkept⟩

/-- A replay that ends well after the run was cancelled makes it succeeded. -/
theorem cancelled_run_succeeds : ¬ ∀ (σ : Lib.Trace (step localDefaults)) (n m : Nat),
    σ.state 0 = {} → n ≤ m →
      ∀ run ∈ (σ.state n).run? "r", ∀ run' ∈ (σ.state m).run? "r",
        run.view.lifecycleState = .terminal →
          run'.view.terminalOutcome = run.view.terminalOutcome := by
  intro h
  have hsuccess := h traceSuccess 3 4 rfl (by omega)
  revert hsuccess
  decide +kernel

end AutomationSystem

end AionisCore.Memory
