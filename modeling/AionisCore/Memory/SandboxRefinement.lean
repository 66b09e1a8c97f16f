import AionisCore.Memory.SandboxExecutor
import AionisCore.Memory.SandboxRunView
import Mathlib.Logic.Relation

/-!
# The executor as its runs see it

`view s id` is what the state of the executor comes to for the run `id`. Every step of the
executor is a sequence of steps of the run, as long as no rollback takes back a write to its
row. `Adopts` and `Sweeps` name the steps that the assumptions `sole` and `unswept` are about.
-/

namespace AionisCore.Memory

open Lib Lib.JsString Store Relation

/-- What an execution holds of a run at a stage. -/
def Stage.holder? (id : String) : Stage → Option Holder
  | .claiming (some run) _ | .claimed (some run) | .loading (some run) =>
    if run.id = id then some { canceled := run.cancelRequested } else none
  | .mocking run | .preparing run _ _ => if run.id = id then some {} else none
  | .started run _ _ state | .ended run _ _ state _ =>
    if run.id = id then some { begun := true, canceled := state.canceled } else none
  | _ => none

/-- The stage holds `h` of the run `run`, and nothing of other runs. -/
def Stage.Holds (stage : Stage) (run : SandboxRunRow) (h : Holder) : Prop :=
  ∀ id, stage.holder? id = if run.id = id then some h else none

namespace SandboxSystem

variable {Cidr : Type} {config : SandboxExecutorConfig Cidr} {network : SandboxNetwork Cidr}
  {s s' : SandboxSystem} {id : String} {i : Nat} {e : Execution} {now : Int}

def view (s : SandboxSystem) (id : String) : RunView where
  row := s.store.run? id
  holder i := s.executions[i]?.bind (·.stage.holder? id)
  starts := s.starts.count id

/-- Some execution holds the run. -/
def Held (s : SandboxSystem) (id : String) : Prop := ¬ (s.view id).Unheld

/-- The step takes a running run over from whoever holds it. -/
def Adopts (s : SandboxSystem) (id : String) : SandboxEvent → Prop
  | .execution i .resumed _ => s.Held id ∧ (s.store.getRunningRun id).isSome ∧
    ∃ e, s.executions[i]? = some e ∧ e.runId = id ∧ ∃ run, e.stage = .claimed run ∧ run.isNone
  | _ => False

/-- The step recovers a run that an execution holds. -/
def Sweeps (s : SandboxSystem) (id : String) : SandboxEvent → Prop
  | .sweepNext _ => s.Held id ∧ s.active id = none ∧
    ∃ row rest, s.sweep = some (row :: rest) ∧ row.id = id
  | _ => False

/-- The step rolls back a transaction in which the row of the run was written. -/
def Loses (s : SandboxSystem) (id : String) : SandboxEvent → Prop
  | .submitNext i _ _ => s.submits[i]? = some (.closing false true) ∧
    s.store.rollback.run? id ≠ s.store.run? id
  | .cancelNext i _ => (∃ request, s.cancels[i]? = some (request, .closing none true)) ∧
    s.store.rollback.run? id ≠ s.store.run? id
  | _ => False

/-! ## What the step of an execution comes to -/

/-- The execution goes on with what it holds, loads a running run, starts the command, lets the
run go without an outcome or with one, or is over. -/
inductive Advance (s : SandboxSystem) (i : Nat) (e : Execution) (event : ExecutionEvent)
    (now : Int) : SandboxSystem → Prop where
  | next {stage : Stage} {store : LiteHostStore} {timers : List String}
    (hstore : ∀ id, store.run? id = s.store.run? id)
    (hsame : ∀ id, stage.holder? id = e.stage.holder? id) (hlive : stage ≠ .done) :
    Advance s i e event now ({ s with store, heartbeatTimers := timers }.setStage i stage)
  | load (hstage : e.stage = .claimed none) (hevent : event = .resumed) :
    Advance s i e event now (s.setStage i (.loading (s.store.getRunningRun e.runId)))
  | start {run : SandboxRunRow} {command : SandboxCommand} {target : Target}
    (hheld : e.stage.Holds run {}) : Advance s i e event now (s.start i run command target)
  | drop {run : SandboxRunRow} {heartbeat : Bool} (hheld : e.stage.Holds run {}) :
    Advance s i e event now (s.setStage i (.finishing heartbeat))
  | finalize {run : SandboxRunRow} {h : Holder} {out : RunOutcome} {heartbeat : Bool}
    {timers : List String} {active : String → Option Nat} (hheld : e.stage.Holds run h)
    (hterminal : out.status.terminal) (hcanceled : h.canceled → out.status = .canceled)
    (hactive : active = if h.begun then Function.update s.active run.id none else s.active) :
    Advance s i e event now
      ({ s with heartbeatTimers := timers, active }.finalize i run out heartbeat now)
  | settle (hstage : e.stage = .settled) :
    Advance s i e event now (if e.queued then
      kick { s.setStage i .done with running := s.running - 1 } else s.setStage i .done)

variable {run : SandboxRunRow} {event : ExecutionEvent}

theorem Advance.failed {out : RunOutcome} {timers : List String} (hheld : e.stage.Holds run {})
    (hfailed : out.status = .failed) :
    s.Advance i e event now ({ s with heartbeatTimers := timers }.finalize i run out true now) :=
  .finalize hheld (by rw [hfailed]; rfl) (fun h => by cases h) rfl

theorem Advance.of_execute (hheld : e.stage.Holds run { canceled := run.cancelRequested }) :
    s.Advance i e event now (s.execute config network i run now) := by
  unfold execute
  split
  · exact .finalize hheld rfl (fun _ => rfl) rfl
  · next hrequested =>
    rw [Bool.not_eq_true] at hrequested
    rw [hrequested] at hheld
    have hbeat : ∃ timers, s.startRunHeartbeat config run.id =
        { s with heartbeatTimers := timers } := by
      unfold startRunHeartbeat
      split
      · exact ⟨s.heartbeatTimers, rfl⟩
      · exact ⟨_, rfl⟩
    obtain ⟨timers, hbeat⟩ := hbeat
    rw [hbeat]
    have hnext : ∀ stage : Stage, stage.Holds run {} → stage ≠ .done → s.Advance i e event now
        ({ s with heartbeatTimers := timers }.setStage i stage) := fun stage hstage hlive =>
      .next (fun _ => rfl) (fun id => (hstage id).trans (hheld id).symm) hlive
    dsimp only
    split
    · exact hnext _ (fun _ => rfl) nofun
    · split
      · next herror => exact .failed hheld (parseCommandArgv_error herror)
      · exact hnext _ (fun _ => rfl) nofun
    · split
      · next herror => exact .failed hheld (parseCommandArgv_error herror)
      · split
        · next herror => exact .failed hheld (remoteHost_error herror)
        · exact hnext _ (fun _ => rfl) nofun

theorem terminal_outcomeOf {command : SandboxCommand} {target : Target} {state : ActiveRunState}
    {ending : Ending} {out : RunOutcome}
    (h : outcomeOf config network run command state target ending = some out) :
    out.status.terminal ∧ (state.canceled → out.status = .canceled) := by
  unfold outcomeOf at h
  split at h
  · obtain rfl := Option.some.inj h
    exact ⟨terminal_localOutcome _, localOutcome_canceled _⟩
  · obtain rfl := Option.some.inj h
    exact ⟨terminal_remoteOutcome _ _ _, remoteOutcome_canceled _ _ _⟩
  · cases h

theorem Advance.of_step (hstep : s.stepExecution config network i e now e.stage event = some s') :
    s.Advance i e event now s' := by
  -- a stage with the same run in it, and nothing else that a run sees
  have hnext : ∀ {stage : Stage}, (∀ id, stage.holder? id = e.stage.holder? id) →
      stage ≠ .done → s.Advance i e event now (s.setStage i stage) :=
    fun hsame hlive => .next (fun _ => rfl) hsame hlive
  cases hstage : e.stage with
  | claiming run opened =>
    cases event <;> rw [hstage] at hstep <;> try cases hstep
    refine .next (fun id => LiteHostStore.run?_endTx fun _ h => by cases h) (fun id => ?_) nofun
    rw [hstage]
    cases run <;> rfl
  | claimed run =>
    cases event <;> rw [hstage] at hstep <;> cases run <;> try cases hstep
    · exact .load hstage rfl
    · exact .of_execute fun id => by rw [hstage]; rfl
  | loading run =>
    cases event <;> rw [hstage] at hstep <;> cases run <;> try cases hstep
    · exact hnext (fun id => by rw [hstage]; rfl) nofun
    · exact .of_execute fun id => by rw [hstage]; rfl
  | mocking run =>
    cases event <;> rw [hstage] at hstep <;> try cases hstep
    exact .finalize (fun id => by rw [hstage]; rfl) rfl (fun h => by cases h) rfl
  | preparing run command preparation =>
    have hheld : e.stage.Holds run {} := fun id => by rw [hstage]; rfl
    cases event <;> cases preparation <;> rw [hstage] at hstep <;> try cases hstep
    · unfold stepExecution at hstep
      dsimp only at hstep
      split at hstep <;> obtain rfl := Option.some.inj hstep
      · exact .start hheld
      · exact .drop hheld
    · unfold stepExecution at hstep
      dsimp only at hstep
      split at hstep <;> obtain rfl := Option.some.inj hstep
      · next herror => exact .failed hheld (resolvedIps_error herror)
      · exact .start hheld
  | started run command target state =>
    cases event <;> rw [hstage] at hstep <;> try cases hstep
    · exact hnext (fun id => by rw [hstage]; rfl) nofun
    · unfold stepExecution at hstep
      dsimp only at hstep
      split at hstep
      · cases hstep
      · obtain rfl := Option.some.inj hstep
        exact hnext (fun id => by rw [hstage]; rfl) nofun
  | ended run command target state ending =>
    cases event <;> rw [hstage] at hstep <;> try cases hstep
    obtain ⟨out, hout, rfl⟩ := Option.map_eq_some_iff.1 hstep
    obtain ⟨hterminal, hcanceled⟩ := terminal_outcomeOf hout
    exact .finalize (h := { begun := true, canceled := state.canceled })
      (fun id => by rw [hstage]; rfl) hterminal hcanceled rfl
  | finishing heartbeat =>
    cases event <;> rw [hstage] at hstep <;> try cases hstep
    exact .next (fun _ => rfl) (fun id => by rw [hstage]; rfl) nofun
  | settled =>
    cases event <;> rw [hstage] at hstep <;> try cases hstep
    exact .settle hstage
  | done => cases event <;> rw [hstage] at hstep <;> cases hstep

/-! ## Views after the parts of a step -/

theorem view_eq (hrow : s'.store.run? id = s.store.run? id)
    (hexec : s'.executions = s.executions) (hstarts : s'.starts = s.starts) :
    s'.view id = s.view id := by
  unfold view
  rw [hrow, hexec, hstarts]

theorem holder_eq (hi : s.executions[i]? = some e) :
    (s.view id).holder i = e.stage.holder? id := by
  unfold view
  dsimp only
  rw [hi]
  rfl

/-- A new stage of an execution changes what this execution holds. -/
theorem view_setStage (hi : s.executions[i]? = some e) (stage : Stage) :
    (s.setStage i stage).view id = { s.view id with
      holder := Function.update (s.view id).holder i (stage.holder? id) } := by
  refine RunView.ext rfl (funext fun j => ?_) rfl
  unfold view setStage
  dsimp only
  by_cases hj : j = i
  · subst hj
    rw [Function.update_self, List.getElem?_modify_eq, hi]
    rfl
  · rw [Function.update_of_ne hj, List.getElem?_modify_ne _ _ (Ne.symm hj)]

theorem view_setStage_same (hi : s.executions[i]? = some e) {stage : Stage}
    (hsame : stage.holder? id = e.stage.holder? id) :
    (s.setStage i stage).view id = s.view id := by
  rw [view_setStage hi, hsame, ← holder_eq hi, Function.update_eq_self]

/-! ## Parts of a step as steps of the run -/

section Steps

variable {sole unswept : Prop} {stage : Stage} {run : SandboxRunRow} {h : Holder}

abbrev Steps (sole unswept : Prop) (s s' : SandboxSystem) (id : String) : Prop :=
  ReflTransGen (RunView.Step sole unswept) (s.view id) (s'.view id)

theorem Steps.of_eq (h : s'.view id = s.view id) : Steps sole unswept s s' id := by
  unfold Steps
  rw [h]

theorem view_append (e : Execution) :
    ({ s with executions := s.executions ++ [e] } : SandboxSystem).view id = { s.view id with
      holder := Function.update (s.view id).holder s.executions.length (e.stage.holder? id) } := by
  refine RunView.ext rfl (funext fun j => ?_) rfl
  unfold view
  dsimp only
  by_cases hj : j = s.executions.length
  · subst hj
    rw [Function.update_self, List.getElem?_concat_length]
    rfl
  · rw [Function.update_of_ne hj]
    rcases Nat.lt_or_gt_of_ne hj with hlt | hgt
    · rw [List.getElem?_append_left hlt]
    · rw [List.getElem?_eq_none (by simp; omega), List.getElem?_eq_none (by omega)]

theorem holder_length : (s.view id).holder s.executions.length = none := by
  unfold view
  dsimp only
  rw [List.getElem?_eq_none le_rfl]
  rfl

theorem view_append_none {store : LiteHostStore} (hrow : store.run? id = s.store.run? id)
    {e : Execution} (he : e.stage.holder? id = none) :
    ({ s with store, executions := s.executions ++ [e] } : SandboxSystem).view id = s.view id := by
  have hview := @view_append { s with store } id e
  rw [he, ← @holder_length { s with store } id, Function.update_eq_self] at hview
  exact hview.trans (view_eq hrow rfl rfl)

theorem steps_processRun (runId : String) (queued : Bool) (now : Int) :
    Steps sole unswept s (s.processRun runId queued now) id := by
  unfold processRun
  split
  · exact .of_eq (view_append_none rfl rfl)
  · dsimp only
    have hbegin : ∀ k, s.store.beginTx.1.run? k = s.store.run? k := fun _ =>
      LiteHostStore.run?_beginTx
    rcases s.store.beginTx.1.claimQueuedRun_cases runId now with
      ⟨row, hrow, hqueued, hclaim, hclaimed⟩ | ⟨hclaim, hsame⟩
    · by_cases hid : runId = id
      · subst hid
        rw [hbegin] at hrow
        have hstep := @RunView.Step.claim sole unswept (s.view runId) row s.executions.length now
          hrow hqueued holder_length
        refine .single (Eq.subst (motive := RunView.Step sole unswept (s.view runId))
          (Eq.symm ?_) hstep)
        refine (@view_append { s with store := _ } runId _).trans (RunView.ext hclaimed ?_ rfl)
        rw [hclaim, show Stage.holder? runId (.claiming (some (row.setRunning now)) _) = _ from
          if_pos (LiteHostStore.id_of_run? hrow)]
        rfl
      · refine .of_eq (view_append_none ?_ ?_)
        · rw [LiteHostStore.run?_claimQueuedRun_of_ne (Ne.symm hid), hbegin]
        · rw [hclaim]
          refine if_neg fun h => hid ?_
          rw [← h]
          exact (LiteHostStore.id_of_run? hrow).symm
    · refine .of_eq (view_append_none ((hsame id).trans (hbegin id)) ?_)
      rw [hclaim]
      rfl

section

variable (hi : s.executions[i]? = some e)

include hi

theorem steps_finalize {out : RunOutcome} {heartbeat : Bool}
    (he : e.stage.holder? id = if run.id = id then some h else none)
    (hterminal : out.status.terminal) (hcanceled : h.canceled → out.status = .canceled) :
    Steps sole unswept s (s.finalize i run out heartbeat now) id := by
  have hview := @view_setStage { s with store := s.store.finalizeRun run.id out now } id i e hi
    (.finishing heartbeat)
  by_cases hid : run.id = id
  · rw [if_pos hid] at he
    have hstep := @RunView.Step.finish sole unswept (s.view id) h i now out
      ((holder_eq hi).trans he) hterminal hcanceled
    refine .single (Eq.subst (motive := RunView.Step sole unswept (s.view id)) ?_ hstep)
    refine Eq.symm (Eq.trans hview ?_)
    refine RunView.ext ?_ rfl rfl
    refine LiteHostStore.run?_finalizeRun.trans ?_
    simp only [hid, if_true]
    rfl
  · rw [if_neg hid] at he
    refine .of_eq (hview.trans (RunView.ext ?_ ?_ rfl))
    · refine LiteHostStore.run?_finalizeRun.trans ?_
      simp only [Ne.symm hid, if_false, Option.map_id']
      rfl
    · rw [← holder_eq hi] at he
      exact Function.update_eq_self_iff.2 he.symm

theorem steps_setStage (hsame : stage.holder? id = e.stage.holder? id) :
    Steps sole unswept s (s.setStage i stage) id := .of_eq (view_setStage_same hi hsame)

theorem steps_start {command : SandboxCommand} {target : Target}
    (he : e.stage.holder? id = if run.id = id then some {} else none) :
    Steps sole unswept s (s.start i run command target) id := by
  have hview := @view_setStage { s with
    active := Function.update s.active run.id (some i)
    starts := s.starts ++ [run.id] } id i e hi (.started run command target {})
  by_cases hid : run.id = id
  · rw [if_pos hid] at he
    have hstep := @RunView.Step.begin sole unswept (s.view id) i ((holder_eq hi).trans he)
    refine .single (Eq.subst (motive := RunView.Step sole unswept (s.view id)) ?_ hstep)
    refine Eq.symm (Eq.trans hview ?_)
    refine RunView.ext rfl ?_ ?_
    · rw [show Stage.holder? id (.started run command target {}) = _ from if_pos hid]
      rfl
    · subst hid
      exact List.count_append.trans (by rw [List.count_singleton_self]; rfl)
  · rw [if_neg hid] at he
    refine .of_eq (hview.trans (RunView.ext rfl ?_ ?_))
    · rw [← holder_eq hi] at he
      rw [show Stage.holder? id (.started run command target {}) = _ from if_neg hid]
      exact Function.update_eq_self_iff.2 he.symm
    · refine List.count_append.trans ?_
      rw [List.count_singleton, if_neg (by simpa using hid)]
      rfl

theorem steps_drop {heartbeat : Bool}
    (he : e.stage.holder? id = if run.id = id then some {} else none) :
    Steps sole unswept s (s.setStage i (.finishing heartbeat)) id := by
  by_cases hid : run.id = id
  · rw [if_pos hid] at he
    have hstep := @RunView.Step.drop sole unswept (s.view id) i ((holder_eq hi).trans he)
    exact .single (Eq.subst (motive := RunView.Step sole unswept (s.view id))
      (view_setStage hi _).symm hstep)
  · rw [if_neg hid] at he
    exact steps_setStage hi he.symm

end

@[simp] theorem view_kick : (kick s).view id = s.view id := by
  unfold kick
  split <;> rfl

theorem steps_load (hi : s.executions[i]? = some e)
    (hstage : e.stage = .claimed none)
    (hsole : sole → ¬ s.Adopts id (.execution i .resumed now)) :
    Steps sole unswept s (s.setStage i (.loading (s.store.getRunningRun e.runId))) id := by
  have hnone : (s.view id).holder i = none := by
    rw [holder_eq hi, hstage]
    rfl
  cases hload : s.store.getRunningRun e.runId with
  | none =>
    refine steps_setStage hi ?_
    rw [hstage]
    rfl
  | some run =>
    obtain ⟨hrun, hrunning⟩ := LiteHostStore.getRunningRun_eq_some.1 hload
    have hrunId := LiteHostStore.id_of_run? hrun
    by_cases hid : run.id = id
    · have hrow : (s.view id).row = some run := by rw [← hid, hrunId]; exact hrun
      have hunheld : sole → (s.view id).Unheld := by
        intro hs
        by_contra hheld
        refine hsole hs ⟨hheld, ?_, e, hi, hrunId.symm.trans hid, none, hstage, rfl⟩
        rw [← hid, hrunId, hload]
        rfl
      have hstep := @RunView.Step.adopt sole unswept (s.view id) run i hrow hrunning hnone hunheld
      refine .single (Eq.subst (motive := RunView.Step sole unswept (s.view id)) ?_ hstep)
      refine Eq.symm (Eq.trans (view_setStage hi _) ?_)
      rw [show Stage.holder? id (.loading (some run)) = _ from if_pos hid]
    · refine steps_setStage hi ?_
      rw [hstage]
      exact if_neg hid

theorem steps_stepExecution {event : ExecutionEvent} (hi : s.executions[i]? = some e)
    (hsole : sole → ¬ s.Adopts id (.execution i event now))
    (hstep : s.stepExecution config network i e now e.stage event = some s') :
    Steps sole unswept s s' id := by
  cases Advance.of_step hstep with
  | @next stage store timers hstore hsame hlive =>
    exact .of_eq ((view_setStage_same (s := { s with store, heartbeatTimers := timers }) hi
      (hsame id)).trans (view_eq (hstore id) rfl rfl))
  | load hstage hevent =>
    subst hevent
    exact steps_load hi hstage hsole
  | start hheld => exact steps_start hi (hheld id)
  | drop hheld => exact steps_drop hi (hheld id)
  | @finalize run h out heartbeat timers active hheld hterminal hcanceled hactive =>
    exact steps_finalize (s := { s with heartbeatTimers := timers, active }) hi (hheld id)
      hterminal hcanceled
  | settle hstage =>
    have hdone : (s.setStage i .done).view id = s.view id :=
      view_setStage_same hi (by rw [hstage]; rfl)
    split
    · exact .of_eq (view_kick.trans hdone)
    · exact .of_eq hdone

/-! ## Steps of the pump, of requests and of the sweep -/

theorem steps_pumpLoop (clock : Nat → Int) (queue : List String) (s : SandboxSystem) :
    Steps sole unswept s (pumpLoop config clock s queue) id := by
  induction queue generalizing s with
  | nil => exact .refl
  | cons nextId rest ih =>
    unfold pumpLoop
    split
    · refine ReflTransGen.trans ?_ (ih _)
      exact @steps_processRun { s with
        queue := rest
        queued := s.queued.erase nextId
        running := s.running + 1 } id sole unswept nextId true _
    · exact .refl

theorem holder?_cancel (stage : Stage) : stage.cancel.holder? id = stage.holder? id ∨
    (∃ c, stage.holder? id = some { begun := true, canceled := c }) ∧
      stage.cancel.holder? id = some { begun := true, canceled := true } := by
  cases stage with
  | started run command target state =>
    by_cases hid : run.id = id
    · exact .inr ⟨⟨state.canceled, if_pos hid⟩, if_pos hid⟩
    · exact .inl ((if_neg hid).trans (if_neg hid).symm)
  | ended run command target state ending =>
    by_cases hid : run.id = id
    · exact .inr ⟨⟨state.canceled, if_pos hid⟩, if_pos hid⟩
    · exact .inl ((if_neg hid).trans (if_neg hid).symm)
  | _ => exact .inl rfl

/-- Setting the flag `canceled` of some executions. -/
theorem steps_cancel (hstore : s'.store = s.store) (hstarts : s'.starts = s.starts)
    (hexec : ∀ i : Nat, s'.executions[i]? = s.executions[i]? ∨
      s'.executions[i]? =
        s.executions[i]?.map fun e : Execution => { e with stage := e.stage.cancel }) :
    Steps sole unswept s s' id := by
  have hstep := @RunView.Step.cancel sole unswept (s.view id) (s'.view id).holder fun i => by
    unfold view
    dsimp only
    rcases hexec i with hi | hi <;> rw [hi]
    · exact .inl rfl
    · cases s.executions[i]? with
      | none => exact .inl rfl
      | some e => exact holder?_cancel e.stage
  refine .single (Eq.subst (motive := RunView.Step sole unswept (s.view id)) ?_ hstep)
  refine RunView.ext ?_ rfl ?_
  · exact congrArg (LiteHostStore.run? · id) hstore.symm
  · exact congrArg (List.count id) hstarts.symm

theorem steps_requestCancel (runId : String) :
    Steps sole unswept s (s.requestCancel runId).1 id := by
  unfold requestCancel
  split
  · exact .refl
  · next k hk =>
    refine steps_cancel rfl rfl fun i => ?_
    dsimp only
    by_cases hi : k = i
    · subst hi
      exact .inr (List.getElem?_modify_eq ..)
    · exact .inl (List.getElem?_modify_ne _ _ hi)

theorem steps_shutdown : Steps sole unswept s s.shutdown id := by
  refine steps_cancel rfl rfl fun i => ?_
  unfold shutdown
  dsimp only
  rw [List.getElem?_mapIdx]
  cases s.executions[i]? with
  | none => exact .inl rfl
  | some e =>
    rw [Option.map_some, Option.map_some]
    split
    · exact .inr rfl
    · exact .inl rfl

/-- A step that only writes the row. -/
theorem steps_write {row : Option SandboxRunRow}
    (hstep : RunView.Step sole unswept (s.view id) { s.view id with row })
    (hrow : s'.store.run? id = row) (hexec : s'.executions = s.executions)
    (hstarts : s'.starts = s.starts) : Steps sole unswept s s' id := by
  have hview : s'.view id = { s.view id with row } := by
    unfold view
    rw [hrow, hexec, hstarts]
  unfold Steps
  rw [hview]
  exact .single hstep

/-- A write to the row that keeps its outcome. -/
theorem steps_touch {store : LiteHostStore} {k : String} {p : SandboxRunRow → Bool}
    {f : SandboxRunRow → SandboxRunRow} (hstore : store.run? id = s.store.run? id)
    (hf : ∀ row, (f row).id = row.id) (hout : ∀ row, (f row).outcome = row.outcome)
    (hcancel : ∀ row, row.cancelRequested → (f row).cancelRequested)
    (hs' : s'.store.run? id = (store.updateRun k p f).run? id)
    (hexec : s'.executions = s.executions) (hstarts : s'.starts = s.starts) :
    Steps sole unswept s s' id := by
  rw [LiteHostStore.run?_updateRun hf, hstore] at hs'
  cases hrow : s.store.run? id with
  | none =>
    rw [hrow] at hs'
    exact .of_eq (view_eq (hs'.trans hrow.symm) hexec hstarts)
  | some row =>
    rw [hrow, Option.map_some] at hs'
    refine steps_write (@RunView.Step.touch _ _ _ _ (if id = k ∧ p row then f row else row)
      hrow ?_ ?_) hs' hexec hstarts
    · split
      · exact hout row
      · rfl
    · split
      · exact hcancel row
      · exact fun h => h

theorem steps_stepSubmit {row : Option SandboxRunRow} {stage : SubmitStage}
    (hi : s.submits[i]? = some stage) (hlossless : ¬ s.Loses id (.submitNext i row now))
    (hstep : s.stepSubmit i row now stage = some s') : Steps sole unswept s s' id := by
  cases stage with
  | session opened =>
    unfold stepSubmit at hstep
    dsimp only at hstep
    split at hstep
    · next store hinsert =>
      obtain rfl := Option.some.inj hstep
      obtain ⟨row, -, hinsert⟩ := Option.bind_eq_some_iff.1 hinsert
      obtain ⟨hfree, hrow⟩ := @LiteHostStore.run?_insertRun s.store id now row store hinsert
      by_cases hid : row.id = id
      · subst hid
        rw [hfree, if_pos rfl, Option.none_or] at hrow
        exact steps_write (.insert hfree rfl) hrow rfl rfl
      · rw [if_neg hid, Option.or_none] at hrow
        exact .of_eq (view_eq hrow rfl rfl)
    · obtain rfl := Option.some.inj hstep
      exact .refl
  | closing inserted opened =>
    obtain rfl := Option.some.inj hstep
    refine .of_eq (view_eq (LiteHostStore.run?_endTx fun hopened hinserted => ?_) rfl rfl)
    subst hopened hinserted
    by_contra hne
    exact hlossless ⟨hi, hne⟩
  | done => cases hstep

theorem steps_stepCancel {request : CancelRequest} {stage : CancelStage}
    (hi : s.cancels[i]? = some (request, stage)) (hlossless : ¬ s.Loses id (.cancelNext i now))
    (hstep : s.stepCancel i request now stage = some s') : Steps sole unswept s s' id := by
  unfold stepCancel at hstep
  split at hstep
  · obtain rfl := Option.some.inj hstep
    have hrow := @LiteHostStore.run?_updateRun s.store request.runId id (·.status == .queued)
      (·.setCanceled now) fun _ => rfl
    cases hs : s.store.run? id with
    | none =>
      rw [hs] at hrow
      exact .of_eq (view_eq (hrow.trans hs.symm) rfl rfl)
    | some row =>
      rw [hs, Option.map_some] at hrow
      by_cases hqueued : id = request.runId ∧ row.status == .queued
      · rw [if_pos hqueued] at hrow
        exact steps_write (.cancelQueued now hs (beq_iff_eq.1 hqueued.2)) hrow rfl rfl
      · rw [if_neg hqueued] at hrow
        exact .of_eq (view_eq (hrow.trans hs.symm) rfl rfl)
  · obtain rfl := Option.some.inj hstep
    exact .refl
  · obtain rfl := Option.some.inj hstep
    exact .of_eq (view_eq (LiteHostStore.run?_endTx fun _ h => by cases h) rfl rfl)
  · obtain rfl := Option.some.inj hstep
    refine .of_eq (view_eq (LiteHostStore.run?_endTx fun hopened _ => ?_) rfl rfl)
    subst hopened
    by_contra hne
    exact hlossless ⟨⟨request, hi⟩, hne⟩
  · obtain rfl := Option.some.inj hstep
    exact steps_requestCancel request.runId
  · obtain rfl := Option.some.inj hstep
    exact .refl
  · cases hstep
  · cases hstep

theorem steps_stepSweep (hunswept : unswept → ¬ s.Sweeps id (.sweepNext now))
    (hstep : s.stepSweep config now = some s') : Steps sole unswept s s' id := by
  unfold stepSweep at hstep
  split at hstep
  · cases hstep
  · obtain rfl := Option.some.inj hstep
    exact .refl
  · next stale rest hsweep =>
    split at hstep
    · obtain rfl := Option.some.inj hstep
      exact .refl
    · next hactive =>
      obtain rfl := Option.some.inj hstep
      have hrow := @LiteHostStore.run?_updateRun s.store stale.id id
        (fun row => !true || row.status == .running) (·.setOutcome (staleOutcome config stale) now)
        fun _ => rfl
      cases hs : s.store.run? id with
      | none =>
        rw [hs] at hrow
        exact .of_eq (view_eq (hrow.trans hs.symm) rfl rfl)
      | some row =>
        rw [hs, Option.map_some] at hrow
        by_cases hrunning : id = stale.id ∧ (!true || row.status == .running)
        · rw [if_pos hrunning] at hrow
          obtain ⟨hid, hrunning⟩ := hrunning
          have hfree : unswept → (s.view id).Unheld := by
            intro hu
            by_contra hheld
            refine hunswept hu ⟨hheld, ?_, stale, rest, hsweep, hid.symm⟩
            rw [hid]
            exact Option.not_isSome_iff_eq_none.1 hactive
          exact steps_write (.sweep now _ hs (by simpa using hrunning) rfl hfree) hrow rfl rfl
        · rw [if_neg hrunning] at hrow
          exact .of_eq (view_eq (hrow.trans hs.symm) rfl rfl)

/-- A step of the executor is a sequence of steps of each run. -/
theorem steps_step {event : SandboxEvent} (hlossless : ¬ s.Loses id event)
    (hsole : sole → ¬ s.Adopts id event) (hunswept : unswept → ¬ s.Sweeps id event)
    (hstep : s.step config network event = some s') : Steps sole unswept s s' id := by
  cases event with
  | submit =>
    obtain rfl := Option.some.inj hstep
    exact .of_eq (view_eq LiteHostStore.run?_beginTx rfl rfl)
  | submitNext i row now =>
    obtain ⟨stage, hi, hstep⟩ := Option.bind_eq_some_iff.1 hstep
    exact steps_stepSubmit hi hlossless hstep
  | cancel request now =>
    obtain rfl := Option.some.inj hstep
    exact @steps_touch s _ id sole unswept s.store.beginTx.1 request.runId
      (fun row => row.tenantId == request.tenantId && row.scope == request.scope)
      (·.setCancelRequested request.reason now) LiteHostStore.run?_beginTx (fun _ => rfl)
      (fun _ => rfl) (fun _ _ => rfl) rfl rfl rfl
  | cancelNext i now =>
    obtain ⟨⟨request, stage⟩, hi, hstep⟩ := Option.bind_eq_some_iff.1 hstep
    exact steps_stepCancel hi hlossless hstep
  | enqueue runId =>
    obtain rfl := Option.some.inj hstep
    unfold enqueue
    dsimp only
    split
    · exact .refl
    · exact .of_eq view_kick
  | executeSync runId now =>
    unfold step at hstep
    dsimp only at hstep
    split at hstep
    · obtain rfl := Option.some.inj hstep
      exact steps_processRun _ _ _
    · obtain rfl := Option.some.inj hstep
      exact .refl
  | pump clock =>
    unfold step pump at hstep
    dsimp only at hstep
    split at hstep
    · cases hstep
    · obtain rfl := Option.some.inj hstep
      exact steps_pumpLoop clock s.queue { s with immediates := s.immediates - 1 }
  | execution i event now =>
    obtain ⟨e, hi, hstep⟩ := Option.bind_eq_some_iff.1 hstep
    exact steps_stepExecution hi hsole hstep
  | heartbeat runId now =>
    unfold step at hstep
    dsimp only at hstep
    split at hstep
    · obtain rfl := Option.some.inj hstep
      exact @steps_touch s _ id sole unswept s.store runId (·.status == .running)
        (fun row => { row with updatedAt := now }) rfl (fun _ => rfl) (fun _ => rfl)
        (fun _ h => h) rfl rfl rfl
    · cases hstep
  | sweep now =>
    unfold step recoverStaleRuns at hstep
    dsimp only at hstep
    split at hstep
    · cases hstep
    · obtain rfl := Option.some.inj hstep
      exact .refl
  | sweepNext now => exact steps_stepSweep hunswept hstep
  | shutdown =>
    obtain rfl := Option.some.inj hstep
    exact steps_shutdown

/-- What every step of a run preserves, the executor preserves. -/
theorem preserves {P : RunView → Prop} {event : SandboxEvent}
    (hP : ∀ v w, P v → RunView.Step sole unswept v w → P w) (h : P (s.view id))
    (hlossless : ¬ s.Loses id event) (hsole : sole → ¬ s.Adopts id event)
    (hunswept : unswept → ¬ s.Sweeps id event)
    (hstep : s.step config network event = some s') : P (s'.view id) := by
  have hsteps := steps_step hlossless hsole hunswept hstep
  unfold Steps at hsteps
  generalize s'.view id = w at hsteps
  induction hsteps with
  | refl => exact h
  | tail _ hlast ih => exact hP _ _ ih hlast

end Steps

end SandboxSystem

end AionisCore.Memory
