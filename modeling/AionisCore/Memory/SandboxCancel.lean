import AionisCore.Memory.SandboxPump

/-!
# Cancelled runs

A cancel request whose update finds the run queued keeps its command from ever being
started: whoever claims the run sees the request, and the run ends `canceled`. A run for
which `requestCancel` answers true ends `canceled`, as long as no second execution adopts it.
-/

namespace AionisCore.Memory

open Lib Lib.JsString Store

/-- How many stages the execution has still before it at most. -/
def Stage.awaits : Stage → Nat
  | .claiming .. => 8
  | .claimed _ => 7
  | .loading _ => 6
  | .mocking _ | .preparing .. => 5
  | .started .. => 4
  | .ended .. => 3
  | .finishing _ => 2
  | .settled => 1
  | .done => 0

/-- The request has read the status of the run and not yet acted on it. -/
def CancelStage.requesting : CancelStage → Bool
  | .requested .. => true
  | _ => false

namespace SandboxSystem

variable {Cidr : Type} {config : SandboxExecutorConfig Cidr} {network : SandboxNetwork Cidr}
  {s s' t : SandboxSystem} {id : String} {i k : Nat} {e : Execution} {now : Int}
  {runs : List SandboxRunRow}

/-! ## The executions in the map `active` -/

/-- The execution that is registered for the run has started its command. -/
def ActiveHolds (s : SandboxSystem) (id : String) : Prop :=
  ∀ i, s.active id = some i → ∃ c, (s.view id).holder i = some { begun := true, canceled := c }

theorem ActiveHolds.of_none (h : s.active id = none) : s.ActiveHolds id := fun i hi => by
  rw [h] at hi
  cases hi

theorem ActiveHolds.of_eq (h : s.ActiveHolds id) (hexec : s'.executions = s.executions)
    (hactive : s'.active id = s.active id) : s'.ActiveHolds id := by
  intro i hi
  obtain ⟨c, hc⟩ := h i (hactive ▸ hi)
  refine ⟨c, ?_⟩
  unfold view at hc ⊢
  rw [hexec]
  exact hc

theorem ActiveHolds.kick (h : s.ActiveHolds id) {running : Nat} {queue queued : List String} :
    (kick { s with running, queue, queued }).ActiveHolds id := by
  unfold SandboxSystem.kick
  split <;> exact h.of_eq rfl rfl

theorem ActiveHolds.setStage (h : s.ActiveHolds id) (hi : s.executions[i]? = some e)
    {stage : Stage} (hkeep : ∀ c, e.stage.holder? id = some { begun := true, canceled := c } →
      ∃ d, stage.holder? id = some { begun := true, canceled := d }) :
    (s.setStage i stage).ActiveHolds id := by
  intro j hj
  obtain ⟨c, hc⟩ := h j hj
  rw [view_setStage hi]
  by_cases hji : j = i
  · subst hji
    rw [holder_eq hi] at hc
    obtain ⟨d, hd⟩ := hkeep c hc
    exact ⟨d, (Function.update_self ..).trans hd⟩
  · exact ⟨c, (Function.update_of_ne hji ..).trans hc⟩

theorem ActiveHolds.append (h : s.ActiveHolds id) {store : LiteHostStore} (e : Execution) :
    ({ s with store, executions := s.executions ++ [e] } : SandboxSystem).ActiveHolds id := by
  intro i hi
  obtain ⟨c, hc⟩ := h i hi
  refine ⟨c, ?_⟩
  rw [show ({ s with store, executions := s.executions ++ [e] } : SandboxSystem).view id = _ from
    @view_append { s with store } id e]
  have hne : i ≠ s.executions.length := by
    rintro rfl
    rw [holder_length] at hc
    cases hc
  exact (Function.update_of_ne hne ..).trans hc

theorem ActiveHolds.processRun (h : s.ActiveHolds id) (runId : String) (queued : Bool)
    (now : Int) : (s.processRun runId queued now).ActiveHolds id := by
  unfold SandboxSystem.processRun
  split
  · exact h.append _
  · exact h.append _

theorem ActiveHolds.pumpLoop (clock : Nat → Int) (queue : List String) (s : SandboxSystem)
    (h : s.ActiveHolds id) : (pumpLoop config clock s queue).ActiveHolds id := by
  induction queue generalizing s with
  | nil => exact h
  | cons nextId rest ih =>
    unfold SandboxSystem.pumpLoop
    split
    · refine ih _ (ActiveHolds.processRun ?_ _ _ _)
      exact h.of_eq rfl rfl
    · exact h

theorem holder?_idle_of_holds {stage : Stage} {run : SandboxRunRow} {h : Holder}
    (hheld : stage.Holds run h) (hbegun : h.begun = false) (c : Bool) :
    stage.holder? id ≠ some { begun := true, canceled := c } := by
  rw [hheld id]
  rintro hc
  split at hc
  · rw [Option.some.inj hc] at hbegun
    cases hbegun
  · cases hc

theorem ActiveHolds.start {run : SandboxRunRow} (h : s.ActiveHolds id)
    (hi : s.executions[i]? = some e) (hheld : e.stage.Holds run {}) {command : SandboxCommand}
    {target : Target} : (s.start i run command target).ActiveHolds id := by
  have hview := @view_setStage { s with
    active := Function.update s.active run.id (some i)
    starts := s.starts ++ [run.id] } id i e hi (.started run command target {})
  intro j hj
  by_cases hid : id = run.id
  · subst hid
    have hself : Function.update s.active run.id (some i) run.id = some j := hj
    rw [Function.update_self] at hself
    obtain rfl := Option.some.inj hself
    refine ⟨false, ?_⟩
    rw [show (s.start i run command target).view run.id = _ from hview]
    exact (Function.update_self ..).trans (if_pos rfl)
  · have hold : Function.update s.active run.id (some i) id = some j := hj
    rw [Function.update_of_ne hid] at hold
    have hset := @ActiveHolds.setStage { s with starts := s.starts ++ [run.id] } id i e
      (h.of_eq rfl rfl) hi (.started run command target {}) fun c hc =>
        absurd hc (holder?_idle_of_holds hheld rfl c)
    exact hset j hold

theorem ActiveHolds.stepExecution {event : ExecutionEvent} (h : s.ActiveHolds id)
    (hi : s.executions[i]? = some e)
    (hstep : s.stepExecution config network i e now e.stage event = some s') :
    s'.ActiveHolds id := by
  cases Advance.of_step hstep with
  | @next stage store timers hstore hsame hlive =>
    exact ActiveHolds.setStage (s := { s with store, heartbeatTimers := timers })
      (h.of_eq rfl rfl) hi fun c hc => ⟨c, (hsame id).trans hc⟩
  | load hstage hevent =>
    refine h.setStage hi fun c hc => ?_
    rw [hstage] at hc
    cases hc
  | start hheld => exact h.start hi hheld
  | drop hheld => exact h.setStage hi fun c hc => absurd hc (holder?_idle_of_holds hheld rfl c)
  | @finalize run k out heartbeat timers active hheld hterminal hcanceled hactive =>
    by_cases hbegun : k.begun
    · rw [if_pos hbegun] at hactive
      subst hactive
      by_cases hid : id = run.id
      · exact .of_none (by rw [hid]; exact Function.update_self ..)
      · refine ActiveHolds.setStage (s := { s with
          heartbeatTimers := timers
          active := Function.update s.active run.id none
          store := s.store.finalizeRun run.id out now }) ?_ hi fun c hc => ?_
        · exact h.of_eq rfl (Function.update_of_ne hid ..)
        · rw [hheld id, if_neg (Ne.symm hid)] at hc
          cases hc
    · rw [if_neg hbegun] at hactive
      subst hactive
      exact ActiveHolds.setStage (s := { s with
        heartbeatTimers := timers
        store := s.store.finalizeRun run.id out now }) (h.of_eq rfl rfl) hi fun c hc =>
          absurd hc (holder?_idle_of_holds hheld (Bool.eq_false_iff.2 hbegun) c)
  | settle hstage =>
    have hdone : (s.setStage i .done).ActiveHolds id := h.setStage hi fun c hc => by
      rw [hstage] at hc
      cases hc
    split
    · exact hdone.kick
    · exact hdone

theorem holder?_cancel_begun {stage : Stage} {c : Bool}
    (h : stage.holder? id = some { begun := true, canceled := c }) :
    stage.cancel.holder? id = some { begun := true, canceled := true } := by
  unfold Stage.holder? at h
  split at h <;> try cases h
  -- only a stage with a running command is left
  all_goals split at h
  all_goals first
    | next hid => exact if_pos hid
    | cases h

/-- The registered execution is told to cancel. -/
theorem holder_requestCancel {runId : String} {c : Bool} (hactive : s.active (trim runId) = some i)
    (hc : (s.view id).holder i = some { begun := true, canceled := c }) :
    ((s.requestCancel runId).1.view id).holder i = some { begun := true, canceled := true } := by
  obtain ⟨e, hi, he⟩ := Option.bind_eq_some_iff.1 hc
  unfold requestCancel
  rw [hactive]
  unfold view
  dsimp only
  rw [List.getElem?_modify_eq, hi]
  exact holder?_cancel_begun he

theorem holder_requestCancel_of_ne {runId : String} {j : Nat}
    (hactive : s.active (trim runId) = some i) (hne : i ≠ j) :
    ((s.requestCancel runId).1.view id).holder j = (s.view id).holder j := by
  unfold requestCancel
  rw [hactive]
  unfold view
  dsimp only
  rw [List.getElem?_modify_ne _ _ hne]

theorem ActiveHolds.requestCancel (h : s.ActiveHolds id) (runId : String) :
    (s.requestCancel runId).1.ActiveHolds id := by
  cases hactive : s.active (trim runId) with
  | none =>
    unfold SandboxSystem.requestCancel
    rw [hactive]
    exact h
  | some i =>
    intro j hj
    have hold : s.active id = some j := by
      unfold SandboxSystem.requestCancel at hj
      rw [hactive] at hj
      exact hj
    obtain ⟨c, hc⟩ := h j hold
    by_cases hij : i = j
    · subst hij
      exact ⟨true, holder_requestCancel hactive hc⟩
    · exact ⟨c, (holder_requestCancel_of_ne hactive hij).trans hc⟩

variable {event : SandboxEvent}

theorem ActiveHolds.step (h : s.ActiveHolds id) (hstep : s.step config network event = some s') :
    s'.ActiveHolds id := by
  cases Move.of_step hstep with
  | request hcancels => exact h.of_eq rfl rfl
  | told runId now hevent => exact (h.requestCancel runId).of_eq rfl rfl
  | enqueued hlive hnew => exact h.kick
  | processed runId now => exact h.processRun _ _ _
  | pumped clock himmediate =>
    have hloop := @ActiveHolds.pumpLoop Cidr config id clock s.queue
      { s with immediates := s.immediates - 1 } (h.of_eq rfl rfl)
    exact hloop.of_eq rfl rfl
  | executed hi hstep => exact h.stepExecution hi hstep
  | shutdown => exact .of_none rfl

/-! ## Cancel requests -/

theorem cancels_processRun (s : SandboxSystem) (runId : String) (queued : Bool) (now : Int) :
    (s.processRun runId queued now).cancels = s.cancels := by
  unfold processRun
  split <;> rfl

theorem cancels_pumpLoop (clock : Nat → Int) (queue : List String) (s : SandboxSystem) :
    (pumpLoop config clock s queue).cancels = s.cancels := by
  induction queue generalizing s with
  | nil => rfl
  | cons nextId rest ih =>
    unfold pumpLoop
    split
    · exact (ih _).trans (cancels_processRun _ _ _ _)
    · rfl

theorem cancels_kick : (kick s).cancels = s.cancels := by
  unfold kick
  split <;> rfl

theorem cancels_stepExecution {event : ExecutionEvent}
    (hstep : s.stepExecution config network i e now e.stage event = some s') :
    s'.cancels = s.cancels := by
  cases Advance.of_step hstep with
  | settle hstage =>
    split
    · exact cancels_kick
    · rfl
  | _ => rfl

theorem cancels_requestCancel (runId : String) :
    (s.requestCancel runId).1.cancels = s.cancels := by
  unfold requestCancel
  split <;> rfl

theorem cancels_step {c : CancelRequest × CancelStage} (hk : s.cancels[k]? = some c)
    (hstep : s.step config network event = some s') :
    s'.cancels[k]? = some c ∨ ∃ now, event = .cancelNext k now := by
  have kept : s'.cancels = s.cancels → s'.cancels[k]? = some c := fun h => by rw [h, hk]
  cases Move.of_step hstep with
  | request hcancels => exact hcancels k c hk
  | @told i c' runId now hevent =>
    by_cases hik : i = k
    · exact .inr ⟨now, hik ▸ hevent⟩
    · refine .inl ?_
      rw [List.getElem?_set_ne hik, cancels_requestCancel, hk]
  | enqueued hlive hnew => exact .inl (kept cancels_kick)
  | processed runId now => exact .inl (kept (cancels_processRun _ _ _ _))
  | pumped clock himmediate => exact .inl (kept (cancels_pumpLoop clock s.queue _))
  | executed hi hstep => exact .inl (kept (cancels_stepExecution hstep))
  | shutdown => exact .inl hk

/-! ## Runs that are withdrawn before their claim -/

/-- The update of the cancel request finds the run queued. -/
def FindsQueued (s : SandboxSystem) (request : CancelRequest) : Prop :=
  ∃ row, s.store.run? request.runId = some row ∧ row.tenantId = request.tenantId ∧
    row.scope = request.scope ∧ row.status = .queued

/-- The cancel request has not gone on, or the run is no longer queued. -/
def Pending (k : Nat) (request : CancelRequest) (opened : Bool) (s : SandboxSystem) : Prop :=
  s.cancels[k]? = some (request, .requested (some .queued) opened) ∨
    (s.view request.runId).Has (· ≠ .queued)

/-- `cancelQueuedRun` leaves no queued row. -/
theorem has_cancelQueuedRun {row : SandboxRunRow} (hrow : s.store.run? id = some row) :
    ∃ row', (s.store.cancelQueuedRun id now).1.run? id = some row' ∧ row'.status ≠ .queued := by
  have hupdate := @LiteHostStore.run?_updateRun s.store id id (·.status == .queued)
    (·.setCanceled now) fun _ => rfl
  rw [hrow, Option.map_some] at hupdate
  refine ⟨_, hupdate, ?_⟩
  split
  · exact show SandboxRunStatus.canceled ≠ .queued by decide
  · next h =>
    intro hqueued
    exact h ⟨rfl, beq_iff_eq.2 hqueued⟩

theorem Pending.step {request : CancelRequest} {opened : Bool} (h : s.Pending k request opened)
    (hrow : (s.store.run? request.runId).isSome) (hlossless : ¬ s.Loses request.runId event)
    (hstep : s.step config network event = some s') : s'.Pending k request opened := by
  have hstays : (s.view request.runId).Has (· ≠ .queued) →
      s'.Pending k request opened := fun hclaimed =>
    .inr (preserves (show ∀ v w, v.Has (· ≠ .queued) → RunView.Step False False v w →
        w.Has (· ≠ .queued) from fun _ _ => RunView.Step.claimed_stays) hclaimed hlossless
      (fun h => h.elim) (fun h => h.elim) hstep)
  rcases h with hk | hclaimed
  · rcases cancels_step hk hstep with hsame | ⟨now, rfl⟩
    · exact .inl hsame
    · obtain ⟨row, hrow⟩ := Option.isSome_iff_exists.1 hrow
      obtain ⟨c, hc, hstep⟩ := Option.bind_eq_some_iff.1 hstep
      obtain rfl := Option.some.inj (hk.symm.trans hc)
      obtain rfl := Option.some.inj hstep
      exact .inr (has_cancelQueuedRun hrow)
  · exact hstays hclaimed

/-- The request is written to the row that it names, and its status read back. -/
theorem requestCancel_of_run? {store : LiteHostStore} {request : CancelRequest}
    {row : SandboxRunRow} (hrow : store.run? request.runId = some row)
    (htenant : row.tenantId = request.tenantId) (hscope : row.scope = request.scope) :
    (store.requestCancel request.runId request.tenantId request.scope request.reason now).1.run?
        request.runId = some (row.setCancelRequested request.reason now) ∧
      (store.requestCancel request.runId request.tenantId request.scope request.reason now).2 =
        some row.status := by
  have hupdate := @LiteHostStore.run?_updateRun store request.runId request.runId
    (fun row => row.tenantId == request.tenantId && row.scope == request.scope)
    (·.setCancelRequested request.reason now) fun _ => rfl
  have howned : (row.tenantId == request.tenantId && row.scope == request.scope) = true := by
    rw [htenant, hscope, beq_self_eq_true, beq_self_eq_true]
    rfl
  rw [hrow, Option.map_some, if_pos ⟨rfl, howned⟩] at hupdate
  refine ⟨hupdate, ?_⟩
  unfold LiteHostStore.requestCancel
  dsimp only
  rw [hupdate, Option.filter_some]
  exact congrArg (Option.map SandboxRunRow.status) (if_pos howned)

/-- The row of a queued run tells of the request before anybody claims the run. -/
theorem withdrawn_cancel {request : CancelRequest} (hfinds : s.FindsQueued request)
    (hv : (s.view request.runId).ClaimedFirst)
    (hstep : s.step config network (.cancel request now) = some s') :
    (s'.view request.runId).Withdrawn ∧
      s'.Pending s.cancels.length request s.store.beginTx.2 := by
  obtain ⟨row, hrow, htenant, hscope, hqueued⟩ := hfinds
  obtain ⟨hu, hstarts⟩ := hv.of_queued hrow hqueued
  have hbegun := LiteHostStore.run?_beginTx.trans hrow
  obtain ⟨hupdate, hstatus⟩ := @requestCancel_of_run? now _ request row hbegun htenant hscope
  rw [hqueued] at hstatus
  obtain rfl := Option.some.inj hstep
  refine ⟨⟨⟨_, hupdate, rfl, .inl hqueued⟩, fun i h hi => ?_, hstarts⟩, .inl ?_⟩
  · have hheld : (s.view request.runId).holder i = some h := hi
    rw [hu i] at hheld
    cases hheld
  · rw [← hstatus]
    exact List.getElem?_concat_length ..

/-! ## Runs that end canceled -/

section Traces

variable {σ : Trace (step config network)} {n m : Nat} {request : CancelRequest}

/-- Every execution reaches a later stage until it is done, and every cancel request goes on. -/
structure Fair (σ : Trace (step config network)) : Prop where
  executions : ∀ (n i : Nat) (e : Execution), (σ.state n).executions[i]? = some e →
    e.stage.awaits ≠ 0 → ∃ m, n ≤ m ∧ ∃ e' : Execution,
      (σ.state m).executions[i]? = some e' ∧ e'.stage.awaits < e.stage.awaits
  cancels : ∀ (n k : Nat) (c : CancelRequest × CancelStage), (σ.state n).cancels[k]? = some c →
    c.2.requesting → ∃ m, n ≤ m ∧ (σ.state m).cancels[k]? ≠ (σ.state n).cancels[k]?

def EndsCanceled (σ : Trace (step config network)) (id : String) : Prop :=
  ∃ n, ∀ m, n ≤ m → ∃ row, (σ.state m).store.run? id = some row ∧ row.status = .canceled

/-- Whoever holds the run lets it go at some time. -/
theorem Fair.lets_go (h : Fair σ) (id : String) (i n : Nat) :
    ∃ m, n ≤ m ∧ ((σ.state m).view id).holder i = none := by
  induction hr : ((σ.state n).executions[i]?.elim 0 (·.stage.awaits)) using
    Nat.strong_induction_on generalizing n with
  | _ r ih =>
    cases hi : (σ.state n).executions[i]? with
    | none =>
      refine ⟨n, le_rfl, ?_⟩
      unfold view
      dsimp only
      rw [hi]
      rfl
    | some e =>
      have hr : e.stage.awaits = r := by rw [← hr, hi]; rfl
      by_cases hdone : e.stage.awaits = 0
      · refine ⟨n, le_rfl, ?_⟩
        rw [holder_eq hi]
        generalize e.stage = stage at hdone
        cases stage with
        | done => rfl
        | _ => cases hdone
      · obtain ⟨m, hnm, e', he', hlt⟩ := h.executions n i e hi hdone
        rw [hr] at hlt
        obtain ⟨k, hmk, hnone⟩ := ih _ hlt m (by rw [he']; rfl)
        exact ⟨k, hnm.trans hmk, hnone⟩

/-- The steps keep what is written to the run, and no sweep recovers it while it is held. -/
def Unswept (id : String) (s : SandboxSystem) (event : SandboxEvent) : Prop :=
  ¬ s.Loses id event ∧ ¬ s.Sweeps id event

theorem unswept_keeps {P : RunView → Prop} (h : σ.Always (Unswept id))
    (hP : ∀ v w, P v → RunView.Step False True v w → P w) (hn : P ((σ.state n).view id))
    (hnm : n ≤ m) : P ((σ.state m).view id) :=
  Trace.Always.stable (P := fun s => P (s.view id)) h (fun _ _ _ hv hC hstep =>
    preserves hP hv hC.1 (fun h => h.elim) (fun _ => hC.2) hstep) hn hnm

theorem unshared_keeps {P : RunView → Prop} (h : σ.Always (Unshared id))
    (hP : ∀ v w, P v → RunView.Step True False v w → P w) (hn : P ((σ.state n).view id))
    (hnm : n ≤ m) : P ((σ.state m).view id) :=
  Trace.Always.stable (P := fun s => P (s.view id)) h (fun _ _ _ hv hC hstep =>
    preserves hP hv hC.1 (fun _ => hC.2) (fun h => h.elim) hstep) hn hnm

theorem claimedFirst_trace (h0 : σ.state 0 = new runs) (h : σ.Always (Unswept id)) (n : Nat) :
    ((σ.state n).view id).ClaimedFirst := by
  have hnew : ((σ.state 0).view id).ClaimedFirst := by
    rw [h0]
    refine ⟨fun i k hi => ?_, fun hne => absurd rfl hne⟩
    rw [unheld_new i] at hi
    cases hi
  exact unswept_keeps h (fun _ _ => RunView.ClaimedFirst.step) hnew (Nat.zero_le n)

theorem startedOnce_trace (h0 : σ.state 0 = new runs) (h : σ.Always (Unshared id)) (n : Nat) :
    ((σ.state n).view id).StartedOnce := by
  have hnew : ((σ.state 0).view id).StartedOnce := by
    rw [h0]
    exact @RunView.StartedOnce.of_unheld ((new runs).view id) unheld_new rfl _
  exact unshared_keeps h (fun _ _ => RunView.StartedOnce.step) hnew (Nat.zero_le n)

theorem withdrawn_trace (h : σ.Always (Unswept id)) (hn : ((σ.state n).view id).Withdrawn)
    (hnm : n ≤ m) : ((σ.state m).view id).Withdrawn :=
  unswept_keeps h (fun _ _ => RunView.Withdrawn.step) hn hnm

section

variable {k : Nat} {opened : Bool} (hfair : Fair σ) (h : σ.Always (Unswept request.runId))
  (hn : ((σ.state n).view request.runId).Withdrawn)
  (hpending : (σ.state n).Pending k request opened)

include hfair h hn hpending

/-- Once the request has gone on, the withdrawn run is not queued. -/
theorem claimed_of_pending :
    ∃ m, n ≤ m ∧ ((σ.state m).view request.runId).Has (· ≠ .queued) := by
  rcases hpending with hk | hclaimed
  · obtain ⟨m, hnm, hne⟩ := hfair.cancels n k _ hk rfl
    have hm := h.stable (P := fun s => (s.view request.runId).Withdrawn ∧
      s.Pending k request opened) (fun s _ _ hv hC hstep => ?_) ⟨hn, .inl hk⟩ hnm
    · rcases hm.2 with hsame | hclaimed
      · exact absurd (hsame.trans hk.symm) hne
      · exact ⟨m, hnm, hclaimed⟩
    · obtain ⟨row, hrow, -⟩ := hv.1.row
      refine ⟨?_, hv.2.step (Option.isSome_iff_exists.2 ⟨row, hrow⟩) hC.1 hstep⟩
      exact preserves (show ∀ v w, v.Withdrawn → RunView.Step False True v w → w.Withdrawn from
        fun _ _ => RunView.Withdrawn.step) hv.1 hC.1 (fun h => h.elim) (fun _ => hC.2) hstep
  · exact ⟨n, le_rfl, hclaimed⟩

/-- A withdrawn run ends canceled: by the request while it is queued, or else by the first
execution that lets it go. -/
theorem withdrawn_ends : EndsCanceled σ request.runId := by
  have hwithdrawn := fun m (hnm : n ≤ m) => withdrawn_trace h hn hnm
  have stays : ∀ m, n ≤ m → ((σ.state m).view request.runId).Has (· = .canceled) →
      EndsCanceled σ request.runId := fun m hnm hm => ⟨m, fun j hmj =>
    (unswept_keeps (P := fun v => v.Withdrawn ∧ v.Has (· = .canceled)) h
      (fun _ _ hv hvw => ⟨hv.1.step hvw, hv.1.canceled_stays hv.2 hvw⟩)
      ⟨hwithdrawn m hnm, hm⟩ hmj).2⟩
  obtain ⟨m, hnm, row, hrow, hne⟩ := claimed_of_pending hfair h hn hpending
  obtain ⟨row', hrow', -, hstatus⟩ := (hwithdrawn m hnm).row
  obtain rfl := Option.some.inj (hrow.symm.trans hrow')
  rcases hstatus with hqueued | ⟨-, hheld⟩ | hcanceled
  · exact absurd hqueued hne
  · obtain ⟨i, hi⟩ := not_forall.1 hheld
    obtain ⟨j, hmj, hgone⟩ := hfair.lets_go request.runId i m
    have hj := unswept_keeps
      (P := fun v => v.Withdrawn ∧ ((v.holder i).isSome ∨ v.Has (· = .canceled))) h
      (fun _ _ hv hvw => ⟨hv.1.step hvw, hv.1.held_or_canceled hvw hv.2⟩)
      ⟨hwithdrawn m hnm, .inl (Option.isSome_iff_ne_none.2 hi)⟩ hmj
    rcases hj.2 with hheld | hcanceled
    · rw [hgone] at hheld
      cases hheld
    · exact stays j (hnm.trans hmj) hcanceled
  · exact stays m hnm ⟨row, hrow, hcanceled⟩

end

/-- A stopped run ends canceled, when its only execution lets it go. -/
theorem stopped_ends (hfair : Fair σ) (h : σ.Always (Unshared id))
    (hn : ((σ.state n).view id).Stopped i) : EndsCanceled σ id := by
  obtain ⟨m, hnm, hgone⟩ := hfair.lets_go id i n
  have hm := unshared_keeps (P := (·.Stopped i)) h (fun _ _ => RunView.Stopped.step) hn hnm
  have hdone : ((σ.state m).view id).Unheld ∧ ((σ.state m).view id).Has (· = .canceled) := by
    rcases hm.stopped with ⟨hi, -⟩ | hdone
    · rw [hgone] at hi
      cases hi
    · exact hdone
  refine ⟨m, fun j hmj => ?_⟩
  have hj := unshared_keeps (P := fun v => v.Unheld ∧ v.Has (· = .canceled)) h
    (fun _ _ hv hvw => hv.1.canceled_stays hv.2 hvw) hdone hmj
  exact hj.2

/-- Where `requestCancel` answers true, the only execution of the run is told to cancel. -/
theorem stopped_requestCancel {k : Nat} (h0 : σ.state 0 = new runs)
    (h : σ.Always (Unshared (trim request.runId)))
    (hk : (σ.state n).cancels[k]? = some (request, .returned .running))
    (hevent : σ.event n = some (.cancelNext k now))
    (hanswer : (σ.state (n + 1)).cancels[k]? = some (request, .answered (some true))) :
    ∃ i, ((σ.state (n + 1)).view (trim request.runId)).Stopped i := by
  have hnext := σ.next n
  rw [hevent] at hnext
  have hactive : (σ.state n).ActiveHolds (trim request.runId) :=
    σ.invariant (P := fun s => s.ActiveHolds (trim request.runId))
      (by rw [h0]; exact .of_none rfl) (fun _ _ _ hv hstep => hv.step hstep) n
  have honce := startedOnce_trace h0 h (n + 1)
  obtain ⟨c, hc, hnext⟩ := Option.bind_eq_some_iff.1 hnext
  obtain rfl := Option.some.inj (hk.symm.trans hc)
  have hstate : ({ ((σ.state n).requestCancel request.runId).1 with
      cancels := ((σ.state n).requestCancel request.runId).1.cancels.set k (request,
        .answered (some ((σ.state n).requestCancel request.runId).2)) } : SandboxSystem) =
      σ.state (n + 1) := Option.some.inj hnext
  have hactive' : ∃ i, (σ.state n).active (trim request.runId) = some i := by
    refine Option.ne_none_iff_exists'.1 fun hnone => ?_
    have hfalse : ((σ.state n).requestCancel request.runId).2 = false := by
      unfold requestCancel
      rw [hnone]
    rw [← hstate, hfalse] at hanswer
    dsimp only at hanswer
    rw [List.getElem?_set, if_pos rfl] at hanswer
    split at hanswer <;> cases hanswer
  obtain ⟨i, hi⟩ := hactive'
  obtain ⟨c, hheld⟩ := hactive i hi
  have hcanceled := holder_requestCancel hi hheld
  have hview : (σ.state (n + 1)).view (trim request.runId) =
      ((σ.state n).requestCancel request.runId).1.view (trim request.runId) := by
    rw [← hstate]
    rfl
  rw [← hview] at hcanceled
  exact ⟨i, honce.sole, .inl ⟨hcanceled, honce.claimed i _ hcanceled⟩⟩

/-- A run whose cancel request comes before its claim is never started and ends canceled; and a
run for which `requestCancel` answers true ends canceled. -/
theorem canceled_runs_end_canceled (σ : Trace (step config network)) (h0 : σ.state 0 = new runs)
    (n : Nat) (request : CancelRequest) (now : Int) :
    (σ.event n = some (.cancel request now) → (σ.state n).FindsQueued request →
      σ.Always (Unswept request.runId) →
        (∀ m, n < m → request.runId ∉ (σ.state m).starts) ∧
          (Fair σ → EndsCanceled σ request.runId)) ∧
    ∀ k, (σ.state n).cancels[k]? = some (request, .returned .running) →
      σ.event n = some (.cancelNext k now) →
      (σ.state (n + 1)).cancels[k]? = some (request, .answered (some true)) →
      σ.Always (Unshared (trim request.runId)) →
        Fair σ → EndsCanceled σ (trim request.runId) := by
  refine ⟨fun hevent hfinds h => ?_, fun k hk hevent hanswer h hfair => ?_⟩
  · have hnext := σ.next n
    rw [hevent] at hnext
    obtain ⟨hwithdrawn, hpending⟩ := withdrawn_cancel hfinds (claimedFirst_trace h0 h n) hnext
    refine ⟨fun m hnm => ?_, fun hfair => withdrawn_ends hfair h hwithdrawn hpending⟩
    exact List.count_eq_zero.1 (withdrawn_trace h hwithdrawn hnm).starts
  · obtain ⟨i, hstopped⟩ := stopped_requestCancel h0 h hk hevent hanswer
    exact stopped_ends hfair h hstopped

end Traces

/-! ## A run that is cancelled before its claim, and one that is cancelled after its start -/

def sampleCancel : CancelRequest where
  runId := "run-1"
  tenantId := "default"
  scope := "default"

/-- The request, with the claim of the run inside it. -/
def cancelBeforeClaim : List SandboxEvent := [
  .cancel sampleCancel 0,
  .executeSync "run-1" 1,
  .cancelNext 0 2,
  .cancelNext 0 3,
  .cancelNext 0 4,
  .execution 0 .resumed 5,
  .execution 0 .resumed 6,
  .execution 0 .resumed 7,
  .execution 0 .resumed 8]

def cancelAfterStart : List SandboxEvent := firstStart ++ [
  .cancel sampleCancel 2,
  .cancelNext 0 3,
  .cancelNext 0 4,
  .cancelNext 0 5,
  .execution 0 (.ended (.closed { code := none })) 6,
  .execution 0 .resumed 7,
  .execution 0 .resumed 8,
  .execution 0 .resumed 9]

/-- The request comes while the directory is made. -/
def cancelBeforeStart : List SandboxEvent := [
  .executeSync "run-1" 0,
  .execution 0 .resumed 0,
  .execution 0 .resumed 0,
  .cancel sampleCancel 1,
  .cancelNext 0 2,
  .cancelNext 0 3,
  .cancelNext 0 4,
  .execution 0 (.prepared true) 5,
  .execution 0 (.ended (.closed { code := some 0 })) 6,
  .execution 0 .resumed 7,
  .execution 0 .resumed 8,
  .execution 0 .resumed 9]

/-- Whether everything has gone on to its end. -/
def finished (s : SandboxSystem) : Bool :=
  (s.executions.all fun e => e.stage.awaits == 0) && s.cancels.all fun c => !c.2.requesting

/-- The run leaves nothing unfinished. -/
def finishes (events : List SandboxEvent) : Bool :=
  (run sampleStep (new [sampleRun]) events).any fun t => t.finished &&
    (List.range (events.length + 1)).all fun n =>
      (run sampleStep (new [sampleRun]) (events.take n)).all fun s =>
        s.executions.length ≤ t.executions.length

theorem fair_of_finishes {events : List SandboxEvent}
    (h : (run sampleStep (new [sampleRun]) events).isSome) (hfin : finishes events) :
    Fair (Trace.ofRun (new [sampleRun]) events h) := by
  obtain ⟨t, ht⟩ := Option.isSome_iff_exists.1 h
  unfold finishes at hfin
  rw [ht, Option.any_some, Bool.and_eq_true, List.all_eq_true] at hfin
  obtain ⟨hfinished, hlen⟩ := hfin
  unfold finished at hfinished
  rw [Bool.and_eq_true, List.all_eq_true, List.all_eq_true] at hfinished
  obtain ⟨hdone, hgone⟩ := hfinished
  -- the state at a time
  let state := fun n => (run sampleStep (new [sampleRun]) (events.take n)).getD (new [sampleRun])
  have hlast : ∀ n, events.length ≤ n → state n = t := by
    intro n hn
    dsimp only [state]
    rw [List.take_of_length_le hn, ht]
    rfl
  have hle : ∀ n, (state n).executions.length ≤ t.executions.length := by
    intro n
    rcases Nat.lt_or_ge n events.length with hlt | hge
    · obtain ⟨u, hu⟩ := Option.isSome_iff_exists.1 (Trace.isSome_run_take h n)
      have hn := hlen n (List.mem_range.2 (by omega))
      rw [hu, Option.all_some, decide_eq_true_iff] at hn
      dsimp only [state]
      rw [hu]
      exact hn
    · rw [hlast n hge]
  refine ⟨fun n i e hi hne => ?_, fun n k c hk hrequesting => ?_⟩
  · have hi : (state n).executions[i]? = some e := hi
    have hlt := (List.getElem?_eq_some_iff.1 hi).1.trans_le (hle n)
    refine ⟨max n events.length, le_max_left .., t.executions[i], ?_, ?_⟩
    · show (state _).executions[i]? = _
      rw [hlast _ (le_max_right ..)]
      exact List.getElem?_eq_getElem hlt
    · rw [beq_iff_eq.1 (hdone _ (List.getElem_mem hlt))]
      omega
  · have hk : (state n).cancels[k]? = some c := hk
    refine ⟨max n events.length, le_max_left .., fun hsame => ?_⟩
    have hsame : (state _).cancels[k]? = (state n).cancels[k]? := hsame
    rw [hlast _ (le_max_right ..), hk] at hsame
    have hnot := hgone c (List.mem_of_getElem? hsame)
    rw [hrequesting] at hnot
    cases hnot

theorem undisturbed_of_plain_run {events : List SandboxEvent}
    {h : (run sampleStep (new [sampleRun]) events).isSome}
    (hplain : Along sampleStep (fun s event => s.plain event) (new [sampleRun]) events) :
    (Trace.ofRun (new [sampleRun]) events h).Always (Undisturbed "run-1") :=
  Trace.always_ofRun (hplain.mono fun _ _ => undisturbed_of_plain)

def traceBeforeClaim : Trace sampleStep :=
  .ofRun (new [sampleRun]) cancelBeforeClaim (by decide +kernel)

def traceAfterStart : Trace sampleStep :=
  .ofRun (new [sampleRun]) cancelAfterStart (by decide +kernel)

def traceBeforeStart : Trace sampleStep :=
  .ofRun (new [sampleRun]) cancelBeforeStart (by decide +kernel)

/-- Cancelled before its claim the run is never started; both times it ends canceled. -/
theorem canceled_runs_end_canceled_sample :
    ((∀ m, 0 < m → "run-1" ∉ (traceBeforeClaim.state m).starts) ∧
      EndsCanceled traceBeforeClaim "run-1") ∧
    "run-1" ∈ (traceAfterStart.state 4).starts ∧ EndsCanceled traceAfterStart "run-1" := by
  constructor
  · obtain ⟨hbefore, -⟩ := @canceled_runs_end_canceled Unit sampleConfig sampleNetwork
      [sampleRun] traceBeforeClaim rfl 0 sampleCancel 0
    have hkept : traceBeforeClaim.Always (Undisturbed "run-1") :=
      undisturbed_of_plain_run (by decide +kernel)
    obtain ⟨hnever, hends⟩ := hbefore rfl ⟨sampleRun, rfl, rfl, rfl, rfl⟩
      fun n event hn => ⟨(hkept n event hn).1, (hkept n event hn).2.2⟩
    exact ⟨hnever, hends (fair_of_finishes _ (by decide +kernel))⟩
  · obtain ⟨-, hafter⟩ := @canceled_runs_end_canceled Unit sampleConfig sampleNetwork
      [sampleRun] traceAfterStart rfl 7 sampleCancel 5
    have hkept : traceAfterStart.Always (Undisturbed "run-1") :=
      undisturbed_of_plain_run (by decide +kernel)
    refine ⟨by decide +kernel, hafter 0 (by decide +kernel) rfl (by decide +kernel) ?_
      (fair_of_finishes _ (by decide +kernel))⟩
    exact fun n event hn => ⟨(hkept n event hn).1, (hkept n event hn).2.1⟩

/-- The request comes before the start and after the claim: the command is started, and the
run succeeds. -/
theorem canceled_run_started : ¬ ∀ (σ : Trace sampleStep) (n : Nat) (now : Int),
    σ.state 0 = new [sampleRun] → σ.event n = some (.cancel sampleCancel now) →
      "run-1" ∉ (σ.state n).starts → ∀ m, n < m → "run-1" ∉ (σ.state m).starts := by
  intro h
  refine h traceBeforeStart 3 1 rfl rfl ?_ 12 ?_ ?_ <;> decide +kernel

end SandboxSystem

end AionisCore.Memory
