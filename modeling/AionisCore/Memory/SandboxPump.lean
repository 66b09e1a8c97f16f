import AionisCore.Lib.Trace
import AionisCore.Memory.SandboxFinality
import Mathlib.Data.List.Count

/-!
# The pump and the starts of a command

The pump takes runs from the queue while fewer than `maxConcurrency` queued runs execute.
`Pump` is what it works on; whenever the queue is not empty and there is a free slot, a
callback that runs the pump is scheduled. The command of a run is started at most once as
long as nobody adopts the run while an execution holds it.
-/

namespace AionisCore.Memory

open Lib Store

/-! ## The pump as a machine of its own -/

structure Pump where
  queue : List String
  queued : List String
  running : Nat
  /-- The executions the pump has started and whose `finally` has not run. -/
  executing : Nat
  pumping : Bool
  immediates : Nat
  shuttingDown : Bool

namespace Pump

variable {limit : Nat} {p q : Pump} {id : String}

def kick (p : Pump) : Pump :=
  if p.pumping || p.shuttingDown then p
  else { p with pumping := true, immediates := p.immediates + 1 }

inductive Step (limit : Nat) (p : Pump) : Pump → Prop where
  | idle : Step limit p p
  | enqueue (runId : String) (hlive : p.shuttingDown = false) (hnew : runId ∉ p.queued) :
    Step limit p (kick { p with queue := p.queue ++ [runId], queued := p.queued ++ [runId] })
  /-- The pump takes the first `k` runs, and stops at the end of the queue or at the limit. -/
  | pump (k : Nat) (himmediate : p.immediates ≠ 0) (hk : k ≤ p.queue.length)
    (hstop : p.shuttingDown = false → k = p.queue.length ∨ limit ≤ p.running + k) :
    Step limit p { p with
      queue := p.queue.drop k
      queued := p.queued.drop k
      running := p.running + k
      executing := p.executing + k
      pumping := false
      immediates := p.immediates - 1 }
  | finish (hexecuting : p.executing ≠ 0) :
    Step limit p (kick { p with running := p.running - 1, executing := p.executing - 1 })
  | shutdown : Step limit p { p with queue := [], queued := [], shuttingDown := true }

/-- The pump is scheduled at most once, and whenever a queued run could be taken. -/
structure Awake (limit : Nat) (p : Pump) : Prop where
  queued : p.queued = p.queue
  nodup : p.queue.Nodup
  running : p.running = p.executing
  scheduled : p.immediates = if p.pumping then 1 else 0
  awake : p.queue ≠ [] → p.shuttingDown = false → p.executing < limit → p.pumping = true

theorem kick_queue : (kick p).queue = p.queue := by
  unfold kick
  split <;> rfl

theorem Awake.kick (hqueued : p.queued = p.queue) (hnodup : p.queue.Nodup)
    (hrunning : p.running = p.executing)
    (hscheduled : p.immediates = if p.pumping then 1 else 0) : (kick p).Awake limit := by
  unfold Pump.kick
  split
  · next h =>
    refine ⟨hqueued, hnodup, hrunning, hscheduled, fun _ hlive _ => ?_⟩
    rw [hlive, Bool.or_false] at h
    exact h
  · next h =>
    obtain ⟨hidle, -⟩ := Bool.or_eq_false_iff.1 (Bool.eq_false_iff.2 h)
    rw [hidle] at hscheduled
    refine ⟨hqueued, hnodup, hrunning, ?_, fun _ _ _ => rfl⟩
    exact congrArg (· + 1) hscheduled

theorem Awake.step (h : p.Awake limit) (hstep : Step limit p q) : q.Awake limit := by
  obtain ⟨hqueued, hnodup, hrunning, hscheduled, hawake⟩ := h
  cases hstep with
  | idle => exact ⟨hqueued, hnodup, hrunning, hscheduled, hawake⟩
  | enqueue id hlive hnew =>
    refine .kick (congrArg (· ++ [id]) hqueued) ?_ hrunning hscheduled
    rw [hqueued] at hnew
    exact List.nodup_append.2 ⟨hnodup, List.nodup_singleton id, fun a ha b hb heq =>
      hnew (List.mem_singleton.1 hb ▸ heq ▸ ha)⟩
  | pump k himmediate hk hstop =>
    refine ⟨congrArg (List.drop k) hqueued, hnodup.sublist (List.drop_sublist k _),
      congrArg (· + k) hrunning, ?_, fun hne hlive hfree => ?_⟩
    · show p.immediates - 1 = 0
      split at hscheduled <;> omega
    · exfalso
      rcases hstop hlive with hall | hfull
      · exact hne (List.drop_eq_nil_of_le hall.ge)
      · rw [hrunning] at hfull
        exact absurd hfree (Nat.not_lt_of_le hfull)
  | finish hexecuting => exact .kick hqueued hnodup (congrArg (· - 1) hrunning) hscheduled
  | shutdown => exact ⟨rfl, List.nodup_nil, hrunning, hscheduled, fun _ hlive => by cases hlive⟩

/-- What is left of a queue comes earlier in it by what was taken. -/
theorem idxOf_drop {queue : List String} {k : Nat} (h : queue.Nodup) (hk : k ≤ queue.length)
    (hid : id ∈ queue.drop k) : queue.idxOf id = k + (queue.drop k).idxOf id := by
  have hnot : id ∉ queue.take k := fun htake =>
    List.disjoint_of_nodup_append (by rwa [List.take_append_drop]) htake hid
  conv_lhs => rw [← List.take_append_drop k queue]
  rw [List.idxOf_append_of_notMem hnot, List.length_take, Nat.min_eq_left hk]

/-- A queued run leaves the queue or comes no later in it. -/
theorem Awake.moves_up (h : p.Awake limit) (hstep : Step limit p q) (hid : id ∈ p.queue)
    (hstill : id ∈ q.queue) : q.queue.idxOf id ≤ p.queue.idxOf id := by
  cases hstep with
  | idle => exact le_rfl
  | enqueue id' hlive hnew =>
    rw [kick_queue]
    exact (List.idxOf_append_of_mem hid).le
  | pump k himmediate hk hstop =>
    rw [idxOf_drop h.nodup hk hstill]
    exact Nat.le_add_left _ _
  | finish hexecuting => rw [kick_queue]
  | shutdown => cases hstill

theorem kick_executing : (kick p).executing = p.executing := by
  unfold kick
  split <;> rfl

/-- No slot is taken by a step after which a queued run is where it was. -/
theorem Awake.executing_le (h : p.Awake limit) (hstep : Step limit p q)
    (hstill : id ∈ q.queue) (hidx : p.queue.idxOf id ≤ q.queue.idxOf id) :
    q.executing ≤ p.executing := by
  cases hstep with
  | idle => exact le_rfl
  | enqueue runId hlive hnew => exact kick_executing.le
  | pump k himmediate hk hstop =>
    have htaken := idxOf_drop h.nodup hk hstill
    have hzero : k = 0 := by
      dsimp only at hidx
      omega
    subst hzero
    exact le_rfl
  | finish hexecuting => exact kick_executing.le.trans (Nat.sub_le _ _)
  | shutdown => cases hstill

end Pump

/-- Whether an execution takes up one of the slots of the pump. -/
def Execution.executing (e : Execution) : Bool :=
  e.queued && match e.stage with
    | .done => false
    | _ => true

theorem countP_modify {α : Type} {p : α → Bool} {f : α → α} {a : α} {i : Nat} {l : List α}
    (h : l[i]? = some a) :
    (l.modify i f).countP p + (p a).toNat = l.countP p + (p (f a)).toNat := by
  induction l generalizing i with
  | nil => cases h
  | cons b l ih =>
    cases i with
    | zero =>
      obtain rfl := Option.some.inj h
      simp only [List.modify_zero_cons, List.countP_cons]
      cases p b <;> cases p (f b) <;> simp
    | succ i =>
      have hrest := ih h
      simp only [List.modify_succ_cons, List.countP_cons]
      omega

namespace SandboxSystem

variable {Cidr : Type} {config : SandboxExecutorConfig Cidr} {network : SandboxNetwork Cidr}
  {s s' : SandboxSystem} {id : String} {i : Nat} {e : Execution} {now : Int}

def pumpView (s : SandboxSystem) : Pump where
  queue := s.queue
  queued := s.queued
  running := s.running
  executing := s.executions.countP Execution.executing
  pumping := s.pumping
  immediates := s.immediates
  shuttingDown := s.shuttingDown

/-! ## Steps of the executor as steps of the pump -/

theorem pumpView_kick : (kick s).pumpView = Pump.kick s.pumpView := by
  unfold kick Pump.kick pumpView
  dsimp only
  split <;> rfl

theorem countP_setStage (hi : s.executions[i]? = some e) (stage : Stage) :
    (s.setStage i stage).executions.countP Execution.executing + e.executing.toNat =
      s.executions.countP Execution.executing + ({ e with stage } : Execution).executing.toNat :=
  countP_modify hi

theorem pumpView_setStage (hi : s.executions[i]? = some e) {stage : Stage}
    (hlive : ({ e with stage } : Execution).executing = e.executing) :
    (s.setStage i stage).pumpView = s.pumpView := by
  have hcount := countP_setStage hi stage
  rw [hlive] at hcount
  unfold pumpView
  rw [Nat.add_right_cancel hcount]
  rfl

/-- The pump sees the same, whatever else has changed. -/
theorem pumpView_eq (hexec : s'.executions = s.executions) (hqueue : s'.queue = s.queue)
    (hqueued : s'.queued = s.queued) (hrunning : s'.running = s.running)
    (hpumping : s'.pumping = s.pumping) (himmediates : s'.immediates = s.immediates)
    (hdown : s'.shuttingDown = s.shuttingDown) : s'.pumpView = s.pumpView := by
  unfold pumpView
  rw [hexec, hqueue, hqueued, hrunning, hpumping, himmediates, hdown]

/-- An execution that goes on keeps its slot. -/
theorem pumpView_next {stage : Stage} {store : LiteHostStore} {timers starts : List String}
    {active : String → Option Nat} (hi : s.executions[i]? = some e)
    (hlive : e.executing = e.queued) (hstage : stage ≠ .done) :
    ({ s with store, heartbeatTimers := timers, active, starts }.setStage i stage).pumpView =
      s.pumpView := by
  refine pumpView_setStage (s := { s with store, heartbeatTimers := timers, active, starts }) hi ?_
  rw [hlive]
  cases stage <;> first | exact Bool.and_true _ | exact absurd rfl hstage

theorem ne_done_of_step {event : ExecutionEvent}
    (hstep : s.stepExecution config network i e now e.stage event = some s') :
    e.stage ≠ .done := by
  intro hdone
  rw [hdone] at hstep
  cases event <;> cases hstep

section

variable {event : ExecutionEvent} (hi : s.executions[i]? = some e)
  (hstep : s.stepExecution config network i e now e.stage event = some s')

include hi hstep

theorem pumpView_stepExecution (hne : e.stage ≠ .settled) : s'.pumpView = s.pumpView := by
  have hlive : e.executing = e.queued := by
    have hdone := ne_done_of_step hstep
    unfold Execution.executing
    cases hstage : e.stage <;> first | exact Bool.and_true _ | exact absurd hstage hdone
  cases Advance.of_step hstep with
  | next hstore hsame hdone => exact pumpView_next hi hlive hdone
  | load hstage hevent => exact pumpView_next hi hlive nofun
  | start hheld => exact pumpView_next hi hlive nofun
  | drop hheld => exact pumpView_next hi hlive nofun
  | finalize hheld hterminal hcanceled hactive => exact pumpView_next hi hlive nofun
  | settle hstage => exact absurd hstage hne

theorem pump_stepExecution {limit : Nat} : Pump.Step limit s.pumpView s'.pumpView := by
  by_cases hstage : e.stage = .settled
  · cases event <;> rw [hstage] at hstep <;> try cases hstep
    have hcount := countP_setStage hi .done
    rw [show ({ e with stage := .done } : Execution).executing = false from Bool.and_false _,
      show e.executing = e.queued by rw [Execution.executing, hstage, Bool.and_true]] at hcount
    cases hqueued : e.queued with
    | true =>
      rw [hqueued] at hcount
      rw [if_pos rfl, pumpView_kick]
      have hfinish := @Pump.Step.finish limit s.pumpView
        (show s.executions.countP Execution.executing ≠ 0 by
          simp only [Bool.toNat_true, Bool.toNat_false] at hcount
          omega)
      refine Eq.subst (motive := Pump.Step limit s.pumpView) (congrArg Pump.kick ?_) hfinish
      unfold pumpView
      dsimp only
      rw [show (s.setStage i .done).executions.countP Execution.executing =
        s.executions.countP Execution.executing - 1 by
          simp only [Bool.toNat_true, Bool.toNat_false] at hcount
          omega]
      rfl
    | false =>
      rw [hqueued] at hcount
      rw [if_neg (by decide), show (s.setStage i .done).pumpView = s.pumpView by
        unfold pumpView
        rw [show (s.setStage i .done).executions.countP Execution.executing =
          s.executions.countP Execution.executing from Nat.add_right_cancel hcount]
        rfl]
      exact .idle
  · rw [pumpView_stepExecution hi hstep hstage]
    exact .idle

end

theorem pumpView_processRun (runId : String) (queued : Bool) (now : Int) :
    (s.processRun runId queued now).pumpView =
      { s.pumpView with executing := s.pumpView.executing + queued.toNat } := by
  have hcount : ∀ stage : Stage, ({ runId, queued, stage } : Execution).executing = queued →
      (s.executions ++ [({ runId, queued, stage } : Execution)]).countP Execution.executing =
        s.executions.countP Execution.executing + queued.toNat := by
    intro stage hstage
    rw [List.countP_append, List.countP_singleton, hstage]
    cases queued <;> rfl
  unfold processRun
  split
  · unfold pumpView
    rw [hcount .settled (Bool.and_true _)]
  · unfold pumpView
    dsimp only
    rw [hcount (.claiming _ _) (Bool.and_true _)]

/-- The pump takes the first runs of its queue. -/
theorem pumpView_pumpLoop (clock : Nat → Int) (queue : List String) (s : SandboxSystem)
    (hqueue : s.queue = queue) (hqueued : s.queued = queue) :
    ∃ k, k ≤ queue.length ∧
      (s.shuttingDown = false → k = queue.length ∨ config.maxConcurrency ≤ s.running + k) ∧
      (pumpLoop config clock s queue).pumpView = { s.pumpView with
        queue := queue.drop k
        queued := queue.drop k
        running := s.running + k
        executing := s.pumpView.executing + k } := by
  induction queue generalizing s with
  | nil =>
    refine ⟨0, le_rfl, fun _ => .inl rfl, ?_⟩
    unfold pumpLoop pumpView
    rw [hqueue, hqueued]
    rfl
  | cons nextId rest ih =>
    unfold pumpLoop
    split
    · set u := processRun
        { s with queue := rest, queued := s.queued.erase nextId, running := s.running + 1 }
        nextId true (clock s.executions.length) with hu
      have hview : u.pumpView = { s.pumpView with
          queue := rest
          queued := rest
          running := s.running + 1
          executing := s.pumpView.executing + 1 } := by
        rw [hu, pumpView_processRun]
        unfold pumpView
        rw [hqueued, List.erase_cons_head]
        rfl
      obtain ⟨k, hk, hstop, hloop⟩ := ih u (congrArg Pump.queue hview) (congrArg Pump.queued hview)
      have hrunning : u.running = s.running + 1 := congrArg Pump.running hview
      have hdown : u.shuttingDown = s.shuttingDown := congrArg Pump.shuttingDown hview
      rw [hrunning, hdown] at hstop
      refine ⟨k + 1, Nat.succ_le_succ hk, fun hlive => ?_, ?_⟩
      · rcases hstop hlive with hall | hfull
        · exact .inl (congrArg (· + 1) hall)
        · exact .inr (by omega)
      · rw [hloop, hview, hrunning]
        simp only [List.drop_succ_cons, Nat.add_assoc, Nat.add_comm 1 k]
    · next hfull =>
      refine ⟨0, Nat.zero_le _, fun hlive => ?_, ?_⟩
      · rw [hlive] at hfull
        simp only [Bool.not_false, Bool.true_and, decide_eq_true_eq] at hfull
        exact .inr (Nat.le_of_not_lt hfull)
      · unfold pumpView
        rw [hqueue, hqueued]
        rfl

theorem executing_cancel (e : Execution) :
    ({ e with stage := e.stage.cancel } : Execution).executing = e.executing := by
  obtain ⟨runId, queued, stage⟩ := e
  cases stage <;> rfl

theorem pumpView_requestCancel (runId : String) :
    (s.requestCancel runId).1.pumpView = s.pumpView := by
  unfold requestCancel
  split
  · rfl
  · next i _ =>
    unfold pumpView
    dsimp only
    cases hi : s.executions[i]? with
    | none => rw [List.modify_eq_self (List.getElem?_eq_none_iff.1 hi)]
    | some e =>
      have hcount := @countP_modify _ Execution.executing
        (fun e => { e with stage := e.stage.cancel }) e i s.executions hi
      rw [executing_cancel] at hcount
      rw [Nat.add_right_cancel hcount]

theorem pumpView_shutdown : s.shutdown.pumpView =
    { s.pumpView with queue := [], queued := [], shuttingDown := true } := by
  have hmap : s.shutdown.executions.map Execution.executing =
      s.executions.map Execution.executing := by
    unfold shutdown
    dsimp only
    refine List.ext_getElem? fun i => ?_
    rw [List.getElem?_map, List.getElem?_map, List.getElem?_mapIdx, Option.map_map]
    refine Option.map_congr fun e _ => ?_
    show Execution.executing (if _ then _ else _) = _
    split
    · exact executing_cancel e
    · rfl
  have hcount : s.shutdown.executions.countP Execution.executing =
      s.executions.countP Execution.executing := by
    rw [← Function.id_comp Execution.executing, ← List.countP_map, hmap, List.countP_map]
  unfold pumpView
  rw [hcount]
  rfl

/-- What a step of the executor comes to: a step of the requests, the store or the sweep, of the
queue, of the pump or of one execution, the first step of a new one, or the shutdown. -/
inductive Move (config : SandboxExecutorConfig Cidr) (network : SandboxNetwork Cidr)
    (s : SandboxSystem) (event : SandboxEvent) : SandboxSystem → Prop where
  | request {store : LiteHostStore} {submits : List SubmitStage}
    {cancels : List (CancelRequest × CancelStage)} {sweep : Option (List SandboxRunRow)}
    (hcancels : ∀ (k : Nat) c, s.cancels[k]? = some c →
      cancels[k]? = some c ∨ ∃ now, event = .cancelNext k now) :
    Move config network s event { s with store, submits, cancels, sweep }
  | told {k : Nat} {c : CancelRequest × CancelStage} (runId : String) (now : Int)
    (hevent : event = .cancelNext k now) :
    Move config network s event
      { (s.requestCancel runId).1 with cancels := (s.requestCancel runId).1.cancels.set k c }
  | enqueued {runId : String} (hlive : s.shuttingDown = false) (hnew : runId ∉ s.queued) :
    Move config network s event
      (kick { s with queue := s.queue ++ [runId], queued := s.queued ++ [runId] })
  | processed (runId : String) (now : Int) :
    Move config network s event (s.processRun runId false now)
  | pumped (clock : Nat → Int) (himmediate : s.immediates ≠ 0) :
    Move config network s event { pumpLoop config clock
      { s with immediates := s.immediates - 1 } s.queue with pumping := false }
  | executed {t : SandboxSystem} {i : Nat} {e : Execution} {event' : ExecutionEvent} {now : Int}
    (hi : s.executions[i]? = some e)
    (hstep : s.stepExecution config network i e now e.stage event' = some t) :
    Move config network s event t
  | shutdown : Move config network s event s.shutdown

variable {event : SandboxEvent}

theorem Move.same {store : LiteHostStore} {submits : List SubmitStage}
    {sweep : Option (List SandboxRunRow)} :
    s.Move config network event { s with store, submits, sweep } :=
  .request fun _ _ hk => .inl hk

theorem Move.of_step (hstep : s.step config network event = some s') :
    s.Move config network event s' := by
  cases event with
  | submit =>
    obtain rfl := Option.some.inj hstep
    exact .same
  | submitNext i row now =>
    obtain ⟨stage, -, hstep⟩ := Option.bind_eq_some_iff.1 hstep
    unfold stepSubmit at hstep
    split at hstep
    · split at hstep <;>
      · obtain rfl := Option.some.inj hstep
        exact .same
    · obtain rfl := Option.some.inj hstep
      exact .same
    · cases hstep
  | cancel request now =>
    obtain rfl := Option.some.inj hstep
    exact .request fun k c hk =>
      .inl (List.getElem?_append_left (List.getElem?_eq_some_iff.1 hk).1 ▸ hk)
  | cancelNext i now =>
    obtain ⟨⟨request, stage⟩, -, hstep⟩ := Option.bind_eq_some_iff.1 hstep
    have hset : ∀ (k : Nat) c c', s.cancels[k]? = some c → (s.cancels.set i c')[k]? = some c ∨
        ∃ n, SandboxEvent.cancelNext i now = .cancelNext k n := fun k c c' hk => by
      by_cases hik : i = k
      · exact .inr ⟨now, by rw [hik]⟩
      · exact .inl (by rw [List.getElem?_set_ne hik, hk])
    unfold stepCancel at hstep
    split at hstep <;> try cases hstep
    all_goals first
      | exact .request fun k c hk => hset k c _ hk
      | exact .told request.runId now rfl
  | enqueue runId =>
    obtain rfl := Option.some.inj hstep
    unfold enqueue
    dsimp only
    split
    · exact .same
    · next h =>
      simp only [Bool.or_eq_true, Bool.not_eq_true', decide_eq_true_eq, not_or,
        List.contains_iff_mem, Bool.not_eq_true] at h
      exact .enqueued h.1.1.2 h.2
  | executeSync runId now =>
    unfold step at hstep
    dsimp only at hstep
    split at hstep <;> obtain rfl := Option.some.inj hstep
    · exact .processed _ _
    · exact .same
  | pump clock =>
    unfold step pump at hstep
    dsimp only at hstep
    split at hstep
    · cases hstep
    · next himmediate =>
      obtain rfl := Option.some.inj hstep
      exact .pumped clock himmediate
  | execution i event now =>
    obtain ⟨e, hi, hstep⟩ := Option.bind_eq_some_iff.1 hstep
    exact .executed hi hstep
  | heartbeat runId now =>
    unfold step at hstep
    dsimp only at hstep
    split at hstep
    · obtain rfl := Option.some.inj hstep
      exact .same
    · cases hstep
  | sweep now =>
    unfold step recoverStaleRuns at hstep
    dsimp only at hstep
    split at hstep
    · cases hstep
    · obtain rfl := Option.some.inj hstep
      exact .same
  | sweepNext now =>
    unfold step stepSweep at hstep
    dsimp only at hstep
    split at hstep
    · cases hstep
    · obtain rfl := Option.some.inj hstep
      exact .same
    · split at hstep <;>
      · obtain rfl := Option.some.inj hstep
        exact .same
  | shutdown =>
    obtain rfl := Option.some.inj hstep
    exact .shutdown

theorem pump_step (hsame : s.queued = s.queue) (hstep : s.step config network event = some s') :
    Pump.Step config.maxConcurrency s.pumpView s'.pumpView := by
  cases Move.of_step hstep with
  | request hcancels => exact .idle
  | told runId now hevent =>
    have hview := @pumpView_requestCancel s runId
    exact Eq.subst (motive := Pump.Step config.maxConcurrency s.pumpView) hview.symm .idle
  | enqueued hlive hnew =>
    rw [pumpView_kick]
    exact .enqueue _ hlive hnew
  | processed runId now =>
    rw [pumpView_processRun]
    exact .idle
  | pumped clock himmediate =>
    obtain ⟨k, hk, hstop, hloop⟩ := @pumpView_pumpLoop Cidr config clock s.queue
      { s with immediates := s.immediates - 1 } rfl hsame
    have hview : ({ pumpLoop config clock { s with immediates := s.immediates - 1 } s.queue with
        pumping := false } : SandboxSystem).pumpView = { s.pumpView with
          queue := s.queue.drop k
          queued := s.queue.drop k
          running := s.running + k
          executing := s.pumpView.executing + k
          pumping := false
          immediates := s.immediates - 1 } :=
      congrArg (fun p : Pump => { p with pumping := false }) hloop
    have hpump := @Pump.Step.pump config.maxConcurrency s.pumpView k himmediate hk hstop
    rw [show s.pumpView.queued = s.queue from hsame] at hpump
    rw [hview]
    exact hpump
  | executed hi hstep => exact pump_stepExecution hi hstep
  | shutdown =>
    rw [pumpView_shutdown]
    exact .shutdown

theorem awake_new (runs : List SandboxRunRow) (limit : Nat) :
    (new runs).pumpView.Awake limit where
  queued := rfl
  nodup := List.nodup_nil
  running := rfl
  scheduled := rfl
  awake hne := absurd rfl hne

theorem awake_step (h : s.pumpView.Awake config.maxConcurrency)
    (hstep : s.step config network event = some s') :
    s'.pumpView.Awake config.maxConcurrency := h.step (pump_step h.queued hstep)

/-! ## Queued runs are taken -/

section Traces

variable {σ : Trace (step config network)} {runs : List SandboxRunRow}
  (h0 : σ.state 0 = new runs)

include h0

theorem awake_trace (n : Nat) : (σ.state n).pumpView.Awake config.maxConcurrency :=
  σ.invariant (P := fun s => s.pumpView.Awake config.maxConcurrency)
    (h0 ▸ awake_new runs _) (fun _ _ _ h hstep => awake_step h hstep) n

theorem pump_next (n : Nat) :
    Pump.Step config.maxConcurrency (σ.state n).pumpView (σ.state (n + 1)).pumpView := by
  have hnext := σ.next n
  split at hnext
  · rw [hnext]
    exact .idle
  · exact pump_step (awake_trace h0 n).queued hnext

/-- A run that stays in the queue comes no later in it. -/
theorem idxOf_le {n m : Nat} (h : n ≤ m) (hin : ∀ k, n ≤ k → id ∈ (σ.state k).queue) :
    (σ.state m).queue.idxOf id ≤ (σ.state n).queue.idxOf id := by
  induction m, h using Nat.le_induction with
  | base => exact le_rfl
  | succ m hnm ih =>
    exact ((awake_trace h0 m).moves_up (pump_next h0 m) (hin m hnm)
      (hin (m + 1) (by omega))).trans ih

/-- On a trace where scheduled callbacks run, the executor is not shut down and slots become
free again and again, every queued run is taken from the queue. -/
theorem leaves_queue
    (hfair : ∀ n, (σ.state n).immediates ≠ 0 →
      ∃ m, n ≤ m ∧ ∃ clock, σ.event m = some (.pump clock))
    (hlive : ∀ n, (σ.state n).shuttingDown = false)
    (hslots : ∀ n, ∃ m, n ≤ m ∧ (σ.state m).pumpView.executing < config.maxConcurrency) :
    σ.LeadsTo (fun s => id ∈ s.queue) (fun s => id ∉ s.queue) := by
  intro n hn
  by_contra hnever
  simp only [not_exists, not_and, not_not] at hnever
  -- the place of the run in the queue goes down again and again
  have hdown : ∀ r m, n ≤ m → (σ.state m).queue.idxOf id = r → False := by
    intro r
    induction r using Nat.strong_induction_on with
    | _ r ih =>
      intro m hnm hr
      obtain ⟨m₁, hm₁, hfree⟩ := hslots m
      have hin : ∀ k, m₁ ≤ k → id ∈ (σ.state k).queue := fun k hk => hnever k (by omega)
      by_cases hmoves : ∃ k, m₁ ≤ k ∧
          (σ.state (k + 1)).queue.idxOf id < (σ.state k).queue.idxOf id
      · obtain ⟨k, hk, hlt⟩ := hmoves
        have hle := idxOf_le h0 (show m ≤ k by omega) fun j hj => hnever j (by omega)
        exact ih _ (by omega) (k + 1) (by omega) rfl
      · simp only [not_exists, not_and, Nat.not_lt] at hmoves
        -- the slot stays free, and a pump that has run leaves no queued run beside a free slot
        have hstays : ∀ k, m₁ ≤ k →
            (σ.state k).pumpView.executing < config.maxConcurrency := by
          intro k hk
          induction k, hk using Nat.le_induction with
          | base => exact hfree
          | succ k hk ihk =>
            exact ((awake_trace h0 k).executing_le (pump_next h0 k) (hin (k + 1) (by omega))
              (hmoves k hk)).trans_lt ihk
        have hscheduled : ∀ k, m₁ ≤ k → (σ.state k).pumping = true := fun k hk =>
          (awake_trace h0 k).awake (List.ne_nil_of_mem (hin k hk)) (hlive k) (hstays k hk)
        have himmediate : (σ.state m₁).immediates ≠ 0 := by
          have hone := (awake_trace h0 m₁).scheduled
          rw [show (σ.state m₁).pumpView.pumping = true from hscheduled m₁ le_rfl,
            if_pos rfl] at hone
          rw [show (σ.state m₁).immediates = 1 from hone]
          exact Nat.one_ne_zero
        obtain ⟨m₂, hm₂, clock, hpump⟩ := hfair m₁ himmediate
        have hnext := σ.next m₂
        rw [hpump] at hnext
        have hidle : (σ.state (m₂ + 1)).pumping = false := by
          unfold step pump at hnext
          dsimp only at hnext
          split at hnext
          · cases hnext
          · rw [← Option.some.inj hnext]
        rw [hscheduled (m₂ + 1) (by omega)] at hidle
        cases hidle
  exact hdown _ n le_rfl rfl

end Traces

/-! ## The limit -/

/-- The pump takes no run beyond the limit. -/
theorem executing_pumpLoop_le (clock : Nat → Int) (queue : List String) (s : SandboxSystem)
    (hrunning : s.running = s.pumpView.executing)
    (hle : s.pumpView.executing ≤ config.maxConcurrency) :
    (pumpLoop config clock s queue).pumpView.executing ≤ config.maxConcurrency := by
  induction queue generalizing s with
  | nil => exact hle
  | cons nextId rest ih =>
    unfold pumpLoop
    split
    · next hfree =>
      simp only [Bool.and_eq_true, decide_eq_true_eq] at hfree
      have hview := pumpView_processRun
        (s := { s with queue := rest, queued := s.queued.erase nextId, running := s.running + 1 })
        nextId true (clock s.executions.length)
      refine ih _ ((congrArg Pump.running hview).trans ?_)
        ((congrArg Pump.executing hview).trans_le ?_)
      · rw [hview]
        exact congrArg (· + 1) hrunning
      · exact hrunning ▸ hfree.2
    · exact hle

theorem executing_stepExecution_le {event : ExecutionEvent} (hi : s.executions[i]? = some e)
    (hstep : s.stepExecution config network i e now e.stage event = some s') :
    s'.pumpView.executing ≤ s.pumpView.executing := by
  by_cases hstage : e.stage = .settled
  · cases event <;> rw [hstage] at hstep <;> try cases hstep
    have hcount := countP_setStage hi .done
    rw [show ({ e with stage := .done } : Execution).executing = false from Bool.and_false _]
      at hcount
    have hdone : (s.setStage i .done).pumpView.executing ≤ s.pumpView.executing :=
      Nat.le.intro hcount
    split
    · rw [pumpView_kick, Pump.kick_executing]
      exact hdone
    · exact hdone
  · rw [pumpView_stepExecution hi hstep hstage]

theorem executing_step_le (h : s.pumpView.Awake config.maxConcurrency)
    (hle : s.pumpView.executing ≤ config.maxConcurrency)
    (hstep : s.step config network event = some s') :
    s'.pumpView.executing ≤ config.maxConcurrency := by
  cases Move.of_step hstep with
  | request hcancels => exact hle
  | told runId now hevent =>
    exact (congrArg Pump.executing (pumpView_requestCancel runId)).trans_le hle
  | enqueued hlive hnew =>
    rw [pumpView_kick, Pump.kick_executing]
    exact hle
  | processed runId now =>
    rw [pumpView_processRun]
    exact hle
  | pumped clock himmediate => exact executing_pumpLoop_le clock s.queue _ h.running hle
  | executed hi hstep => exact (executing_stepExecution_le hi hstep).trans hle
  | shutdown =>
    rw [pumpView_shutdown]
    exact hle

/-- The run is adopted by one execution at a time, and its writes are kept. -/
def Unshared (id : String) (s : SandboxSystem) (event : SandboxEvent) : Prop :=
  ¬ s.Loses id event ∧ ¬ s.Adopts id event

theorem startedOnce_run {es : List SandboxEvent} {runs : List SandboxRunRow}
    (h : Along (step config network) (Unshared id) (new runs) es)
    (hrun : run (step config network) (new runs) es = some s) : (s.view id).StartedOnce :=
  run_invariant_along (Q := fun s => (s.view id).StartedOnce)
    (fun _ _ _ hv ⟨hlossless, hsole⟩ hstep =>
      preserves (show ∀ v w, v.StartedOnce → RunView.Step True False v w → w.StartedOnce from
        fun _ _ => RunView.StartedOnce.step) hv hlossless (fun _ => hsole) (fun h => h.elim) hstep)
    (@RunView.StartedOnce.of_unheld ((new runs).view id) unheld_new rfl _) h hrun

/-- The command of a run is started at most once in every run of the executor that does not
share it; a queue with a free slot beside it has its pump scheduled in every state; and on every
fair trace without a shutdown queued runs are taken. -/
theorem commands_started_once_and_queue_taken (config : SandboxExecutorConfig Cidr)
    (network : SandboxNetwork Cidr) :
    (∀ id runs es s, Along (step config network) (Unshared id) (new runs) es →
      run (step config network) (new runs) es = some s → s.starts.count id ≤ 1) ∧
    (∀ runs es s, run (step config network) (new runs) es = some s → s.queue ≠ [] →
      s.shuttingDown = false →
      s.executions.countP Execution.executing < config.maxConcurrency → s.immediates ≠ 0) ∧
    ∀ (σ : Trace (step config network)) runs, σ.state 0 = new runs →
      (∀ n, (σ.state n).immediates ≠ 0 →
        ∃ m, n ≤ m ∧ ∃ clock, σ.event m = some (.pump clock)) →
      (∀ n, (σ.state n).shuttingDown = false) →
      (∀ n, ∃ m, n ≤ m ∧
        (σ.state m).executions.countP Execution.executing < config.maxConcurrency) →
      ∀ id, σ.LeadsTo (fun s => id ∈ s.queue) (fun s => id ∉ s.queue) := by
  refine ⟨fun id runs es s h hrun => (startedOnce_run h hrun).once, fun runs es s hrun => ?_,
    fun σ runs h0 hfair hlive hslots id => leaves_queue h0 hfair hlive hslots⟩
  intro hne hlive hfree
  have hawake := run_invariant (P := fun s => s.pumpView.Awake config.maxConcurrency)
    (fun _ _ _ h hstep => awake_step h hstep) (awake_new runs _) hrun
  have hone := hawake.scheduled
  rw [hawake.awake hne hlive hfree, if_pos rfl] at hone
  rw [show s.immediates = 1 from hone]
  exact Nat.one_ne_zero

/-- A run that waits in the queue is taken, and its command started once. -/
theorem commands_started_once_and_queue_taken_sample :
    (∃ s, run sampleStep (new [sampleRun]) firstStart = some s ∧ s.starts.count "run-1" ≤ 1) ∧
    (∃ s, run sampleStep (new [sampleRun]) [.enqueue "run-1"] = some s ∧ s.immediates ≠ 0) := by
  obtain ⟨honce, hscheduled, -⟩ :=
    commands_started_once_and_queue_taken sampleConfig sampleNetwork
  constructor
  · obtain ⟨s, hs⟩ := Option.isSome_iff_exists.1
      (show (run sampleStep (new [sampleRun]) firstStart).isSome by decide +kernel)
    have hplain : Along sampleStep (fun s event => s.plain event) (new [sampleRun]) firstStart := by
      decide +kernel
    exact ⟨s, hs, honce "run-1" _ _ s (hplain.mono fun _ _ h =>
      ⟨(undisturbed_of_plain h).1, (undisturbed_of_plain h).2.1⟩) hs⟩
  · refine ⟨_, rfl, hscheduled [sampleRun] [.enqueue "run-1"] _ rfl ?_ ?_ ?_⟩ <;> decide +kernel

/-- Submitted again while it runs, the run is adopted and its command started twice. -/
theorem command_started_twice : ¬ ∀ es s, run sampleStep (new [sampleRun]) es = some s →
    s.starts.count "run-1" ≤ 1 := by
  intro h
  have htwice : (run sampleStep (new [sampleRun]) (firstStart ++ secondStart)).map
      (·.starts.count "run-1") = some 2 := by decide +kernel
  obtain ⟨s, hs, htwo⟩ := Option.map_eq_some_iff.1 htwice
  exact absurd (h _ s hs) (by rw [htwo]; decide)

end SandboxSystem

end AionisCore.Memory
