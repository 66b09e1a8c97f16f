import AionisCore.Memory.SandboxOutcomes
import AionisCore.Store.HostStore
import Mathlib.Logic.Function.Basic

/-!
# The sandbox executor

Every call of `processRun` is an execution, and stands at one of its `await`s: it claims the
run or adopts a running one, prepares its command, starts it, waits for it and writes its
outcome. Around the executions are the queue with its pump, the requests that insert runs
and cancel them, and the sweep that recovers stale runs. One step is what runs between two
`await`s; between any two steps anything else may run.
-/

namespace AionisCore.Memory

open Lib Lib.JsString Store

/-- What an execution waits for before it starts the command: `mkdir`, or `lookup`. -/
inductive Preparation where
  | mkdir
  | lookup (host : String)

/-- What runs the command: a child process, or the remote executor at one of the addresses. -/
inductive Target where
  | localProcess
  | httpRemote (host : String) (ips : List String)

inductive Ending where
  | closed (close : ChildClose)
  | answered (answer : RemoteAnswer) (requestMs : Int)

/-- The `await` at which a call of `processRun` stands. -/
inductive Stage where
  /-- In `withTx`, after the claim. -/
  | claiming (run : Option SandboxRunRow) (opened : Bool)
  | claimed (run : Option SandboxRunRow)
  /-- In `loadRunningRun`. -/
  | loading (run : Option SandboxRunRow)
  | mocking (run : SandboxRunRow)
  | preparing (run : SandboxRunRow) (command : SandboxCommand) (preparation : Preparation)
  | started (run : SandboxRunRow) (command : SandboxCommand) (target : Target)
    (state : ActiveRunState)
  | ended (run : SandboxRunRow) (command : SandboxCommand) (target : Target)
    (state : ActiveRunState) (ending : Ending)
  /-- In `finalize`, after its update. -/
  | finishing (heartbeat : Bool)
  | settled
  /-- After the `finally` of the pump. -/
  | done

structure Execution where
  runId : String
  /-- Whether the pump started it. -/
  queued : Bool
  stage : Stage

/-- Where a call of `enqueueSandboxRun` in `withTx` stands. -/
inductive SubmitStage where
  | session (opened : Bool)
  | closing (inserted opened : Bool)
  | done
  deriving DecidableEq, Repr

structure CancelRequest where
  runId : String
  tenantId : String
  scope : String
  reason : Option String := none
  deriving DecidableEq, Repr

/-- Where a cancel request stands: in `cancelSandboxRun`, and then in the executor's
`requestCancel`. -/
inductive CancelStage where
  | requested (status : Option SandboxRunStatus) (opened : Bool)
  | closing (status : Option SandboxRunStatus) (opened : Bool)
  | returned (status : SandboxRunStatus)
  /-- The answer of `requestCancel`, where the route calls it. -/
  | answered (requestCancel : Option Bool)
  | rejected
  deriving DecidableEq, Repr

structure SandboxSystem where
  store : LiteHostStore := {}
  queue : List String := []
  queued : List String := []
  /-- The execution that each entry of the map `active` belongs to. -/
  active : String → Option Nat := fun _ => none
  heartbeatTimers : List String := []
  running : Nat := 0
  pumping : Bool := false
  /-- The callbacks of `setImmediate` that have not run yet. -/
  immediates : Nat := 0
  shuttingDown : Bool := false
  /-- The rows that the sweep in flight has still to recover. -/
  sweep : Option (List SandboxRunRow) := none
  executions : List Execution := []
  submits : List SubmitStage := []
  cancels : List (CancelRequest × CancelStage) := []
  /-- The runs whose commands were started, one entry for each start. -/
  starts : List String := []

inductive ExecutionEvent where
  /-- The awaited promise of the stage is resolved. -/
  | resumed
  | prepared (done : Bool)
  | resolved (entries : Option (List String))
  | timedOut
  | ended (ending : Ending)

inductive SandboxEvent where
  | submit
  /-- The session is found and the row of the run inserted, or neither. -/
  | submitNext (i : Nat) (row : Option SandboxRunRow) (now : Int)
  | cancel (request : CancelRequest) (now : Int)
  | cancelNext (i : Nat) (now : Int)
  | enqueue (runId : String)
  | executeSync (runId : String) (now : Int)
  | pump (clock : Nat → Int)
  | execution (i : Nat) (event : ExecutionEvent) (now : Int)
  | heartbeat (runId : String) (now : Int)
  | sweep (now : Int)
  | sweepNext (now : Int)
  | shutdown

/-! ## The flags of an active run -/

def Stage.cancel : Stage → Stage
  | .started run command target state => .started run command target { state with canceled := true }
  | .ended run command target state ending =>
    .ended run command target { state with canceled := true } ending
  | stage => stage

def Stage.timeOut : Stage → Stage
  | .started run command target state => .started run command target { state with timedOut := true }
  | stage => stage

namespace SandboxSystem

variable {Cidr : Type} (config : SandboxExecutorConfig Cidr) (network : SandboxNetwork Cidr)

def setStage (s : SandboxSystem) (i : Nat) (stage : Stage) : SandboxSystem :=
  { s with executions := s.executions.modify i fun e => { e with stage } }

/-- `requestCancel` of the executor. -/
def requestCancel (s : SandboxSystem) (runId : String) : SandboxSystem × Bool :=
  match s.active (trim runId) with
  | none => (s, false)
  | some i =>
    ({ s with
      executions := s.executions.modify i fun e => { e with stage := e.stage.cancel } }, true)

def kick (s : SandboxSystem) : SandboxSystem :=
  if s.pumping || s.shuttingDown then s
  else { s with pumping := true, immediates := s.immediates + 1 }

/-- `processRun` up to its first `await`. -/
def processRun (s : SandboxSystem) (runId : String) (queued : Bool) (now : Int) :
    SandboxSystem :=
  if runId = "" then
    { s with executions := s.executions ++ [{ runId, queued, stage := .settled }] }
  else
    let (store, opened) := s.store.beginTx
    let (store, run) := store.claimQueuedRun runId now
    { s with
      store
      executions := s.executions ++ [{ runId, queued, stage := .claiming run opened }] }

def enqueue (s : SandboxSystem) (runId : String) : SandboxSystem :=
  let id := trim runId
  if !config.enabled || s.shuttingDown || id = "" || s.queued.contains id then s
  else kick { s with queue := s.queue ++ [id], queued := s.queued ++ [id] }

/-- The loop of the pump over its queue. -/
def pumpLoop (clock : Nat → Int) (s : SandboxSystem) : List String → SandboxSystem
  | [] => s
  | nextId :: rest =>
    if !s.shuttingDown && decide (s.running < config.maxConcurrency) then
      pumpLoop clock (processRun
        { s with queue := rest, queued := s.queued.erase nextId, running := s.running + 1 }
        nextId true (clock s.executions.length)) rest
    else s

def pump (clock : Nat → Int) (s : SandboxSystem) : Option SandboxSystem :=
  if s.immediates = 0 then none
  else some { pumpLoop config clock { s with immediates := s.immediates - 1 } s.queue with
    pumping := false }

/-! ## Executions -/

def startRunHeartbeat (s : SandboxSystem) (runId : String) : SandboxSystem :=
  if config.heartbeatIntervalMs ≤ 0 then s
  else { s with heartbeatTimers := runId :: s.heartbeatTimers.erase runId }

/-- `finalize` up to its `await`. -/
def finalize (s : SandboxSystem) (i : Nat) (run : SandboxRunRow) (out : RunOutcome)
    (heartbeat : Bool) (now : Int) : SandboxSystem :=
  { s with store := s.store.finalizeRun run.id out now }.setStage i (.finishing heartbeat)

/-- `processRun` from the claimed or loaded row on. -/
def execute (s : SandboxSystem) (i : Nat) (run : SandboxRunRow) (now : Int) : SandboxSystem :=
  if run.cancelRequested then s.finalize i run (canceledBeforeStart run) false now
  else
    let s := s.startRunHeartbeat config run.id
    match config.mode with
    | .mock => s.setStage i (.mocking run)
    | .localProcess =>
      match parseCommandArgv config run with
      | .error out => s.finalize i run out true now
      | .ok command => s.setStage i (.preparing run command .mkdir)
    | .httpRemote =>
      match parseCommandArgv config run with
      | .error out => s.finalize i run out true now
      | .ok command =>
        match remoteHost config network with
        | .error out => s.finalize i run out true now
        | .ok host => s.setStage i (.preparing run command (.lookup host))

/-- The command is started and the run registered as active. -/
def start (s : SandboxSystem) (i : Nat) (run : SandboxRunRow) (command : SandboxCommand)
    (target : Target) : SandboxSystem :=
  { s with
    active := Function.update s.active run.id (some i)
    starts := s.starts ++ [run.id] }.setStage i (.started run command target {})

/-- The outcome of a command, where its ending is one that its target has. -/
def outcomeOf (run : SandboxRunRow) (command : SandboxCommand) (state : ActiveRunState) :
    Target → Ending → Option RunOutcome
  | .localProcess, .closed close => some (localOutcome run command state close)
  | .httpRemote host ips, .answered answer requestMs =>
    some (remoteOutcome config network run command host ips state answer requestMs)
  | _, _ => none

def stepExecution (s : SandboxSystem) (i : Nat) (e : Execution) (now : Int) :
    Stage → ExecutionEvent → Option SandboxSystem
  | .claiming run opened, .resumed =>
    some ({ s with store := s.store.endTx opened true }.setStage i (.claimed run))
  | .claimed (some run), .resumed | .loading (some run), .resumed =>
    some (s.execute config network i run now)
  | .claimed none, .resumed => some (s.setStage i (.loading (s.store.getRunningRun e.runId)))
  | .loading none, .resumed => some (s.setStage i .settled)
  | .mocking run, .resumed => some (s.finalize i run (mockOutcome run) true now)
  | .preparing run command .mkdir, .prepared done =>
    if done then some (s.start i run command .localProcess)
    -- a directory that cannot be made rejects the whole call
    else some (s.setStage i (.finishing true))
  | .preparing run command (.lookup host), .resolved entries =>
    match resolvedIps config network host entries with
    | .error out => some (s.finalize i run out true now)
    | .ok ips => some (s.start i run command (.httpRemote host ips))
  | .started run command target state, .timedOut =>
    some (s.setStage i (Stage.timeOut (.started run command target state)))
  | .started run command target state, .ended ending =>
    if (outcomeOf config network run command state target ending).isNone then none
    else some (s.setStage i (.ended run command target state ending))
  | .ended run command target state ending, .resumed =>
    (outcomeOf config network run command state target ending).map fun out =>
      { s with active := Function.update s.active run.id none }.finalize i run out true now
  | .finishing heartbeat, .resumed =>
    some ({ s with heartbeatTimers :=
      if heartbeat then s.heartbeatTimers.erase e.runId else s.heartbeatTimers
      }.setStage i .settled)
  | .settled, .resumed =>
    let s := s.setStage i .done
    some (if e.queued then kick { s with running := s.running - 1 } else s)
  | _, _ => none

/-! ## Requests and the sweep -/

def stepSubmit (s : SandboxSystem) (i : Nat) (row : Option SandboxRunRow) (now : Int) :
    SubmitStage → Option SandboxSystem
  | .session opened =>
    match row.bind (s.store.insertRun · now) with
    | some store => some { s with store, submits := s.submits.set i (.closing true opened) }
    | none => some { s with submits := s.submits.set i (.closing false opened) }
  | .closing inserted opened => some { s with
      store := s.store.endTx opened inserted
      submits := s.submits.set i .done }
  | .done => none

def stepCancel (s : SandboxSystem) (i : Nat) (request : CancelRequest) (now : Int) :
    CancelStage → Option SandboxSystem
  | .requested (some .queued) opened =>
    let (store, canceled) := s.store.cancelQueuedRun request.runId now
    let status : SandboxRunStatus := if canceled then .canceled else .queued
    some { s with store, cancels := s.cancels.set i (request, .closing (some status) opened) }
  | .requested status opened =>
    some { s with cancels := s.cancels.set i (request, .closing status opened) }
  | .closing (some status) opened => some { s with
      store := s.store.endTx opened true
      cancels := s.cancels.set i (request, .returned status) }
  -- the run was not found
  | .closing none opened => some { s with
      store := s.store.endTx opened false
      cancels := s.cancels.set i (request, .rejected) }
  | .returned .running =>
    let (s, answer) := s.requestCancel request.runId
    some { s with cancels := s.cancels.set i (request, .answered (some answer)) }
  | .returned _ => some { s with cancels := s.cancels.set i (request, .answered none) }
  | .answered _ | .rejected => none

def staleOutcome (row : SandboxRunRow) : RunOutcome where
  status := .timeout
  stdout := row.stdoutText
  stderr := row.stderrText
  truncated := row.outputTruncated
  exitCode := row.exitCode
  error := some (row.error.getD "executor_stale_recovered")
  result := Json.set row.resultJson "recovery"
    (.obj [("stale_recovered", .bool true), ("stale_after_ms", .num config.staleAfterMs)])

/-- `recoverStaleRuns` up to its first `await`. -/
def recoverStaleRuns (s : SandboxSystem) (now : Int) : Option SandboxSystem :=
  if !config.enabled || s.shuttingDown || s.sweep.isSome || config.recoveryPollIntervalMs ≤ 0 then
    none
  else some { s with
    sweep := some (s.store.listStaleRunningRuns (config.staleAfterMs.tdiv 1000)
      config.recoveryBatchSize now) }

def stepSweep (s : SandboxSystem) (now : Int) : Option SandboxSystem :=
  match s.sweep with
  | none => none
  | some [] => some { s with sweep := none }
  | some (row :: rest) =>
    if (s.active row.id).isSome then some { s with sweep := some rest }
    else some { s with
      store := s.store.finalizeRunningRun row.id (staleOutcome config row) now
      sweep := some rest }

def shutdown (s : SandboxSystem) : SandboxSystem :=
  { s with
    shuttingDown := true
    heartbeatTimers := []
    executions := s.executions.mapIdx fun i e =>
      if s.active e.runId = some i then { e with stage := e.stage.cancel } else e
    active := fun _ => none
    queue := []
    queued := [] }

def step (s : SandboxSystem) : SandboxEvent → Option SandboxSystem
  | .submit =>
    let (store, opened) := s.store.beginTx
    some { s with store, submits := s.submits ++ [.session opened] }
  | .submitNext i row now => s.submits[i]?.bind (s.stepSubmit i row now)
  | .cancel request now =>
    let (store, opened) := s.store.beginTx
    let (store, status) := store.requestCancel request.runId request.tenantId request.scope
      request.reason now
    some { s with store, cancels := s.cancels ++ [(request, .requested status opened)] }
  | .cancelNext i now => s.cancels[i]?.bind fun c => s.stepCancel i c.1 now c.2
  | .enqueue runId => some (s.enqueue config runId)
  | .executeSync runId now =>
    if config.enabled then some (s.processRun (trim runId) false now) else some s
  | .pump clock => s.pump config clock
  | .execution i event now => s.executions[i]?.bind fun e =>
    s.stepExecution config network i e now e.stage event
  | .heartbeat runId now =>
    if runId ∈ s.heartbeatTimers then some { s with store := s.store.touchRunningRun runId now }
    else none
  | .sweep now => s.recoverStaleRuns config now
  | .sweepNext now => s.stepSweep config now
  | .shutdown => some s.shutdown

end SandboxSystem

end AionisCore.Memory
