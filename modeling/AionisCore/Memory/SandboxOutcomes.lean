import AionisCore.Memory.SandboxShared
import AionisCore.Util.InflightGate

/-!
# Outcomes of sandbox runs

The checks an executor makes before it starts the command of a run, and the outcome it
writes for a command that was refused, that was cancelled before its start, or that a child
process or the remote executor has ended.
-/

namespace AionisCore.Memory

open Lib Lib.JsString Util

inductive ExecutorMode where
  | mock
  | localProcess
  | httpRemote
  deriving DecidableEq, Repr

structure RemoteConfig (Cidr : Type) where
  url : Option String := none
  allowedHosts : List String := []
  allowedEgressCidrs : List Cidr := []
  denyPrivateIps : Bool := false

structure SandboxExecutorConfig (Cidr : Type) where
  enabled : Bool := true
  mode : ExecutorMode
  maxConcurrency : Nat
  stdioMaxBytes : Nat := 65536
  allowedCommands : List String
  remote : RemoteConfig Cidr := {}
  heartbeatIntervalMs : Int := 0
  staleAfterMs : Int
  recoveryPollIntervalMs : Int
  recoveryBatchSize : Int

/-- What the executor asks of `URL`, of the rules on addresses and of `Number`. -/
structure SandboxNetwork (Cidr : Type) where
  /-- The `hostname` of a URL, if it parses. -/
  hostname : String → Option String
  sandboxRemoteHostAllowed : String → List String → Bool
  isIP : String → Bool
  ipInCidrs : String → List Cidr → Bool
  isPrivateOrLocalIp : String → Bool
  tailText : String → Nat → String
  /-- `Number(v)` where it is finite. -/
  number : Json → Option ℚ

/-! ## Outcomes -/

def failedOutcome (error : String) (result : Json.Fields) : RunOutcome where
  status := .failed
  error := some error
  result := result

structure SandboxCommand where
  argv : List String
  file : String

/-- The name an executor writes into its results. -/
def ExecutorMode.executor : ExecutorMode → String
  | .mock => "mock"
  | .localProcess => "local_process"
  | .httpRemote => "http_remote"

section Outcomes

variable {Cidr : Type} (config : SandboxExecutorConfig Cidr) (network : SandboxNetwork Cidr)

def parseCommandArgv (run : SandboxRunRow) : Except RunOutcome SandboxCommand :=
  let executor : Json.Fields := [("executor", .str config.mode.executor)]
  match run.argv with
  | none | some [] => .error (failedOutcome "invalid_command_argv" executor)
  | some (arg :: args) =>
    let file := trim arg
    if file = "" then .error (failedOutcome "invalid_command_name" executor)
    else if file ∉ config.allowedCommands then
      .error (failedOutcome "sandbox_command_not_allowed" (executor ++ [("command", .str file)]))
    else .ok { argv := arg :: args, file }

def canceledBeforeStart (run : SandboxRunRow) : RunOutcome where
  status := .canceled
  stdout := run.stdoutText
  stderr := run.stderrText
  truncated := run.outputTruncated
  exitCode := run.exitCode
  error := some (run.error.getD "canceled_before_execution")
  result := [("canceled", .bool true), ("stage", .str "pre_start")]

def mockOutcome (run : SandboxRunRow) : RunOutcome :=
  let argv := run.argv.getD []
  { status := .succeeded
    stdout := trim ("mock executor: " ++ " ".intercalate argv)
    exitCode := some 0
    result := [("executor", .str "mock"), ("argv", .arr (argv.map .str))] }

/-- What a child process leaves when it closes. -/
structure ChildClose where
  stdout : String := ""
  stderr : String := ""
  truncated : Bool := false
  code : Option Int
  signal : Option String := none
  spawnErr : Option String := none

/-- The flags of an `ActiveRunState`. -/
structure ActiveRunState where
  timedOut : Bool := false
  canceled : Bool := false
  deriving DecidableEq, Repr

def localStatus (run : SandboxRunRow) (state : ActiveRunState) (close : ChildClose) :
    SandboxRunStatus × Option String :=
  if state.canceled || run.cancelRequested then (.canceled, some "canceled_by_request")
  else if state.timedOut then (.timeout, some "execution_timeout")
  else if close.spawnErr.any (· ≠ "") then (.failed, close.spawnErr)
  else if close.code = some 0 then (.succeeded, none)
  else (.failed, some ("non_zero_exit_code:" ++ (close.code.map toString).getD "null"))

def localOutcome (run : SandboxRunRow) (command : SandboxCommand) (state : ActiveRunState)
    (close : ChildClose) : RunOutcome where
  status := (localStatus run state close).1
  stdout := close.stdout
  stderr := close.stderr
  truncated := close.truncated
  exitCode := close.code
  error := (localStatus run state close).2
  result := [
    ("executor", .str "local_process"),
    ("command", .str command.file),
    ("argv", .arr (command.argv.map .str)),
    ("signal", Json.orNull close.signal),
    ("timed_out", .bool state.timedOut),
    ("canceled", .bool state.canceled)]

/-- The checks before the address of the remote executor is looked up. -/
def remoteHost : Except RunOutcome String :=
  let executor : Json.Fields := [("executor", .str "http_remote")]
  match trimOrNull (config.remote.url.map .str) with
  | none => .error (failedOutcome "remote_executor_not_configured" executor)
  | some url =>
    match network.hostname url with
    | none => .error (failedOutcome "remote_executor_url_invalid" executor)
    | some host =>
      let result := executor ++ [("host", .str host)]
      if !network.sandboxRemoteHostAllowed host config.remote.allowedHosts then
        .error (failedOutcome "remote_executor_host_not_allowed" result)
      else if config.remote.allowedEgressCidrs.isEmpty then
        .error (failedOutcome "remote_executor_egress_cidr_blocked"
          (result ++ [("resolved_ips", .arr []), ("blocked_ips", .arr [])]))
      else .ok host

/-- `sandboxRemoteEgressAllowed`. -/
def egressAllowed (ips : List String) (cidrs : List Cidr) : Bool :=
  !cidrs.isEmpty && !ips.isEmpty && ips.all (network.ipInCidrs · cidrs)

/-- The checks on the addresses that the lookup answers. -/
def resolvedIps (host : String) (resolved : Option (List String)) :
    Except RunOutcome (List String) :=
  let cidrs := config.remote.allowedEgressCidrs
  let result : Json.Fields := [("executor", .str "http_remote"), ("host", .str host)]
  match resolved with
  | none => .error (failedOutcome "remote_executor_dns_lookup_failed" result)
  | some entries =>
    let ips := (entries.map trim).filter network.isIP
    let resolved := result ++ [("resolved_ips", .arr (ips.map .str))]
    if ips.isEmpty then .error (failedOutcome "remote_executor_no_resolved_ip" result)
    else if !egressAllowed network ips cidrs then
      let blocked := ips.filter fun ip => !network.ipInCidrs ip cidrs
      .error (failedOutcome "remote_executor_egress_cidr_blocked"
        (resolved ++ [("blocked_ips", .arr (blocked.map .str))]))
    else
      let blocked := ips.filter fun ip =>
        network.isPrivateOrLocalIp ip && !network.ipInCidrs ip cidrs
      if config.remote.denyPrivateIps && !blocked.isEmpty then
        .error (failedOutcome "remote_executor_private_egress_blocked"
          (resolved ++ [("blocked_private_ips", .arr (blocked.map .str))]))
      else .ok ips

/-- How the request to the remote executor ends: `body` is the parsed text of the response,
and `null` where the text is empty or no JSON. -/
inductive RemoteAnswer where
  | response (status : Int) (body : Json)
  | error (message : String)

def asFiniteIntOrNull (input : Option Json) : Option Int :=
  (input.bind network.number).map trunc

/-- A text of the response, or of its `output`. -/
def responseText (body : Json.Fields) (key : String) : String :=
  match Json.get body key with
  | some (.str text) => text
  | _ =>
    match (Json.asRecord (Json.get body "output")).bind (Json.get · key) with
    | some (.str text) => text
    | _ => ""

/-- The status and the error of a response with a good HTTP status. -/
def responseStatus (body : Json.Fields) (exitCode : Option Int) :
    SandboxRunStatus × Option String :=
  let status := (normalizeSandboxStatus (Json.get body "status")).getD
    (if exitCode = some 0 then .succeeded else .failed)
  if !status.terminal then (.failed, some "remote_executor_non_terminal_status")
  else
    match trimOrNull (Json.get body "error") with
    | some error => (status, some error)
    | none => (status, if status = .succeeded then none else some "remote_executor_failed")

/-- The outcome that the answer alone gives, its result without the request's fields. -/
def answerOutcome (answer : RemoteAnswer) (requestMs : Int) : RunOutcome :=
  match answer with
  | .error message =>
    failedOutcome (if message = "response_too_large" then "remote_executor_response_too_large"
      else "remote_executor_error:" ++ message) [("remote_request_ms", .num requestMs)]
  | .response httpStatus body =>
    let fields := match body with
      | .obj fields => fields
      | _ => []
    let exitCode := asFiniteIntOrNull network (match body with
      | .obj fields => Json.get fields "exit_code"
      | .arr _ => none
      | _ => some .null)
    let ok := 200 ≤ httpStatus && httpStatus < 300
    { status := if ok then (responseStatus fields exitCode).1 else .failed
      stdout := network.tailText (responseText fields "stdout") config.stdioMaxBytes
      stderr := network.tailText (responseText fields "stderr") config.stdioMaxBytes
      truncated := Json.truthy ((Json.asRecord (Json.get fields "output")).bind
          (Json.get · "truncated")) || Json.truthy (Json.get fields "output_truncated")
      exitCode
      error := if ok then (responseStatus fields exitCode).2
        else some ("remote_executor_http_" ++ toString httpStatus)
      result := [
        ("remote_http_status", .num httpStatus),
        ("remote_request_ms", .num requestMs),
        ("result", match Json.get fields "result" with
          | some (.obj result) => .obj result
          | some (.arr result) => .arr result
          | _ => .obj [])] }

def remoteOutcome (run : SandboxRunRow) (command : SandboxCommand) (host : String)
    (ips : List String) (state : ActiveRunState) (answer : RemoteAnswer) (requestMs : Int) :
    RunOutcome :=
  let out := answerOutcome config network answer requestMs
  let result := [
    ("executor", .str "http_remote"),
    ("command", .str command.file),
    ("argv", .arr (command.argv.map .str)),
    ("host", .str host),
    ("resolved_ips", .arr (ips.map .str)),
    ("connect_ip", Json.orNull ips.head?),
    ("remote_response_max_bytes", .num (max (config.stdioMaxBytes * 8) (256 * 1024) : Nat))] ++
      out.result
  if state.canceled || run.cancelRequested then
    { out with status := .canceled, error := some "canceled_by_request", result }
  else if state.timedOut then
    { out with status := .timeout, error := some "execution_timeout", result }
  else { out with result }

/-! ## Every outcome ends the run -/

variable {config network} {run : SandboxRunRow} {command : SandboxCommand} {out : RunOutcome}
  {host : String} {state : ActiveRunState}

theorem parseCommandArgv_error (h : parseCommandArgv config run = .error out) :
    out.status = .failed := by
  unfold parseCommandArgv at h
  split at h
  · exact Except.error.inj h ▸ rfl
  · exact Except.error.inj h ▸ rfl
  · dsimp only at h
    split at h
    · exact Except.error.inj h ▸ rfl
    · split at h
      · exact Except.error.inj h ▸ rfl
      · cases h

theorem remoteHost_error (h : remoteHost config network = .error out) :
    out.status = .failed := by
  unfold remoteHost at h
  split at h
  · exact Except.error.inj h ▸ rfl
  · split at h
    · exact Except.error.inj h ▸ rfl
    · dsimp only at h
      split at h
      · exact Except.error.inj h ▸ rfl
      · split at h
        · exact Except.error.inj h ▸ rfl
        · cases h

theorem resolvedIps_error {entries : Option (List String)}
    (h : resolvedIps config network host entries = .error out) : out.status = .failed := by
  unfold resolvedIps at h
  dsimp only at h
  split at h
  · exact Except.error.inj h ▸ rfl
  · split at h
    · exact Except.error.inj h ▸ rfl
    · split at h
      · exact Except.error.inj h ▸ rfl
      · split at h
        · exact Except.error.inj h ▸ rfl
        · cases h

theorem terminal_localOutcome (close : ChildClose) :
    (localOutcome run command state close).status.terminal := by
  unfold localOutcome localStatus
  dsimp only
  split
  · rfl
  · split
    · rfl
    · split
      · rfl
      · split <;> rfl

theorem localOutcome_canceled (close : ChildClose) (h : state.canceled) :
    (localOutcome run command state close).status = .canceled := by
  unfold localOutcome localStatus
  simp only [h, Bool.true_or, if_true]

theorem terminal_responseStatus (body : Json.Fields) (exitCode : Option Int) :
    (responseStatus body exitCode).1.terminal := by
  unfold responseStatus
  dsimp only
  generalize Option.getD _ _ = status
  split
  · rfl
  · next hterminal =>
    rw [Bool.not_eq_true', Bool.not_eq_false] at hterminal
    split <;> exact hterminal

theorem terminal_answerOutcome (answer : RemoteAnswer) (requestMs : Int) :
    (answerOutcome config network answer requestMs).status.terminal := by
  unfold answerOutcome
  cases answer with
  | error message =>
    rfl
  | response httpStatus body =>
    dsimp only
    split
    · exact terminal_responseStatus _ _
    · rfl

theorem terminal_remoteOutcome (ips : List String) (answer : RemoteAnswer) (requestMs : Int) :
    (remoteOutcome config network run command host ips state answer requestMs).status.terminal := by
  unfold remoteOutcome
  dsimp only
  split
  · rfl
  · split
    · rfl
    · exact terminal_answerOutcome answer requestMs

theorem remoteOutcome_canceled (ips : List String) (answer : RemoteAnswer) (requestMs : Int)
    (h : state.canceled) :
    (remoteOutcome config network run command host ips state answer requestMs).status =
      .canceled := by
  unfold remoteOutcome
  simp only [h, Bool.true_or, if_true]

end Outcomes

end AionisCore.Memory
