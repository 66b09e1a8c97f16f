import AionisCore.Memory.RuleEngine
import AionisCore.Store.ReplayStore

/-!
# Execution of replay steps

The commands a step may name, the checks before and after it, and what an executor returns.
The machine answers every check anew. The checks of a step are those of
`replay-execution-helpers`, and its command line is that of `parseStepArgv`.
-/

namespace AionisCore.Memory

open Lib Lib.JsString

/-! ## Commands -/

/-- `/^[a-zA-Z0-9._-]+$/`. -/
def isSafeCommandName (raw : String) : Bool :=
  raw ≠ "" && raw.toList.all fun c => c.isAlphanum || c == '.' || c == '_' || c == '-'

/-- The parts of a path between its separators, where they are not empty. -/
def pathSegments (path : String) : List String :=
  (path.toList.splitOn '/' |>.filter (· ≠ [])).map String.ofList

def isAbsolutePath (path : String) : Bool := path.toList.head? == some '/'

/-- `path.basename`. -/
def baseName (path : String) : String := (pathSegments path).getLast?.getD ""

def isSafeCommandReference (raw : String) : Bool :=
  let command := trim raw
  isSafeCommandName command ||
    isAbsolutePath command && pathSegments command ≠ [] &&
      (pathSegments command).all isSafeCommandName

def resolveCommandReferenceAliases (raw : String) : List String :=
  let command := trim raw
  if !isSafeCommandReference command then []
  else
    let base := baseName command
    if base ≠ command ∧ isSafeCommandName base then [command, base] else [command]

def isAllowedReplayCommand (raw : String) (allowedCommands : List String) : Bool :=
  (resolveCommandReferenceAliases raw).any (· ∈ allowedCommands)

def SENSITIVE_COMMANDS : List String :=
  ["rm", "mv", "cp", "chmod", "chown", "chgrp", "dd", "mkfs", "fdisk", "parted", "truncate",
    "reboot", "shutdown", "kill", "killall", "pkill", "useradd", "userdel", "usermod", "groupadd",
    "groupdel", "ln", "mount", "umount", "sed", "perl"]

inductive ReplayRiskLevel where
  | low
  | medium
  | high
  deriving DecidableEq, Repr

structure SensitiveCommand where
  sensitive : Bool
  reason : Option String
  riskLevel : ReplayRiskLevel
  deriving DecidableEq, Repr

/-- `toLowerCase` of a command name. -/
def lowerCommand (s : String) : String := String.ofList (s.toList.map Char.toLower)

/-- White space, the flag, and what `after` says of the rest: `/\s-…/`. -/
def hasFlag (flag : List Char) (after : List Char → Bool) : List Char → Bool
  | [] => false
  | c :: cs => isWhite c && flag.isPrefixOf cs && after (cs.drop flag.length) ||
    hasFlag flag after cs

/-- `(\s|$)`. -/
def atBreak : List Char → Bool
  | [] => true
  | c :: _ => isWhite c

/-- `[^ ]+`. -/
def atText : List Char → Bool
  | [] => false
  | c :: _ => c != ' '

def detectSensitiveCommand (command : String) (argv : List String) : SensitiveCommand :=
  let cmd := trim command
  let lower := lowerCommand cmd
  let joined := (" ".intercalate argv).toList
  if cmd = "" ∨ lower ∉ SENSITIVE_COMMANDS then ⟨false, none, .low⟩
  else if lower = "rm" then
    if hasFlag "-rf".toList atBreak joined || hasFlag "-fr".toList atBreak joined then
      ⟨true, some "destructive_delete_recursive", .high⟩
    else ⟨true, some "delete_operation", .high⟩
  else if lower ∈ ["dd", "mkfs", "fdisk", "parted"] then
    ⟨true, some "disk_mutation_operation", .high⟩
  else if lower ∈ ["chmod", "chown", "chgrp", "usermod", "useradd", "userdel"] then
    ⟨true, some "permission_or_identity_mutation", .high⟩
  else if lower ∈ ["sed", "perl"] then
    if hasFlag "-i".toList atBreak joined || hasFlag "-i".toList atText joined then
      ⟨true, some "in_place_file_mutation", .medium⟩
    else ⟨true, some "shell_mutation_tool", .medium⟩
  else ⟨true, some "mutation_operation", .medium⟩

/-! ## Checks -/

inductive CheckState where
  | pass
  | fail
  | unknown
  deriving DecidableEq, Repr

structure PreconditionResult where
  kind : String
  state : CheckState
  message : String
  input : Json.Fields

def PreconditionResult.ok (r : PreconditionResult) : Bool := r.state = .pass

/-- What the machine answers while a condition is checked. -/
structure ReplayMachine where
  /-- `accessSync(path, F_OK)` does not throw. -/
  fileExists : String → Bool
  /-- `which` finds the command. -/
  commandAvailable : String → Bool
  env : String → Option String
  portFree : String → Int → Bool
  cwd : String

/-- `Number(v)` of a value that may be undefined. -/
def RuleHost.numberOf (host : RuleHost) : Option Json → JsNumber
  | none => .nan
  | some v => host.number v

/-- The integer that a number is. -/
def JsNumber.integer? : JsNumber → Option Int
  | .finite q => if q.den = 1 then some q.num else none
  | _ => none

/-- `Math.trunc(n)` of a finite number. -/
def JsNumber.trunc? : JsNumber → Option Int
  | .finite q => some (q.num.tdiv q.den)
  | _ => none

/-- `String(n)` after `Math.trunc`. -/
def JsNumber.truncText (n : JsNumber) : String :=
  match n with
  | .finite q => toString (q.num.tdiv q.den)
  | .nan => "NaN"
  | .infinity positive => if positive then "Infinity" else "-Infinity"

def decided (kind : String) (ok : Bool) (yes no : String) (input : Json.Fields) :
    PreconditionResult :=
  ⟨kind, if ok then .pass else .fail, if ok then yes else no, input⟩

def undecided (kind message : String) (input : Json.Fields) : PreconditionResult :=
  ⟨kind, .unknown, message, input⟩

section Checks

variable (host : RuleHost) (machine : ReplayMachine)

def evaluatePrecondition (raw : Json) : PreconditionResult :=
  let obj := (Json.asRecord (some raw)).getD []
  let kind := (Store.toStringOrNull (Json.get obj "kind")).getD "unknown"
  match kind with
  | "always" =>
    decided kind (Json.get obj "value" ≠ some (.bool false)) "always=true" "always=false" obj
  | "file_exists" =>
    match Store.toStringOrNull (Json.get obj "path") with
    | none => undecided kind "path is required" obj
    | some path =>
      decided kind (machine.fileExists path) s!"file exists: {path}" s!"file missing: {path}" obj
  | "path_not_exists" =>
    match Store.toStringOrNull (Json.get obj "path") with
    | none => undecided kind "path is required" obj
    | some path =>
      decided kind (!machine.fileExists path) s!"path absent: {path}" s!"path exists: {path}" obj
  | "command_available" =>
    match Store.toStringOrNull (Json.get obj "command") with
    | none => undecided kind "command is required" obj
    | some command =>
      if !isSafeCommandName command then
        undecided kind "command contains unsafe characters" obj
      else
        decided kind (machine.commandAvailable command) s!"command available: {command}"
          s!"command missing: {command}" obj
  | "env_exists" =>
    match Store.toStringOrNull (Json.get obj "name") with
    | none => undecided kind "name is required" obj
    | some name =>
      decided kind ((machine.env name).any (trim · ≠ "")) s!"env exists: {name}"
        s!"env missing: {name}" obj
  | "env_equals" =>
    match Store.toStringOrNull (Json.get obj "name"),
      Store.toStringOrNull (Json.get obj "value") with
    | some name, some value =>
      decided kind ((machine.env name).getD "" == value) s!"env matched: {name}"
        s!"env mismatch: {name}" obj
    | _, _ => undecided kind "name/value are required" obj
  | "port_free" =>
    let address := (Store.toStringOrNull (Json.get obj "host")).getD "127.0.0.1"
    match (host.numberOf (Json.get obj "port")).integer? with
    | none => undecided kind "valid port is required" obj
    | some port =>
      if port ≤ 0 ∨ 65535 < port then undecided kind "valid port is required" obj
      else
        decided kind (machine.portFree address port) s!"port free: {address}:{port}"
          s!"port occupied: {address}:{port}" obj
  | "cwd_contains" =>
    match Store.toStringOrNull (Json.get obj "token") with
    | none => undecided kind "token is required" obj
    | some token =>
      decided kind (includesText machine.cwd token) s!"cwd contains token: {token}"
        s!"cwd missing token: {token}" obj
  | _ => undecided kind s!"unsupported precondition kind: {kind}" obj

end Checks

/-! ## Executors -/

inductive LocalCommandStatus where
  | success
  | failed
  | timeout
  deriving DecidableEq, Repr

structure LocalCommandOutcome where
  status : LocalCommandStatus
  command : String
  argv : List String
  stdout : String
  stderr : String
  exitCode : Option Int
  durationMs : Nat
  timedOut : Bool
  error : Option String

def LocalCommandOutcome.ok (o : LocalCommandOutcome) : Bool := o.status = .success

inductive ReplayExecutionBackend where
  | localProcess
  | sandboxSync
  | sandboxAsync
  deriving DecidableEq, Repr

def normalizeReplayExecutionBackend (raw : Option String) : ReplayExecutionBackend :=
  match raw with
  | some "sandbox_sync" => .sandboxSync
  | some "sandbox_async" => .sandboxAsync
  | _ => .localProcess

inductive ReplaySensitiveReviewMode where
  | block
  | warn
  deriving DecidableEq, Repr

def normalizeReplaySensitiveReviewMode (raw : Option String) : ReplaySensitiveReviewMode :=
  match raw with
  | some "warn" => .warn
  | _ => .block

/-- What `spawnSync` returns. -/
structure SpawnResult where
  stdout : String
  stderr : String
  status : Option Int
  /-- The code and the message of the error. -/
  error : Option (String × String)

/-- What a sandbox returns. -/
structure SandboxResult where
  ok : Bool
  status : String
  stdout : String
  stderr : String
  exitCode : Option Int
  error : Option String
  runId : Option String

/-- `argv[0]`, trimmed. -/
def commandOf (argv : List String) : String := trim (argv.head?.getD "")

/-- `runLocalCommand`: `spawned` is what `spawnSync` returns, or the text of what it throws. -/
def runLocalCommand (argv : List String) (spawned : Except String SpawnResult)
    (durationMs : Nat) : LocalCommandOutcome :=
  let command := commandOf argv
  if command = "" then ⟨.failed, command, argv, "", "", none, 0, false, some "invalid_command_argv"⟩
  else
    match spawned with
    | .error message => ⟨.failed, command, argv, "", "", none, durationMs, false, some message⟩
    | .ok out =>
      let timedOut := out.error.any (·.1 == "ETIMEDOUT")
      let status :=
        if timedOut then LocalCommandStatus.timeout
        else if out.status = some 0 ∧ out.error.isNone then .success
        else .failed
      ⟨status, command, argv, out.stdout, out.stderr, out.status, durationMs, timedOut,
        out.error.map (·.2)⟩

/-- `status` is the raw status, trimmed. -/
def sandboxResultToOutcome (input : SandboxResult) (status : String) (argv : List String)
    (durationMs : Nat) : LocalCommandOutcome :=
  let outcome :=
    if status = "succeeded" ∨ input.ok then LocalCommandStatus.success
    else if status = "timeout" then .timeout
    else .failed
  ⟨outcome, commandOf argv, argv, input.stdout, input.stderr, input.exitCode, durationMs,
    outcome == .timeout, input.error.filter (· ≠ "")⟩

structure ReplayCommandExecutionResult where
  outcome : Option LocalCommandOutcome
  sandboxRunId : Option String
  rawStatus : String

/-- What the executors answer to a command. -/
structure ReplayExecutors where
  spawn : Except String SpawnResult
  sandbox : Except RequestError SandboxResult
  durationMs : Nat

def LocalCommandStatus.name : LocalCommandStatus → String
  | .success => "success"
  | .failed => "failed"
  | .timeout => "timeout"

/-- `executeReplayCommand`: there is no outcome while the command is pending. -/
def executeReplayCommand (backend : ReplayExecutionBackend) (executors : ReplayExecutors)
    (argv : List String) : Except RequestError ReplayCommandExecutionResult :=
  match backend with
  | .localProcess =>
    let out := runLocalCommand argv executors.spawn executors.durationMs
    .ok ⟨some out, none, out.status.name⟩
  | _ => do
    let out ← executors.sandbox
    let rawStatus := (Store.toStringOrNull (some (.str out.status))).getD "unknown"
    let runId := out.runId.bind fun id => Store.toStringOrNull (some (.str id))
    if backend = .sandboxAsync ∨ rawStatus = "queued" ∨ rawStatus = "running" then
      return ⟨none, runId, rawStatus⟩
    else
      return ⟨some (sandboxResultToOutcome out rawStatus argv executors.durationMs), runId,
        rawStatus⟩

/-! ## Outcomes -/

structure SignatureCheck where
  check : String
  ok : Bool
  message : String

structure SignatureEvaluation where
  ok : Bool
  checks : List SignatureCheck

/-- `asStringArray`: the strings of an array, trimmed, where they are not blank. -/
def asStringArray (input : Option Json) : List String :=
  ((Json.asArray input).getD []).filterMap fun v => Store.toStringOrNull (some v)

def exitCodeText (code : Option Int) : String := (code.map toString).getD "null"

/-- The check that the stream holds every token of the field. -/
def containsChecks (check stream output : String) (spec : Json.Fields) : List SignatureCheck :=
  match Json.get spec check with
  | none => []
  | some v =>
    let values := match v with
      | .arr _ => asStringArray (some v)
      | v => asStringArray (some (.arr [v]))
    values.map fun token =>
      let ok := includesText output token
      ⟨check, ok, if ok then s!"{stream} contains '{token}'" else s!"{stream} missing '{token}'"⟩

def exitCodeChecks (host : RuleHost) (spec : Json.Fields) (outcome : LocalCommandOutcome) :
    List SignatureCheck :=
  match Json.get spec "exit_code" with
  | none => []
  | some v =>
    let expected := host.number v
    let ok := expected.trunc?.isSome && expected.trunc? == outcome.exitCode
    let wanted := expected.truncText
    let actual := exitCodeText outcome.exitCode
    [⟨"exit_code", ok, if ok then s!"exit_code matched ({wanted})"
      else s!"exit_code mismatch (expected={wanted}, actual={actual})"⟩]

def regexChecks (host : RuleHost) (spec : Json.Fields) (combinedOutput : String) :
    List SignatureCheck :=
  match Json.get spec "output_regex" with
  | none => []
  | some v =>
    match Store.toStringOrNull (some v) with
    | none => [⟨"output_regex", false, "output_regex is empty"⟩]
    | some raw =>
      match host.regexTest raw combinedOutput with
      | none => [⟨"output_regex", false, "output_regex is invalid"⟩]
      | some ok => [⟨"output_regex", ok, if ok then s!"output_regex matched /{raw}/"
          else s!"output_regex not matched /{raw}/"⟩]

def evaluateExpectedSignature (host : RuleHost) (expected : Json) (outcome : LocalCommandOutcome) :
    SignatureEvaluation :=
  match Json.asRecord (some expected) with
  | none => ⟨true, []⟩
  | some spec =>
    let checks := exitCodeChecks host spec outcome ++
      containsChecks "stdout_contains" "stdout" outcome.stdout spec ++
      containsChecks "stderr_contains" "stderr" outcome.stderr spec ++
      regexChecks host spec s!"{outcome.stdout}\n{outcome.stderr}"
    ⟨checks.all (·.ok), checks⟩

def evaluatePostcondition (host : RuleHost) (machine : ReplayMachine)
    (outcome : LocalCommandOutcome) (raw : Json) : PreconditionResult :=
  let obj := (Json.asRecord (some raw)).getD []
  let kind := (Store.toStringOrNull (Json.get obj "kind")).getD "unknown"
  match kind with
  | "exit_code" =>
    match (host.numberOf (Json.get obj "value")).trunc? with
    | none => undecided kind "postcondition exit_code requires numeric value" obj
    | some expected =>
      let actual := exitCodeText outcome.exitCode
      decided kind (outcome.exitCode == some expected)
        s!"postcondition exit_code matched ({expected})"
        s!"postcondition exit_code mismatch (expected={expected}, actual={actual})" obj
  | "stdout_contains" =>
    match Store.toStringOrNull (Json.get obj "value") with
    | none => undecided kind "postcondition stdout_contains requires value" obj
    | some token =>
      decided kind (includesText outcome.stdout token) s!"stdout contains '{token}'"
        s!"stdout missing '{token}'" obj
  | "stderr_contains" =>
    match Store.toStringOrNull (Json.get obj "value") with
    | none => undecided kind "postcondition stderr_contains requires value" obj
    | some token =>
      decided kind (includesText outcome.stderr token) s!"stderr contains '{token}'"
        s!"stderr missing '{token}'" obj
  | _ => evaluatePrecondition host machine raw

def isReplayExecutionPassed (execution : LocalCommandOutcome) (signature : SignatureEvaluation)
    (postconditions : List PreconditionResult) : Bool :=
  execution.ok && signature.ok && !postconditions.any (·.state == .fail) &&
    !postconditions.any (·.state == .unknown)

def resolveReplayExecutionFailureReason (execution : LocalCommandOutcome) : String :=
  execution.error.getD
    (if execution.status = .timeout then "execution_timeout" else "execution_failed")

/-! ## The command line of a step -/

def isReplayCommandTool (toolName : Option String) : Bool :=
  toolName.any (· ∈ ["command", "shell", "exec", "bash"])

def parseStepArgv (stepObj : Json.Fields) (toolName : Option String) : List String :=
  let rawTemplate := ((Json.asRecord (Json.get stepObj "tool_input_template")).or
    (Json.asRecord (Json.get stepObj "tool_input"))).getD []
  let argv := asStringArray (Json.get rawTemplate "argv")
  if argv ≠ [] then argv
  else
    let command := (Store.toStringOrNull (Json.get rawTemplate "command")).or
      (if toolName = some "bash" then some "bash" else none)
    match command with
    | none => []
    | some command => command :: asStringArray (Json.get rawTemplate "args")

end AionisCore.Memory
