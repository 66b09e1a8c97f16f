import AionisCore.Lib.JsString
import AionisCore.Lib.Json

/-!
# Sandbox runs

The statuses of a sandbox run, the row of a run and what ends it. A run starts `queued`,
is claimed and then `running`, and is over with one of the four terminal statuses.
-/

namespace AionisCore.Memory

open Lib Lib.JsString

inductive SandboxRunStatus where
  | queued
  | running
  | succeeded
  | failed
  | canceled
  | timeout
  deriving DecidableEq, Repr

/-- `TERMINAL_SANDBOX_STATUSES`. -/
def terminalSandboxStatuses : List SandboxRunStatus := [.succeeded, .failed, .canceled, .timeout]

def SandboxRunStatus.terminal (status : SandboxRunStatus) : Bool :=
  decide (status ∈ terminalSandboxStatuses)

theorem SandboxRunStatus.terminal_iff {status : SandboxRunStatus} :
    status.terminal ↔ status ≠ .queued ∧ status ≠ .running := by
  cases status <;> decide

/-- What `finalizeRun` writes into the row of a run. -/
structure RunOutcome where
  status : SandboxRunStatus
  stdout : String := ""
  stderr : String := ""
  truncated : Bool := false
  exitCode : Option Int := none
  error : Option String := none
  result : Json.Fields := []

/-- The row of a run, as far as the executor reads it: `argv` is the stored action's, when
that is an array, and times are in milliseconds. -/
structure SandboxRunRow where
  id : String
  tenantId : String
  scope : String
  argv : Option (List String) := none
  status : SandboxRunStatus := .queued
  stdoutText : String := ""
  stderrText : String := ""
  outputTruncated : Bool := false
  exitCode : Option Int := none
  error : Option String := none
  cancelRequested : Bool := false
  cancelReason : Option String := none
  resultJson : Json.Fields := []
  startedAt : Option Int := none
  finishedAt : Option Int := none
  updatedAt : Int := 0

/-- The part of the row that is settled with the run. -/
def SandboxRunRow.outcome (row : SandboxRunRow) : RunOutcome where
  status := row.status
  stdout := row.stdoutText
  stderr := row.stderrText
  truncated := row.outputTruncated
  exitCode := row.exitCode
  error := row.error
  result := row.resultJson

namespace SandboxRunRow

/-! ## The `SET` clauses of the statements on a run -/

def setCancelRequested (row : SandboxRunRow) (reason : Option String) (now : Int) :
    SandboxRunRow :=
  { row with
    cancelRequested := true
    cancelReason := reason.or row.cancelReason
    updatedAt := now }

def setCanceled (row : SandboxRunRow) (now : Int) : SandboxRunRow :=
  { row with
    status := .canceled
    finishedAt := some now
    error := row.error.or (some "canceled_before_execution")
    resultJson := Json.set row.resultJson "canceled" (.bool true)
    updatedAt := now }

def setRunning (row : SandboxRunRow) (now : Int) : SandboxRunRow :=
  { row with
    status := .running
    startedAt := row.startedAt.or (some now)
    updatedAt := now }

def setOutcome (row : SandboxRunRow) (out : RunOutcome) (now : Int) : SandboxRunRow :=
  { row with
    status := out.status
    stdoutText := out.stdout
    stderrText := out.stderr
    outputTruncated := out.truncated
    exitCode := out.exitCode
    error := out.error
    resultJson := out.result
    finishedAt := some now
    updatedAt := now }

end SandboxRunRow

def trimOrNull (v : Option Json) : Option String :=
  match v with
  | some (.str s) => if trim s = "" then none else some (trim s)
  | _ => none

def normalizeSandboxStatus (input : Option Json) : Option SandboxRunStatus :=
  match trimOrNull input with
  | some "queued" => some .queued
  | some "running" => some .running
  | some "succeeded" => some .succeeded
  | some "failed" => some .failed
  | some "canceled" => some .canceled
  | some "timeout" => some .timeout
  | _ => none

end AionisCore.Memory
