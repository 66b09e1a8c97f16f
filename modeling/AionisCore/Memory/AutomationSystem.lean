import AionisCore.Memory.AutomationLite

/-!
# The automation kernel

The definitions, the runs with their executions, and the requests on them. A request that is
refused changes nothing. A step is a request, or the end of a replay that some execution
waits for; between two steps of one execution any others may come.
-/

namespace AionisCore.Memory

open Lib Lib.JsString Store Util

structure AutomationDefaults extends TenantDefaults where
  defaultActorId : Option String := none

structure AutomationCreateRequest where
  tenant : TenantRequest
  automationId : String
  name : String
  status : LiteAutomationStatus := .draft
  graph : AutomationGraph

structure AutomationRunRequest where
  tenant : TenantRequest
  actor : Option String := none
  automationId : String
  version : Option Nat := none
  params : Option Json.Fields := none
  executionMode : AutomationExecutionMode := .default

structure AutomationRunResumeRequest where
  tenant : TenantRequest
  actor : Option String := none
  runId : String
  reason : Option String := none

structure AutomationRunCancelRequest where
  tenant : TenantRequest
  runId : String
  reason : Option String := none

def resolveLiteActor (actor : Option String) (defaults : AutomationDefaults) : Option String :=
  let named := fun actor : Option String => actor.bind fun name =>
    if trim name = "" then none else some (trim name)
  (named actor).or (named defaults.defaultActorId)

structure AutomationSystem where
  definitions : LiteAutomationStore := {}
  runs : List AutomationRun := []

namespace AutomationSystem

variable (defaults : AutomationDefaults) (s : AutomationSystem)

def run? (runId : String) : Option AutomationRun := Table.row? (·.view.runId) s.runs runId

def putRun (run : AutomationRun) : AutomationSystem :=
  { s with
    runs := Table.update (·.view.runId) run.view.runId (fun _ => true) (fun _ => run) s.runs }

def loadDefinitionForExecution (automation : AutomationKey) (version : Option Nat) :
    Except RequestError LiteAutomationDefinitionView :=
  match s.definitions.getDefinition automation version with
  | none => .error ⟨404, "automation_not_found", "automation was not found in this Lite scope",
      some [
        ("automation_id", .str automation.automationId),
        ("version", (version.map fun n => Json.num n).getD .null),
        ("scope", .str automation.scope),
        ("tenant_id", .str automation.tenantId)]⟩
  | some out =>
    if version = none ∧ out.definition.status = .disabled then
      .error ⟨409, "automation_disabled", "automation is disabled in this Lite scope", some [
        ("automation_id", .str automation.automationId),
        ("scope", .str automation.scope),
        ("tenant_id", .str automation.tenantId)]⟩
    else .ok out

def requireRunInScope (tenantId scope runId : String) : Except RequestError AutomationRun :=
  match (s.run? runId).filter fun run => run.view.tenantId = tenantId ∧ run.view.scope = scope with
  | some run => .ok run
  | none => .error ⟨404, "automation_run_not_found",
      "automation run was not found in this Lite scope", some [
        ("run_id", .str runId),
        ("scope", .str scope),
        ("tenant_id", .str tenantId)]⟩

def automationCreateLite (request : AutomationCreateRequest) :
    Except RequestError AutomationSystem :=
  do
  let tenancy ← resolveTenantScope request.tenant defaults.toTenantDefaults
  match validateAutomationGraph request.graph with
  | .error err => .error ⟨err.statusCode, err.code, err.message, none⟩
  | .ok _ =>
    let automation := ⟨tenancy.tenantId, tenancy.scope, request.automationId⟩
    match s.definitions.createDefinition automation request.name request.status request.graph with
    | none => .error ⟨500, "internal_error", "UNIQUE constraint failed", none⟩
    | some definitions => .ok { s with definitions }

/-- `automationRunLite`, with the id that `randomUUID` gives. -/
def automationRunLite (request : AutomationRunRequest) (runId : String) (turn : AutomationTurn) :
    Except RequestError AutomationSystem := do
  let tenancy ← resolveTenantScope request.tenant defaults.toTenantDefaults
  let actor := resolveLiteActor request.actor defaults
  let automation := ⟨tenancy.tenantId, tenancy.scope, request.automationId⟩
  let definition ← s.loadDefinitionForExecution automation request.version
  let params := request.params.getD []
  if (s.run? runId).isSome then
    .error ⟨500, "internal_error", "UNIQUE constraint failed", none⟩
  else
    let view := createRun {
      runId
      tenantId := tenancy.tenantId
      scope := tenancy.scope
      automationId := request.automationId
      automationVersion := definition.version.version
      requestedBy := actor
      executionMode := request.executionMode
      paramsJson := params
      graph := definition.version.graph } turn.now
    let run := ({ view } : AutomationRun).execute {
      graph := definition.version.graph
      actor
      params
      resumeReason := none
      stage := .returned } turn
    .ok { s with runs := s.runs ++ [run] }

def automationRunResumeLite (request : AutomationRunResumeRequest) (turn : AutomationTurn) :
    Except RequestError AutomationSystem := do
  let tenancy ← resolveTenantScope request.tenant defaults.toTenantDefaults
  let actor := resolveLiteActor request.actor defaults
  let run ← s.requireRunInScope tenancy.tenantId tenancy.scope request.runId
  if run.view.lifecycleState ≠ .paused then
    .error ⟨409, "automation_run_not_resumable", "automation run is not paused",
      some [("run_id", .str request.runId)]⟩
  else if run.view.pauseReason ≠ some .approvalRequired then
    .error ⟨409, "automation_run_not_resumable",
      "lite automation kernel currently resumes approval pauses only",
      some [("run_id", .str request.runId)]⟩
  else
    let automation := ⟨run.view.tenantId, run.view.scope, run.view.automationId⟩
    let definition ← s.loadDefinitionForExecution automation run.view.automationVersion
    .ok (s.putRun (run.resume turn definition.version.graph actor request.reason))

def automationRunCancelLite (request : AutomationRunCancelRequest) (turn : AutomationTurn) :
    Except RequestError AutomationSystem := do
  let tenancy ← resolveTenantScope request.tenant defaults.toTenantDefaults
  let run ← s.requireRunInScope tenancy.tenantId tenancy.scope request.runId
  if run.view.lifecycleState = .terminal then
    .error ⟨409, "automation_run_not_cancellable", "automation run is already terminal",
      some [("run_id", .str request.runId)]⟩
  else .ok (s.putRun (run.cancel turn request.reason))

inductive AutomationEvent where
  | create (request : AutomationCreateRequest)
  | run (request : AutomationRunRequest) (runId : String) (turn : AutomationTurn)
  | resume (request : AutomationRunResumeRequest) (turn : AutomationTurn)
  | cancel (request : AutomationRunCancelRequest) (turn : AutomationTurn)
  /-- The replay that an execution of the run waits for ends, or is rejected. -/
  | settle (runId : String) (i : Nat) (result : Option LiteAutomationReplayResult)
    (turn : AutomationTurn)

def step (s : AutomationSystem) : AutomationEvent → Option AutomationSystem
  | .create request => some ((s.automationCreateLite defaults request).toOption.getD s)
  | .run request runId turn =>
    some ((s.automationRunLite defaults request runId turn).toOption.getD s)
  | .resume request turn => some ((s.automationRunResumeLite defaults request turn).toOption.getD s)
  | .cancel request turn => some ((s.automationRunCancelLite defaults request turn).toOption.getD s)
  | .settle runId i result turn =>
    (s.run? runId).bind fun run => (run.settle turn i result).map s.putRun

end AutomationSystem

end AionisCore.Memory
