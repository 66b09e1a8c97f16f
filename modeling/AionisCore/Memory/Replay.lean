import AionisCore.Store.ReplayStore

/-!
# What a replay operation takes from the store

The reading half of every replay operation, up to its last check that a row was
found. The rows it ends with are what the operation answers with, executes or
writes from. A row leaks when a caller of one (tenant, scope) pair is served a
row stored under the key of another.
-/

namespace AionisCore.Memory

open Lib Store Util

def replayRunNotFound (t : TenantScope) (runId : String) : RequestError :=
  ⟨404, "replay_run_not_found", "run_id was not found in this scope",
    some [("run_id", .str runId), ("scope", .str t.scope), ("tenant_id", .str t.tenantId)]⟩

def replayStepReferenceRequired (runId : String) : RequestError :=
  ⟨400, "replay_step_reference_required",
    "step_id or step_index is required to record step outcome", some [("run_id", .str runId)]⟩

def replayPlaybookNotFound (t : TenantScope) (playbookId : String) : RequestError :=
  ⟨404, "replay_playbook_not_found", "playbook_id was not found in this scope",
    some [("playbook_id", .str playbookId), ("scope", .str t.scope),
      ("tenant_id", .str t.tenantId)]⟩

/-- `version ?? null`. -/
def versionJson (version : Option Int) : Json :=
  match version with
  | some v => .num v
  | none => .null

def replayPlaybookRowNotFound (t : TenantScope) (playbookId : String) (version : Option Int) :
    RequestError :=
  ⟨404, "replay_playbook_not_found", "playbook was not found in this scope",
    some [("playbook_id", .str playbookId), ("version", versionJson version),
      ("scope", .str t.scope), ("tenant_id", .str t.tenantId)]⟩

def replayPlaybookVersionNotFound (field playbookId : String) (version : Int) : RequestError :=
  ⟨404, "replay_playbook_version_not_found", field ++ " was not found for this playbook",
    some [("playbook_id", .str playbookId), (field, .num version)]⟩

/-- What `replayStepAfter` knows about the step it records the outcome of. -/
structure StepAfterNodes where
  runNode : ReplayNodeRow
  stepNode : Option ReplayNodeRow
  resolvedStepId : String

/-- The row a playbook run executes, and the steps it takes from it. -/
structure PlaybookRun where
  row : ReplayPlaybookRow
  stepsRaw : List Json

/-- The newest version, which numbers the next one, and the version a write starts from. -/
structure PlaybookSource where
  latest : ReplayPlaybookRow
  source : ReplayPlaybookRow

/-! ## Operations -/

section Operations

variable (db : LiteReplayDb) (t : TenantScope) (visibility : ReplayVisibilityArgs)

def replayStepBeforeNode (runId : String) : Except RequestError ReplayNodeRow :=
  orThrow (findRunNodeByRunId db visibility t.scopeKey runId) (replayRunNotFound t runId)

def replayRunEndNode (runId : String) : Except RequestError ReplayNodeRow :=
  orThrow (findRunNodeByRunId db visibility t.scopeKey runId) (replayRunNotFound t runId)

def replayStepAfterNodes (runId : String) (stepId : Option String) (stepIndex : Option Int) :
    Except RequestError StepAfterNodes := do
  let runNode ←
    orThrow (findRunNodeByRunId db visibility t.scopeKey runId) (replayRunNotFound t runId)
  match stepId, stepIndex with
  | some id, _ => return ⟨runNode, findStepNodeById db visibility t.scopeKey id, id⟩
  | none, some index =>
    let stepNode ← orThrow (findLatestStepNodeByIndex db visibility t.scopeKey runId index)
      (replayStepReferenceRequired runId)
    return ⟨runNode, some stepNode,
      (Store.toStringOrNull (Json.field (Json.asRecord (some stepNode.slots)) "step_id")).getD
        stepNode.id⟩
  | none, none => throw (replayStepReferenceRequired runId)

/-- The rows of a run, unless there is none. -/
def replayRunRows (runId : String) : Except RequestError (List ReplayNodeRow) :=
  let rows := listReplayNodesByRunId db visibility t.scopeKey runId
  if rows.isEmpty then .error (replayRunNotFound t runId) else .ok rows

def replayRunGetRows (runId : String) : Except RequestError (List ReplayNodeRow) :=
  replayRunRows db t visibility runId

def replayPlaybookCompileRows (runId : String) : Except RequestError (List ReplayNodeRow) :=
  replayRunRows db t visibility runId

def replayPlaybookLatest (playbookId : String) : Except RequestError ReplayPlaybookRow :=
  orThrow (listReplayPlaybookVersions db visibility t.scopeKey playbookId).head?
    (replayPlaybookNotFound t playbookId)

def replayPlaybookGetRow (playbookId : String) : Except RequestError ReplayPlaybookRow :=
  replayPlaybookLatest db t visibility playbookId

/-- The version asked for, or the newest one. -/
def pickVersion (playbookId : String) : Option Int → Option ReplayPlaybookRow
  | some v => getReplayPlaybookVersion db visibility t.scopeKey playbookId v
  | none => (listReplayPlaybookVersions db visibility t.scopeKey playbookId).head?

def replayPlaybookRow (playbookId : String) (version : Option Int) :
    Except RequestError ReplayPlaybookRow :=
  orThrow (pickVersion db t visibility playbookId version)
    (replayPlaybookRowNotFound t playbookId version)

def replayPlaybookCandidateRow (playbookId : String) (version : Option Int) :
    Except RequestError ReplayPlaybookRow :=
  replayPlaybookRow db t visibility playbookId version

def replayPlaybookRun (playbookId : String) (version : Option Int) (maxSteps : Nat) :
    Except RequestError PlaybookRun := do
  let row ← replayPlaybookRow db t visibility playbookId version
  let steps := Json.asArray (Json.field (Json.asRecord (some row.slots)) "steps_template")
  return ⟨row, (steps.getD []).take maxSteps⟩

/-- The newest version and the version asked for in `field`. -/
def replayPlaybookSource (field playbookId : String) (version : Option Int) :
    Except RequestError PlaybookSource := do
  let latest ← replayPlaybookLatest db t visibility playbookId
  match version with
  | none => return ⟨latest, latest⟩
  | some v =>
    let byVersion ← orThrow (getReplayPlaybookVersion db visibility t.scopeKey playbookId v)
      (replayPlaybookVersionNotFound field playbookId v)
    return ⟨latest, byVersion⟩

def replayPlaybookPromoteSource (playbookId : String) (fromVersion : Option Int) :
    Except RequestError PlaybookSource :=
  replayPlaybookSource db t visibility "from_version" playbookId fromVersion

def replayPlaybookRepairSource (playbookId : String) (fromVersion : Option Int) :
    Except RequestError PlaybookSource :=
  replayPlaybookSource db t visibility "from_version" playbookId fromVersion

def replayPlaybookRepairReviewSource (playbookId : String) (version : Option Int) :
    Except RequestError PlaybookSource :=
  replayPlaybookSource db t visibility "version" playbookId version

end Operations

/-! ## Calls -/

/-- The lookups of the store and the operations built on them. -/
inductive ReplayCall where
  | findRunNodeByRunId (runId : String)
  | findStepNodeById (stepId : String)
  | findLatestStepNodeByIndex (runId : String) (stepIndex : Int)
  | listReplayNodesByRunId (runId : String)
  | listReplayPlaybookVersions (playbookId : String)
  | getReplayPlaybookVersion (playbookId : String) (version : Int)
  | replayStepBefore (runId : String)
  | replayStepAfter (runId : String) (stepId : Option String) (stepIndex : Option Int)
  | replayRunEnd (runId : String)
  | replayRunGet (runId : String)
  | replayPlaybookCompileFromRun (runId : String)
  | replayPlaybookGet (playbookId : String)
  | replayPlaybookCandidate (playbookId : String) (version : Option Int)
  | replayPlaybookRun (playbookId : String) (version : Option Int) (maxSteps : Nat)
  | replayPlaybookPromote (playbookId : String) (fromVersion : Option Int)
  | replayPlaybookRepair (playbookId : String) (fromVersion : Option Int)
  | replayPlaybookRepairReview (playbookId : String) (version : Option Int)

def StepAfterNodes.ids (n : StepAfterNodes) : List String :=
  n.runNode.id :: n.stepNode.toList.map (·.id)

def PlaybookSource.ids (s : PlaybookSource) : List String := [s.latest.id, s.source.id]

/-- The ids of the rows a call is served. -/
def ReplayCall.served (db : LiteReplayDb) (t : TenantScope) (visibility : ReplayVisibilityArgs) :
    ReplayCall → Except RequestError (List String)
  | findRunNodeByRunId r =>
    .ok ((Store.findRunNodeByRunId db visibility t.scopeKey r).toList.map (·.id))
  | findStepNodeById s =>
    .ok ((Store.findStepNodeById db visibility t.scopeKey s).toList.map (·.id))
  | findLatestStepNodeByIndex r i =>
    .ok ((Store.findLatestStepNodeByIndex db visibility t.scopeKey r i).toList.map (·.id))
  | listReplayNodesByRunId r =>
    .ok ((Store.listReplayNodesByRunId db visibility t.scopeKey r).map (·.id))
  | listReplayPlaybookVersions p =>
    .ok ((Store.listReplayPlaybookVersions db visibility t.scopeKey p).map (·.id))
  | getReplayPlaybookVersion p v =>
    .ok ((Store.getReplayPlaybookVersion db visibility t.scopeKey p v).toList.map (·.id))
  | replayStepBefore r => (replayStepBeforeNode db t visibility r).map fun n => [n.id]
  | replayStepAfter r s i => (replayStepAfterNodes db t visibility r s i).map StepAfterNodes.ids
  | replayRunEnd r => (replayRunEndNode db t visibility r).map fun n => [n.id]
  | replayRunGet r => (replayRunGetRows db t visibility r).map (·.map (·.id))
  | replayPlaybookCompileFromRun r =>
    (replayPlaybookCompileRows db t visibility r).map (·.map (·.id))
  | replayPlaybookGet p => (replayPlaybookGetRow db t visibility p).map fun n => [n.id]
  | replayPlaybookCandidate p v =>
    (replayPlaybookCandidateRow db t visibility p v).map fun n => [n.id]
  | replayPlaybookRun p v k => (Memory.replayPlaybookRun db t visibility p v k).map ([·.row.id])
  | replayPlaybookPromote p v =>
    (replayPlaybookPromoteSource db t visibility p v).map PlaybookSource.ids
  | replayPlaybookRepair p v =>
    (replayPlaybookRepairSource db t visibility p v).map PlaybookSource.ids
  | replayPlaybookRepairReview p v =>
    (replayPlaybookRepairReviewSource db t visibility p v).map PlaybookSource.ids

end AionisCore.Memory
