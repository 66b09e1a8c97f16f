import AionisCore.Memory.LifecycleLite

/-!
# Rehydration of archived nodes

`rehydrateArchiveNodesLite` finds the nodes a request names, as an activation does, and
moves those of a colder tier to the target tier. Its commit lists the moved nodes and
those that were warm enough already.
-/

namespace AionisCore.Memory

open Lib Lib.JsString Store Util

inductive RehydrateTier where
  | warm
  | hot
  deriving DecidableEq, Repr

def RehydrateTier.name : RehydrateTier → String
  | .warm => "warm"
  | .hot => "hot"

def RehydrateTier.rank : RehydrateTier → Nat
  | .warm => 2
  | .hot => 3

/-- `MEMORY_TIER_RANK[tier] ?? MEMORY_TIER_RANK.archive`. -/
def memoryTierRank (tier : String) : Nat :=
  match tier with
  | "cold" => 1
  | "warm" => 2
  | "hot" => 3
  | _ => 0

/-- A request that passed `MemoryArchiveRehydrateRequest`. -/
structure MemoryArchiveRehydrateInput where
  tenantId : Option String := none
  scope : Option String := none
  actor : Option String := none
  nodeIds : Option (List String) := none
  clientIds : Option (List String) := none
  targetTier : RehydrateTier := .warm
  reason : Option String := none
  inputText : Option String := none
  inputSha256 : Option String := none

/-- A call: its request and the times it reads from the clock. -/
structure RehydrateCall where
  body : MemoryArchiveRehydrateInput
  startedAt : String
  now : String

variable (env : LifecycleEnv)

def rehydrateReason (body : MemoryArchiveRehydrateInput) : Option String :=
  body.reason.map env.text.normalize

def rehydrateInputSha (body : MemoryArchiveRehydrateInput) : String :=
  body.inputSha256.getD (env.crypto.sha256Hex ((body.inputText.map env.text.normalize).getD ""))

def rehydrateTarget (db : LiteDb) (body : MemoryArchiveRehydrateInput) :
    Except RequestError ActivateTarget := do
  let tenancy ← resolveTenantScope ⟨body.tenantId, body.scope⟩ env.defaults
  let actor := body.actor.getD env.defaultActor
  let requestedNodeIds := uniqStrings ((body.nodeIds.getD []).map lowerId)
  let requestedClientIds := uniqStrings (((body.clientIds.getD []).map trim).filter (· ≠ ""))
  let resolved :=
    resolveLifecycleNodes db tenancy.scopeKey actor requestedNodeIds requestedClientIds
  if resolved.resolvedNodeIds = [] then
    throw (badRequest "rehydrate_no_resolved_nodes"
      "No valid node_ids/client_ids resolved under this scope" none)
  else return ⟨tenancy, actor, requestedNodeIds, requestedClientIds, resolved⟩

/-- The node is colder than the target tier. -/
def movable (body : MemoryArchiveRehydrateInput) (row : LiteNode) : Bool :=
  decide (memoryTierRank row.tier < body.targetTier.rank)

def movableRows (body : MemoryArchiveRehydrateInput) (t : ActivateTarget) : List LiteNode :=
  t.resolved.foundRows.filter (movable body)

def noopIds (body : MemoryArchiveRehydrateInput) (t : ActivateTarget) : List String :=
  (t.resolved.foundRows.filter fun row => !movable body row).map (·.id)

def rehydrateDiff (c : RehydrateCall) (t : ActivateTarget) : Json :=
  .obj [("job", .str "archive_rehydrate"), ("started_at", .str c.startedAt),
    ("scope", .str t.tenancy.scopeKey), ("actor", .str t.actor),
    ("target_tier", .str c.body.targetTier.name),
    ("reason", textOrNull (rehydrateReason env c.body)),
    ("requested", .obj [("node_ids", jsonStrings t.requestedNodeIds),
      ("client_ids", jsonStrings t.requestedClientIds)]),
    ("resolved_by_client", .arr (t.resolved.resolvedByClient.map fun p =>
      .obj [("client_id", .str p.1), ("node_id", .str p.2)])),
    ("moved_ids", jsonStrings ((movableRows c.body t).map (·.id))),
    ("noop_ids", jsonStrings (noopIds c.body t)),
    ("missing_node_ids", jsonStrings t.resolved.missingNodeIds),
    ("missing_client_ids", jsonStrings t.resolved.missingClientIds)]

def rehydrateSlots (c : RehydrateCall) (row : LiteNode) : Json.Fields :=
  Json.spread row.slots [("last_rehydrated_at", .str c.startedAt),
    ("last_rehydrated_job", .str "archive_rehydrate"),
    ("last_rehydrated_from_tier", .str row.tier),
    ("last_rehydrated_to_tier", .str c.body.targetTier.name),
    ("last_rehydrated_reason", textOrNull (rehydrateReason env c.body)),
    ("last_rehydrated_input_sha256", .str (rehydrateInputSha env c.body))]

def rehydrateUpdate (c : RehydrateCall) (scope commitId : String) (row : LiteNode) :
    NodeAnchorUpdate :=
  let lifecycle := resolveNodeLifecycleSignals env.resolvers
    ⟨row.type, some c.body.targetTier.name, row.title, row.textSummary,
      some (rehydrateSlots env c row), some row.salience, some row.importance,
      some row.confidence, row.rawRef, row.evidenceRef, some c.startedAt⟩
  { scope
    id := row.id
    tier := some c.body.targetTier.name
    slots := lifecycle.slots
    textSummary := row.textSummary
    salience := lifecycle.salience
    importance := lifecycle.importance
    confidence := lifecycle.confidence
    commitId := some commitId }

end AionisCore.Memory
