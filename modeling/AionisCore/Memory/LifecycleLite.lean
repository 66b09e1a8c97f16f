import AionisCore.Lib.Dedup
import AionisCore.Memory.NodeFeedback
import AionisCore.Memory.Tenant
import AionisCore.Store.Nodes
import AionisCore.Util.Normalize

/-!
# Activation of nodes

`activateMemoryNodesLite` finds the nodes a request names, records a commit and
rewrites each found node with the feedback of the request. A run is a sequence
of such calls on one store; a call that throws leaves the store as it was.
-/

namespace AionisCore.Memory

open Lib Lib.JsString Store Util

/-- What the runtime supplies besides the store. -/
structure LifecycleEnv where
  crypto : Crypto
  resolvers : LifecycleResolvers
  text : TextPolicy
  defaultActor : String
  defaults : TenantDefaults

/-- A request that passed `MemoryNodesActivateRequest`. -/
structure MemoryNodesActivateInput where
  tenantId : Option String := none
  scope : Option String := none
  actor : Option String := none
  nodeIds : Option (List String) := none
  clientIds : Option (List String) := none
  runId : Option String := none
  outcome : NodeFeedbackOutcome := .neutral
  activate : Bool := true
  reason : Option String := none
  inputText : Option String := none
  inputSha256 : Option String := none

/-- A call: its request and the times it reads from the clock. -/
structure ActivateCall where
  body : MemoryNodesActivateInput
  startedAt : String
  now : String

def uniqStrings (values : List String) : List String := firstBy id values

/-- `toLowerCase` of an identifier. -/
def lowerId (s : String) : String := String.ofList (s.toList.map Char.toLower)

structure ResolvedNodes where
  resolvedNodeIds : List String
  resolvedByClient : List (String × String)
  missingClientIds : List String
  missingNodeIds : List String
  foundRows : List LiteNode

/-! ## Resolution -/

section Resolve

variable (db : LiteDb) (scope actor : String)

def findById (nodeId : String) : Option LiteNode :=
  db.findNode { scope, id := some nodeId, consumerAgentId := some actor, limit := 1 }

def findByClient (clientId : String) : Option LiteNode :=
  db.findNode { scope, clientId := some clientId, consumerAgentId := some actor, limit := 1 }

/-- The rows set into `foundById`, in order. -/
def foundRowsOf (requestedNodeIds requestedClientIds : List String) : List LiteNode :=
  requestedNodeIds.filterMap (findById db scope actor) ++
    requestedClientIds.filterMap (findByClient db scope actor)

def resolveLifecycleNodes (requestedNodeIds requestedClientIds : List String) : ResolvedNodes :=
  let rows := foundRowsOf db scope actor requestedNodeIds requestedClientIds
  let resolvedByClient := requestedClientIds.filterMap fun c =>
    (findByClient db scope actor c).map fun row => (c, row.id)
  let resolvedNodeIds := uniqStrings (requestedNodeIds ++ resolvedByClient.map (·.2))
  -- a later row of one id replaces an earlier one
  let foundById (id : String) := rows.reverse.find? (·.id == id)
  { resolvedNodeIds
    resolvedByClient
    missingClientIds := requestedClientIds.filter fun c => (findByClient db scope actor c).isNone
    missingNodeIds := resolvedNodeIds.filter fun id => (foundById id).isNone
    foundRows := resolvedNodeIds.filterMap foundById }

end Resolve

structure ActivatedSummary where
  requestedNodeIds : Nat
  requestedClientIds : Nat
  resolvedNodeIds : Nat
  foundNodes : Nat
  updatedNodes : Nat
  missingNodeIds : List String
  missingClientIds : List String
  updatedIds : List String
  outcome : Option NodeFeedbackOutcome
  activate : Option Bool

structure ActivateResult where
  scope : String
  tenantId : String
  commitId : Option String
  commitHash : Option String
  activated : ActivatedSummary

/-! ## The call -/

section Activate

variable (env : LifecycleEnv)

def jsonStrings (xs : List String) : Json := .arr (xs.map .str)

def feedbackReason (body : MemoryNodesActivateInput) : Option String :=
  body.reason.map env.text.normalize

def feedbackInputSha (body : MemoryNodesActivateInput) : String :=
  body.inputSha256.getD (env.crypto.sha256Hex ((body.inputText.map env.text.normalize).getD ""))

def activateDiff (c : ActivateCall) (scope actor : String) (requestedNodeIds : List String)
    (requestedClientIds : List String) (r : ResolvedNodes) : Json :=
  .obj [("job", .str "nodes_activate"), ("started_at", .str c.startedAt), ("scope", .str scope),
    ("actor", .str actor), ("run_id", textOrNull c.body.runId),
    ("outcome", .str c.body.outcome.name), ("activate", .bool c.body.activate),
    ("reason", textOrNull (feedbackReason env c.body)),
    ("requested", .obj [("node_ids", jsonStrings requestedNodeIds),
      ("client_ids", jsonStrings requestedClientIds)]),
    ("resolved_by_client", .arr (r.resolvedByClient.map fun p =>
      .obj [("client_id", .str p.1), ("node_id", .str p.2)])),
    ("found_node_ids", jsonStrings (r.foundRows.map (·.id))),
    ("missing_node_ids", jsonStrings r.missingNodeIds),
    ("missing_client_ids", jsonStrings r.missingClientIds)]

/-- The slots a feedback leaves in `row`. -/
def activatedState (c : ActivateCall) (row : LiteNode) : NodeState :=
  let nextState := computeFeedbackUpdatedNodeState env.resolvers
    ⟨row.type, some row.tier, row.title, row.textSummary, some row.slots⟩
    { outcome := c.body.outcome
      runId := c.body.runId
      reason := feedbackReason env c.body
      inputSha256 := feedbackInputSha env c.body
      source := "nodes_activate"
      timestamp := c.startedAt }
  let nextSlots :=
    if c.body.activate then Json.set nextState.slots "last_activated_at" (.str c.startedAt)
    else nextState.slots
  resolveNodeLifecycleSignals env.resolvers
    ⟨row.type, some row.tier, row.title, row.textSummary, some nextSlots, some nextState.salience,
      some nextState.importance, some nextState.confidence, row.rawRef, row.evidenceRef,
      some c.startedAt⟩

def activationUpdate (c : ActivateCall) (scope commitId : String) (row : LiteNode) :
    NodeAnchorUpdate :=
  let lifecycle := activatedState env c row
  { scope
    id := row.id
    slots := lifecycle.slots
    textSummary := row.textSummary
    salience := lifecycle.salience
    importance := lifecycle.importance
    confidence := lifecycle.confidence
    commitId := some commitId }

def noResolvedNodes : RequestError :=
  badRequest "nodes_activate_no_resolved_nodes"
    "No valid node_ids/client_ids resolved under this scope" none

/-- The rows a call works on: its tenancy, actor, requested ids and resolution. -/
structure ActivateTarget where
  tenancy : TenantScope
  actor : String
  requestedNodeIds : List String
  requestedClientIds : List String
  resolved : ResolvedNodes

def activateTarget (db : LiteDb) (body : MemoryNodesActivateInput) :
    Except RequestError ActivateTarget := do
  let tenancy ← resolveTenantScope ⟨body.tenantId, body.scope⟩ env.defaults
  let actor := body.actor.getD env.defaultActor
  let requestedNodeIds := uniqStrings ((body.nodeIds.getD []).map lowerId)
  let requestedClientIds := uniqStrings (((body.clientIds.getD []).map trim).filter (· ≠ ""))
  let resolved :=
    resolveLifecycleNodes db tenancy.scopeKey actor requestedNodeIds requestedClientIds
  if resolved.resolvedNodeIds = [] then throw noResolvedNodes
  else return ⟨tenancy, actor, requestedNodeIds, requestedClientIds, resolved⟩

def activatedSummary (t : ActivateTarget) (updated : List String)
    (outcome : Option NodeFeedbackOutcome) (activate : Option Bool) : ActivatedSummary :=
  { requestedNodeIds := t.requestedNodeIds.length
    requestedClientIds := t.requestedClientIds.length
    resolvedNodeIds := t.resolved.resolvedNodeIds.length
    foundNodes := t.resolved.foundRows.length
    updatedNodes := updated.length
    missingNodeIds := t.resolved.missingNodeIds
    missingClientIds := t.resolved.missingClientIds
    updatedIds := updated
    outcome
    activate }

def activationCommit (db : LiteDb) (c : ActivateCall) (t : ActivateTarget) : CommitInsertArgs :=
  let scope := t.tenancy.scopeKey
  let inputSha := feedbackInputSha env c.body
  let parent := db.latestCommit scope
  let diffJson := env.crypto.stableStringify
    (activateDiff env c scope t.actor t.requestedNodeIds t.requestedClientIds t.resolved)
  let commitHash := env.crypto.sha256Hex (env.crypto.stableStringify (.obj [
    ("parentHash", .str ((parent.map (·.commitHash)).getD "")), ("inputSha", .str inputSha),
    ("diffSha", .str (env.crypto.sha256Hex diffJson)), ("scope", .str scope),
    ("actor", .str t.actor), ("kind", .str "nodes_activate")]))
  ⟨scope, parent.map (·.id), inputSha, diffJson, t.actor, commitHash⟩

/-- The commit and the updates of a call that found rows. -/
def activateRows (db : LiteDb) (c : ActivateCall) (t : ActivateTarget) : ActivateResult × LiteDb :=
  let args := activationCommit env db c t
  let commit := db.insertCommit env.crypto c.now args
  let updates := t.resolved.foundRows.map (activationUpdate env c t.tenancy.scopeKey commit.1)
  ({ scope := t.tenancy.scope
     tenantId := t.tenancy.tenantId
     commitId := some commit.1
     commitHash := some args.commitHash
     activated := activatedSummary t (t.resolved.foundRows.map (·.id)) (some c.body.outcome)
      (some c.body.activate) },
    updates.foldl (fun db u => (db.updateNodeAnchorState u).2) commit.2)

def activateMemoryNodesLite (db : LiteDb) (c : ActivateCall) :
    Except RequestError (ActivateResult × LiteDb) := do
  let t ← activateTarget env db c.body
  if t.resolved.foundRows = [] then
    return ({ scope := t.tenancy.scope
              tenantId := t.tenancy.tenantId
              commitId := none
              commitHash := none
              activated := activatedSummary t [] none none }, db)
  else return activateRows env db c t

/-- The store after a call. -/
def activateStep (db : LiteDb) (c : ActivateCall) : LiteDb :=
  match activateMemoryNodesLite env db c with
  | .ok (_, db') => db'
  | .error _ => db

/-- The store after a sequence of calls. -/
def activateRun (db : LiteDb) (calls : List ActivateCall) : LiteDb :=
  calls.foldl (activateStep env) db

end Activate

end AionisCore.Memory
