import AionisCore.Memory.WritePostCommit

/-!
# Memory writes

`applyMemoryWrite` checks a prepared write against the tables, commits it and reports
what it wrote. Its calls are in the order of the source.
-/

namespace AionisCore.Memory

open Lib Lib.JsString Util Store

/-! ## Edges of a batch -/

def EDGE_TYPES : List String := ["part_of", "related_to", "derived_from"]

/-- `{ id?, client_id? }`, the end of an edge. -/
structure WriteRef where
  id : Option String := none
  clientId : Option String := none

structure WriteEdge where
  id : Option String := none
  scope : Option String := none
  type : String
  src : WriteRef
  dst : WriteRef
  weight : Option ℚ := none
  confidence : Option ℚ := none
  decayRate : Option ℚ := none

def resolveWriteScope (reqScope : Option String) (defaultScope : String) : String :=
  (given (reqScope.map trim)).getD defaultScope

def resolveWriteRefId (value : WriteRef) (clientIdToId : List (String × String)) :
    Except WriteError String :=
  match given value.id, given value.clientId with
  | some id, _ => .ok id
  | none, some clientId =>
    orThrow ((clientIdToId.lookup (trim clientId)).bind fun id => given (some id))
      (.thrown s!"unknown client_id reference: {clientId}")
  | none, none => .error (.thrown "missing id/client_id")

/-- What a missing end prints as. -/
def WriteRef.text (value : WriteRef) : String :=
  (value.id.or value.clientId).getD "undefined"

/-- An edge of `prepareWriteBatch`. Without an id of its own it takes one from the text of
the write, or else from the hash of its input. -/
def prepareEdge (crypto : Crypto) (tenancy : TenantScope) (defaultTenantId : String)
    (inputText inputSha256 : Option String) (clientIdToId : List (String × String))
    (edge : WriteEdge) : Except WriteError PreparedEdge := do
  let scope := toTenantScopeKey (resolveWriteScope edge.scope tenancy.scope) tenancy.tenantId
    defaultTenantId
  let input := (inputText.or inputSha256).getD "noinput"
  let id := edge.id.getD (crypto.stableUuid
    s!"{scope}:edge:{input}:{edge.type}:{edge.src.text}:{edge.dst.text}")
  let srcId ← resolveWriteRefId edge.src clientIdToId
  let dstId ← resolveWriteRefId edge.dst clientIdToId
  return {
    scope
    type := edge.type
    srcId
    dstId
    id
    weight := edge.weight
    confidence := edge.confidence
    decayRate := edge.decayRate }

/-! ## Checks -/

def assertSingleScopeWrite (prepared : PreparedWrite) : Except RequestError Unit :=
  match prepared.nodes.find? (·.scope ≠ prepared.scope) with
  | some node =>
    .error (badRequest "cross_scope_node_not_allowed" "write batch cannot override node scope"
      (some [("request_scope", .str prepared.scopePublic),
        ("request_scope_key", .str prepared.scope), ("node_id", .str node.id),
        ("client_id", Json.orNull node.clientId), ("node_scope_key", .str node.scope)]))
  | none =>
    match prepared.edges.find? (·.scope ≠ prepared.scope) with
    | some edge =>
      .error (badRequest "cross_scope_edge_not_allowed" "write batch cannot override edge scope"
        (some [("request_scope", .str prepared.scopePublic),
          ("request_scope_key", .str prepared.scope), ("edge_id", .str edge.id),
          ("edge_scope_key", .str edge.scope), ("src_id", .str edge.srcId),
          ("dst_id", .str edge.dstId)]))
    | none => .ok ()

variable (opts : ApplyWriteOptions) (t : LiteTables) (prepared : PreparedWrite)

def checkNodeScope (node : PreparedNode) : Except WriteError Unit :=
  match t.nodeFingerprint? opts.crypto node.id with
  | some existing =>
    if existing.1 ≠ node.scope then
      .error (.thrown (s!"node id collision across scopes: id={node.id} " ++
        s!"existing.scope={existing.1} requested.scope={node.scope}"))
    else .ok ()
  | none => .ok ()

/-- The scope of an end of an edge: of the batch, or else of the store. -/
def endpointScope (id : String) : Option String :=
  given (((prepared.nodes.reverse.find? (·.id = id)).map (·.scope)).or (t.nodeScope? id))

def checkEdge (edge : PreparedEdge) : Except WriteError Unit := do
  let srcScope ← orThrow (endpointScope t prepared edge.srcId)
    (.thrown s!"edge src_id not found (any scope): {edge.srcId}")
  let dstScope ← orThrow (endpointScope t prepared edge.dstId)
    (.thrown s!"edge dst_id not found (any scope): {edge.dstId}")
  if opts.allowCrossScopeEdges = false ∧ (srcScope ≠ edge.scope ∨ dstScope ≠ edge.scope) then
    .error (.thrown (s!"cross-scope edge not allowed: edge.scope={edge.scope} " ++
      s!"src.scope={srcScope} dst.scope={dstScope} " ++
      "(set ALLOW_CROSS_SCOPE_EDGES=true to override)"))
  else .ok ()

def assertDim (embedding : List ℚ) (dim : Nat) : Except WriteError Unit :=
  if embedding.length ≠ dim then
    .error (.thrown s!"embedding must be length {dim}; got {embedding.length}")
  else .ok ()

def checkEmbedding (node : PreparedNode) : Except WriteError Unit :=
  match node.embedding with
  | some embedding => assertDim embedding 1536
  | none => .ok ()

/-- The columns of a node whose embedding, if any, has the right length. -/
def plannedInsert (node : PreparedNode) : WriteNodeInsert :=
  let embedPlanned := prepared.autoEmbedEffective && node.plannedText.isSome
  { id := node.id
    scope := node.scope
    clientId := node.clientId
    type := node.type
    tier := node.tier.getD "hot"
    title := node.title
    textSummary := node.textSummary
    slots := node.slots
    rawRef := node.rawRef
    evidenceRef := node.evidenceRef
    embeddingVector := node.embedding
    embeddingModel := node.embedding.map fun _ =>
      (given (node.embeddingModel.map trim)).getD "client"
    memoryLane := node.memoryLane
    producerAgentId := node.producerAgentId
    ownerAgentId := node.ownerAgentId
    ownerTeamId := node.ownerTeamId
    embeddingStatus :=
      if node.embedding.isSome then .ready else if embedPlanned then .pending else .failed
    embeddingLastError :=
      if node.embedding.isSome || embedPlanned then none
      else if prepared.autoEmbedEffective then some "no_embed_text"
      else some "auto_embed_disabled_or_no_provider"
    salience := node.salience.getD (1 / 2)
    importance := node.importance.getD (1 / 2)
    confidence := node.confidence.getD (1 / 2)
    redactionVersion := 1 }

def planNode (node : PreparedNode) : Except WriteError (PreparedNode × WriteNodeInsert) := do
  checkEmbedding node
  return (node, plannedInsert prepared node)

def PreparedNode.allowsExistingNodeContentReuse (node : PreparedNode) : Bool :=
  node.clientId.any fun clientId =>
    "workflow_projection:".toList.isPrefixOf clientId.toList ||
      "session:".toList.isPrefixOf clientId.toList

def checkFingerprint (planned : PreparedNode × WriteNodeInsert) : Except WriteError Unit :=
  let node := planned.1
  match t.nodeFingerprint? opts.crypto node.id with
  | some existing =>
    if existing.1 = node.scope ∧ node.allowsExistingNodeContentReuse = false ∧
        existing.2 ≠ writeNodeFingerprint opts.crypto planned.2 then
      .error (.request (badRequest "duplicate_node_id_conflict"
        "node id already exists with different persisted content"
        (some [("node_id", .str node.id), ("client_id", Json.orNull node.clientId),
          ("scope", .str prepared.scopePublic), ("scope_key", .str node.scope),
          ("type", .str node.type)])))
    else .ok ()
  | none => .ok ()

/-! ## The commit -/

/-- The hash of the parent, empty without one. -/
def parentHash : Except WriteError String :=
  match given prepared.parentCommitId with
  | some parentCommitId =>
    orThrow (given (t.parentCommitHash prepared.scope parentCommitId))
      (.thrown s!"parent_commit_id not found in scope {prepared.scope}")
  | none => .ok ""

def commitHash (parentHash : String) (diff : Json) : String :=
  let crypto := opts.crypto
  crypto.sha256Hex (crypto.stableStringify (.obj [("parentHash", .str parentHash),
    ("inputSha", .str prepared.inputSha256),
    ("diffSha", .str (crypto.sha256Hex (crypto.stableStringify diff))),
    ("scope", .str prepared.scope), ("actor", .str prepared.actor),
    ("model_version", Json.orNull prepared.modelVersion),
    ("prompt_version", Json.orNull prepared.promptVersion)]))

def commitArgs (diff : Json) (commitHash : String) : WriteCommitInsertArgs where
  scope := prepared.scope
  parentCommitId := prepared.parentCommitId
  inputSha256 := prepared.inputSha256
  diff
  actor := prepared.actor
  modelVersion := prepared.modelVersion
  promptVersion := prepared.promptVersion
  commitHash

/-! ## The rows -/

/-- A string slot, trimmed, and empty when it is no string. -/
def textSlot (slots : Json.Fields) (k : String) : String :=
  match Json.get slots k with
  | some (.str s) => trim s
  | _ => ""

/-- `slots[k] ?? d`. -/
def slotOr (slots : Json.Fields) (k : String) (d : Json) : Json :=
  (Json.orElse (Json.get slots k) none).getD d

/-- The draft rule of a rule node. -/
def ruleDraft (commitId : String) (node : PreparedNode) : Except WriteError LiteRuleDefRow :=
  -- No character but an ASCII letter lowers to one of "team" or "agent".
  let scopeRaw := (textSlot node.slots "rule_scope").toLower
  let ruleScope := if scopeRaw = "team" ∨ scopeRaw = "agent" then scopeRaw else "global"
  let targetAgentId := given (some (textSlot node.slots "target_agent_id"))
  let targetTeamId := given (some (textSlot node.slots "target_team_id"))
  if ruleScope = "agent" ∧ targetAgentId = none then
    .error (.thrown "agent-scoped rule requires slots.target_agent_id")
  else if ruleScope = "team" ∧ targetTeamId = none then
    .error (.thrown "team-scoped rule requires slots.target_team_id")
  else
    .ok {
      ruleNodeId := node.id
      scope := node.scope
      state := "draft"
      ifJson := slotOr node.slots "if" (.obj [])
      thenJson := slotOr node.slots "then" (.obj [])
      exceptionsJson := slotOr node.slots "exceptions" (.arr [])
      ruleScope
      targetAgentId
      targetTeamId
      positiveCount := 0
      negativeCount := 0
      commitId
      createdAt := opts.now node.id
      updatedAt := opts.now node.id }

def insertPlanned (commitId : String) (t : LiteTables) (planned : PreparedNode × WriteNodeInsert) :
    Except WriteError LiteTables :=
  let t := t.insertNode (opts.now planned.2.id) planned.2 commitId
  if planned.1.type = "rule" then do
    let draft ← ruleDraft opts commitId planned.1
    return t.insertRuleDef draft
  else .ok t

def upsertArgs (commitId : String) (edge : PreparedEdge) : WriteEdgeUpsertArgs :=
  { toEdgeKey := edge.toEdgeKey
    id := edge.id
    weight := edge.weight.getD (1 / 2)
    confidence := edge.confidence.getD (1 / 2)
    decayRate := edge.decayRate.getD (1 / 100)
    commitId }

def upsertPrepared (commitId : String) (t : LiteTables) (edge : PreparedEdge) :
    Except WriteError LiteTables :=
  orThrow (t.upsertEdge (opts.now edge.id) (upsertArgs commitId edge))
    (.constraint "UNIQUE constraint failed: lite_memory_edges.id")

/-- The result and the tables after the commit of the transaction around the call. -/
def applyMemoryWrite : Except WriteError (WriteResult × LiteTables) := do
  (assertSingleScopeWrite prepared).mapError .request
  prepared.nodes.forM (checkNodeScope opts t)
  prepared.edges.forM (checkEdge opts t prepared)
  let planned ← prepared.nodes.mapM (planNode prepared)
  planned.forM (checkFingerprint opts t prepared)
  let diff := buildWriteDiff prepared opts.piiRedaction
  let parentHash ← parentHash t prepared
  let hash := commitHash opts prepared parentHash diff
  let commit := t.insertCommit opts.crypto (opts.now hash) (commitArgs prepared diff hash)
  let t₁ ← planned.foldlM (insertPlanned opts commit.1) commit.2
  let t₂ ← prepared.edges.foldlM (upsertPrepared opts commit.1) t₁
  let result ← (buildWriteResult prepared commit.1 hash).mapError .request
  let (result, t₃) ← enqueuePostCommitWriteArtifacts opts t₂ prepared commit.1 result
  let result ← applyShadowDualWrite opts result
  return (result, t₃)

end AionisCore.Memory
