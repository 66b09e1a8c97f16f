import AionisCore.Memory.Context
import AionisCore.Store.LiteRecallStore

/-!
# Recall

`memoryRecallParsed` asks a store for candidates near to a query and for what lies around them,
ranks the nodes by the activation that spreads from the candidates, and answers with a subgraph
and a context. The debug preview of embeddings, the audit row, the serialization of rows and the
packets that are made of the answer are left out.
-/

namespace AionisCore.Memory

open Lib Lib.JsString Lib.StableSort Store Util

inductive RecallEndpoint where
  | recall
  | recallText
  | planningContext
  | contextAssemble
  deriving DecidableEq, Repr

def isActionRecallEndpoint (endpoint : RecallEndpoint) : Bool :=
  endpoint == .planningContext || endpoint == .contextAssemble

/-! ## Layer policies -/

def MEMORY_LAYER_IDS : List String := ["L0", "L1", "L2", "L3", "L4", "L5"]

def defaultPolicyForEndpoint (endpoint : RecallEndpoint) (internalAllowL4Selection : Bool) :
    MemoryLayerPolicy where
  preferredLayers :=
    if internalAllowL4Selection then ["L4", "L3", "L0", "L1", "L2"] else ["L3", "L0", "L1", "L2"]
  fallbackLayers := if isActionRecallEndpoint endpoint then ["L1", "L2"] else ["L0", "L1"]
  trustAnchorLayers := if internalAllowL4Selection then ["L4", "L3", "L0"] else ["L3", "L0"]
  source := .endpointDefault

structure MemoryRecallOptions where
  stage1ExactFallbackOnEmpty : Bool := true
  unsafeAllowDropTrustAnchors : Bool := false
  unsafeApplyLayerPolicyToRetrieval : Bool := false
  internalAllowL4Selection : Bool := false

/-- `allowed` is `allowed_layers` of the preference, empty where there is none. -/
def resolveMemoryLayerPolicy (endpoint : RecallEndpoint) (allowed : List String)
    (options : MemoryRecallOptions) : MemoryLayerPolicy :=
  let base := defaultPolicyForEndpoint endpoint options.internalAllowL4Selection
  let requested := (allowed.filter (· ∈ MEMORY_LAYER_IDS)).eraseDups
  if requested = [] then base
  else
    let effective := if options.unsafeAllowDropTrustAnchors then requested
      else requested ++ base.trustAnchorLayers
    { preferredLayers := base.preferredLayers.filter (· ∈ effective)
      fallbackLayers := base.fallbackLayers.filter (· ∈ effective)
      trustAnchorLayers := if options.unsafeAllowDropTrustAnchors then
        base.trustAnchorLayers.filter (· ∈ effective) else base.trustAnchorLayers
      source := .requestOverride }

/-! ## Requests and stores -/

structure MemoryRecallInput where
  tenantId : Option String := none
  scope : Option String := none
  queryEmbedding : List ℚ
  consumerAgentId : Option String := none
  consumerTeamId : Option String := none
  limit : Nat := 30
  neighborhoodHops : Nat := 2
  returnDebug : Bool := false
  includeEmbeddings : Bool := false
  maxNodes : Nat := 50
  maxEdges : Nat := 100
  rankedLimit : Nat := 100
  minEdgeWeight : ℚ := 0
  minEdgeConfidence : ℚ := 0
  contextTokenBudget : Option Double := none
  contextCharBudget : Option Double := none
  contextCompactionProfile : Option ContextCompactionProfile := none
  allowedLayers : List String := []

/-- `parsed.consumer_agent_id?.trim() || null`. -/
def consumerId (raw : Option String) : Option String := (raw.map trim).filter (· ≠ "")

structure RecallStoreAccess where
  stage1CandidatesAnn : RecallStage1Params → List RecallCandidate
  stage1CandidatesExactFallback : RecallStage1Params → List RecallCandidate
  stage2Edges : RecallStage2EdgesParams → List RecallEdgeRow
  stage2Nodes : RecallStage2NodesParams → List RecallNodeRow
  ruleDefs : String → List String → List RecallRuleDefRow

def liteRecallAccess (host : RecallHost) (t : LiteTables) : RecallStoreAccess where
  stage1CandidatesAnn := t.stage1Candidates host
  stage1CandidatesExactFallback := t.stage1Candidates host
  stage2Edges := t.stage2Edges host
  stage2Nodes := t.stage2Nodes host
  ruleDefs := t.recallRuleDefs

inductive RecallError where
  | request (error : RequestError)
  | thrown (message : String)

def enforceHardContract (parsed : MemoryRecallInput) (allowDebugEmbeddings : Bool) :
    Except RequestError Unit :=
  if parsed.includeEmbeddings then
    if !parsed.returnDebug then
      .error (badRequest "debug_embeddings_requires_return_debug"
        "include_embeddings requires return_debug=true" none)
    else if !allowDebugEmbeddings then
      .error (badRequest "debug_embeddings_not_allowed"
        "include_embeddings requires X-Admin-Token (or localhost in dev)" none)
    else if 20 < parsed.limit then
      .error (badRequest "debug_embeddings_limit_too_high"
        "debug embeddings mode requires limit <= 20" none)
    else .ok ()
  else .ok ()

/-- `assertDim`; the numbers of a request are finite. -/
def assertQueryDim (vec : List ℚ) (dim : Nat) : Except RecallError Unit :=
  if vec.length = dim then .ok ()
  else .error (.thrown ("embedding must be length " ++ toString dim ++ "; got " ++
    toString vec.length))

/-! ## Stage 1 -/

def stage1Params (parsed : MemoryRecallInput) (scope : String) : RecallStage1Params where
  queryEmbedding := parsed.queryEmbedding
  scope := scope
  oversample := max parsed.limit (min 1000 (parsed.limit * 5))
  limit := parsed.limit
  consumerAgentId := consumerId parsed.consumerAgentId
  consumerTeamId := consumerId parsed.consumerTeamId

/-- The seeds of a recall. -/
def stage1Seeds (access : RecallStoreAccess) (exactFallbackOnEmpty : Bool)
    (params : RecallStage1Params) : List RecallCandidate :=
  let ann := access.stage1CandidatesAnn params
  if ann = [] ∧ exactFallbackOnEmpty then access.stage1CandidatesExactFallback params else ann

/-! ## Stage 2 -/

def stage2EdgesParams (parsed : MemoryRecallInput) (scope : String) (seedIds : List String) :
    RecallStage2EdgesParams :=
  let edgeFetchBudget : Int := min 1000 (max (parsed.maxEdges * 5) parsed.maxEdges)
  { seedIds := seedIds
    scope := scope
    twoHops := parsed.neighborhoodHops == 2
    minEdgeWeight := max 0 (min 1 parsed.minEdgeWeight)
    minEdgeConfidence := max 0 (min 1 parsed.minEdgeConfidence)
    hop1Budget := max 50 (min 500 edgeFetchBudget)
    hop2Budget := max 50 (min 500 edgeFetchBudget)
    edgeFetchBudget := edgeFetchBudget }

def nodeFetchBudget (parsed : MemoryRecallInput) : Nat :=
  min 800 (max (parsed.maxNodes * 4) parsed.maxNodes)

/-- `m.set(k, (m.get(k) ?? 0) + x)`. -/
def addScore (m : OrderedMap String ℚ) (k : String) (x : ℚ) : OrderedMap String ℚ :=
  m.set k ((m.get k).getD 0 + x)

def nodeScores (edges : List RecallEdgeRow) : OrderedMap String ℚ :=
  edges.foldl (fun m e => addScore (addScore m e.srcId (e.weight * e.confidence)) e.dstId
    (e.weight * e.confidence)) .empty

variable (localeCompare : String → String → Int)

/-- The seeds, and the ends of the edges as far as the budget goes. -/
def neighborhoodNodeIds (budget : Nat) (seedIds : List String) (edges : List RecallEdgeRow) :
    List String :=
  let nodeIds := (seedIds ++ edges.flatMap fun e => [e.srcId, e.dstId]).eraseDups
  if budget < nodeIds.length then
    let nodeScore := nodeScores edges
    let score (id : String) : ℚ := (nodeScore.get id).getD 0
    let scored := (nodeIds.filter (· ∉ seedIds)).mergeSort
      (StableSort.lex (fun a b => score b ≤ score a) fun a b => localeCompare a b ≤ 0)
    seedIds ++ scored.take (budget - seedIds.length)
  else nodeIds

def isDraftTopic (n : RecallNodeRow) : Bool :=
  n.type == "topic" && n.topicState.getD "active" == "draft"

/-- The seeds, the rows around them, and the edges between these rows. -/
structure Neighborhood where
  seeds : List RecallCandidate
  nodes : OrderedMap String RecallNodeRow
  edges : List RecallEdgeRow

namespace Neighborhood

/-- `retrievalLayers` are the layers that the retrieval is limited to, if it is. -/
def build (retrievalLayers : Option (List String)) (seeds : List RecallCandidate)
    (edges : List RecallEdgeRow) (rows : List RecallNodeRow) : Neighborhood :=
  let nodeMapAll := OrderedMap.ofValues (·.id) rows
  let edgesAll := edges.filter fun e => nodeMapAll.has e.srcId && nodeMapAll.has e.dstId
  match retrievalLayers with
  | none => ⟨seeds, nodeMapAll, edgesAll⟩
  | some layers =>
    let inLayers (n : RecallNodeRow) : Bool := (resolveCompressionLayer n).any (· ∈ layers)
    let filtered := nodeMapAll.filter fun id => (nodeMapAll.get id).any inLayers
    ⟨seeds.filter fun s => filtered.has s.id, filtered,
      edgesAll.filter fun e => filtered.has e.srcId && filtered.has e.dstId⟩

variable (nb : Neighborhood)

def draftTopicIds : List String := (nb.nodes.values.filter isDraftTopic).map (·.id)

def notReadyIds : List String :=
  (nb.nodes.values.filter (·.embeddingStatus ≠ .ready)).map (·.id)

def nodeMapForScoring : OrderedMap String RecallNodeRow :=
  (nb.nodes.filter (· ∉ nb.draftTopicIds)).filter (· ∉ nb.notReadyIds)

def edgesForScoringReady : List RecallEdgeRow :=
  (nb.edges.filter fun e => e.srcId ∉ nb.draftTopicIds && e.dstId ∉ nb.draftTopicIds).filter
    fun e => e.srcId ∉ nb.notReadyIds && e.dstId ∉ nb.notReadyIds

def rankedAllBase (hops : Nat) : List RankedNode :=
  spreadActivation nb.seeds nb.nodeMapForScoring nb.edgesForScoringReady hops

end Neighborhood

/-! ## Priorities of action recall -/

def isWorkflowPromotionReady (env : ScoringEnv) (promotion : Option Json.Fields) : Bool :=
  firstString [Json.field promotion "promotion_state"] == some "candidate" &&
    match (Json.field promotion "observed_count").bind env.toNumber,
      (Json.field promotion "required_observations").bind env.toNumber with
    | some observed, some required => required ≤ observed
    | _, _ => false

def actionRecallPriority (env : ScoringEnv) (node : RecallNodeRow) : Nat :=
  let slots := nodeSlots node
  match resolveNodeAnchorKind slots with
  | none =>
    if node.type = "procedure" then 4
    else if node.type = "rule" then 8
    else if node.type ∈ ["concept", "topic", "entity"] then 10
    else 12
  | some kind =>
    if kind = "workflow" then
      let promotion := resolveNodeWorkflowPromotionSurface slots
      if resolveNodeExecutionKind slots = some "workflow_candidate" ∨
          Json.textOf (Json.field promotion "promotion_state") = some "candidate" then
        if isWorkflowPromotionReady env promotion then 1 else 2
      else 0
    else if kind = "pattern" then
      if resolveNodePatternState slots = some "stable" ∧ counterEvidenceOpenOf slots = false then 3
      else 4
    else if kind = "decision" then 5
    else if kind = "execution" then 6
    else 7

def prioritizeRankedForActionRecall (env : ScoringEnv) (ranked : List RankedNode)
    (nodes : OrderedMap String RecallNodeRow) : List RankedNode :=
  let priority (r : RankedNode) : Nat := ((nodes.get r.id).map (actionRecallPriority env)).getD 99
  ranked.mergeSort (StableSort.lex (fun a b => priority a ≤ priority b) <|
    StableSort.lex (fun a b => b.score ≤ a.score) fun a b => localeCompare a.id b.id ≤ 0)

/-! ## The subgraph -/

namespace Neighborhood

variable (env : ContextEnv) (endpoint : RecallEndpoint) (nb : Neighborhood)

def rankedAll (hops : Nat) : List RankedNode :=
  let base := nb.rankedAllBase hops
  if isActionRecallEndpoint endpoint then
    prioritizeRankedForActionRecall env.localeCompare env.toScoringEnv base nb.nodes
  else base

def seedIds : List String := nb.seeds.map (·.id)

/-- One turn of the loops that collect the core. -/
def pushCore (maxNodes : Nat) (coreIds : List String) (id : String) : List String :=
  if maxNodes ≤ coreIds.length then coreIds
  else match nb.nodes.get id with
    | some n => if n.embeddingStatus = .ready ∧ id ∉ coreIds then coreIds ++ [id] else coreIds
    | none => coreIds

variable (ranked : List RankedNode)

def prioritizedCoreIds : List String :=
  if isActionRecallEndpoint endpoint then (ranked.map (·.id) ++ nb.seedIds).eraseDups
  else nb.seedIds

def coreIds (maxNodes : Nat) : List String :=
  (ranked.map (·.id)).foldl (nb.pushCore maxNodes)
    ((nb.prioritizedCoreIds endpoint ranked).foldl (nb.pushCore maxNodes) [])

/-- The draft topics that strong edges join with the core. -/
def draftScores (core : List String) : OrderedMap String ℚ :=
  nb.edges.foldl (fun m e =>
    if e.type = "part_of" ∨ e.type = "derived_from" then
      if e.srcId ∉ core ∧ e.dstId ∉ core then m
      else
        let other := if e.srcId ∈ core then e.dstId else e.srcId
        if other ∈ nb.draftTopicIds then addScore m other (e.weight * e.confidence) else m
    else m) .empty

def draftBudget (maxNodes : Nat) : Nat := min 10 (maxNodes / 5)

def draftCandidates (core : List String) : List String :=
  (((nb.draftScores core).entries.mergeSort fun a b => b.2 ≤ a.2).map (·.1)).filter fun id =>
    id ∉ core && (nb.nodes.get id).any fun n => n.embeddingStatus == .ready

/-- What a draft may take the place of, the last of the core first. -/
def removableCore (core : List String) : List String := core.reverse.filter (· ∉ nb.seedIds)

def draftsToAdd (maxNodes : Nat) (core : List String) : List String :=
  if core.length < maxNodes then
    (nb.draftCandidates core).take (min (draftBudget maxNodes) (maxNodes - core.length))
  else (nb.draftCandidates core).take (min (draftBudget maxNodes) (nb.removableCore core).length)

def outIdsOrdered (maxNodes : Nat) (core : List String) : List String :=
  let drafts := nb.draftsToAdd maxNodes core
  if core.length < maxNodes then core ++ drafts
  else
    let toRemove := (nb.removableCore core).take drafts.length
    core.filter (· ∉ toRemove) ++ drafts

def outNodeRows (outIds : List String) : List RecallNodeRow := outIds.filterMap nb.nodes.get

def outEdgeRows (maxEdges : Nat) (outIds : List String) : List RecallEdgeRow :=
  ((nb.edges.filter fun e => e.srcId ∈ outIds && e.dstId ∈ outIds).mergeSort fun a b =>
    b.weight * b.confidence ≤ a.weight * a.confidence).take maxEdges

end Neighborhood

/-! ## The recall -/

structure RecallAnswer where
  tenancy : TenantScope
  seeds : List RecallCandidate
  nodes : List RecallNodeRow
  edges : List RecallEdgeRow
  ranked : List RankedNode
  /-- Nothing is built where there are no seeds. -/
  context : Option BuiltContext
  layerPolicy : MemoryLayerPolicy

/-- What stage 2 finds around the seeds. -/
def recallNeighborhood (access : RecallStoreAccess) (parsed : MemoryRecallInput) (scope : String)
    (retrievalLayers : Option (List String)) (seeds : List RecallCandidate) : Neighborhood :=
  let seedIds := seeds.map (·.id)
  let edges := access.stage2Edges (stage2EdgesParams parsed scope seedIds)
  let rows := access.stage2Nodes {
    scope := scope
    nodeIds := neighborhoodNodeIds localeCompare (nodeFetchBudget parsed) seedIds edges
    consumerAgentId := consumerId parsed.consumerAgentId
    consumerTeamId := consumerId parsed.consumerTeamId
    includeSlots := true }
  .build retrievalLayers seeds edges rows

/-- The layers that a recall is limited to by its options. -/
def retrievalLayers (policy : MemoryLayerPolicy) (options : MemoryRecallOptions) :
    Option (List String) :=
  if options.unsafeApplyLayerPolicyToRetrieval then allowedLayers (some policy) else none

def recallContextOptions (parsed : MemoryRecallInput) (tenancy : TenantScope)
    (policy : MemoryLayerPolicy) (endpoint : RecallEndpoint) (options : MemoryRecallOptions) :
    ContextBuildOptions where
  tenantId := some tenancy.tenantId
  scope := some tenancy.scope
  contextTokenBudget := parsed.contextTokenBudget
  contextCharBudget := parsed.contextCharBudget
  contextCompactionProfile := parsed.contextCompactionProfile
  layerPolicy := some policy
  internalAllowL4Preview := options.internalAllowL4Selection && isActionRecallEndpoint endpoint

/-- The definitions of the rules of the subgraph, by their nodes. -/
def recallRuleDefMap (access : RecallStoreAccess) (scope : String) (rows : List RecallNodeRow) :
    OrderedMap String RecallRuleDefRow :=
  let ruleIds := (rows.filter (·.type = "rule")).map (·.id)
  .ofValues (·.ruleNodeId) (if ruleIds = [] then [] else access.ruleDefs scope ruleIds)

def memoryRecallParsed (env : ContextEnv) (access : RecallStoreAccess)
    (parsed : MemoryRecallInput) (defaults : TenantDefaults) (allowDebugEmbeddings : Bool)
    (endpoint : RecallEndpoint) (options : MemoryRecallOptions) :
    Except RecallError RecallAnswer := do
  let tenancy ← (resolveTenantScope ⟨parsed.tenantId, parsed.scope⟩ defaults).mapError .request
  let policy := resolveMemoryLayerPolicy endpoint parsed.allowedLayers options
  assertQueryDim parsed.queryEmbedding 1536
  (enforceHardContract parsed allowDebugEmbeddings).mapError .request
  let scope := tenancy.scopeKey
  let seeds := stage1Seeds access options.stage1ExactFallbackOnEmpty (stage1Params parsed scope)
  if seeds = [] then
    return ⟨tenancy, seeds, [], [], [], none, policy⟩
  else
    let nb := recallNeighborhood env.localeCompare access parsed scope
      (retrievalLayers policy options) seeds
    let ranked := nb.rankedAll env endpoint parsed.neighborhoodHops
    let outIds := nb.outIdsOrdered parsed.maxNodes (nb.coreIds endpoint ranked parsed.maxNodes)
    let outNodeRows := nb.outNodeRows outIds
    let context ← (buildContext env ranked nb.nodes (recallRuleDefMap access scope outNodeRows)
      (recallContextOptions parsed tenancy policy endpoint options)).mapError .request
    return {
      tenancy := tenancy
      seeds := seeds
      nodes := outNodeRows
      edges := nb.outEdgeRows parsed.maxEdges outIds
      ranked := ranked.take parsed.rankedLimit
      context := some context
      layerPolicy := policy }

end AionisCore.Memory
