import AionisCore.Store.EmbeddedRuntime
import AionisCore.Store.RecallAccess

/-!
# What the embedded runtime answers

The recall access of the runtime, and its lists of rule candidates, execution decisions and
rule feedback.
-/

namespace AionisCore.Store

open Lib Lib.JsString Memory

/-! ## Recall -/

section Cosine

variable (host : EmbeddedHost)

/-- `cosineDistance`, over the numbers that both vectors have. -/
def embeddedCosineDistance (a b : List ℚ) : ℚ :=
  let pairs := a.zip b
  if pairs = [] then 1
  else
    let dot := (pairs.map fun p => p.1 * p.2).sum
    let na := (pairs.map fun p => p.1 * p.1).sum
    let nb := (pairs.map fun p => p.2 * p.2).sum
    if na ≤ 0 ∨ nb ≤ 0 then 1
    else 1 - max (-1) (min 1 (dot / (host.sqrt na * host.sqrt nb)))

end Cosine

def EmbeddedNode.candidateVisible (n : EmbeddedNode)
    (consumerAgentId consumerTeamId : Option String) : Bool :=
  n.memoryLane == .sharedLane ||
    (given consumerAgentId).any (fun a => n.ownerAgentId == some a) ||
    (given consumerTeamId).any (fun t => n.ownerTeamId == some t)

/-- `edgeToRecallRow`. -/
def EmbeddedEdge.recallRow (e : EmbeddedEdge) : RecallEdgeRow := { e with }

/-- The topic state of slots; what is no string counts as active. -/
def embeddedTopicState (slots : Json.Fields) : String :=
  (stringField slots "topic_state").getD "active"

def EmbeddedRuleDef.recallRow (d : EmbeddedRuleDef) : RecallRuleDefRow where
  ruleNodeId := d.ruleNodeId
  state := d.state.name
  ruleScope := d.ruleScope.name
  targetAgentId := d.targetAgentId
  targetTeamId := d.targetTeamId
  ifJson := d.ifJson
  thenJson := d.thenJson
  exceptionsJson := d.exceptionsJson
  positiveCount := some d.positiveCount
  negativeCount := some d.negativeCount

namespace EmbeddedRuntime

variable (host : EmbeddedHost) (r : EmbeddedRuntime)

/-- The nodes a query can find, with their distances. -/
def stage1Nodes (params : RecallStage1Params) : List (EmbeddedNode × ℚ) :=
  r.nodes.values.filterMap fun n =>
    if n.scope = params.scope ∧ (n.tier = "hot" ∨ n.tier = "warm") ∧
        n.embeddingStatus = .ready ∧
        n.candidateVisible params.consumerAgentId params.consumerTeamId then
      n.embedding.map fun e => (n, embeddedCosineDistance host e params.queryEmbedding)
    else none

def distanceAsc (a b : EmbeddedNode × ℚ) : Bool :=
  if a.2 ≠ b.2 then a.2 < b.2 else host.localeCompare a.1.id b.1.id ≤ 0

/-- Whether a near node is a candidate. -/
def isCandidate (n : EmbeddedNode) : Bool :=
  RECALL_TYPES.contains n.type &&
    (n.type != "procedure" || hasNodeWorkflowAnchorSurface n.slots) &&
    !archivedEpisode n.type n.slots &&
    (n.type != "topic" || embeddedTopicState n.slots == "active") &&
    (n.type != "rule" || (r.ruleDefs.get n.key).any fun d =>
      d.state == .shadow || d.state == .active)

def candidateOf (item : EmbeddedNode × ℚ) : RecallCandidate where
  id := item.1.id
  type := item.1.type
  title := item.1.title
  textSummary := item.1.textSummary
  tier := item.1.tier
  salience := item.1.salience
  confidence := item.1.confidence
  similarity := 1 - item.2

/-- The loop ends after a candidate was added, so that there is at least one. -/
def stage1Candidates (params : RecallStage1Params) : List RecallCandidate :=
  let pre := (stage1Nodes host r params).mergeSort (distanceAsc host)
  let knn := pre.take params.oversample.toNat
  ((knn.filter fun item => isCandidate r item.1).map candidateOf).take (max 1 params.limit).toNat

def stage2Edges (params : RecallStage2EdgesParams) : List RecallEdgeRow :=
  selectStage2Edges host.localeCompare (r.edgesByUnique.values.map (·.recallRow)) params

/-- The row of a node. -/
def nodeRow (includeSlots : Bool) (n : EmbeddedNode) : RecallNodeRow where
  id := n.id
  scope := n.scope
  type := n.type
  tier := n.tier
  memoryLane := n.memoryLane
  producerAgentId := n.producerAgentId
  ownerAgentId := n.ownerAgentId
  ownerTeamId := n.ownerTeamId
  title := n.title
  textSummary := n.textSummary
  slots := if includeSlots then some n.slots else none
  embeddingStatus := n.embeddingStatus
  embeddingModel := n.embeddingModel
  topicState := if n.type = "topic" then some (embeddedTopicState n.slots) else none
  memberCount :=
    if n.type = "topic" then number host (Json.orElse (Json.get n.slots "member_count") none)
    else none
  rawRef := n.rawRef
  evidenceRef := n.evidenceRef
  salience := n.salience
  importance := n.importance
  confidence := n.confidence
  createdAt := n.createdAt
  updatedAt := n.updatedAt
  commitId := n.commitId

def stage2Nodes (params : RecallStage2NodesParams) : List RecallNodeRow :=
  (r.nodes.values.filter fun n => n.scope = params.scope ∧ n.id ∈ params.nodeIds ∧
    n.candidateVisible params.consumerAgentId params.consumerTeamId).map
      (nodeRow host params.includeSlots)

def getRuleDefs (scope : String) (ruleIds : List String) : List RecallRuleDefRow :=
  (r.ruleDefs.values.filter fun d => d.scope = scope ∧ d.ruleNodeId ∈ ruleIds).map (·.recallRow)

/-! ## Lists -/

structure EmbeddedRuleCandidateView where
  ruleNodeId : String
  state : RuleState
  ruleScope : RuleScope
  targetAgentId : Option String
  targetTeamId : Option String
  ruleMemoryLane : MemoryLane
  ruleOwnerAgentId : Option String
  ruleOwnerTeamId : Option String
  ifJson : Json
  thenJson : Json
  exceptionsJson : Json
  positiveCount : ℚ
  negativeCount : ℚ
  ruleCommitId : String
  ruleSummary : Option String
  ruleSlots : Json.Fields
  updatedAt : String

def ruleCandidateView (d : EmbeddedRuleDef) (node : EmbeddedNode) : EmbeddedRuleCandidateView where
  ruleNodeId := d.ruleNodeId
  state := d.state
  ruleScope := d.ruleScope
  targetAgentId := d.targetAgentId
  targetTeamId := d.targetTeamId
  ruleMemoryLane := node.memoryLane
  ruleOwnerAgentId := node.ownerAgentId
  ruleOwnerTeamId := node.ownerTeamId
  ifJson := d.ifJson
  thenJson := d.thenJson
  exceptionsJson := d.exceptionsJson
  positiveCount := d.positiveCount
  negativeCount := d.negativeCount
  ruleCommitId := (d.commitId.or node.commitId).getD ""
  ruleSummary := node.textSummary
  ruleSlots := node.slots
  updatedAt := d.updatedAt

def candidatesDesc (a b : EmbeddedRuleCandidateView) : Bool :=
  orCompare (compareCreatedAtDesc host a.updatedAt b.updatedAt)
    (host.localeCompare a.ruleNodeId b.ruleNodeId) ≤ 0

/-- The view of a definition that is asked for and has a node. -/
def allowedCandidate (scope : String) (allowed : List RuleState) (d : EmbeddedRuleDef) :
    Option EmbeddedRuleCandidateView :=
  if d.scope = scope ∧ d.state ∈ allowed ∧ (d.state = .shadow ∨ d.state = .active) then
    (r.nodes.get d.key).map (ruleCandidateView d)
  else none

/-- `states` defaults to shadow and active. -/
def listRuleCandidates (scope : String) (limit : Int) (states : List RuleState) :
    List EmbeddedRuleCandidateView :=
  let allowed := if states = [] then [.shadow, .active] else states
  let all := r.ruleDefs.values.filterMap (allowedCandidate r scope allowed)
  (all.mergeSort (candidatesDesc host)).take limit.toNat

def getExecutionDecision (scope decisionId : String) : Option EmbeddedDecision :=
  (r.executionDecisionsById.get (decisionKey scope decisionId)).map fun row =>
    { row with metadataJson := (Json.orElse (some row.metadataJson) none).getD (.obj []) }

structure InferDecisionParams where
  scope : String
  runId : Option String
  selectedTool : Option Json
  candidatesJson : Option Json
  contextSha256 : String
  nowUtc : Option String

/-- The signatures are equal when the normalised candidates are. -/
def InferDecisionParams.matches (params : InferDecisionParams) (selectedTool : String)
    (d : EmbeddedDecision) : Bool :=
  d.selectedTool = some selectedTool ∧ d.contextSha256 = params.contextSha256 ∧
    normalizeCandidates (some (.arr (d.candidatesJson.map .str))) =
      normalizeCandidates params.candidatesJson

/-- Not older than a day, if the time of the query can be read. -/
def withinDay (nowMs : Option Int) (d : EmbeddedDecision) : Bool :=
  match nowMs with
  | some nowMs => (host.dateParse d.createdAt).any fun createdMs =>
      nowMs - 24 * 60 * 60 * 1000 ≤ createdMs
  | none => true

def inferExecutionDecision (now : String) (params : InferDecisionParams) :
    Option EmbeddedDecision := do
  let selectedTool ← normalizeToolName params.selectedTool
  let all := (r.executionDecisionsById.values.filter (·.scope = params.scope)).mergeSort
    (decisionsDesc host)
  let byRun := (given params.runId).bind fun runId =>
    all.find? fun d => d.runId = some runId ∧ params.matches selectedTool d
  match byRun with
  | some d => getExecutionDecision r d.scope d.id
  | none =>
    let nowMs := host.dateParse (params.nowUtc.getD now)
    let fallback ← all.find? fun d => withinDay host nowMs d ∧ params.matches selectedTool d ∧
      ((given params.runId).isSome → d.runId = none)
    getExecutionDecision r fallback.scope fallback.id

def feedbackDesc (a b : EmbeddedRuleFeedback) : Bool :=
  orCompare (compareCreatedAtDesc host a.createdAt b.createdAt) (host.localeCompare b.id a.id) ≤ 0

def listRuleFeedback (scope : String) (limit : Int) : List EmbeddedRuleFeedback :=
  ((r.ruleFeedback.filter (·.scope = scope)).mergeSort (feedbackDesc host)).take limit.toNat

end EmbeddedRuntime

end AionisCore.Store
