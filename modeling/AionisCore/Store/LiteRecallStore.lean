import AionisCore.Store.RecallAccess
import AionisCore.Store.RuleStore

/-!
# Recall access of the Lite store

What a recall asks of the tables of the Lite store: the candidates near to a query, the edges
and the nodes around the seeds, and the definitions of rules.
-/

namespace AionisCore.Store

open Lib Lib.StableSort Memory

/-- What the recall store takes from the language: `Math.sqrt`, `localeCompare`, `String(v)`, and
`Number(v)` where it is finite. -/
structure RecallHost where
  sqrt : ℚ → ℚ
  localeCompare : String → String → Int
  text : Json → String
  number : Json → Option ℚ

def clampSimilarity (value : ℚ) : ℚ := max (-1) (min 1 value)

/-- `counter_evidence_open` of `resolveNodePatternPromotionSurface`. -/
def counterEvidenceOpenOf (slots : Json.Fields) : Bool :=
  match Json.field (surfaceRecord slots "promotion") "counter_evidence_open" with
  | some (.bool b) => b
  | _ => false

def adjustRecallCandidateSimilarityForTrust (slots : Json.Fields) (similarity : ℚ) : ℚ :=
  if resolveNodeAnchorKind slots ≠ some "pattern" then similarity
  else if counterEvidenceOpenOf slots then clampSimilarity (similarity - 12 / 100)
  else if resolveNodePatternState slots = some "stable" then clampSimilarity (similarity + 8 / 100)
  else clampSimilarity (similarity - 5 / 100)

section Rows

variable (n : LiteNodeRow)

/-- A missing consumer equals a missing owner. -/
def candidateVisible (consumerAgentId consumerTeamId : Option String) : Bool :=
  n.memoryLane == .sharedLane ||
    (n.memoryLane == .privateLane && n.ownerAgentId == consumerAgentId) ||
    ((given consumerTeamId).isSome && n.memoryLane == .privateLane &&
      n.ownerTeamId == consumerTeamId)

/-- `parseEmbedding` of the column, where it is not null. -/
def parseEmbedding : Option (List ℚ) := n.embeddingVector.filter (· ≠ [])

variable (host : RecallHost)

/-- `String(slots.topic_state ?? "active")`. -/
def topicStateText : String :=
  ((Json.orElse (Json.get n.slots "topic_state") none).map host.text).getD "active"

def nodeToRecallRow (includeSlots : Bool) : RecallNodeRow where
  id := n.id
  scope := n.scope
  type := n.type
  tier := n.tier
  memoryLane := n.memoryLane
  producerAgentId := n.producerAgentId
  ownerAgentId := n.ownerAgentId
  ownerTeamId := n.ownerTeamId
  title := n.title
  textSummary := n.textSummary
  slots := if includeSlots then some n.slots else none
  embeddingStatus := n.embeddingStatus
  embeddingModel := n.embeddingModel
  topicState := if n.type = "topic" then some (topicStateText n host) else none
  memberCount :=
    if n.type = "topic" then
      (Json.orElse (Json.get n.slots "member_count") none).bind host.number
    else none
  rawRef := n.rawRef
  evidenceRef := n.evidenceRef
  salience := n.salience
  importance := n.importance
  confidence := n.confidence
  createdAt := n.createdAt
  updatedAt := n.createdAt
  commitId := some n.commitId

end Rows

def LiteEdgeRow.recallRow (e : LiteEdgeRow) : RecallEdgeRow :=
  { e with commitId := some e.commitId }

def LiteRuleDefRow.recallRow (d : LiteRuleDefRow) : RecallRuleDefRow where
  ruleNodeId := d.ruleNodeId
  state := d.state
  ruleScope := d.ruleScope
  targetAgentId := d.targetAgentId
  targetTeamId := d.targetTeamId
  ifJson := .obj (parseJsonObject d.ifJson)
  thenJson := .obj (parseJsonObject d.thenJson)
  exceptionsJson := .arr (parseJsonArray d.exceptionsJson)
  positiveCount := some 0
  negativeCount := some 0

/-! ## Candidates -/

/-- `cosineDistance`, over the numbers that both vectors have. -/
def cosineDistance (host : RecallHost) (a b : List ℚ) : ℚ :=
  let pairs := a.zip b
  let dot := (pairs.map fun p => p.1 * p.2).sum
  let na := (pairs.map fun p => p.1 * p.1).sum
  let nb := (pairs.map fun p => p.2 * p.2).sum
  if na = 0 ∨ nb = 0 then 1 else 1 - dot / (host.sqrt na * host.sqrt nb)

/-- A row with its distance from the query. -/
structure RankedRow where
  row : LiteNodeRow
  distance : ℚ

namespace RankedRow

/-- The similarity that a candidate is answered with. -/
def similarity (item : RankedRow) : ℚ :=
  adjustRecallCandidateSimilarityForTrust item.row.slots (1 - item.distance)

def candidate (item : RankedRow) : RecallCandidate where
  id := item.row.id
  type := item.row.type
  title := item.row.title
  textSummary := item.row.textSummary
  tier := item.row.tier
  salience := item.row.salience
  confidence := item.row.confidence
  similarity := item.similarity

variable (host : RecallHost)

def idOrder (a b : RankedRow) : Bool := host.localeCompare a.row.id b.row.id ≤ 0

/-- By distance, then by id. -/
def nearer : RankedRow → RankedRow → Bool :=
  lex (fun a b => a.distance ≤ b.distance) (idOrder host)

/-- By adjusted similarity, then by distance, confidence and id. -/
def better : RankedRow → RankedRow → Bool :=
  lex (fun a b => b.similarity ≤ a.similarity) <|
    lex (fun a b => a.distance ≤ b.distance) <|
      lex (fun a b => b.row.confidence ≤ a.row.confidence) (idOrder host)

end RankedRow

namespace LiteTables

variable (t : LiteTables) (host : RecallHost)

/-- The rows that a query can find, with their distances. -/
def stage1Rows (params : RecallStage1Params) : List RankedRow :=
  t.nodes.filterMap fun n =>
    if n.scope = params.scope ∧ (n.tier = "hot" ∨ n.tier = "warm") ∧
        n.embeddingStatus = .ready ∧
        candidateVisible n params.consumerAgentId params.consumerTeamId then
      (parseEmbedding n).map fun e => ⟨n, cosineDistance host e params.queryEmbedding⟩
    else none

def ruleDefRow (scope ruleNodeId : String) : Option LiteRuleDefRow :=
  t.ruleDefs.find? fun d => d.scope = scope ∧ d.ruleNodeId = ruleNodeId

/-- What the filters of the candidates let through. -/
def eligible (scope : String) (n : LiteNodeRow) : Bool :=
  RECALL_TYPES.contains n.type &&
    (n.type != "procedure" || hasNodeWorkflowAnchorSurface n.slots) &&
    !archivedEpisode n.type n.slots &&
    (n.type != "topic" || topicStateText n host == "active") &&
    (n.type != "rule" || (t.ruleDefRow scope n.id).any fun d =>
      d.state == "shadow" || d.state == "active")

/-- `knn`. -/
def nearestRows (params : RecallStage1Params) : List RankedRow :=
  ((t.stage1Rows host params).mergeSort (RankedRow.nearer host)).take params.oversample.toNat

def stage1Candidates (params : RecallStage1Params) : List RecallCandidate :=
  (sliceTo params.limit (((t.nearestRows host params).filter fun item =>
    t.eligible host params.scope item.row).mergeSort (RankedRow.better host))).map
      RankedRow.candidate

/-! ## Neighbourhoods and rules -/

def stage2Edges (params : RecallStage2EdgesParams) : List RecallEdgeRow :=
  selectStage2Edges host.localeCompare (t.edges.map (·.recallRow)) params

def stage2Nodes (params : RecallStage2NodesParams) : List RecallNodeRow :=
  (t.nodes.filter fun n => n.scope = params.scope ∧ n.id ∈ params.nodeIds ∧
    candidateVisible n params.consumerAgentId params.consumerTeamId).map fun n =>
      nodeToRecallRow n host params.includeSlots

def recallRuleDefs (scope : String) (ruleIds : List String) : List RecallRuleDefRow :=
  (t.ruleDefs.filter fun d => d.scope = scope ∧ d.ruleNodeId ∈ ruleIds).map (·.recallRow)

end LiteTables

end AionisCore.Store
