import AionisCore.Lib.OrderedMap
import AionisCore.Memory.NodeExecutionSurface
import AionisCore.Store.WriteTables

/-!
# Recall access

What a recall asks of a store, and the rows that a store answers with. The column
`last_activated` is left out, which both stores here leave null.
-/

namespace AionisCore.Store

open Lib Memory

structure RecallCandidate where
  id : String
  type : String
  title : Option String
  textSummary : Option String
  tier : String
  salience : ℚ
  confidence : ℚ
  similarity : ℚ
  deriving DecidableEq, Repr

structure RecallStage1Params where
  queryEmbedding : List ℚ
  scope : String
  oversample : Int
  limit : Int
  consumerAgentId : Option String
  consumerTeamId : Option String

structure RecallEdgeRow extends EdgeKey where
  id : String
  weight : ℚ
  confidence : ℚ
  decayRate : ℚ
  createdAt : String
  commitId : Option String
  deriving DecidableEq, Repr

structure RecallNodeRow where
  id : String
  scope : String
  type : String
  tier : String
  memoryLane : MemoryLane
  producerAgentId : Option String
  ownerAgentId : Option String
  ownerTeamId : Option String
  title : Option String
  textSummary : Option String
  slots : Option Json.Fields
  embeddingStatus : EmbeddingStatus
  embeddingModel : Option String
  topicState : Option String
  memberCount : Option ℚ
  rawRef : Option String
  evidenceRef : Option String
  salience : ℚ
  importance : ℚ
  confidence : ℚ
  createdAt : String
  updatedAt : String
  commitId : Option String

structure RecallStage2EdgesParams where
  seedIds : List String
  scope : String
  /-- `neighborhoodHops` is 2. -/
  twoHops : Bool
  minEdgeWeight : ℚ
  minEdgeConfidence : ℚ
  hop1Budget : Int
  hop2Budget : Int
  edgeFetchBudget : Int

structure RecallStage2NodesParams where
  scope : String
  nodeIds : List String
  consumerAgentId : Option String
  consumerTeamId : Option String
  includeSlots : Bool

structure RecallRuleDefRow where
  ruleNodeId : String
  state : String
  ruleScope : String
  targetAgentId : Option String
  targetTeamId : Option String
  ifJson : Json
  thenJson : Json
  exceptionsJson : Json
  positiveCount : Option ℚ
  negativeCount : Option ℚ

/-- `xs.slice(0, n)`: a negative `n` counts from the end. -/
def sliceTo {α : Type} (n : Int) (xs : List α) : List α :=
  if 0 ≤ n then xs.take n.toNat else xs.take (xs.length - (-n).toNat)

/-- `String(v) === word`, for a word that is no number and not empty, and has no comma. -/
def printsAs (word : String) : Json → Bool
  | .str s => s == word
  | .bool b => (if b then "true" else "false") == word
  | .arr [x] => printsAs word x
  | _ => false

/-- `String(slots[k] ?? d) === word`. -/
def slotPrintsAs (slots : Json.Fields) (k d word : String) : Bool :=
  match Json.orElse (Json.get slots k) none with
  | some v => printsAs word v
  | none => d == word

def RECALL_TYPES : List String := ["event", "topic", "concept", "entity", "rule", "procedure"]

/-- An archived episode of replay learning. -/
def archivedEpisode (type : String) (slots : Json.Fields) : Bool :=
  (type == "event" || type == "evidence") &&
    slotPrintsAs slots "replay_learning_episode" "false" "true" &&
    slotPrintsAs slots "lifecycle_state" "active" "archived"

/-! ## Edges

Both stores hold edges with the columns of a recall row, and select from them alike. -/

section Edges

variable (localeCompare : String → String → Int)

/-- `edgeSortDesc` is not positive. -/
def edgeSortDesc (a b : RecallEdgeRow) : Bool :=
  if b.weight ≠ a.weight then b.weight < a.weight
  else if b.confidence ≠ a.confidence then b.confidence < a.confidence
  else localeCompare a.id b.id ≤ 0

/-- The best edges that leave the ids and the best that reach them, each edge once. -/
def selectHop (rows : List RecallEdgeRow) (ids : List String) (budget : Int) :
    List RecallEdgeRow :=
  let fromSrc := sliceTo budget ((rows.filter fun e => e.srcId ∈ ids).mergeSort
    (edgeSortDesc localeCompare))
  let fromDst := sliceTo budget ((rows.filter fun e => e.dstId ∈ ids).mergeSort
    (edgeSortDesc localeCompare))
  (OrderedMap.ofValues (·.id) (fromSrc ++ fromDst)).values.mergeSort (edgeSortDesc localeCompare)

/-- `stage2Edges` on the edges of the store. -/
def selectStage2Edges (edges : List RecallEdgeRow) (params : RecallStage2EdgesParams) :
    List RecallEdgeRow :=
  let rows := edges.filter fun e => e.scope = params.scope ∧ params.minEdgeWeight ≤ e.weight ∧
    params.minEdgeConfidence ≤ e.confidence
  let hop1 := selectHop localeCompare rows params.seedIds params.hop1Budget
  if params.twoHops then
    let hopNodes := params.seedIds ++ hop1.flatMap fun e => [e.srcId, e.dstId]
    sliceTo params.edgeFetchBudget (selectHop localeCompare rows hopNodes params.hop2Budget)
  else sliceTo params.edgeFetchBudget hop1

end Edges

end AionisCore.Store
