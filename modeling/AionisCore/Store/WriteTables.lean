import AionisCore.Lib.Table
import AionisCore.Store.Nodes
import Mathlib.Algebra.Order.Ring.Rat

/-!
# The tables of a memory write

All columns of the tables that a memory write touches, with their unique
constraints, and the statements of the write access. `slots_json`, `diff_json` and
the other JSON columns are the values their texts denote.
-/

namespace AionisCore.Store

open Lib Lib.Table Util

inductive EmbeddingStatus where
  | pending
  | ready
  | failed
  deriving DecidableEq, Repr

/-- A row of `lite_memory_nodes` with the columns that only writes use. -/
structure LiteNodeRow extends LiteNode where
  embeddingVector : Option (List ℚ) := none
  embeddingModel : Option String := none
  embeddingStatus : EmbeddingStatus := .failed
  embeddingLastError : Option String := none
  redactionVersion : Nat := 1

/-- A node to insert: a row without its commit and its time. -/
structure WriteNodeInsert where
  id : String
  scope : String
  clientId : Option String
  type : String
  tier : String
  title : Option String
  textSummary : Option String
  slots : Json.Fields
  rawRef : Option String
  evidenceRef : Option String
  embeddingVector : Option (List ℚ)
  embeddingModel : Option String
  memoryLane : MemoryLane
  producerAgentId : Option String
  ownerAgentId : Option String
  ownerTeamId : Option String
  embeddingStatus : EmbeddingStatus
  embeddingLastError : Option String
  salience : ℚ
  importance : ℚ
  confidence : ℚ
  redactionVersion : Nat

def WriteNodeInsert.row (a : WriteNodeInsert) (commitId createdAt : String) : LiteNodeRow :=
  { a with commitId, createdAt }

/-- What `nodeFingerprintsByIds` reads of a row. -/
def LiteNodeRow.insertArgs (row : LiteNodeRow) : WriteNodeInsert := { row with }

def MemoryLane.name : MemoryLane → String
  | .privateLane => "private"
  | .sharedLane => "shared"

/-- The content of a node that a second write of its id must repeat. -/
def writeNodeFingerprint (crypto : Crypto) (a : WriteNodeInsert) : String :=
  crypto.sha256Hex (crypto.stableStringify (.obj [
    ("id", .str a.id), ("scope", .str a.scope), ("clientId", Json.orNull a.clientId),
    ("type", .str a.type), ("tier", .str a.tier), ("title", Json.orNull a.title),
    ("textSummary", Json.orNull a.textSummary), ("slots", .obj a.slots),
    ("rawRef", Json.orNull a.rawRef), ("evidenceRef", Json.orNull a.evidenceRef),
    ("memoryLane", .str a.memoryLane.name),
    ("producerAgentId", Json.orNull a.producerAgentId),
    ("ownerAgentId", Json.orNull a.ownerAgentId), ("ownerTeamId", Json.orNull a.ownerTeamId),
    ("salience", .num a.salience), ("importance", .num a.importance),
    ("confidence", .num a.confidence), ("redactionVersion", .num a.redactionVersion)]))

structure LiteCommitRow where
  id : String
  scope : String
  parentCommitId : Option String
  inputSha256 : String
  diff : Json
  actor : String
  modelVersion : Option String
  promptVersion : Option String
  commitHash : String
  createdAt : String

/-- The columns of the unique index on edges. -/
@[ext]
structure EdgeKey where
  scope : String
  type : String
  srcId : String
  dstId : String
  deriving DecidableEq, Repr

structure LiteEdgeRow extends EdgeKey where
  id : String
  weight : ℚ
  confidence : ℚ
  decayRate : ℚ
  commitId : String
  createdAt : String
  deriving DecidableEq, Repr

structure LiteRuleDefRow where
  ruleNodeId : String
  scope : String
  state : String
  ifJson : Json
  thenJson : Json
  exceptionsJson : Json
  ruleScope : String
  targetAgentId : Option String
  targetTeamId : Option String
  positiveCount : Nat
  negativeCount : Nat
  commitId : String
  createdAt : String
  updatedAt : String

structure LiteOutboxRow where
  scope : String
  commitId : String
  eventType : String
  jobKey : String
  payloadSha256 : String
  payload : Json.Fields
  createdAt : String

structure LiteTables where
  nodes : List LiteNodeRow
  commits : List LiteCommitRow
  edges : List LiteEdgeRow
  ruleDefs : List LiteRuleDefRow
  outbox : List LiteOutboxRow
  nodeIds : Unique (·.id) nodes
  commitIds : Unique (·.id) commits
  commitHashes : Unique (·.commitHash) commits
  edgeIds : Unique (·.id) edges
  edgeKeys : Unique (·.toEdgeKey) edges

namespace LiteTables

/-- `createLiteWriteStore` on a fresh path. -/
def empty : LiteTables where
  nodes := []
  commits := []
  edges := []
  ruleDefs := []
  outbox := []
  nodeIds := .nil
  commitIds := .nil
  commitHashes := .nil
  edgeIds := .nil
  edgeKeys := .nil

/-! ## Reads of a write -/

variable (t : LiteTables)

/-- `nodeScopesByIds` for one id. -/
def nodeScope? (id : String) : Option String := (row? (·.id) t.nodes id).map (·.scope)

/-- `nodeFingerprintsByIds` for one id: the scope and the fingerprint. -/
def nodeFingerprint? (crypto : Crypto) (id : String) : Option (String × String) :=
  (row? (·.id) t.nodes id).map fun row => (row.scope, writeNodeFingerprint crypto row.insertArgs)

def parentCommitHash (scope parentCommitId : String) : Option String :=
  (t.commits.find? fun c => c.scope = scope ∧ c.id = parentCommitId).map (·.commitHash)

/-- `readyEmbeddingNodeIds` for one id. -/
def readyEmbedding (scope id : String) : Bool :=
  t.nodes.any fun n => n.scope = scope ∧ n.id = id ∧ n.embeddingStatus = .ready ∧
    n.embeddingVector.isSome

end LiteTables

/-! ## Statements -/

structure WriteCommitInsertArgs where
  scope : String
  parentCommitId : Option String
  inputSha256 : String
  diff : Json
  actor : String
  modelVersion : Option String
  promptVersion : Option String
  commitHash : String

def WriteCommitInsertArgs.row (a : WriteCommitInsertArgs) (id createdAt : String) :
    LiteCommitRow := { a with id, createdAt }

structure WriteEdgeUpsertArgs extends EdgeKey where
  id : String
  weight : ℚ
  confidence : ℚ
  decayRate : ℚ
  commitId : String

namespace LiteTables

/-- The id of the commit, and the tables: a known hash keeps its commit, and a taken id is
ignored. -/
def insertCommit (t : LiteTables) (crypto : Crypto) (now : String) (a : WriteCommitInsertArgs) :
    String × LiteTables :=
  match hash : row? (·.commitHash) t.commits a.commitHash with
  | some existing => (existing.id, t)
  | none =>
    let id := crypto.stableUuid s!"lite:commit:{a.commitHash}"
    (id, { t with
      commits := insertOrIgnore (·.id) t.commits (a.row id now)
      commitIds := t.commitIds.insertOrIgnore
      commitHashes := t.commitHashes.insertOrIgnore_of_fresh (row?_eq_none.1 hash) })

section InsertCommit

variable {t : LiteTables} {crypto : Crypto} {now : String} {a : WriteCommitInsertArgs}

theorem insertCommit_of_known {c : LiteCommitRow}
    (h : row? (·.commitHash) t.commits a.commitHash = some c) :
    t.insertCommit crypto now a = (c.id, t) := by
  unfold insertCommit
  split
  · next c' hc' =>
    obtain rfl := Option.some.inj (hc'.symm.trans h)
    rfl
  · next hnone =>
    rw [hnone] at h
    cases h

theorem insertCommit_of_new (h : row? (·.commitHash) t.commits a.commitHash = none) :
    (t.insertCommit crypto now a).1 = crypto.stableUuid s!"lite:commit:{a.commitHash}" ∧
      (t.insertCommit crypto now a).2.commits = insertOrIgnore (·.id) t.commits
        (a.row (crypto.stableUuid s!"lite:commit:{a.commitHash}") now) := by
  unfold insertCommit
  split
  · next c hc =>
    rw [hc] at h
    cases h
  · exact ⟨rfl, rfl⟩

theorem insertCommit_frame (t : LiteTables) (crypto : Crypto) (now : String)
    (a : WriteCommitInsertArgs) :
    (t.insertCommit crypto now a).2.nodes = t.nodes ∧
      (t.insertCommit crypto now a).2.edges = t.edges := by
  unfold insertCommit
  split
  · exact ⟨rfl, rfl⟩
  · exact ⟨rfl, rfl⟩

theorem mem_insertCommit {c : LiteCommitRow} (h : c ∈ (t.insertCommit crypto now a).2.commits) :
    c ∈ t.commits ∨ c = a.row (t.insertCommit crypto now a).1 now := by
  cases hrow : row? (·.commitHash) t.commits a.commitHash with
  | some known =>
    rw [insertCommit_of_known hrow] at h
    exact .inl h
  | none =>
    obtain ⟨hid, hcommits⟩ := @insertCommit_of_new t crypto now a hrow
    rw [hcommits] at h
    rw [hid]
    exact (mem_insertOrIgnore.1 h).imp_right And.left

end InsertCommit

def insertNode (t : LiteTables) (now : String) (a : WriteNodeInsert) (commitId : String) :
    LiteTables :=
  { t with
    nodes := insertOrIgnore (·.id) t.nodes (a.row commitId now)
    nodeIds := t.nodeIds.insertOrIgnore }

def insertRuleDef (t : LiteTables) (row : LiteRuleDefRow) : LiteTables :=
  { t with ruleDefs := insertOrIgnore (·.ruleNodeId) t.ruleDefs row }

/-- What a row of the same scope, type and ends becomes. -/
def mergeEdge (a : WriteEdgeUpsertArgs) (row : LiteEdgeRow) : LiteEdgeRow :=
  if row.toEdgeKey = a.toEdgeKey then
    { row with
      weight := max row.weight a.weight
      confidence := max row.confidence a.confidence
      commitId := a.commitId }
  else row

theorem mergeEdge_id (a : WriteEdgeUpsertArgs) (row : LiteEdgeRow) :
    (mergeEdge a row).id = row.id := by
  unfold mergeEdge
  split <;> rfl

theorem mergeEdge_key (a : WriteEdgeUpsertArgs) (row : LiteEdgeRow) :
    (mergeEdge a row).toEdgeKey = row.toEdgeKey := by
  unfold mergeEdge
  split <;> rfl

/-- `INSERT … ON CONFLICT(scope, type, src_id, dst_id) DO UPDATE`. A taken id is a
violation of the primary key, unless the update applies. -/
def upsertEdge (t : LiteTables) (now : String) (a : WriteEdgeUpsertArgs) : Option LiteTables :=
  match hkey : row? (·.toEdgeKey) t.edges a.toEdgeKey with
  | some _ =>
    some { t with
      edges := t.edges.map (mergeEdge a)
      edgeIds := t.edgeIds.map (mergeEdge_id a)
      edgeKeys := t.edgeKeys.map (mergeEdge_key a) }
  | none =>
    if hid : ∀ row ∈ t.edges, row.id ≠ a.id then
      some { t with
        edges := t.edges ++ [{
          toEdgeKey := a.toEdgeKey
          id := a.id
          weight := a.weight
          confidence := a.confidence
          decayRate := a.decayRate
          commitId := a.commitId
          createdAt := now }]
        edgeIds := t.edgeIds.concat hid
        edgeKeys := t.edgeKeys.concat (row?_eq_none.1 hkey) }
    else none

def insertOutboxEvent (t : LiteTables) (row : LiteOutboxRow) : LiteTables :=
  { t with
    outbox := insertOrIgnore (fun r => (r.scope, r.eventType, r.jobKey)) t.outbox row }

/-- One row of `appendAfterTopicClusterEventIds`. -/
def appendEventIds (scope commitId : String) (eventIds : List String) (row : LiteOutboxRow) :
    LiteOutboxRow :=
  if row.scope = scope ∧ row.commitId = commitId ∧ row.eventType = "embed_nodes" then
    let current :=
      (Json.asArray (Json.get row.payload "after_topic_cluster_event_ids")).getD []
    let merged := (current ++ eventIds.map Json.str).eraseDups
    { row with payload := Json.set row.payload "after_topic_cluster_event_ids" (.arr merged) }
  else row

def appendAfterTopicClusterEventIds (t : LiteTables) (scope commitId : String)
    (eventIds : List String) : LiteTables :=
  { t with outbox := t.outbox.map (appendEventIds scope commitId eventIds) }

/-- The `UPDATE` of `updateNodeAnchorState` on one row. -/
def anchorUpdate (u : NodeAnchorUpdate) (row : LiteNodeRow) : LiteNodeRow :=
  { row with toLiteNode := u.on row.toLiteNode }

theorem anchorUpdate_key (u : NodeAnchorUpdate) (row : LiteNodeRow) :
    (anchorUpdate u row).toNodeKey = row.toNodeKey := u.on_toNodeKey row.toLiteNode

def updateNodeAnchorState (t : LiteTables) (u : NodeAnchorUpdate) : LiteTables :=
  { t with
    nodes := t.nodes.map (anchorUpdate u)
    nodeIds := t.nodeIds.map fun row => congrArg NodeKey.id (anchorUpdate_key u row) }

end LiteTables

end AionisCore.Store
