import AionisCore.Store.EmbeddedRuntime

/-!
# The snapshot of the embedded runtime

`buildSnapshot` copies the records, `compactSnapshot` cuts them down to the size limit, and
`loadSnapshot` fills a runtime with what was saved. Nodes, edges and audit rows are loaded as
they are; the fields of the other records are read and normalised one by one.
-/

namespace AionisCore.Store

open Lib Lib.JsString Memory

/-- `EmbeddedSnapshotV1`. -/
structure Snapshot where
  nodes : List EmbeddedNode
  edges : List EmbeddedEdge
  ruleDefs : List EmbeddedRuleDef
  audit : List EmbeddedAuditRow
  executionDecisions : List EmbeddedDecision
  ruleFeedback : List EmbeddedRuleFeedback

def EmbeddedRuntime.buildSnapshot (host : EmbeddedHost) (r : EmbeddedRuntime) : Snapshot where
  nodes := r.nodes.values
  edges := r.edgesByUnique.values
  ruleDefs := r.ruleDefs.values
  audit := lastOf 5000 r.audit
  executionDecisions :=
    lastOf 10000 (r.executionDecisionsById.values.mergeSort (decisionsAsc host))
  ruleFeedback := lastOf 20000 r.ruleFeedback

/-! ## Compaction -/

structure SnapshotOptions where
  snapshotMaxBytes : Nat
  snapshotStrictMaxBytes : Bool
  snapshotCompactionEnabled : Bool
  snapshotCompactionMaxRounds : Nat
  /-- `JSON.stringify`. -/
  stringify : Snapshot → String

structure CompactionReport where
  applied : Bool := false
  rounds : Nat := 0
  trimmedPayloadNodes : Nat := 0
  droppedAudit : Nat := 0
  droppedNodes : Nat := 0
  droppedEdges : Nat := 0
  droppedRuleDefs : Nat := 0
  deriving DecidableEq, Repr

/-- The snapshot so far, its size in bytes and the report. -/
structure Compaction where
  snapshot : Snapshot
  bytes : Nat
  report : CompactionReport := {}

section Compaction

variable (host : EmbeddedHost)

def compactionTierWeight (tier : String) : ℚ :=
  if tier = "hot" then 3 else if tier = "warm" then 2 else if tier = "cold" then 1 else 0

/-- A time on the scale of days. -/
def recencyDays (time : String) : ℚ := (((host.dateParse time).getD 0 : Int) : ℚ) / 86400000000

def nodeCompactionScore (n : EmbeddedNode) : ℚ :=
  compactionTierWeight n.tier * 10 + (if n.type = "rule" then 8 else 0) +
    (n.salience + n.importance + n.confidence) + recencyDays host n.updatedAt

def edgeCompactionScore (e : EmbeddedEdge) : ℚ :=
  (e.weight + e.confidence) + recencyDays host e.createdAt

def lowestNodeFirst (a b : EmbeddedNode) : Bool :=
  if nodeCompactionScore host a ≠ nodeCompactionScore host b then
    nodeCompactionScore host a < nodeCompactionScore host b
  else host.localeCompare a.id b.id ≤ 0

def lowestEdgeFirst (a b : EmbeddedEdge) : Bool :=
  if edgeCompactionScore host a ≠ edgeCompactionScore host b then
    edgeCompactionScore host a < edgeCompactionScore host b
  else host.localeCompare a.id b.id ≤ 0

def trimmedSummary (summary : Option String) : Option String :=
  summary.map fun s => if 384 < JsString.length s then JsString.take 381 s ++ "..." else s

/-- Whether a node of the tiers has a payload to trim. -/
def payloadTrims (tiers : List String) (n : EmbeddedNode) : Bool :=
  tiers.contains n.tier && n.type != "rule" &&
    (!n.slots.isEmpty || (given n.rawRef).isSome || (given n.evidenceRef).isSome ||
      trimmedSummary n.textSummary != n.textSummary)

def trimmedNode (n : EmbeddedNode) : EmbeddedNode :=
  { n with
    slots := []
    rawRef := none
    evidenceRef := none
    textSummary := trimmedSummary n.textSummary }

/-- The snapshot, and how many nodes were trimmed. -/
def trimNodePayload (tiers : List String) (s : Snapshot) : Snapshot × Nat :=
  ({ s with nodes := s.nodes.map fun n => if payloadTrims tiers n then trimmedNode n else n },
    s.nodes.countP (payloadTrims tiers))

def pruneLowestValueEdges (s : Snapshot) : Snapshot × Nat :=
  if s.edges = [] then (s, 0)
  else
    let drop := max 1 (host.ceilFifth s.edges.length)
    let dropKeys := ((s.edges.mergeSort (lowestEdgeFirst host)).take drop).map (·.key)
    let edges := s.edges.filter fun e => e.key ∉ dropKeys
    ({ s with edges }, s.edges.length - edges.length)

structure DroppedNodes where
  nodes : Nat := 0
  edges : Nat := 0
  ruleDefs : Nat := 0

/-- The nodes of least value go, with the edges and rule definitions that name them. -/
def pruneLowestValueNodes (s : Snapshot) : Snapshot × DroppedNodes :=
  if s.nodes = [] then (s, {})
  else
    let drop := max 1 (host.ceilTenth s.nodes.length)
    let dropNodeKeys := ((s.nodes.mergeSort (lowestNodeFirst host)).take drop).map (·.key)
    let nodes := s.nodes.filter fun n => n.key ∉ dropNodeKeys
    let edges := s.edges.filter fun e =>
      nodeKey e.scope e.srcId ∉ dropNodeKeys ∧ nodeKey e.scope e.dstId ∉ dropNodeKeys
    let ruleDefs := s.ruleDefs.filter fun r => r.key ∉ dropNodeKeys
    ({ s with nodes, edges, ruleDefs },
      { nodes := s.nodes.length - nodes.length
        edges := s.edges.length - edges.length
        ruleDefs := s.ruleDefs.length - ruleDefs.length })

variable (opts : SnapshotOptions)

def snapshotByteSize (s : Snapshot) : Nat := (opts.stringify s).utf8ByteSize

def auditPass (c : Compaction) : Compaction :=
  if 200 < c.snapshot.audit.length then
    let nextAudit := lastOf 200 c.snapshot.audit
    let snapshot := { c.snapshot with audit := nextAudit }
    { snapshot
      bytes := snapshotByteSize opts snapshot
      report := { c.report with
        droppedAudit := c.report.droppedAudit + (c.snapshot.audit.length - nextAudit.length) } }
  else c

def payloadPass (c : Compaction) (tiers : List String) : Compaction :=
  if c.bytes ≤ opts.snapshotMaxBytes then c
  else
    let trimmed := trimNodePayload tiers c.snapshot
    if 0 < trimmed.2 then
      { snapshot := trimmed.1
        bytes := snapshotByteSize opts trimmed.1
        report := { c.report with
          trimmedPayloadNodes := c.report.trimmedPayloadNodes + trimmed.2 } }
    else c

/-- The rounds that are left, while the snapshot is over the limit. -/
def pruneRounds : Nat → Compaction → Compaction
  | 0, c => c
  | rounds + 1, c =>
    if c.bytes ≤ opts.snapshotMaxBytes then c
    else
      let pruned := pruneLowestValueEdges host c.snapshot
      let c : Compaction := {
        snapshot := pruned.1
        bytes := snapshotByteSize opts pruned.1
        report := { c.report with
          rounds := c.report.rounds + 1
          droppedEdges := c.report.droppedEdges + pruned.2 } }
      if c.bytes ≤ opts.snapshotMaxBytes then c
      else
        let dropped := pruneLowestValueNodes host c.snapshot
        let c : Compaction := {
          snapshot := dropped.1
          bytes := snapshotByteSize opts dropped.1
          report := { c.report with
            droppedNodes := c.report.droppedNodes + dropped.2.nodes
            droppedEdges := c.report.droppedEdges + dropped.2.edges
            droppedRuleDefs := c.report.droppedRuleDefs + dropped.2.ruleDefs } }
        if pruned.2 = 0 ∧ dropped.2.nodes = 0 then c else pruneRounds rounds c

/-- `compactSnapshot`; its body is the text of the snapshot. -/
def compactSnapshot (s : Snapshot) : Compaction :=
  let c : Compaction := { snapshot := s, bytes := snapshotByteSize opts s }
  if c.bytes ≤ opts.snapshotMaxBytes then c
  else
    let c := auditPass opts { c with report := { c.report with applied := true } }
    if c.bytes ≤ opts.snapshotMaxBytes ∨ opts.snapshotCompactionEnabled = false then c
    else
      let c := [["archive", "cold"], ["warm"], ["hot"]].foldl (payloadPass opts) c
      if c.bytes ≤ opts.snapshotMaxBytes ∨ opts.snapshotStrictMaxBytes = true then c
      else pruneRounds host opts opts.snapshotCompactionMaxRounds c

/-- The snapshot that `persistSnapshot` saves; in strict mode it fails over the limit. -/
def EmbeddedRuntime.saved (r : EmbeddedRuntime) : Option Snapshot :=
  let compacted := compactSnapshot host opts (r.buildSnapshot host)
  if opts.snapshotMaxBytes < compacted.bytes ∧ opts.snapshotStrictMaxBytes = true then none
  else some compacted.snapshot

end Compaction

/-! ## The records in JSON -/

def EmbeddedRuleDef.json (r : EmbeddedRuleDef) : Json.Fields :=
  [("scope", .str r.scope), ("rule_node_id", .str r.ruleNodeId), ("state", .str r.state.name),
    ("rule_scope", .str r.ruleScope.name), ("target_agent_id", Json.orNull r.targetAgentId),
    ("target_team_id", Json.orNull r.targetTeamId), ("if_json", r.ifJson),
    ("then_json", r.thenJson), ("exceptions_json", r.exceptionsJson),
    ("positive_count", .num r.positiveCount), ("negative_count", .num r.negativeCount),
    ("commit_id", Json.orNull r.commitId), ("updated_at", .str r.updatedAt)]

def EmbeddedDecision.json (d : EmbeddedDecision) : Json.Fields :=
  [("id", .str d.id), ("scope", .str d.scope), ("decision_kind", .str "tools_select"),
    ("run_id", Json.orNull d.runId), ("selected_tool", Json.orNull d.selectedTool),
    ("candidates_json", .arr (d.candidatesJson.map .str)),
    ("context_sha256", .str d.contextSha256), ("policy_sha256", .str d.policySha256),
    ("source_rule_ids", .arr (d.sourceRuleIds.map .str)), ("metadata_json", d.metadataJson),
    ("created_at", .str d.createdAt), ("commit_id", Json.orNull d.commitId)]

def EmbeddedRuleFeedback.json (f : EmbeddedRuleFeedback) : Json.Fields :=
  [("id", .str f.id), ("scope", .str f.scope), ("rule_node_id", .str f.ruleNodeId),
    ("run_id", Json.orNull f.runId), ("outcome", .str f.outcome.name),
    ("note", Json.orNull f.note), ("source", .str f.source.name),
    ("decision_id", Json.orNull f.decisionId), ("commit_id", Json.orNull f.commitId),
    ("created_at", .str f.createdAt)]

/-- What `JSON.parse` returns for a saved snapshot. -/
structure ParsedSnapshot where
  nodes : List EmbeddedNode
  edges : List EmbeddedEdge
  ruleDefs : List Json.Fields
  audit : List EmbeddedAuditRow
  executionDecisions : List Json.Fields
  ruleFeedback : List Json.Fields

def Snapshot.parsed (s : Snapshot) : ParsedSnapshot where
  nodes := s.nodes
  edges := s.edges
  ruleDefs := s.ruleDefs.map (·.json)
  audit := s.audit
  executionDecisions := s.executionDecisions.map (·.json)
  ruleFeedback := s.ruleFeedback.map (·.json)

/-! ## Loading -/

section Load

variable (host : EmbeddedHost) (now : String)

/-- A rule definition as it is read, with a fallback for its commit and its time. -/
def loadedRuleDef (linkedNode : Option EmbeddedNode) (row : Json.Fields) : EmbeddedRuleDef where
  scope := (stringField row "scope").getD ""
  ruleNodeId := (stringField row "rule_node_id").getD ""
  state := normalizeRuleState (Json.get row "state")
  ruleScope := normalizeRuleScope (Json.get row "rule_scope")
  targetAgentId := stringField row "target_agent_id"
  targetTeamId := stringField row "target_team_id"
  ifJson := EmbeddedRuntime.slotOrElse row "if_json" (.obj [])
  thenJson := EmbeddedRuntime.slotOrElse row "then_json" (.obj [])
  exceptionsJson := .arr ((Json.asArray (Json.get row "exceptions_json")).getD [])
  positiveCount := count host (Json.get row "positive_count")
  negativeCount := count host (Json.get row "negative_count")
  commitId := (filledField row "commit_id").or (linkedNode.bind (·.commitId))
  updatedAt := normalizeIso host (Json.get row "updated_at")
    ((linkedNode.map (·.updatedAt)).getD now)

def loadRuleDef (nodes : OrderedMap String EmbeddedNode)
    (ruleDefs : OrderedMap String EmbeddedRuleDef) (row : Json.Fields) :
    OrderedMap String EmbeddedRuleDef :=
  let key := nodeKey ((stringField row "scope").getD "") ((stringField row "rule_node_id").getD "")
  ruleDefs.set key (loadedRuleDef host now (nodes.get key) row)

def loadedDecision (scope id : String) (row : Json.Fields) : EmbeddedDecision where
  id
  scope
  runId := stringField row "run_id"
  selectedTool := normalizeToolName (Json.get row "selected_tool")
  candidatesJson := normalizeCandidates (Json.get row "candidates_json")
  contextSha256 := (stringField row "context_sha256").getD ""
  policySha256 := (stringField row "policy_sha256").getD ""
  sourceRuleIds := stringItems (Json.get row "source_rule_ids")
  metadataJson := EmbeddedRuntime.slotOrElse row "metadata_json" (.obj [])
  createdAt := normalizeIso host (Json.get row "created_at") now
  commitId := stringField row "commit_id"

def loadDecision (decisions : OrderedMap String EmbeddedDecision) (row : Json.Fields) :
    OrderedMap String EmbeddedDecision :=
  match given (stringField row "scope"), given (stringField row "id") with
  | some scope, some id =>
    decisions.set (decisionKey scope id) (loadedDecision host now scope id row)
  | _, _ => decisions

def loadedFeedback (row : Json.Fields) : Option EmbeddedRuleFeedback := do
  let scope ← given (stringField row "scope")
  let id ← given (stringField row "id")
  let ruleNodeId ← given (stringField row "rule_node_id")
  return {
    id
    scope
    ruleNodeId
    runId := stringField row "run_id"
    outcome := normalizeRuleOutcome (Json.get row "outcome")
    note := stringField row "note"
    source := normalizeRuleSource (Json.get row "source")
    decisionId := stringField row "decision_id"
    commitId := stringField row "commit_id"
    createdAt := normalizeIso host (Json.get row "created_at") now }

def loadSnapshot (parsed : ParsedSnapshot) : EmbeddedRuntime :=
  let nodes := OrderedMap.ofValues EmbeddedNode.key parsed.nodes
  { nodes
    edgesByUnique := OrderedMap.ofValues EmbeddedEdge.key parsed.edges
    ruleDefs := parsed.ruleDefs.foldl (loadRuleDef host now nodes) .empty
    audit := lastOf 5000 parsed.audit
    executionDecisionsById := parsed.executionDecisions.foldl (loadDecision host now) .empty
    ruleFeedback := (lastOf 20000 parsed.ruleFeedback).filterMap (loadedFeedback host now) }

end Load

end AionisCore.Store
