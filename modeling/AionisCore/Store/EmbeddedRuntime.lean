import AionisCore.Lib.OrderedMap
import AionisCore.Lib.StableSort
import AionisCore.Memory.PreparedWrite

/-!
# The embedded memory runtime

Maps of nodes, edges, rule definitions and execution decisions, and lists of rule feedback and
audit rows, with the calls that change them. A row that a call takes is a JSON record: the
call checks the type of each field as it reads it.
-/

namespace AionisCore.Store

open Lib Lib.JsString Memory

/-- What the runtime takes from the language; none stands for what is not finite. -/
structure EmbeddedHost where
  /-- `Date.parse`. -/
  dateParse : String → Option Int
  /-- `Number(v)` where `v` is no number. -/
  toNumber : Json → Option ℚ
  sqrt : ℚ → ℚ
  /-- `Math.ceil(n * 0.2)` and `Math.ceil(n * 0.1)`. -/
  ceilFifth : Nat → Nat
  ceilTenth : Nat → Nat
  localeCompare : String → String → Int
  /-- A collation ranks all strings. -/
  collates : StableSort.Ranks fun a b => localeCompare a b ≤ 0
  collates_swap : ∀ a b, 0 ≤ localeCompare a b ↔ localeCompare b a ≤ 0

/-! ## Records -/

structure EmbeddedNode where
  id : String
  scope : String
  clientId : Option String
  type : String
  tier : String
  memoryLane : MemoryLane
  producerAgentId : Option String
  ownerAgentId : Option String
  ownerTeamId : Option String
  title : Option String
  textSummary : Option String
  slots : Json.Fields
  rawRef : Option String
  evidenceRef : Option String
  embedding : Option (List ℚ)
  embeddingModel : Option String
  embeddingStatus : EmbeddingStatus
  salience : ℚ
  importance : ℚ
  confidence : ℚ
  createdAt : String
  updatedAt : String
  commitId : Option String

structure EmbeddedEdge extends EdgeKey where
  id : String
  weight : ℚ
  confidence : ℚ
  decayRate : ℚ
  createdAt : String
  commitId : Option String

inductive RuleState where
  | draft
  | shadow
  | active
  | disabled
  deriving DecidableEq, Repr

def RuleState.name : RuleState → String
  | .draft => "draft"
  | .shadow => "shadow"
  | .active => "active"
  | .disabled => "disabled"

inductive RuleScope where
  | global
  | agent
  | team
  deriving DecidableEq, Repr

def RuleScope.name : RuleScope → String
  | .global => "global"
  | .agent => "agent"
  | .team => "team"

structure EmbeddedRuleDef where
  scope : String
  ruleNodeId : String
  state : RuleState
  ruleScope : RuleScope
  targetAgentId : Option String
  targetTeamId : Option String
  ifJson : Json
  thenJson : Json
  exceptionsJson : Json
  positiveCount : ℚ
  negativeCount : ℚ
  commitId : Option String
  updatedAt : String

/-- An execution decision; its kind is always `tools_select`. -/
structure EmbeddedDecision where
  id : String
  scope : String
  runId : Option String
  selectedTool : Option String
  candidatesJson : List String
  contextSha256 : String
  policySha256 : String
  sourceRuleIds : List String
  metadataJson : Json
  createdAt : String
  commitId : Option String

inductive RuleOutcome where
  | positive
  | negative
  | neutral
  deriving DecidableEq, Repr

def RuleOutcome.name : RuleOutcome → String
  | .positive => "positive"
  | .negative => "negative"
  | .neutral => "neutral"

inductive RuleSource where
  | ruleFeedback
  | toolsFeedback
  deriving DecidableEq, Repr

def RuleSource.name : RuleSource → String
  | .ruleFeedback => "rule_feedback"
  | .toolsFeedback => "tools_feedback"

structure EmbeddedRuleFeedback where
  id : String
  scope : String
  ruleNodeId : String
  runId : Option String
  outcome : RuleOutcome
  note : Option String
  source : RuleSource
  decisionId : Option String
  commitId : Option String
  createdAt : String

inductive RecallEndpoint where
  | recall
  | recallText
  | planningContext
  | contextAssemble
  deriving DecidableEq, Repr

structure RecallAuditInsertParams where
  scope : String
  endpoint : RecallEndpoint
  consumerAgentId : Option String
  consumerTeamId : Option String
  querySha256 : String
  seedCount : Nat
  nodeCount : Nat
  edgeCount : Nat

structure EmbeddedAuditRow extends RecallAuditInsertParams where
  createdAt : String

structure EmbeddedRuntime where
  nodes : OrderedMap String EmbeddedNode := .empty
  edgesByUnique : OrderedMap String EmbeddedEdge := .empty
  ruleDefs : OrderedMap String EmbeddedRuleDef := .empty
  executionDecisionsById : OrderedMap String EmbeddedDecision := .empty
  ruleFeedback : List EmbeddedRuleFeedback := []
  audit : List EmbeddedAuditRow := []

/-! ## Keys -/

def nodeKey (scope id : String) : String := scope ++ "::" ++ id

def decisionKey (scope id : String) : String := scope ++ "::" ++ id

def edgeUpsertKey (e : EdgeKey) : String :=
  e.scope ++ "::" ++ e.type ++ "::" ++ e.srcId ++ "::" ++ e.dstId

def EmbeddedNode.key (n : EmbeddedNode) : String := nodeKey n.scope n.id

def EmbeddedEdge.key (e : EmbeddedEdge) : String := edgeUpsertKey e.toEdgeKey

def EmbeddedRuleDef.key (r : EmbeddedRuleDef) : String := nodeKey r.scope r.ruleNodeId

def EmbeddedDecision.key (d : EmbeddedDecision) : String := decisionKey d.scope d.id

/-! ## Normalisation -/

/-- `typeof row[k] === "string"`, and the string. -/
def stringField (row : Json.Fields) (k : String) : Option String :=
  match Json.get row k with
  | some (.str s) => some s
  | _ => none

/-- A string that is not blank, as it is. -/
def filledField (row : Json.Fields) (k : String) : Option String :=
  (stringField row k).filter (trim · ≠ "")

/-- No letter but an ASCII one lowers to a letter of the words the normalisers look for. -/
def lowerTrimmed (raw : Option Json) : String :=
  match raw with
  | some (.str s) => (trim s).toLower
  | _ => ""

def normalizeRuleState (raw : Option Json) : RuleState :=
  let v := lowerTrimmed raw
  if v = "shadow" then .shadow else if v = "active" then .active
  else if v = "disabled" then .disabled else .draft

def normalizeRuleScope (raw : Option Json) : RuleScope :=
  let v := lowerTrimmed raw
  if v = "agent" then .agent else if v = "team" then .team else .global

def normalizeRuleOutcome (raw : Option Json) : RuleOutcome :=
  let v := lowerTrimmed raw
  if v = "positive" then .positive else if v = "negative" then .negative else .neutral

def normalizeRuleSource (raw : Option Json) : RuleSource :=
  if lowerTrimmed raw = "tools_feedback" then .toolsFeedback else .ruleFeedback

def normalizeToolName (raw : Option Json) : Option String :=
  match raw with
  | some (.str s) => given (some (trim s))
  | _ => none

/-- `typeof x === "string" ? x.trim() : ""`. -/
def trimmedItem : Json → String
  | .str s => trim s
  | _ => ""

/-- The strings of an array that are not blank, trimmed. -/
def stringItems (raw : Option Json) : List String :=
  (((Json.asArray raw).getD []).map trimmedItem).filter (· ≠ "")

def normalizeCandidates (raw : Option Json) : List String := (stringItems raw).eraseDups

section Host

variable (host : EmbeddedHost)

def normalizeIso (raw : Option Json) (fallback : String) : String :=
  match raw with
  | some (.str s) =>
    if trim s = "" then fallback
    else if (host.dateParse (trim s)).isSome then trim s
    else fallback
  | _ => fallback

/-- `Number(v)`. -/
def number : Option Json → Option ℚ
  | some (.num q) => some q
  | some v => host.toNumber v
  | none => none

/-- `Number.isFinite(Number(v)) ? Math.max(0, Number(v)) : 0`. -/
def count (raw : Option Json) : ℚ := ((number host raw).map (max 0)).getD 0

/-- What `new Date().toISOString()` returns. -/
structure IsoTime where
  text : String
  plain : Plain text
  finite : (host.dateParse text).isSome

/-- `compareCreatedAtAsc`; where both times are finite and differ, by the times. -/
def compareCreatedAtAsc (a b : String) : Int :=
  match host.dateParse a, host.dateParse b with
  | some ta, some tb => if ta ≠ tb then ta - tb else host.localeCompare a b
  | _, _ => host.localeCompare a b

def compareCreatedAtDesc (a b : String) : Int :=
  match host.dateParse a, host.dateParse b with
  | some ta, some tb => if ta ≠ tb then tb - ta else host.localeCompare b a
  | _, _ => host.localeCompare b a

/-- `a || b` of two comparisons. -/
def orCompare (a b : Int) : Int := if a ≠ 0 then a else b

def decisionsAsc (a b : EmbeddedDecision) : Bool :=
  orCompare (compareCreatedAtAsc host a.createdAt b.createdAt) (host.localeCompare a.id b.id) ≤ 0

def decisionsDesc (a b : EmbeddedDecision) : Bool :=
  orCompare (compareCreatedAtDesc host a.createdAt b.createdAt) (host.localeCompare a.id b.id) ≤ 0

end Host

/-- `xs.slice(-n)` for a positive `n`. -/
def lastOf {α : Type} (n : Nat) (xs : List α) : List α := xs.drop (xs.length - n)

namespace EmbeddedRuntime

/-! ## Writes -/

section ApplyWrite

variable (autoEmbedEffective : Bool) (now commitId : String)

/-- The record of a node that is not there yet. -/
def plannedRecord (n : PreparedNode) : EmbeddedNode where
  id := n.id
  scope := n.scope
  clientId := n.clientId
  type := n.type
  tier := n.tier.getD "hot"
  memoryLane := n.memoryLane
  producerAgentId := n.producerAgentId
  ownerAgentId := n.ownerAgentId
  ownerTeamId := n.ownerTeamId
  title := n.title
  textSummary := n.textSummary
  slots := n.slots
  rawRef := n.rawRef
  evidenceRef := n.evidenceRef
  embedding := n.embedding
  embeddingModel := n.embedding.map fun _ => (given (n.embeddingModel.map trim)).getD "client"
  embeddingStatus :=
    if n.embedding.isSome then .ready else if autoEmbedEffective then .pending else .failed
  salience := n.salience.getD (1 / 2)
  importance := n.importance.getD (1 / 2)
  confidence := n.confidence.getD (1 / 2)
  createdAt := now
  updatedAt := now
  commitId := some commitId

/-- `slots[k] ?? d`. -/
def slotOrElse (slots : Json.Fields) (k : String) (d : Json) : Json :=
  (Json.orElse (Json.get slots k) none).getD d

def draftRuleDef (n : PreparedNode) : EmbeddedRuleDef where
  scope := n.scope
  ruleNodeId := n.id
  state := .draft
  ruleScope :=
    let scopeRaw := lowerTrimmed (Json.get n.slots "rule_scope")
    if scopeRaw = "agent" then .agent else if scopeRaw = "team" then .team else .global
  targetAgentId := stringField n.slots "target_agent_id"
  targetTeamId := stringField n.slots "target_team_id"
  ifJson := slotOrElse n.slots "if" (.obj [])
  thenJson := slotOrElse n.slots "then" (.obj [])
  exceptionsJson := slotOrElse n.slots "exceptions" (.arr [])
  positiveCount := 0
  negativeCount := 0
  commitId := some commitId
  updatedAt := now

/-- A node that is there is left alone, and its rule definition too. -/
def applyNode (r : EmbeddedRuntime) (n : PreparedNode) : EmbeddedRuntime :=
  let key := nodeKey n.scope n.id
  if r.nodes.has key then r
  else
    let r := { r with nodes := r.nodes.set key (plannedRecord autoEmbedEffective now commitId n) }
    if n.type = "rule" ∧ r.ruleDefs.has key = false then
      { r with ruleDefs := r.ruleDefs.set key (draftRuleDef now commitId n) }
    else r

def mergedEdge (existing : Option EmbeddedEdge) (e : PreparedEdge) : EmbeddedEdge where
  toEdgeKey := e.toEdgeKey
  id := e.id
  weight :=
    match existing with
    | some existing => max existing.weight (e.weight.getD (1 / 2))
    | none => e.weight.getD (1 / 2)
  confidence :=
    match existing with
    | some existing => max existing.confidence (e.confidence.getD (1 / 2))
    | none => e.confidence.getD (1 / 2)
  decayRate := e.decayRate.getD (1 / 100)
  createdAt := (existing.map (·.createdAt)).getD now
  commitId := some commitId

def applyEdge (r : EmbeddedRuntime) (e : PreparedEdge) : EmbeddedRuntime :=
  let upsertKey := edgeUpsertKey e.toEdgeKey
  let next := mergedEdge now commitId (r.edgesByUnique.get upsertKey) e
  { r with edgesByUnique := r.edgesByUnique.set upsertKey next }

/-- `applyWrite` with `auto_embed_effective`, the nodes and the edges of a prepared write. -/
def applyWrite (r : EmbeddedRuntime) (nodes : List PreparedNode) (edges : List PreparedEdge) :
    EmbeddedRuntime :=
  edges.foldl (applyEdge now commitId)
    (nodes.foldl (applyNode autoEmbedEffective now commitId) r)

end ApplyWrite

/-! ## Synchronised rows -/

section Sync

variable (host : EmbeddedHost)

/-- The decision of a row with its scope and id, over the one that is there. -/
def syncedDecision (now : String) (existing : Option EmbeddedDecision) (scope id : String)
    (row : Json.Fields) : EmbeddedDecision where
  id
  scope
  runId := filledField row "run_id"
  selectedTool := normalizeToolName (Json.get row "selected_tool")
  candidatesJson := normalizeCandidates (Json.orElse (Json.get row "candidates_json")
    (existing.map fun d => .arr (d.candidatesJson.map .str)))
  contextSha256 := (filledField row "context_sha256").getD
    ((existing.map (·.contextSha256)).getD "")
  policySha256 := (filledField row "policy_sha256").getD ((existing.map (·.policySha256)).getD "")
  sourceRuleIds :=
    if (Json.asArray (Json.get row "source_rule_ids")).isSome then
      stringItems (Json.get row "source_rule_ids")
    else (existing.map (·.sourceRuleIds)).getD []
  metadataJson := (Json.orElse (Json.orElse (Json.get row "metadata_json")
    (existing.map (·.metadataJson))) none).getD (.obj [])
  createdAt := normalizeIso host (Json.get row "created_at")
    ((existing.map (·.createdAt)).getD now)
  commitId := (filledField row "commit_id").or (existing.bind (·.commitId))

def syncDecision (now : String) (r : EmbeddedRuntime) (row : Json.Fields) : EmbeddedRuntime :=
  match given (stringField row "scope"), given (stringField row "id") with
  | some scope, some id =>
    let key := decisionKey scope id
    let next := syncedDecision host now (r.executionDecisionsById.get key) scope id row
    { r with executionDecisionsById := r.executionDecisionsById.set key next }
  | _, _ => r

/-- Of more than 10000 decisions the newest are kept. -/
def trimDecisions (r : EmbeddedRuntime) : EmbeddedRuntime :=
  if 10000 < r.executionDecisionsById.values.length then
    let keep := (r.executionDecisionsById.values.mergeSort (decisionsDesc host)).take 10000
    let keepKeys := keep.map (·.key)
    { r with
      executionDecisionsById := r.executionDecisionsById.filter fun k => decide (k ∈ keepKeys) }
  else r

def syncExecutionDecisions (now : String) (r : EmbeddedRuntime) (rows : List Json.Fields) :
    EmbeddedRuntime :=
  if rows = [] then r else trimDecisions host (rows.foldl (syncDecision host now) r)

/-- The feedback of a row, with the time at which it is appended. -/
def feedbackRow (row : Json.Fields × String) : Option EmbeddedRuleFeedback := do
  let scope ← given (stringField row.1 "scope")
  let id ← given (stringField row.1 "id")
  let ruleNodeId ← given (stringField row.1 "rule_node_id")
  return {
    id
    scope
    ruleNodeId
    runId := filledField row.1 "run_id"
    outcome := normalizeRuleOutcome (Json.get row.1 "outcome")
    note := filledField row.1 "note"
    source := normalizeRuleSource (Json.get row.1 "source")
    decisionId := filledField row.1 "decision_id"
    commitId := filledField row.1 "commit_id"
    createdAt := normalizeIso host (Json.get row.1 "created_at") row.2 }

def appendRuleFeedback (r : EmbeddedRuntime) (rows : List (Json.Fields × String)) :
    EmbeddedRuntime :=
  { r with ruleFeedback := lastOf 20000 (r.ruleFeedback ++ rows.filterMap (feedbackRow host)) }

def syncedRuleDef (scope ruleNodeId updatedAt : String) (row : Json.Fields) : EmbeddedRuleDef where
  scope
  ruleNodeId
  state := normalizeRuleState (Json.get row "state")
  ruleScope := normalizeRuleScope (Json.get row "rule_scope")
  targetAgentId := stringField row "target_agent_id"
  targetTeamId := stringField row "target_team_id"
  ifJson := slotOrElse row "if_json" (.obj [])
  thenJson := slotOrElse row "then_json" (.obj [])
  exceptionsJson := .arr ((Json.asArray (Json.get row "exceptions_json")).getD [])
  positiveCount := count host (Json.get row "positive_count")
  negativeCount := count host (Json.get row "negative_count")
  commitId := filledField row "commit_id"
  updatedAt

def touchNode (updatedAt : String) (n : EmbeddedNode) : EmbeddedNode :=
  if n.type = "rule" then { n with updatedAt } else n

def syncRuleDef (touchRuleNodes : Bool) (now : String) (r : EmbeddedRuntime) (row : Json.Fields) :
    EmbeddedRuntime :=
  match given (stringField row "scope"), given (stringField row "rule_node_id") with
  | some scope, some ruleNodeId =>
    let key := nodeKey scope ruleNodeId
    let updatedAt := normalizeIso host (Json.get row "updated_at") now
    let record := syncedRuleDef host scope ruleNodeId updatedAt row
    { r with
      ruleDefs := r.ruleDefs.set key record
      nodes :=
        match r.nodes.get key with
        | some n => if touchRuleNodes then r.nodes.set key (touchNode updatedAt n) else r.nodes
        | none => r.nodes }
  | _, _ => r

def syncRuleDefs (touchRuleNodes : Bool) (now : String) (r : EmbeddedRuntime)
    (rows : List Json.Fields) : EmbeddedRuntime :=
  rows.foldl (syncRuleDef host touchRuleNodes now) r

def insertRecallAudit (now : String) (r : EmbeddedRuntime) (params : RecallAuditInsertParams) :
    EmbeddedRuntime :=
  { r with audit := lastOf 5000 (r.audit ++ [{ params with createdAt := now }]) }

end Sync

end EmbeddedRuntime

end AionisCore.Store
