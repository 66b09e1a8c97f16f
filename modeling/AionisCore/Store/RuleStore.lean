import AionisCore.Lib.Query
import AionisCore.Store.EmbeddedRuntime

/-!
# Rule definitions of the Lite store

The candidates that the rule evaluation reads, and the counters of feedback. A candidate is a
definition joined with the node of its rule.
-/

namespace AionisCore.Store

open Lib Lib.Table

structure LiteRuleCandidateRow where
  ruleNodeId : String
  state : String
  ruleScope : String
  targetAgentId : Option String
  targetTeamId : Option String
  ruleMemoryLane : MemoryLane
  ruleOwnerAgentId : Option String
  ruleOwnerTeamId : Option String
  ifJson : Json.Fields
  thenJson : Json.Fields
  exceptionsJson : List Json
  positiveCount : Nat
  negativeCount : Nat
  ruleCommitId : String
  ruleSummary : Option String
  ruleSlots : Json.Fields
  updatedAt : String

/-- `parseJsonObject` of the text of a value. -/
def parseJsonObject (v : Json) : Json.Fields := (Json.asRecord (some v)).getD []

/-- `parseJsonArray` of the text of a value. -/
def parseJsonArray (v : Json) : List Json := (Json.asArray (some v)).getD []

def ruleCandidateRow (d : LiteRuleDefRow) (n : LiteNodeRow) : LiteRuleCandidateRow where
  ruleNodeId := d.ruleNodeId
  state := d.state
  ruleScope := d.ruleScope
  targetAgentId := d.targetAgentId
  targetTeamId := d.targetTeamId
  ruleMemoryLane := n.memoryLane
  ruleOwnerAgentId := n.ownerAgentId
  ruleOwnerTeamId := n.ownerTeamId
  ifJson := parseJsonObject d.ifJson
  thenJson := parseJsonObject d.thenJson
  exceptionsJson := parseJsonArray d.exceptionsJson
  positiveCount := d.positiveCount
  negativeCount := d.negativeCount
  ruleCommitId := d.commitId
  ruleSummary := n.textSummary
  ruleSlots := n.slots
  updatedAt := d.updatedAt

/-- `ORDER BY d.created_at DESC, d.rule_node_id ASC`. -/
def LiteRuleDefRow.newestFirst (d e : LiteRuleDefRow) : Prop :=
  e.createdAt < d.createdAt ∨ d.createdAt = e.createdAt ∧ d.ruleNodeId ≤ e.ruleNodeId

instance : DecidableRel LiteRuleDefRow.newestFirst := fun _ _ =>
  inferInstanceAs (Decidable (_ ∨ _))

/-- The key under which the runtime has the definition. -/
def LiteRuleDefRow.key (d : LiteRuleDefRow) : String := nodeKey d.scope d.ruleNodeId

/-- A shadow or active definition. -/
def LiteRuleDefRow.isCandidate (d : LiteRuleDefRow) : Bool := d.state ∈ ["shadow", "active"]

def addRuleFeedback (outcome : RuleOutcome) (now scope ruleNodeId : String) (d : LiteRuleDefRow) :
    LiteRuleDefRow :=
  if d.scope = scope ∧ d.ruleNodeId = ruleNodeId then
    { d with
      positiveCount := d.positiveCount + if outcome = .positive then 1 else 0
      negativeCount := d.negativeCount + if outcome = .negative then 1 else 0
      updatedAt := now }
  else d

namespace LiteTables

variable (t : LiteTables)

/-- The node that a definition of the scope is joined with. -/
def ruleNode (d : LiteRuleDefRow) : Option LiteNodeRow :=
  (row? (·.id) t.nodes d.ruleNodeId).filter (·.scope = d.scope)

/-- The joined definitions of a scope, in their order. -/
def orderedRuleDefs (scope : String) : List LiteRuleDefRow :=
  (t.ruleDefs.filter fun d => d.scope = scope ∧ (t.ruleNode d).isSome).insertionSort
    LiteRuleDefRow.newestFirst

/-- `listRuleCandidates` for the states `shadow` and `active`. -/
def listRuleCandidates (scope : String) (limit : Nat) : List LiteRuleCandidateRow :=
  (((t.orderedRuleDefs scope).filter (·.isCandidate)).take limit).filterMap fun d =>
    (t.ruleNode d).map (ruleCandidateRow d)

/-- The rows that are returned, and the tables. -/
def updateRuleFeedbackAggregates (scope : String) (outcome : RuleOutcome)
    (ruleNodeIds : List String) (now : String) : List LiteRuleCandidateRow × LiteTables :=
  let t := { t with
    ruleDefs := ruleNodeIds.foldl
      (fun defs id => defs.map (addRuleFeedback outcome now scope id)) t.ruleDefs }
  ((t.listRuleCandidates scope (max 1 ruleNodeIds.length)).filter fun row =>
    row.ruleNodeId ∈ ruleNodeIds, t)

end LiteTables

end AionisCore.Store
