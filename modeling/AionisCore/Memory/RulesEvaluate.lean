import AionisCore.Memory.RuleEngine
import AionisCore.Store.RuleStore

/-!
# Rule evaluation

The rules that `evaluateRulesAppliedOnly` applies in a context: those aimed at its agent or
team, visible to them, whose condition holds and whose policy patch is well formed. They are
ordered by a rank that this model leaves out.
-/

namespace AionisCore.Memory

open Lib Lib.JsString Store

/-! ## Agents and teams -/

/-- `typeof v === "string" ? v.trim() : ""`, where it is not empty. -/
def trimmedText (v : Option Json) : Option String :=
  match v with
  | some (.str s) => given (some (trim s))
  | _ => none

/-- `ctx?.agent?.[inner]`, or else `ctx?.[outer]`. -/
def contextIdentity (inner outer : String) (ctx : Option Json) : Option String :=
  let record := Json.asRecord ctx
  (trimmedText (Json.field (Json.asRecord (Json.field record "agent")) inner)).or
    (trimmedText (Json.field record outer))

def contextAgentId (ctx : Option Json) : Option String := contextIdentity "id" "agent_id" ctx

def contextTeamId (ctx : Option Json) : Option String := contextIdentity "team_id" "team_id" ctx

/-- The target of a rule is given, and it is the identity of the context. -/
def targetMatches (target identity : Option String) : Bool :=
  (given target).any fun target => identity = some target

def scopeRuleMatchesContext (row : LiteRuleCandidateRow) (ctx : Option Json) : Bool :=
  if row.ruleScope = "global" then true
  else if row.ruleScope = "agent" then targetMatches row.targetAgentId (contextAgentId ctx)
  else if row.ruleScope = "team" then targetMatches row.targetTeamId (contextTeamId ctx)
  else false

/-- Lanes are always enforced: a rule without an owner is visible only if it is shared. -/
def laneRuleMatchesContext (row : LiteRuleCandidateRow) (ctx : Option Json) : Bool :=
  row.ruleMemoryLane == .sharedLane || targetMatches row.ruleOwnerAgentId (contextAgentId ctx) ||
    targetMatches row.ruleOwnerTeamId (contextTeamId ctx)

/-! ## Policy patches -/

/-- `.strict()`: no other fields than the given ones. -/
def strictFields (keys : List String) (fields : Json.Fields) : Bool :=
  fields.all fun field => field.1 ∈ keys

/-- `z.array(z.string().min(1)).max(100).optional()`. -/
def toolNamesValid (v : Option Json) : Bool :=
  match v with
  | none => true
  | some (.arr xs) => xs.length ≤ 100 && xs.all fun
    | .str s => s ≠ ""
    | _ => false
  | _ => false

def ToolPolicyValid (v : Option Json) : Bool :=
  match v with
  | none => true
  | some (.obj fields) => strictFields ["allow", "deny", "prefer"] fields &&
      ["allow", "deny", "prefer"].all fun k => toolNamesValid (Json.get fields k)
  | _ => false

def outputFormatValid (v : Option Json) : Bool :=
  match v with
  | none => true
  | some (.str s) => s ∈ ["json", "text", "markdown"]
  | _ => false

def OutputPolicyValid (v : Option Json) : Bool :=
  match v with
  | none => true
  | some (.obj fields) => strictFields ["format", "strict"] fields &&
      outputFormatValid (Json.get fields "format") &&
      (match Json.get fields "strict" with
        | none | some (.bool _) => true
        | _ => false)
  | _ => false

/-- `PolicyPatchSchema` accepts the fields, and keeps them. -/
def PolicyPatchValid (fields : Json.Fields) : Bool :=
  strictFields ["output", "tool", "extensions"] fields &&
    OutputPolicyValid (Json.get fields "output") && ToolPolicyValid (Json.get fields "tool") &&
    (match Json.get fields "extensions" with
      | none | some (.obj _) => true
      | _ => false)

mutual

def leafPaths : Json → String → List String
  | .null, _ => []
  | .obj [], path => [if path = "" then "$" else path]
  | .obj (field :: fields), path =>
    leafPathsField field path ++ leafPathsFields fields path
  | .bool _, path => [if path = "" then "$" else path]
  | .num _, path => [if path = "" then "$" else path]
  | .str _, path => [if path = "" then "$" else path]
  | .arr _, path => [if path = "" then "$" else path]

def leafPathsFields : List (String × Json) → String → List String
  | [], _ => []
  | field :: fields, path => leafPathsField field path ++ leafPathsFields fields path

def leafPathsField : String × Json → String → List String
  | (k, v), path => leafPaths v (if path = "" then k else path ++ "." ++ k)

end

def policyTouchedPaths (patch : Json.Fields) : List String :=
  sortStrings (leafPaths (.obj patch) "")

/-! ## Applied rules -/

structure PolicySource where
  ruleNodeId : String
  state : String
  commitId : String
  touchedPaths : List String

/-- The source that a row is, if its rule is applied. -/
def policySource (host : RuleHost) (ctx : Option Json) (row : LiteRuleCandidateRow) :
    Option PolicySource :=
  if scopeRuleMatchesContext row ctx && laneRuleMatchesContext row ctx &&
      ruleMatchesContext host (.obj row.ifJson) (.arr row.exceptionsJson) ctx &&
      PolicyPatchValid row.thenJson then
    some {
      ruleNodeId := row.ruleNodeId
      state := row.state
      commitId := row.ruleCommitId
      touchedPaths := policyTouchedPaths row.thenJson }
  else none

/-- The sources of active rules, and behind them, on request, those of shadow rules. -/
def appliedSources (host : RuleHost) (ctx : Option Json) (includeShadow : Bool)
    (rows : List LiteRuleCandidateRow) : List PolicySource :=
  let sources := rows.filterMap (policySource host ctx)
  sources.filter (·.state = "active") ++
    if includeShadow then sources.filter (·.state = "shadow") else []

end AionisCore.Memory
