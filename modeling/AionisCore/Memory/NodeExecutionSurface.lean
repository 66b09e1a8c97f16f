import AionisCore.Lib.JsString
import AionisCore.Lib.Json

/-!
# What slots say of a node

The resolvers of `node-execution-surface` that the lifecycle of a node is scored with. A
field is looked up in the execution-native record, in the anchor and in the slots, each
resolver in its own order.
-/

namespace AionisCore.Memory

open Lib Lib.JsString

/-- What a scoring takes from the language, and the contract of slots: `Number(v)` and
`Date.parse(s)` where they are finite, and `deriveExecutionContractFromSlots` with the
provenance it is given. The development holds for any of them. -/
structure ScoringEnv where
  toNumber : Json → Option ℚ
  parseDate : String → Option ℚ
  deriveExecutionContractFromSlots : Json.Fields → Option Json.Fields → Option Json.Fields

/-- The first value that is a string and not blank, trimmed. -/
def firstString (values : List (Option Json)) : Option String :=
  values.findSome? fun
    | some (.str s) => if trim s = "" then none else some (trim s)
    | _ => none

def toLayerId (value : Option String) : Option String :=
  value.filter (· ∈ ["L0", "L1", "L2", "L3", "L4", "L5"])

def mapExecutionKindToAnchorKind : Option String → Option String
  | some "workflow_anchor" => some "workflow"
  | some "pattern_anchor" => some "pattern"
  | _ => none

section Resolvers

variable (slots : Json.Fields)

def parseNodeExecutionNative : Option Json.Fields :=
  Json.asRecord (Json.get slots "execution_native_v1")

def parseNodeAnchor : Option Json.Fields := Json.asRecord (Json.get slots "anchor_v1")

/-- A record of the execution-native record, or else of the anchor. -/
def surfaceRecord (k : String) : Option Json.Fields :=
  (Json.asRecord (Json.field (parseNodeExecutionNative slots) k)).or
    (Json.asRecord (Json.field (parseNodeAnchor slots) k))

def resolveNodeAnchorPayloadRefs : Option Json.Fields :=
  Json.asRecord (Json.field (parseNodeAnchor slots) "payload_refs")

def resolveNodeExecutionKind : Option String :=
  firstString [Json.field (parseNodeExecutionNative slots) "execution_kind"]

def hasNodeAnchorPayload : Bool := (parseNodeAnchor slots).isSome

def hasNodeWorkflowAnchorSurface : Bool :=
  hasNodeAnchorPayload slots || resolveNodeExecutionKind slots == some "workflow_anchor"

def resolveNodeAnchorMetricsSurface : Option Json.Fields :=
  (Json.asRecord (Json.field (parseNodeAnchor slots) "metrics")).or
    (Json.asRecord (Json.get slots "metrics"))

def resolveNodeAnchorKind : Option String :=
  firstString [Json.field (parseNodeExecutionNative slots) "anchor_kind",
    (mapExecutionKindToAnchorKind (resolveNodeExecutionKind slots)).map .str,
    Json.field (parseNodeAnchor slots) "anchor_kind"]

def resolveNodeWorkflowPromotionSurface : Option Json.Fields :=
  surfaceRecord slots "workflow_promotion"

def resolveNodePatternState : Option String :=
  firstString [Json.field (parseNodeExecutionNative slots) "pattern_state",
    Json.field (parseNodeAnchor slots) "pattern_state"]

def resolveNodeSummaryKind : Option String :=
  firstString [Json.field (parseNodeExecutionNative slots) "summary_kind",
    Json.get slots "summary_kind"]

def resolveNodeCompressionLayer (type : String) : Option String :=
  let native := parseNodeExecutionNative slots
  let executionLayer := toLayerId (firstString [Json.field native "compression_layer"])
  let anchorLevel := toLayerId (firstString [Json.field native "anchor_level",
    Json.field (parseNodeAnchor slots) "anchor_level"])
  let summaryKind := resolveNodeSummaryKind slots
  (executionLayer.or anchorLevel).or <|
    if type = "event" then some "L0"
    else if type = "evidence" then
      if summaryKind = some "write_distillation_evidence" then some "L1" else some "L0"
    else if type = "topic" then some "L2"
    else if type = "concept" then
      (toLayerId (firstString [Json.get slots "compression_layer"])).or <|
        if summaryKind = some "write_distillation_fact" then some "L1"
        else if summaryKind = some "compression_rollup" then some "L3"
        else none
    else none

def resolveNodeCredibilityState : Option String :=
  let native := parseNodeExecutionNative slots
  let anchor := parseNodeAnchor slots
  (firstString [Json.field native "credibility_state", Json.field anchor "credibility_state",
    Json.field (surfaceRecord slots "promotion") "credibility_state",
    if resolveNodePatternState slots = some "stable" then some (.str "trusted") else none]).filter
      (· ∈ ["candidate", "trusted", "contested"])

def resolveNodePolicyMemoryState : Option String :=
  let policyContract := (Json.asRecord (Json.get slots "policy_contract_v1")).or
    (Json.asRecord (Json.get slots "policy_contract"))
  let policyEvolution :=
    Json.asRecord (Json.field (parseNodeExecutionNative slots) "policy_evolution")
  (firstString [Json.get slots "policy_memory_state",
    Json.field policyEvolution "policy_memory_state",
    Json.field policyContract "policy_memory_state",
    Json.field (Json.asRecord (Json.get slots "derived_policy_v1")) "policy_memory_state"]).filter
      (· ∈ ["active", "contested", "retired"])

variable (env : ScoringEnv)

/-- `firstFinite(…values)`. -/
def firstFinite (values : List (Option Json)) : Option ℚ :=
  values.findSome? fun v => v.bind env.toNumber

/-- `distinct_run_count` of `resolveNodePatternPromotionSurface`. -/
def resolvePatternDistinctRunCount : Option ℚ :=
  firstFinite env [Json.field (surfaceRecord slots "promotion") "distinct_run_count",
    Json.field (Json.asRecord (Json.field (parseNodeAnchor slots) "metrics"))
      "distinct_run_count"]

def resolveNodeExecutionContractTrust : Option String :=
  match Json.field (env.deriveExecutionContractFromSlots slots none) "contract_trust" with
  | some (.str s) => if s ∈ ["authoritative", "advisory", "observational"] then some s else none
  | _ => none

/-- A field of the contract of the slots, or else of the execution-native record or the slots. -/
def contractField (k : String) : Option String :=
  firstString [Json.field (env.deriveExecutionContractFromSlots slots none) k,
    Json.field (parseNodeExecutionNative slots) k, Json.get slots k]

def resolveNodeTaskSignature : Option String := contractField slots env "task_signature"

def resolveNodeWorkflowSignature : Option String := contractField slots env "workflow_signature"

end Resolvers

def resolveNodePatternSignature (slots : Json.Fields) : Option String :=
  firstString [Json.field (parseNodeExecutionNative slots) "pattern_signature",
    Json.field (parseNodeAnchor slots) "pattern_signature"]

def resolveNodeErrorSignature (slots : Json.Fields) : Option String :=
  firstString [Json.get slots "error_signature",
    Json.field (parseNodeExecutionNative slots) "error_signature",
    Json.field (parseNodeAnchor slots) "error_signature"]

end AionisCore.Memory
