import AionisCore.Memory.ImportanceDynamics
import AionisCore.Memory.Write

/-!
# The lifecycle of a prepared node

`resolveSemanticForgettingDecision`, `resolveArchiveRelocationPlan` and
`enrichPreparedNodeLifecycle`: the slots and the scores that preparation gives a node.
-/

namespace AionisCore.Memory

open Lib Store

inductive MemoryTierName where
  | archive
  | cold
  | warm
  | hot
  deriving DecidableEq, Repr

def MemoryTierName.name : MemoryTierName → String
  | .archive => "archive"
  | .cold => "cold"
  | .warm => "warm"
  | .hot => "hot"

def normalizeMemoryTier : Option String → MemoryTierName
  | some "cold" => .cold
  | some "warm" => .warm
  | some "hot" => .hot
  | _ => .archive

def nextColderTier : MemoryTierName → MemoryTierName
  | .hot => .warm
  | .warm => .cold
  | .cold => .archive
  | .archive => .archive

inductive SemanticForgettingAction where
  | retain
  | demote
  | archive
  | review
  deriving DecidableEq, Repr

def SemanticForgettingAction.name : SemanticForgettingAction → String
  | .retain => "retain"
  | .demote => "demote"
  | .archive => "archive"
  | .review => "review"

inductive SemanticForgettingLifecycleState where
  | active
  | contested
  | retired
  | archived
  deriving DecidableEq, Repr

def SemanticForgettingLifecycleState.name : SemanticForgettingLifecycleState → String
  | .active => "active"
  | .contested => "contested"
  | .retired => "retired"
  | .archived => "archived"

def deriveLifecycleState (env : ScoringEnv) (slots : Json.Fields) (tier : MemoryTierName) :
    SemanticForgettingLifecycleState :=
  if tier = .archive then .archived
  else if resolveNodePolicyMemoryState slots = some "retired" then .retired
  else if resolveNodePolicyMemoryState slots = some "contested" then .contested
  else if resolveNodeCredibilityState slots = some "contested" then .contested
  else if resolveNodeSummaryKind slots = some "policy_memory" ∧
      (resolveNodeExecutionContractTrust slots env).any (· ≠ "authoritative") then .contested
  else if firstString [Json.get slots "lifecycle_state"] = some "archived" then .archived
  else .active

def deriveFeedbackQuality (env : ScoringEnv) (slots : Json.Fields) : ℚ :=
  ((numeric env (Json.get slots "feedback_quality")).map clampUnit).getD 0

/-- The action, the target tier and the first reason. -/
def forgettingAction (currentTier : MemoryTierName)
    (lifecycleState : SemanticForgettingLifecycleState) (retentionScore feedbackQuality : ℚ) :
    SemanticForgettingAction × MemoryTierName × String :=
  let archived (reason : String) : SemanticForgettingAction × MemoryTierName × String :=
    if currentTier = .archive then (.retain, currentTier, reason) else (.archive, .archive, reason)
  if lifecycleState = .retired then archived "retired_policy_memory"
  else if retentionScore ≤ 30 / 100 ∨ feedbackQuality ≤ -7 / 10 then
    archived "retention_below_archive_floor"
  else if lifecycleState = .contested ∨ retentionScore ≤ 45 / 100 then
    let reason := if lifecycleState = .contested then "contested_lifecycle_state"
      else "retention_below_demote_floor"
    -- A node in the archive is never demoted, so the check that follows in the source is void.
    if currentTier = .archive then (.review, currentTier, reason)
    else (.demote, nextColderTier currentTier, reason)
  else if retentionScore ≤ 58 / 100 ∧ currentTier = .hot then
    (.demote, .warm, "hot_tier_not_justified")
  else (.retain, currentTier, "retention_supports_visibility")

/-- The decision of `resolveSemanticForgettingDecision` where the profile is known. -/
def forgettingDecision (env : ScoringEnv) (slots : Json.Fields) (tier : Option String)
    (profile : ResolvedNodePriorityProfile) : Json :=
  let currentTier := normalizeMemoryTier tier
  let lifecycleState := deriveLifecycleState env slots currentTier
  let (action, targetTier, reason) :=
    forgettingAction currentTier lifecycleState profile.retentionScore
      (deriveFeedbackQuality env slots)
  .obj [("action", .str action.name), ("current_tier", .str currentTier.name),
    ("target_tier", .str targetTier.name), ("lifecycle_state", .str lifecycleState.name),
    ("retention_score", .num profile.retentionScore), ("salience", .num profile.salience),
    ("importance", .num profile.importance), ("confidence", .num profile.confidence),
    ("should_compact", .bool (action = .demote ∨ action = .archive)),
    ("should_relocate", .bool (action = .archive)), ("rationale", .arr [.str reason])]

def resolveSemanticForgettingDecision (env : ScoringEnv) (now : ℚ) (args : PriorityArgs) : Json :=
  let tier := (normalizeMemoryTier args.tier).name
  forgettingDecision env args.slots args.tier
    (resolveNodePriorityProfile env now { args with tier := some tier })

def hasAnchorPayloadRefs (slots : Json.Fields) : Bool :=
  ["node_ids", "decision_ids", "run_ids", "step_ids", "commit_ids"].any fun k =>
    match Json.field (resolveNodeAnchorPayloadRefs slots) k with
    | some (.arr ids) => !ids.isEmpty
    | _ => false

def resolveArchiveRelocationPlan (args : RelocationArgs) : Json :=
  let action := Json.field (Json.asRecord (some args.forgetting)) "action"
  let hasPayload := hasAnchorPayloadRefs args.slots || (given args.rawRef).isSome ||
    (given args.evidenceRef).isSome
  if action == some (.str "archive") then
    .obj [("relocation_state", .str "cold_archive"),
      ("relocation_target", .str (if hasPayload then "local_cold_store" else "none")),
      ("payload_scope", .str (if hasPayload then "anchor_payload" else "node")),
      ("should_relocate", .bool hasPayload),
      ("rationale", .arr [.str "archive_transition_requested",
        .str (if hasPayload then "payload_externalization_candidate" else "summary_only_node")])]
  else
    let demoted := action == some (.str "demote")
    .obj [("relocation_state", .str (if demoted then "candidate" else "none")),
      ("relocation_target", .str "none"),
      ("payload_scope", .str (if hasPayload then "anchor_payload" else "none")),
      ("should_relocate", .bool false),
      ("rationale", .arr [.str (if demoted then "watch_for_archive_transition"
        else "retained_in_current_store")])]

/-- The resolvers at a time. -/
def lifecycleResolvers (env : ScoringEnv) (now : ℚ) : LifecycleResolvers where
  resolveNodePriorityProfile args := (resolveNodePriorityProfile env now args).toPriorityProfile
  resolveSemanticForgettingDecision := resolveSemanticForgettingDecision env now
  resolveArchiveRelocationPlan := resolveArchiveRelocationPlan

def PreparedNode.lifecycleArgs (node : PreparedNode) : ResolveNodeLifecycleSignalsArgs where
  type := node.type
  tier := some (node.tier.getD "hot")
  title := node.title
  textSummary := node.textSummary
  slots := some node.slots
  salience := node.salience
  importance := node.importance
  confidence := node.confidence
  rawRef := node.rawRef
  evidenceRef := node.evidenceRef
  referenceTime := none

def enrichPreparedNodeLifecycle (env : ScoringEnv) (now : ℚ) (node : PreparedNode) : PreparedNode :=
  let lifecycle := resolveNodeLifecycleSignals (lifecycleResolvers env now) node.lifecycleArgs
  { node with
    slots := lifecycle.slots
    salience := some lifecycle.salience
    importance := some lifecycle.importance
    confidence := some lifecycle.confidence }

end AionisCore.Memory
