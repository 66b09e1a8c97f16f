import AionisCore.Memory.ExecutionNativeSlots
import AionisCore.Memory.LifecycleLite
import AionisCore.Memory.PatternAnchor

/-!
# The slots of a tool pattern

A pattern anchor is stored in the slots of a concept node. `anchorJson` is the record the
anchor is, `existingAnchor` what the next feedback reads of it again, and
`buildPatternAnchorSlots` the whole of the slots that feedback writes.
-/

namespace AionisCore.Memory

open Lib Lib.Schema

/-! ## Names -/

def PatternState.name : PatternState → String
  | provisional => "provisional"
  | stable => "stable"

def PatternTransitionKind.name : PatternTransitionKind → String
  | candidateObserved => "candidate_observed"
  | promotedToTrusted => "promoted_to_trusted"
  | counterEvidenceOpened => "counter_evidence_opened"
  | revalidatedToTrusted => "revalidated_to_trusted"

def MaintenanceState.name : MaintenanceState → String
  | observe => "observe"
  | retain => "retain"
  | review => "review"

def OfflinePriority.name : OfflinePriority → String
  | none => "none"
  | promoteCandidate => "promote_candidate"
  | reviewCounterEvidence => "review_counter_evidence"
  | retainTrusted => "retain_trusted"

def AnchorOutcomeStatus.name : AnchorOutcomeStatus → String
  | success => "success"
  | mixed => "mixed"

def PatternFeedbackOutcome.name : PatternFeedbackOutcome → String
  | positive => "positive"
  | negative => "negative"

/-! ## The record of an anchor -/

def natJson (n : Nat) : Json := .num n

def maintenanceJson (m : PatternMaintenanceMetadata) : Json := .obj [
  ("model", .str m.model),
  ("maintenance_state", .str m.maintenanceState.name),
  ("offline_priority", .str m.offlinePriority.name),
  ("lazy_update_fields", jsonStrings m.lazyUpdateFields),
  ("last_maintenance_at", Json.orNull m.lastMaintenanceAt)]

def promotionJson (p : PatternPromotionMetadata) : Json := .obj [
  ("required_distinct_runs", natJson p.requiredDistinctRuns),
  ("distinct_run_count", natJson p.distinctRunCount),
  ("observed_run_ids", jsonStrings p.observedRunIds),
  ("counter_evidence_count", natJson p.counterEvidenceCount),
  ("counter_evidence_open", .bool p.counterEvidenceOpen),
  ("credibility_state", .str p.credibilityState.name),
  ("previous_credibility_state", Json.orNull (p.previousCredibilityState.map (·.name))),
  ("last_transition", Json.orNull (p.lastTransition.map (·.name))),
  ("last_transition_at", Json.orNull p.lastTransitionAt),
  ("stable_at", Json.orNull p.stableAt),
  ("last_validated_at", Json.orNull p.lastValidatedAt),
  ("last_counter_evidence_at", Json.orNull p.lastCounterEvidenceAt)]

def trustHardeningJson (h : TrustHardening) : Json := .obj [
  ("task_family", Json.orNull h.taskFamily),
  ("error_family", Json.orNull h.errorFamily),
  ("observed_task_families", jsonStrings h.observedTaskFamilies),
  ("observed_error_families", jsonStrings h.observedErrorFamilies),
  ("distinct_task_family_count", natJson h.distinctTaskFamilyCount),
  ("distinct_error_family_count", natJson h.distinctErrorFamilyCount),
  ("post_contest_observed_run_ids", jsonStrings h.postContestObservedRunIds),
  ("post_contest_distinct_run_count", natJson h.postContestDistinctRunCount),
  ("promotion_gate_kind", .str h.promotionGateKind),
  ("promotion_gate_satisfied", .bool h.promotionGateSatisfied),
  ("revalidation_floor_kind", .str h.revalidationFloorKind),
  ("revalidation_floor_satisfied", .bool h.revalidationFloorSatisfied),
  ("task_affinity_weighting_enabled", .bool h.taskAffinityWeightingEnabled),
  ("semantic_review_override_applied", .bool h.semanticReviewOverrideApplied),
  ("semantic_review_override_reason", Json.orNull h.semanticReviewOverrideReason)]

def metricsJson (m : AnchorMetrics) : Json := .obj [
  ("usage_count", natJson m.usageCount),
  ("reuse_success_count", natJson m.reuseSuccessCount),
  ("reuse_failure_count", natJson m.reuseFailureCount),
  ("distinct_run_count", natJson m.distinctRunCount),
  ("last_used_at", Json.orNull m.lastUsedAt)]

def payloadRefsJson (r : AnchorPayloadRefs) : Json := .obj [
  ("node_ids", jsonStrings r.nodeIds),
  ("decision_ids", jsonStrings r.decisionIds),
  ("run_ids", jsonStrings r.runIds),
  ("step_ids", jsonStrings r.stepIds),
  ("commit_ids", jsonStrings r.commitIds)]

/-- The anchor as `MemoryAnchorV1Schema` returns it. -/
def anchorJson (a : MemoryAnchorV1) : Json.Fields :=
  [("anchor_kind", .str "pattern"), ("anchor_level", .str "L3"),
    ("contract_trust", .str a.contractTrust.name)] ++
  optionalText "pattern_state" (a.patternState.map (·.name)) ++
  optionalText "credibility_state" (a.credibilityState.map (·.name)) ++
  [("task_signature", .str a.taskSignature), ("task_class", .str a.taskClass)] ++
  optionalText "task_family" a.taskFamily ++
  optionalText "error_signature" a.errorSignature ++
  optionalText "error_family" a.errorFamily ++
  [("pattern_signature", .str a.patternSignature), ("summary", .str a.summary),
    ("tool_set", jsonStrings a.toolSet), ("selected_tool", .str a.selectedTool),
    ("key_steps", jsonStrings a.keySteps),
    ("outcome", .obj [("status", .str a.outcome.status.name),
      ("result_class", .str a.outcome.resultClass),
      ("success_score", .num a.outcome.successScore)]),
    ("source", .obj [("source_kind", .str "tool_decision"), ("node_id", .null),
      ("decision_id", Json.orNull a.source.decisionId), ("run_id", Json.orNull a.source.runId),
      ("step_id", .null), ("playbook_id", .null),
      ("commit_id", Json.orNull a.source.commitId)]),
    ("payload_refs", payloadRefsJson a.payloadRefs),
    ("rehydration", .obj [("default_mode", .str "partial"),
      ("payload_cost_hint", .str "medium"),
      ("recommended_when", jsonStrings a.recommendedWhen)]),
    ("recall_features", .obj [("error_tags", jsonStrings a.recallFeatures.errorTags),
      ("tool_tags", jsonStrings a.recallFeatures.toolTags),
      ("outcome_tags", jsonStrings a.recallFeatures.outcomeTags),
      ("keywords", jsonStrings a.recallFeatures.keywords)])] ++
  Json.optional "metrics" (a.metrics.map metricsJson) ++
  [("maintenance", maintenanceJson a.maintenance)] ++
  Json.optional "promotion" (a.promotion.map promotionJson) ++
  Json.optional "trust_hardening" (a.trustHardening.map trustHardeningJson) ++
  [("schema_version", .str "anchor_v1")]

/-! ## The anchor that is there

The schema has accepted the record, so that a field has its type or is missing. -/

def natOf : Option Json → Nat
  | some (.num q) => q.num.toNat
  | _ => 0

def boolOf : Option Json → Bool
  | some (.bool b) => b
  | _ => false

/-- The value of a type whose name the text is. -/
def named {α : Type} (name : α → String) (values : List α) (v : Option Json) : Option α :=
  (Json.textOf v).bind fun s => values.find? fun a => name a = s

def patternStateOf : Option Json → Option PatternState :=
  named PatternState.name [.provisional, .stable]

def credibilityStateOf : Option Json → Option PatternCredibilityState :=
  named PatternCredibilityState.name [.candidate, .trusted, .contested]

def storedPromotion (r : Json.Fields) : PatternPromotionMetadata where
  requiredDistinctRuns := natOf (Json.get r "required_distinct_runs")
  distinctRunCount := natOf (Json.get r "distinct_run_count")
  observedRunIds := Json.textsOf (Json.get r "observed_run_ids")
  counterEvidenceCount := natOf (Json.get r "counter_evidence_count")
  counterEvidenceOpen := boolOf (Json.get r "counter_evidence_open")
  credibilityState := (credibilityStateOf (Json.get r "credibility_state")).getD .candidate
  previousCredibilityState := credibilityStateOf (Json.get r "previous_credibility_state")
  lastTransition := named PatternTransitionKind.name [.candidateObserved, .promotedToTrusted,
    .counterEvidenceOpened, .revalidatedToTrusted] (Json.get r "last_transition")
  lastTransitionAt := Json.textOf (Json.get r "last_transition_at")
  stableAt := Json.textOf (Json.get r "stable_at")
  lastValidatedAt := Json.textOf (Json.get r "last_validated_at")
  lastCounterEvidenceAt := Json.textOf (Json.get r "last_counter_evidence_at")

def storedHardening (r : Json.Fields) : TrustHardening where
  taskFamily := Json.textOf (Json.get r "task_family")
  errorFamily := Json.textOf (Json.get r "error_family")
  observedTaskFamilies := Json.textsOf (Json.get r "observed_task_families")
  observedErrorFamilies := Json.textsOf (Json.get r "observed_error_families")
  distinctTaskFamilyCount := natOf (Json.get r "distinct_task_family_count")
  distinctErrorFamilyCount := natOf (Json.get r "distinct_error_family_count")
  postContestObservedRunIds := Json.textsOf (Json.get r "post_contest_observed_run_ids")
  postContestDistinctRunCount := natOf (Json.get r "post_contest_distinct_run_count")
  promotionGateSatisfied := boolOf (Json.get r "promotion_gate_satisfied")
  revalidationFloorSatisfied := boolOf (Json.get r "revalidation_floor_satisfied")
  taskAffinityWeightingEnabled := boolOf (Json.get r "task_affinity_weighting_enabled")
  semanticReviewOverrideApplied := boolOf (Json.get r "semantic_review_override_applied")
  semanticReviewOverrideReason := Json.textOf (Json.get r "semantic_review_override_reason")

def storedMetrics (r : Json.Fields) : AnchorMetrics where
  usageCount := natOf (Json.get r "usage_count")
  reuseSuccessCount := natOf (Json.get r "reuse_success_count")
  reuseFailureCount := natOf (Json.get r "reuse_failure_count")
  distinctRunCount := natOf (Json.get r "distinct_run_count")
  lastUsedAt := Json.textOf (Json.get r "last_used_at")

def storedPayloadRefs (r : Json.Fields) : AnchorPayloadRefs where
  nodeIds := Json.textsOf (Json.get r "node_ids")
  decisionIds := Json.textsOf (Json.get r "decision_ids")
  runIds := Json.textsOf (Json.get r "run_ids")
  stepIds := Json.textsOf (Json.get r "step_ids")
  commitIds := Json.textsOf (Json.get r "commit_ids")

/-- What `buildPatternAnchor` reads of the anchor that is there; it reads none of the fields
that hold a constant here. -/
def existingAnchor (r : Json.Fields) : MemoryAnchorV1 where
  contractTrust := .observational
  patternState := patternStateOf (Json.get r "pattern_state")
  credibilityState := credibilityStateOf (Json.get r "credibility_state")
  taskSignature := ""
  taskFamily := none
  errorSignature := none
  errorFamily := none
  patternSignature := ""
  summary := ""
  toolSet := []
  selectedTool := ""
  keySteps := []
  outcome := ⟨.success, "", 0⟩
  source := ⟨none, none, none⟩
  payloadRefs := ((Json.asRecord (Json.get r "payload_refs")).map storedPayloadRefs).getD {}
  recallFeatures := ⟨[], [], [], []⟩
  metrics := (Json.asRecord (Json.get r "metrics")).map storedMetrics
  maintenance := ⟨"lazy_online_v1", .observe, .none, [], none⟩
  promotion := (Json.asRecord (Json.get r "promotion")).map storedPromotion
  trustHardening := (Json.asRecord (Json.get r "trust_hardening")).map storedHardening

/-! ## The slots -/

/-- What the slots take from elsewhere: `buildExecutionContractFromProjection`, `none` where
its schema throws, and what scoring needs. -/
structure PatternEnv extends ScoringEnv where
  buildExecutionContractFromProjection : Json.Fields → Option Json.Fields

def patternNextAction (a : MemoryAnchorV1) (taskCue : Option String) : Option String :=
  if a.selectedTool = "" then none
  else match taskCue.filter (· ≠ "") with
    | some cue => some ("Prefer " ++ a.selectedTool ++ " first for " ++ cue ++
        " before widening tool search.")
    | none => some ("Prefer " ++ a.selectedTool ++ " first before widening tool search.")

def patternHints (a : MemoryAnchorV1) (args : PatternFeedback) : List String :=
  JsString.uniqueStrings
    ([if args.sourceRuleIds ≠ [] then "rule_backed_selection_pattern"
      else "feedback_derived_selection_pattern",
      if a.patternState.getD .provisional = .stable then "stable_tool_selection_pattern"
      else "provisional_tool_selection_pattern"] ++
      (if a.credibilityState.getD .candidate = .contested then ["counter_evidence_open"] else []) ++
      [match args.feedbackOutcome with
        | .negative => "negative_feedback_recorded"
        | .positive => "positive_feedback_recorded"]) 8

def buildPatternExecutionContract (env : PatternEnv) (a : MemoryAnchorV1) (args : PatternFeedback) :
    Option Json.Fields :=
  env.buildExecutionContractFromProjection [
    ("contract_trust",
      .str (derivePatternAnchorContractTrust a.patternState a.credibilityState).name),
    ("task_family", Json.orNull a.taskFamily),
    ("task_signature", .str a.taskSignature),
    ("selected_tool", .str a.selectedTool),
    ("next_action", Json.orNull (patternNextAction a args.taskCue)),
    ("workflow_steps", jsonStrings a.keySteps),
    ("pattern_hints", jsonStrings (patternHints a args)),
    ("provenance", .obj [("source_kind", .str "pattern_anchor_write"),
      ("source_anchor", .str a.patternSignature),
      ("notes", jsonStrings ["tools_pattern_anchor_projection"])])]

/-- A spread text is left out when it is empty. -/
def nonEmptyText (k : String) (s : Option String) : Json.Fields :=
  optionalText k (s.filter (· ≠ ""))

def patternExecutionNative (a : MemoryAnchorV1) : Option Json.Fields :=
  safeParse ExecutionNativeV1Schema (some (.obj (
    [("schema_version", .str "execution_native_v1"), ("execution_kind", .str "pattern_anchor"),
      ("summary_kind", .str "pattern_anchor"), ("compression_layer", .str "L3"),
      ("contract_trust", .str a.contractTrust.name),
      ("task_signature", .str a.taskSignature)] ++
    nonEmptyText "task_family" a.taskFamily ++
    nonEmptyText "error_signature" a.errorSignature ++
    nonEmptyText "error_family" a.errorFamily ++
    nonEmptyText "pattern_signature" (some a.patternSignature) ++
    [("anchor_kind", .str "pattern"), ("anchor_level", .str "L3")] ++
    optionalText "pattern_state" (a.patternState.map (·.name)) ++
    optionalText "credibility_state" (a.credibilityState.map (·.name)) ++
    [("selected_tool", .str a.selectedTool)] ++
    Json.optional "promotion" (a.promotion.map promotionJson) ++
    Json.optional "trust_hardening" (a.trustHardening.map trustHardeningJson) ++
    [("maintenance", maintenanceJson a.maintenance)])))

def buildPatternAnchorSlots (env : PatternEnv) (a : MemoryAnchorV1) (args : PatternFeedback) :
    Option Json.Fields := do
  let executionContract ← buildPatternExecutionContract env a args
  let executionNative ← patternExecutionNative a
  return [
    ("summary_kind", .str "pattern_anchor"),
    ("compression_layer", .str "L3"),
    ("anchor_v1", .obj (anchorJson a)),
    ("execution_native_v1", .obj executionNative),
    ("execution_contract_v1", .obj executionContract),
    ("decision_pattern_signature", .str args.patternSignature),
    ("pattern_state", .str (a.patternState.getD .provisional).name),
    ("credibility_state", .str (a.credibilityState.getD .candidate).name),
    ("selected_tool", .str args.selectedTool),
    ("candidates", jsonStrings args.candidates),
    ("source_rule_ids", jsonStrings args.sourceRuleIds),
    ("outcome", .str args.feedbackOutcome.name),
    ("anchor_origin", .str "tools_feedback")]

/-- The keys of the slots that feedback writes. -/
def patternAnchorSlotKeys : List String :=
  ["summary_kind", "compression_layer", "anchor_v1", "execution_native_v1",
    "execution_contract_v1", "decision_pattern_signature", "pattern_state", "credibility_state",
    "selected_tool", "candidates", "source_rule_ids", "outcome", "anchor_origin"]

theorem keys_buildPatternAnchorSlots {env : PatternEnv} {a : MemoryAnchorV1}
    {args : PatternFeedback} {slots : Json.Fields}
    (h : buildPatternAnchorSlots env a args = some slots) :
    slots.map Prod.fst = patternAnchorSlotKeys := by
  obtain ⟨contract, -, h⟩ := Option.bind_eq_some_iff.1 h
  obtain ⟨native, -, h⟩ := Option.bind_eq_some_iff.1 h
  obtain rfl := Option.some.inj h
  rfl

end AionisCore.Memory
