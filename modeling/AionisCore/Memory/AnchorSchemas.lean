import AionisCore.Lib.Schema

/-!
# The schemas of execution-native slots and anchors

`ExecutionNativeV1Schema` and `MemoryAnchorV1Schema`, which slots are read with before a
node is written.
-/

namespace AionisCore.Memory

open Lib Lib.Schema

def MemoryLayerId : Schema := .enum ["L0", "L1", "L2", "L3", "L4", "L5"]

def MemoryAnchorKind : Schema := .enum ["execution", "workflow", "pattern", "decision"]

def MemoryAnchorLevel : Schema := .enum ["L1", "L2", "L3"]

def MemoryPatternState : Schema := .enum ["provisional", "stable"]

def MemoryPatternCredibilityState : Schema := .enum ["candidate", "trusted", "contested"]

def ContractTrustSchema : Schema := .enum ["authoritative", "advisory", "observational"]

def MemoryAnchorStringList : Schema := .array (some 64) (text 256)

def MemoryAnchorIdList : Schema := .array (some 256) (text 256)

/-- `StringList` of the execution types. -/
def LifecycleStringList : Schema := .withDefault (.arr []) (.array none (.string false 1 none))

def trimmedOrNull : Schema := .withDefault .null (.nullable (.string true 1 none))

def flag : Schema := .withDefault (.bool false) .boolean

def ServiceLifecycleConstraintV1Schema : Schema := .object [
  ("version", .literal (.num 1)),
  ("service_kind", .withDefault (.str "generic") (.enum ["generic", "http", "tcp", "process"])),
  ("label", .string true 1 none),
  ("launch_reference", trimmedOrNull),
  ("endpoint", trimmedOrNull),
  ("must_survive_agent_exit", flag),
  ("revalidate_from_fresh_shell", flag),
  ("detach_then_probe", flag),
  ("health_checks", LifecycleStringList),
  ("teardown_notes", LifecycleStringList)]

def OutcomeContractGateSchema : Schema := .object [
  ("gate_version", .literal (.str "outcome_contract_gate_v1")),
  ("status", .enum ["sufficient", "insufficient"]),
  ("allows_authoritative", .boolean),
  ("requested_trust", .nullable ContractTrustSchema),
  ("effective_trust", .nullable ContractTrustSchema),
  ("reasons", .array (some 16) (text 128)),
  ("requires_service_lifecycle_outcome", .boolean),
  ("decisive_fields", .object [
    ("acceptance_check_count", count),
    ("success_invariant_count", count),
    ("meaningful_success_invariant_count", count),
    ("must_hold_after_exit_count", count),
    ("external_visibility_requirement_count", count),
    ("service_lifecycle_constraint_count", count),
    ("durable_service_lifecycle_constraint_count", count),
    ("service_must_survive_agent_exit_count", count),
    ("service_revalidate_from_fresh_shell_count", count),
    ("service_detach_then_probe_count", count),
    ("service_health_check_count", count)])]

def MemoryAnchorOutcomeSchema : Schema := .object [
  ("status", .enum ["success", "failure", "partial", "mixed", "unknown"]),
  ("result_class", .optional (text 128)),
  ("success_score", .optional (.number false (some 0) (some 1)))]

def MemoryAnchorSourceSchema : Schema := .object [
  ("source_kind", .enum ["replay_step", "playbook", "distilled_trace", "tool_decision",
    "workflow_cluster", "execution_write"]),
  ("node_id", .optional (.nullable (text 256))),
  ("decision_id", .optional (.nullable (text 256))),
  ("run_id", .optional (.nullable (text 256))),
  ("step_id", .optional (.nullable (text 256))),
  ("playbook_id", .optional (.nullable (text 256))),
  ("commit_id", .optional (.nullable (text 256)))]

def idsOrNone : Schema := .withDefault (.arr []) MemoryAnchorIdList

def MemoryAnchorPayloadRefsSchema : Schema := .object [
  ("node_ids", idsOrNone),
  ("decision_ids", idsOrNone),
  ("run_ids", idsOrNone),
  ("step_ids", idsOrNone),
  ("commit_ids", idsOrNone)]

def stringsOrNone : Schema := .withDefault (.arr []) MemoryAnchorStringList

def MemoryAnchorRehydrationHintSchema : Schema := .object [
  ("default_mode", .withDefault (.str "summary_only")
    (.enum ["summary_only", "partial", "full", "differential"])),
  ("payload_cost_hint", .withDefault (.str "medium") (.enum ["low", "medium", "high"])),
  ("recommended_when", stringsOrNone)]

def MemoryAnchorRecallFeaturesSchema : Schema := .object [
  ("error_tags", .optional MemoryAnchorStringList),
  ("tool_tags", .optional MemoryAnchorStringList),
  ("outcome_tags", .optional MemoryAnchorStringList),
  ("keywords", .optional MemoryAnchorStringList)]

def countOrZero : Schema := .withDefault (.num 0) count

def MemoryAnchorMetricsSchema : Schema := .object [
  ("usage_count", countOrZero),
  ("reuse_success_count", countOrZero),
  ("reuse_failure_count", countOrZero),
  ("distinct_run_count", countOrZero),
  ("last_used_at", nullableTime)]

def MemoryAnchorMaintenanceSchema : Schema := .object [
  ("model", .withDefault (.str "lazy_online_v1") (.literal (.str "lazy_online_v1"))),
  ("maintenance_state", .enum ["observe", "retain", "review"]),
  ("offline_priority", .withDefault (.str "none") (.enum ["none", "promote_candidate",
    "promote_to_workflow", "promote_to_pattern", "promote_to_policy", "promote_to_default",
    "review_counter_evidence", "review_contested_policy", "retain_distillation",
    "retain_active_policy", "retain_trusted", "retain_workflow", "retire_policy",
    "reactivate_policy"])),
  ("lazy_update_fields", .withDefault (.arr [.str "usage_count", .str "last_used_at",
    .str "reuse_success_count", .str "reuse_failure_count"]) MemoryAnchorStringList),
  ("last_maintenance_at", nullableTime)]

/-- `z.number().int().min(2).max(32).default(2)`. -/
def requiredRuns : Schema := .withDefault (.num 2) (.number true (some 2) (some 32))

def MemoryWorkflowPromotionSchema : Schema := .object [
  ("promotion_state", .withDefault (.str "stable") (.enum ["candidate", "stable"])),
  ("promotion_origin", .enum ["replay_promote", "replay_stable_normalization",
    "replay_learning_episode", "replay_learning_auto_promotion", "execution_write_projection",
    "execution_write_auto_promotion"]),
  ("required_observations", requiredRuns),
  ("observed_count", countOrZero),
  ("last_transition", .enum ["candidate_observed", "promoted_to_stable",
    "normalized_latest_stable"]),
  ("last_transition_at", nullableTime),
  ("source_status", .withDefault .null (.nullable (text 64)))]

def runIdsOrNone : Schema := .withDefault (.arr []) (.array (some 16) (text 256))

def MemoryPatternPromotionSchema : Schema := .object [
  ("required_distinct_runs", requiredRuns),
  ("distinct_run_count", countOrZero),
  ("observed_run_ids", runIdsOrNone),
  ("counter_evidence_count", countOrZero),
  ("counter_evidence_open", flag),
  ("credibility_state", .withDefault (.str "candidate") MemoryPatternCredibilityState),
  ("previous_credibility_state", .withDefault .null (.nullable MemoryPatternCredibilityState)),
  ("last_transition", .withDefault .null (.nullable (.enum ["candidate_observed",
    "promoted_to_trusted", "counter_evidence_opened", "revalidated_to_trusted"]))),
  ("last_transition_at", nullableTime),
  ("stable_at", nullableTime),
  ("last_validated_at", nullableTime),
  ("last_counter_evidence_at", nullableTime)]

def MemoryPatternTrustHardeningSchema : Schema := .object [
  ("task_family", .withDefault .null (.nullable (text 128))),
  ("error_family", .withDefault .null (.nullable (text 128))),
  ("observed_task_families", stringsOrNone),
  ("observed_error_families", stringsOrNone),
  ("distinct_task_family_count", countOrZero),
  ("distinct_error_family_count", countOrZero),
  ("post_contest_observed_run_ids", runIdsOrNone),
  ("post_contest_distinct_run_count", countOrZero),
  ("promotion_gate_kind", .withDefault (.str "current_distinct_runs_v1")
    (.enum ["current_distinct_runs_v1"])),
  ("promotion_gate_satisfied", flag),
  ("revalidation_floor_kind", .withDefault (.str "post_contest_two_fresh_runs_v1")
    (.enum ["post_contest_two_fresh_runs_v1"])),
  ("revalidation_floor_satisfied", .withDefault (.bool true) .boolean),
  ("task_affinity_weighting_enabled", flag),
  ("semantic_review_override_applied", flag),
  ("semantic_review_override_reason", .withDefault .null (.nullable (text 128)))]

def MemoryDistillationShape : List (String × Schema) := [
  ("abstraction_state", .withDefault (.str "distilled") (.literal (.str "distilled"))),
  ("distillation_origin", .enum ["write_distillation_input_text",
    "write_distillation_event_node", "write_distillation_evidence_node",
    "execution_write_projection", "handoff_continuity_carrier",
    "session_event_continuity_carrier", "session_continuity_carrier",
    "replay_learning_episode"]),
  ("source_kind", text 64),
  ("preferred_promotion_target", .enum ["workflow", "pattern", "policy"]),
  ("extraction_pattern", .withDefault .null (.nullable (text 64))),
  ("source_node_id", .withDefault .null (.nullable (text 256))),
  ("source_evidence_node_id", .withDefault .null (.nullable (text 256))),
  ("has_execution_signature", flag),
  ("last_transition", .enum ["distilled_from_input_text", "distilled_from_event_node",
    "distilled_from_evidence_node", "projected_from_execution_write",
    "projected_from_handoff_carrier", "projected_from_session_event_carrier",
    "projected_from_session_carrier", "projected_from_replay_learning"]),
  ("last_transition_at", nullableTime)]

def MemoryDistillationSchema : Schema := .object MemoryDistillationShape

def MemoryPolicyEvolutionSchema : Schema := .object [
  ("policy_kind", .withDefault (.str "tool_preference") (.literal (.str "tool_preference"))),
  ("policy_source_kind", .enum ["trusted_pattern", "stable_workflow", "blended"]),
  ("policy_state", .enum ["candidate", "stable"]),
  ("policy_memory_state", .enum ["active", "contested", "retired"]),
  ("activation_mode", .enum ["hint", "default"]),
  ("materialization_state", .withDefault (.str "persisted") (.enum ["computed", "persisted"])),
  ("source_anchor_count", countOrZero),
  ("last_transition", .enum ["materialized", "refreshed", "contested_by_feedback",
    "retired_by_feedback", "retired_by_governance", "reactivated_by_governance"]),
  ("last_transition_at", nullableTime)]

def lifecycleConstraints : Schema := .array (some 16) ServiceLifecycleConstraintV1Schema

def MemoryAnchorV1Schema : Schema := .object [
  ("anchor_kind", MemoryAnchorKind),
  ("anchor_level", MemoryAnchorLevel),
  ("contract_trust", .optional (.nullable ContractTrustSchema)),
  ("pattern_state", .optional MemoryPatternState),
  ("credibility_state", .optional MemoryPatternCredibilityState),
  ("task_signature", text 256),
  ("task_class", .optional (text 128)),
  ("task_family", .optional (text 128)),
  ("error_signature", .optional (text 256)),
  ("error_family", .optional (text 128)),
  ("workflow_signature", .optional (text 256)),
  ("pattern_signature", .optional (text 256)),
  ("summary", text 400),
  ("tool_set", .array (some 64) (text 128)),
  ("selected_tool", .optional (.nullable (text 128))),
  ("file_path", .optional (.nullable (text 2048))),
  ("target_files", .optional (.array (some 64) (text 2048))),
  ("next_action", .optional (.nullable (text 400))),
  ("key_steps", .optional MemoryAnchorStringList),
  ("pattern_hints", .optional MemoryAnchorStringList),
  ("service_lifecycle_constraints", .optional lifecycleConstraints),
  ("outcome_contract_gate", .optional OutcomeContractGateSchema),
  ("outcome", MemoryAnchorOutcomeSchema),
  ("source", MemoryAnchorSourceSchema),
  ("payload_refs", MemoryAnchorPayloadRefsSchema),
  ("rehydration", .optional MemoryAnchorRehydrationHintSchema),
  ("recall_features", .optional MemoryAnchorRecallFeaturesSchema),
  ("metrics", .optional MemoryAnchorMetricsSchema),
  ("maintenance", .optional MemoryAnchorMaintenanceSchema),
  ("workflow_promotion", .optional MemoryWorkflowPromotionSchema),
  ("promotion", .optional MemoryPatternPromotionSchema),
  ("trust_hardening", .optional MemoryPatternTrustHardeningSchema),
  ("schema_version", .literal (.str "anchor_v1"))]

def ExecutionNativeV1Shape : List (String × Schema) := [
  ("schema_version", .literal (.str "execution_native_v1")),
  ("execution_kind", .enum ["distilled_evidence", "distilled_fact", "workflow_candidate",
    "workflow_anchor", "pattern_anchor", "execution_native"]),
  ("summary_kind", .optional (.nullable (text 128))),
  ("compression_layer", .optional MemoryLayerId),
  ("contract_trust", .optional ContractTrustSchema),
  ("task_signature", .optional (text 256)),
  ("task_family", .optional (text 128)),
  ("error_signature", .optional (text 256)),
  ("error_family", .optional (text 128)),
  ("workflow_signature", .optional (text 256)),
  ("pattern_signature", .optional (text 256)),
  ("anchor_kind", .optional MemoryAnchorKind),
  ("anchor_level", .optional MemoryAnchorLevel),
  ("tool_set", .optional (.array (some 64) (text 128))),
  ("pattern_state", .optional MemoryPatternState),
  ("credibility_state", .optional MemoryPatternCredibilityState),
  ("selected_tool", .optional (.nullable (text 128))),
  ("file_path", .optional (.nullable (text 2048))),
  ("target_files", .optional (.array (some 64) (text 2048))),
  ("next_action", .optional (.nullable (text 400))),
  ("workflow_steps", .optional MemoryAnchorStringList),
  ("pattern_hints", .optional MemoryAnchorStringList),
  ("service_lifecycle_constraints", .optional lifecycleConstraints),
  ("outcome_contract_gate", .optional OutcomeContractGateSchema),
  ("workflow_promotion", .optional MemoryWorkflowPromotionSchema),
  ("promotion", .optional MemoryPatternPromotionSchema),
  ("trust_hardening", .optional MemoryPatternTrustHardeningSchema),
  ("maintenance", .optional MemoryAnchorMaintenanceSchema),
  ("rehydration", .optional MemoryAnchorRehydrationHintSchema),
  ("distillation", .optional MemoryDistillationSchema),
  ("policy_evolution", .optional MemoryPolicyEvolutionSchema)]

def ExecutionNativeV1Schema : Schema := .object ExecutionNativeV1Shape

/-! ## The time of a distillation -/

end AionisCore.Memory
