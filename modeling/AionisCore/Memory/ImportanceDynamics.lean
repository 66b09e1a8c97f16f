import AionisCore.Memory.NodeExecutionSurface
import AionisCore.Memory.NodeFeedback

/-!
# The scores of a node

`resolveNodePriorityProfile`: the salience, the importance and the confidence that a node
is given, and its retention score. The clock enters through the age of the node's last use
alone, and the age only tells in which of a few brackets it lies. Numbers are exact.
-/

namespace AionisCore.Memory

open Lib

def PriorityProfile.add (base delta : PriorityProfile) : PriorityProfile :=
  ⟨base.salience + delta.salience, base.importance + delta.importance,
    base.confidence + delta.confidence⟩

/-- `addProfile`, with hundredths. -/
def addProfile (base : PriorityProfile) (salience importance confidence : ℚ) : PriorityProfile :=
  base.add ⟨salience / 100, importance / 100, confidence / 100⟩

def profileOf (salience importance confidence : ℚ) : PriorityProfile :=
  addProfile ⟨0, 0, 0⟩ salience importance confidence

def addFound (base : PriorityProfile) (table : List (String × PriorityProfile))
    (k : Option String) : PriorityProfile :=
  match k.bind fun k => table.lookup k with
  | some delta => base.add delta
  | none => base

def BASE_TYPE_PROFILE : List (String × PriorityProfile) := [
  ("event", profileOf 44 46 52),
  ("evidence", profileOf 48 52 58),
  ("entity", profileOf 48 50 56),
  ("topic", profileOf 50 56 58),
  ("concept", profileOf 54 60 60),
  ("procedure", profileOf 58 66 68),
  ("rule", profileOf 62 74 78),
  ("self_model", profileOf 68 80 84)]

def LAYER_BONUS : List (String × PriorityProfile) := [
  ("L0", profileOf 0 0 0),
  ("L1", profileOf 2 3 2),
  ("L2", profileOf 6 8 4),
  ("L3", profileOf 8 10 6),
  ("L4", profileOf 10 12 8),
  ("L5", profileOf 12 14 10)]

def SUMMARY_KIND_BONUS : List (String × PriorityProfile) := [
  ("workflow_candidate", profileOf 12 16 8),
  ("workflow_anchor", profileOf 8 8 8),
  ("pattern_anchor", profileOf 2 4 2),
  ("policy_memory", profileOf 6 12 8),
  ("write_distillation_evidence", profileOf 1 2 5),
  ("write_distillation_fact", profileOf 2 4 6)]

def clamp01 (value : ℚ) : ℚ :=
  if value ≤ 0 then 0 else if 1 ≤ value then 1 else value

/-! ## What the slots say -/

section Slots

variable (env : ScoringEnv) (slots : Json.Fields)

/-- A number, or a string that reads as one. -/
def numeric : Option Json → Option ℚ
  | some (.num q) => some q
  | some (.str s) => env.toNumber (.str s)
  | _ => none

def extractFeedbackQuality : ℚ :=
  match numeric env (Json.get slots "feedback_quality") with
  | some direct => clampUnit direct
  | none =>
    let positive := max 0 ((numeric env (Json.get slots "feedback_positive")).getD 0)
    let negative := max 0 ((numeric env (Json.get slots "feedback_negative")).getD 0)
    if positive ≤ 0 ∧ negative ≤ 0 then 0
    else clampUnit ((positive - negative) / max 1 (positive + negative))

structure UseMetrics where
  usageCount : ℚ
  reuseSuccessCount : ℚ
  reuseFailureCount : ℚ
  distinctRunCount : ℚ
  lastUsedAt : Option String

def deriveAnchorMetrics : UseMetrics :=
  let metrics := resolveNodeAnchorMetricsSurface slots
  let counter (k : String) : Option ℚ := numeric env (Json.field metrics k)
  let workflowPromotion := resolveNodeWorkflowPromotionSurface slots
  { usageCount := max 0 ((counter "usage_count").getD 0)
    reuseSuccessCount := max 0 ((counter "reuse_success_count").getD 0)
    reuseFailureCount := max 0 ((counter "reuse_failure_count").getD 0)
    distinctRunCount := max 0 (((counter "distinct_run_count").or
      ((numeric env (Json.field workflowPromotion "observed_count")).or
        (resolvePatternDistinctRunCount slots env))).getD 0)
    lastUsedAt := firstString [Json.field metrics "last_used_at", Json.get slots "last_feedback_at",
      Json.get slots "last_activated", Json.get slots "last_activated_at"] }

end Slots

/-! ## Time -/

/-- The age in days of a time that reads as one. -/
def ageDays (env : ScoringEnv) (lastActivatedAt : Option String) (referenceMs : ℚ) : Option ℚ :=
  (lastActivatedAt.bind env.parseDate).map fun ms => (referenceMs - ms) / (24 * 60 * 60 * 1000)

/-- `recencyAdjustment` of an age. -/
def recencyAdjustment : Option ℚ → Option PriorityProfile
  | none => none
  | some age =>
    if age ≤ 3 then some (profileOf 1 2 1)
    else if age ≤ 14 then some (profileOf (1 / 2) 1 (1 / 2))
    else if 45 ≤ age then some (profileOf (-3) (-2) (-1))
    else none

/-- What an age adds to the retention score. -/
def retentionRecency : Option ℚ → ℚ
  | none => 0
  | some age => if age ≤ 3 then 3 / 100 else if 45 ≤ age then -4 / 100 else 0

/-! ## The profile -/

def patternCredibility (profile : PriorityProfile) : Option String → PriorityProfile
  | some "trusted" => addProfile profile 18 16 24
  | some "contested" => addProfile profile 1 (-4) (-13)
  | _ => addProfile profile 4 0 (-10)

def policyTrust (profile : PriorityProfile) : Option String → PriorityProfile
  | some "authoritative" => addProfile profile 3 6 8
  | some "advisory" => addProfile profile 1 1 (-4)
  | some "observational" => addProfile profile (-1) (-2) (-8)
  | _ => profile

def policyState (profile : PriorityProfile) : Option String → PriorityProfile
  | some "contested" => addProfile profile (-2) (-5) (-8)
  | some "retired" => addProfile profile (-4) (-8) (-12)
  | _ => profile

/-- The bonuses that come before the recency adjustment. -/
def unadjustedProfile (env : ScoringEnv) (args : PriorityArgs) : PriorityProfile :=
  let slots := args.slots
  -- No character but an ASCII letter lowers to one of a type.
  let typeKey := ((firstString [some (.str args.type)]).map String.toLower).getD "event"
  let summaryKind := resolveNodeSummaryKind slots
  let anchorKind := resolveNodeAnchorKind slots
  let profile := (BASE_TYPE_PROFILE.lookup typeKey).getD ⟨1 / 2, 1 / 2, 1 / 2⟩
  let profile := addFound profile LAYER_BONUS (resolveNodeCompressionLayer slots "concept")
  let profile := addFound profile SUMMARY_KIND_BONUS summaryKind
  let profile := if anchorKind = some "workflow" then addProfile profile 2 3 3 else profile
  let profile :=
    if anchorKind = some "pattern" ∨ summaryKind = some "pattern_anchor" then
      patternCredibility profile (resolveNodeCredibilityState slots)
    else profile
  let promotionState :=
    firstString [Json.field (resolveNodeWorkflowPromotionSurface slots) "promotion_state"]
  let profile := if promotionState = some "stable" then addProfile profile 4 5 5 else profile
  let profile :=
    if summaryKind = some "policy_memory" then
      policyState (policyTrust profile (resolveNodeExecutionContractTrust slots env))
        (resolveNodePolicyMemoryState slots)
    else profile
  let metrics := deriveAnchorMetrics env slots
  let usage := clamp01 (metrics.usageCount / 8)
  let success := clamp01 (metrics.reuseSuccessCount / 4)
  let failure := clamp01 (metrics.reuseFailureCount / 4)
  let distinct := clamp01 (metrics.distinctRunCount / 3)
  let profile := addProfile profile (usage * 2 + success * 3 + distinct * 2 - failure * 4)
    (usage * 3 + success * 5 + distinct * 4 - failure * 6)
    (usage * 2 + success * 3 + distinct * 3 - failure * 8)
  let quality := extractFeedbackQuality env slots
  addProfile profile (quality * 4) (quality * 6) (quality * 6)

/-- What the texts and the tier of the node add after the recency adjustment, within bounds. -/
def boundedProfile (args : PriorityArgs) (profile : PriorityProfile) : PriorityProfile :=
  let untitled := firstString [args.title.map .str, args.textSummary.map .str] = none
  let profile := if untitled then addProfile profile (-2) (-1) (-4) else profile
  let profile :=
    if args.tier = some "archive" then addProfile profile (-8) (-2) (-1)
    else if args.tier = some "cold" then addProfile profile (-4) (-1) 0
    else profile
  let salience := max (clamp01 profile.salience)
    (min (35 / 100) (clamp01 profile.importance * (1 / 2)))
  let importance := max (clamp01 profile.importance) (min (35 / 100) (clamp01 salience * (1 / 2)))
  ⟨clamp01 salience, clamp01 importance, clamp01 (clamp01 profile.confidence)⟩

/-- `derivePriorityProfile` where the age of the last use is known. -/
def derivePriorityProfile (env : ScoringEnv) (args : PriorityArgs) (age : Option ℚ) :
    PriorityProfile :=
  let profile := unadjustedProfile env args
  boundedProfile args (((recencyAdjustment age).map profile.add).getD profile)

/-- `computeRetentionScore` where the age of the last use is known. -/
def computeRetentionScore (profile : PriorityProfile) (feedbackQuality : ℚ) (age : Option ℚ) : ℚ :=
  let base := clamp01 profile.salience * (35 / 100) + clamp01 profile.importance * (55 / 100) +
    clamp01 profile.confidence * (10 / 100)
  clamp01 (base + retentionRecency age + clampUnit feedbackQuality * (6 / 100))

structure ResolvedNodePriorityProfile extends PriorityProfile where
  retentionScore : ℚ

/-- The age of the last use of a node, at the reference time or else now. -/
def PriorityArgs.age (env : ScoringEnv) (now : ℚ) (args : PriorityArgs) : Option ℚ :=
  ageDays env (deriveAnchorMetrics env args.slots).lastUsedAt
    ((args.referenceTime.bind env.parseDate).getD now)

/-- `resolveNodePriorityProfile` of a node whose last use has an age. -/
def priorityProfileAt (env : ScoringEnv) (args : PriorityArgs) (age : Option ℚ) :
    ResolvedNodePriorityProfile :=
  let derived := derivePriorityProfile env args age
  let profile : PriorityProfile :=
    ⟨(args.salience.map clamp01).getD derived.salience,
      (args.importance.map clamp01).getD derived.importance,
      (args.confidence.map clamp01).getD derived.confidence⟩
  { profile with
    retentionScore :=
      computeRetentionScore profile (extractFeedbackQuality env args.slots) age }

def resolveNodePriorityProfile (env : ScoringEnv) (now : ℚ) (args : PriorityArgs) :
    ResolvedNodePriorityProfile := priorityProfileAt env args (args.age env now)

/-! ## Brackets of ages -/

end AionisCore.Memory
