import AionisCore.Memory.ContractTrust
import AionisCore.Util.Normalize

/-!
# Tool pattern anchors

Feedback on a tool decision is folded into the anchor of its pattern: which runs
confirmed the tool, how much counter-evidence there is, and from both whether the
pattern is stable and trusted. `none` from `parse` and `buildPatternAnchor` stands
for a schema error.
-/

namespace AionisCore.Memory

open Lib.JsString

inductive PatternState where
  | provisional
  | stable
  deriving DecidableEq, Repr

inductive PatternCredibilityState where
  | candidate
  | trusted
  | contested
  deriving DecidableEq, Repr

def PatternCredibilityState.name : PatternCredibilityState → String
  | candidate => "candidate"
  | trusted => "trusted"
  | contested => "contested"

inductive PatternTransitionKind where
  | candidateObserved
  | promotedToTrusted
  | counterEvidenceOpened
  | revalidatedToTrusted
  deriving DecidableEq, Repr

inductive MaintenanceState where
  | observe
  | retain
  | review
  deriving DecidableEq, Repr

inductive OfflinePriority where
  | none
  | promoteCandidate
  | reviewCounterEvidence
  | retainTrusted
  deriving DecidableEq, Repr

inductive PatternFeedbackOutcome where
  | positive
  | negative
  deriving DecidableEq, Repr

inductive AnchorOutcomeStatus where
  | success
  | mixed
  deriving DecidableEq, Repr

/-! ## Promotion and maintenance -/

structure PatternMaintenanceMetadata where
  model : String := "lazy_online_v1"
  maintenanceState : MaintenanceState
  offlinePriority : OfflinePriority
  lazyUpdateFields : List String :=
    ["usage_count", "last_used_at", "reuse_success_count", "reuse_failure_count"]
  lastMaintenanceAt : Option String
  deriving DecidableEq, Repr

structure PatternPromotionMetadata where
  requiredDistinctRuns : Nat
  distinctRunCount : Nat
  observedRunIds : List String
  counterEvidenceCount : Nat
  counterEvidenceOpen : Bool
  credibilityState : PatternCredibilityState
  previousCredibilityState : Option PatternCredibilityState
  lastTransition : Option PatternTransitionKind
  lastTransitionAt : Option String
  stableAt : Option String
  lastValidatedAt : Option String
  lastCounterEvidenceAt : Option String
  deriving DecidableEq, Repr

structure PatternMaintenanceArgs where
  credibilityState : PatternCredibilityState
  distinctRunCount : Nat
  requiredDistinctRuns : Nat
  counterEvidenceOpen : Bool
  atTime : String

def buildPatternMaintenanceMetadata (args : PatternMaintenanceArgs) :
    PatternMaintenanceMetadata where
  maintenanceState :=
    match args.credibilityState with
    | .contested => .review
    | .trusted => .retain
    | .candidate => .observe
  offlinePriority :=
    match args.credibilityState with
    | .contested => .reviewCounterEvidence
    | .trusted => .retainTrusted
    | .candidate =>
      if args.requiredDistinctRuns - 1 ≤ args.distinctRunCount then .promoteCandidate else .none
  lastMaintenanceAt := some args.atTime

def resolvePatternTransition (credibilityState : PatternCredibilityState)
    (previousCredibilityState : Option PatternCredibilityState)
    (fallbackTransition : Option PatternTransitionKind) : PatternTransitionKind :=
  match credibilityState with
  | .contested => .counterEvidenceOpened
  | .trusted =>
    match previousCredibilityState with
    | some .contested => .revalidatedToTrusted
    | some .trusted => fallbackTransition.getD .promotedToTrusted
    | _ => .promotedToTrusted
  | .candidate => .candidateObserved

structure PatternPromotionArgs where
  requiredDistinctRuns : Nat
  distinctRunCount : Nat
  observedRunIds : List String
  counterEvidenceCount : Nat
  counterEvidenceOpen : Bool
  credibilityState : PatternCredibilityState
  previousCredibilityState : Option PatternCredibilityState
  atTime : String
  stableAt : Option String
  lastValidatedAt : Option String
  lastCounterEvidenceAt : Option String
  fallbackTransition : Option PatternTransitionKind := none

def buildPatternPromotionMetadata (args : PatternPromotionArgs) : PatternPromotionMetadata where
  requiredDistinctRuns := max 1 args.requiredDistinctRuns
  distinctRunCount := args.distinctRunCount
  observedRunIds := args.observedRunIds
  counterEvidenceCount := args.counterEvidenceCount
  counterEvidenceOpen := args.counterEvidenceOpen
  credibilityState := args.credibilityState
  previousCredibilityState := args.previousCredibilityState
  lastTransition := some (resolvePatternTransition args.credibilityState
    args.previousCredibilityState args.fallbackTransition)
  lastTransitionAt := some args.atTime
  stableAt := args.stableAt
  lastValidatedAt := args.lastValidatedAt
  lastCounterEvidenceAt := args.lastCounterEvidenceAt

/-! ## Anchors -/

structure AnchorOutcome where
  status : AnchorOutcomeStatus
  resultClass : String
  successScore : ℚ
  deriving DecidableEq, Repr

structure AnchorSource where
  decisionId : Option String
  runId : Option String
  commitId : Option String
  deriving DecidableEq, Repr

structure AnchorPayloadRefs where
  nodeIds : List String := []
  decisionIds : List String := []
  runIds : List String := []
  stepIds : List String := []
  commitIds : List String := []
  deriving DecidableEq, Repr

structure AnchorRecallFeatures where
  errorTags : List String
  toolTags : List String
  outcomeTags : List String
  keywords : List String
  deriving DecidableEq, Repr

structure AnchorMetrics where
  usageCount : Nat := 0
  reuseSuccessCount : Nat := 0
  reuseFailureCount : Nat := 0
  distinctRunCount : Nat := 0
  lastUsedAt : Option String := none
  deriving DecidableEq, Repr

structure TrustHardening where
  taskFamily : Option String := none
  errorFamily : Option String := none
  observedTaskFamilies : List String := []
  observedErrorFamilies : List String := []
  distinctTaskFamilyCount : Nat := 0
  distinctErrorFamilyCount : Nat := 0
  postContestObservedRunIds : List String := []
  postContestDistinctRunCount : Nat := 0
  promotionGateKind : String := "current_distinct_runs_v1"
  promotionGateSatisfied : Bool := false
  revalidationFloorKind : String := "post_contest_two_fresh_runs_v1"
  revalidationFloorSatisfied : Bool := true
  taskAffinityWeightingEnabled : Bool := false
  semanticReviewOverrideApplied : Bool := false
  semanticReviewOverrideReason : Option String := none
  deriving DecidableEq, Repr

/-- The fields of an anchor that a tool pattern has. -/
structure MemoryAnchorV1 where
  contractTrust : ContractTrust
  patternState : Option PatternState
  credibilityState : Option PatternCredibilityState
  taskSignature : String
  taskClass : String := "tools_select_pattern"
  taskFamily : Option String
  errorSignature : Option String
  errorFamily : Option String
  patternSignature : String
  summary : String
  toolSet : List String
  selectedTool : String
  keySteps : List String
  outcome : AnchorOutcome
  source : AnchorSource
  payloadRefs : AnchorPayloadRefs
  recommendedWhen : List String :=
    ["need_original_decision_context", "need_linked_rule_attribution",
    "pattern_summary_is_not_enough"]
  recallFeatures : AnchorRecallFeatures
  metrics : Option AnchorMetrics
  maintenance : PatternMaintenanceMetadata
  promotion : Option PatternPromotionMetadata
  trustHardening : Option TrustHardening
  deriving DecidableEq, Repr

/-! ## The anchor schema -/

/-- `z.string().min(1).max(n)`. -/
def fits (n : Nat) (s : String) : Bool := 1 ≤ length s && length s ≤ n

/-- `z.array(z.string().min(1).max(n)).max(k)`. -/
def listFits (k n : Nat) (xs : List String) : Bool := xs.length ≤ k && xs.all (fits n)

/-- `MemoryAnchorStringList`. -/
def stringListFits : List String → Bool := listFits 64 256

/-- `MemoryAnchorIdList`. -/
def idListFits : List String → Bool := listFits 256 256

/-- A nullable string with no upper bound. -/
def timeFits (s : Option String) : Bool := s.all fun s => 1 ≤ length s

def AnchorOutcome.valid (o : AnchorOutcome) : Bool :=
  fits 128 o.resultClass && 0 ≤ o.successScore && o.successScore ≤ 1

def AnchorSource.valid (s : AnchorSource) : Bool :=
  s.decisionId.all (fits 256) && s.runId.all (fits 256) && s.commitId.all (fits 256)

def AnchorPayloadRefs.valid (r : AnchorPayloadRefs) : Bool :=
  idListFits r.nodeIds && idListFits r.decisionIds && idListFits r.runIds &&
    idListFits r.stepIds && idListFits r.commitIds

def AnchorRecallFeatures.valid (f : AnchorRecallFeatures) : Bool :=
  stringListFits f.errorTags && stringListFits f.toolTags && stringListFits f.outcomeTags &&
    stringListFits f.keywords

def PatternMaintenanceMetadata.valid (m : PatternMaintenanceMetadata) : Bool :=
  m.model = "lazy_online_v1" && stringListFits m.lazyUpdateFields && timeFits m.lastMaintenanceAt

def PatternPromotionMetadata.valid (p : PatternPromotionMetadata) : Bool :=
  2 ≤ p.requiredDistinctRuns && p.requiredDistinctRuns ≤ 32 && listFits 16 256 p.observedRunIds &&
    timeFits p.lastTransitionAt && timeFits p.stableAt && timeFits p.lastValidatedAt &&
    timeFits p.lastCounterEvidenceAt

def TrustHardening.valid (h : TrustHardening) : Bool :=
  h.taskFamily.all (fits 128) && h.errorFamily.all (fits 128) &&
    stringListFits h.observedTaskFamilies && stringListFits h.observedErrorFamilies &&
    listFits 16 256 h.postContestObservedRunIds &&
    h.promotionGateKind = "current_distinct_runs_v1" &&
    h.revalidationFloorKind = "post_contest_two_fresh_runs_v1" &&
    h.semanticReviewOverrideReason.all (fits 128)

def MemoryAnchorV1.valid (a : MemoryAnchorV1) : Bool :=
  fits 256 a.taskSignature && fits 128 a.taskClass && a.taskFamily.all (fits 128) &&
    a.errorSignature.all (fits 256) && a.errorFamily.all (fits 128) &&
    fits 256 a.patternSignature && fits 400 a.summary && listFits 64 128 a.toolSet &&
    fits 128 a.selectedTool && stringListFits a.keySteps && a.outcome.valid && a.source.valid &&
    a.payloadRefs.valid && stringListFits a.recommendedWhen && a.recallFeatures.valid &&
    a.metrics.all (fun m => timeFits m.lastUsedAt) && a.maintenance.valid &&
    a.promotion.all (·.valid) && a.trustHardening.all (·.valid)

/-- `MemoryAnchorV1Schema.parse`. -/
def MemoryAnchorV1.parse (a : MemoryAnchorV1) : Option MemoryAnchorV1 :=
  if a.valid then some a else none

theorem MemoryAnchorV1.parse_eq_some {a b : MemoryAnchorV1} :
    a.parse = some b ↔ a.valid ∧ a = b := by
  unfold MemoryAnchorV1.parse
  split
  · next h => simp [h]
  · next h => simp [h]

/-! ## Feedback events -/

structure DecisionAnchorSource where
  id : String
  runId : Option String
  createdAt : String
  commitId : Option String
  deriving DecidableEq, Repr

/-- What one feedback event says about its pattern; the cues are read off its context. -/
structure PatternFeedback where
  taskCue : Option String := none
  taskSignature : String := "tools_select:unspecified-task"
  taskFamily : Option String := none
  errorSignature : Option String := none
  errorFamily : Option String := none
  patternSignature : String
  selectedTool : String
  candidates : List String
  sourceRuleIds : List String := []
  decision : DecisionAnchorSource
  feedbackCommitId : String
  feedbackOutcome : PatternFeedbackOutcome
  deriving DecidableEq, Repr

def stablePatternMinDistinctRuns : Nat := 3

def contestedRevalidationMinFreshRuns : Nat := 2

def maxObservedRunIds : Nat := 16

def trimEnd (s : String) : String := String.ofList (s.toList.rdropWhile isWhite)

def truncate (value : String) (limit : Nat) : String :=
  if length value ≤ limit then value else trimEnd (take (limit - 3) value) ++ "..."

def buildPatternSummary (args : PatternFeedback) (patternState : PatternState)
    (credibilityState : PatternCredibilityState) : String :=
  let lead :=
    match credibilityState with
    | .trusted => "Stable pattern"
    | .contested => "Contested pattern"
    | .candidate => "Candidate pattern"
  let body :=
    match args.taskCue with
    | some cue => "for " ++ cue ++ ", prefer " ++ args.selectedTool
    | none => "prefer " ++ args.selectedTool
  let ruleBacked := args.sourceRuleIds ≠ []
  let evidence :=
    if credibilityState = .contested then
      "counter-evidence observed; requires fresh successful validation before trusted reuse."
    else if patternState = .stable then
      if ruleBacked then "after repeated successful rule-backed tool selections."
      else "after repeated successful tool selections."
    else
      if ruleBacked then "after one successful rule-backed tool selection."
      else "after one successful tool selection."
  truncate (lead ++ ": " ++ body ++ " " ++ evidence) 400

def observedRunIdsFromAnchor (anchor : MemoryAnchorV1) : List String :=
  uniqueStrings ((anchor.promotion.map (·.observedRunIds)).getD []) maxObservedRunIds

def derivePatternAnchorContractTrust (patternState : Option PatternState)
    (credibilityState : Option PatternCredibilityState) : ContractTrust :=
  if patternState.getD .provisional = .stable ∧ credibilityState.getD .candidate = .trusted then
    .advisory
  else .observational

/-! ## What the events add up to

The locals of `buildPatternAnchor`, each a function of the event and of the anchor
that is there. -/

section Evidence

variable (args : PatternFeedback) (existing : Option MemoryAnchorV1)

def existingPromotion : Option PatternPromotionMetadata := existing.bind (·.promotion)

def existingHardening : Option TrustHardening := existing.bind (·.trustHardening)

def existingMetrics : Option AnchorMetrics := existing.bind (·.metrics)

def existingPayloadRefs : AnchorPayloadRefs := (existing.map (·.payloadRefs)).getD {}

def existingCredibilityState : PatternCredibilityState :=
  ((existing.bind (·.credibilityState)).or
    ((existingPromotion existing).map (·.credibilityState))).getD .candidate

def existingObservedRunIds : List String := (existing.map observedRunIdsFromAnchor).getD []

def nextObservedRunIds : List String :=
  match args.feedbackOutcome with
  | .positive =>
    uniqueStrings (existingObservedRunIds existing ++ args.decision.runId.toList) maxObservedRunIds
  | .negative => existingObservedRunIds existing

def distinctRunCount : Nat := (nextObservedRunIds args existing).length

def requiredDistinctRuns : Nat :=
  max stablePatternMinDistinctRuns
    (((existingPromotion existing).map (·.requiredDistinctRuns)).getD stablePatternMinDistinctRuns)

/-- An empty run id counts as none. -/
def hasNewDistinctRun : Bool :=
  args.feedbackOutcome = .positive &&
    match args.decision.runId.filter (· ≠ "") with
    | some runId => !(existingObservedRunIds existing).contains runId
    | none => existing.isNone

def reuseSuccessCount : Nat :=
  ((existingMetrics existing).map (·.reuseSuccessCount)).getD 0 +
    if hasNewDistinctRun args existing then 1 else 0

def existingCounterEvidenceCount : Nat :=
  ((existingPromotion existing).map (·.counterEvidenceCount)).getD 0

def nextCounterEvidenceCount : Nat :=
  existingCounterEvidenceCount existing + if args.feedbackOutcome = .negative then 1 else 0

def observedTaskFamilies : List String :=
  uniqueStrings (uniqueStrings
    (((existingHardening existing).map (·.observedTaskFamilies)).getD []) 16 ++
      args.taskFamily.toList) 16

def observedErrorFamilies : List String :=
  uniqueStrings (uniqueStrings
    (((existingHardening existing).map (·.observedErrorFamilies)).getD []) 16 ++
      args.errorFamily.toList) 16

def observedPostContestRunIds : List String :=
  uniqueStrings (((existingHardening existing).map (·.postContestObservedRunIds)).getD [])
    maxObservedRunIds

def postContestObservedRunIds : List String :=
  match args.feedbackOutcome with
  | .negative => []
  | .positive =>
    if 0 < existingCounterEvidenceCount existing ∧ hasNewDistinctRun args existing then
      uniqueStrings (observedPostContestRunIds existing ++ args.decision.runId.toList)
        maxObservedRunIds
    else observedPostContestRunIds existing

def revalidationFloorSatisfied : Bool :=
  nextCounterEvidenceCount args existing = 0 ||
    contestedRevalidationMinFreshRuns ≤ (postContestObservedRunIds args existing).length

/-- There are runs enough for the counter-evidence there is. -/
def runsSuffice : Bool :=
  requiredDistinctRuns existing + nextCounterEvidenceCount args existing ≤
    distinctRunCount args existing

def counterEvidenceOpen : Bool :=
  match args.feedbackOutcome with
  | .negative => true
  | .positive =>
    if runsSuffice args existing && revalidationFloorSatisfied args existing then false
    else ((existingPromotion existing).map (·.counterEvidenceOpen)).getD false

def reuseFailureCount : Nat :=
  ((existingMetrics existing).map (·.reuseFailureCount)).getD 0 +
    if args.feedbackOutcome = .negative then 1 else 0

def patternState : PatternState :=
  if !counterEvidenceOpen args existing && runsSuffice args existing then .stable
  else .provisional

def credibilityState : PatternCredibilityState :=
  if counterEvidenceOpen args existing then .contested
  else if patternState args existing = .stable then .trusted
  else .candidate

/-- `promotion.stable_at` before any override. -/
def stableAt : Option String :=
  if patternState args existing = .stable then
    if existing.bind (·.patternState) = some .stable then
      ((existingPromotion existing).bind (·.stableAt)).or (some args.decision.createdAt)
    else some args.decision.createdAt
  else none

end Evidence

/-! ## The anchor of an event -/

def basePromotion (args : PatternFeedback) (existing : Option MemoryAnchorV1) :
    PatternPromotionMetadata :=
  buildPatternPromotionMetadata
    { requiredDistinctRuns := requiredDistinctRuns existing
      distinctRunCount := distinctRunCount args existing
      observedRunIds := nextObservedRunIds args existing
      counterEvidenceCount := nextCounterEvidenceCount args existing
      counterEvidenceOpen := counterEvidenceOpen args existing
      credibilityState := credibilityState args existing
      previousCredibilityState := existing.map fun _ => existingCredibilityState existing
      atTime := args.decision.createdAt
      stableAt := stableAt args existing
      lastValidatedAt :=
        match args.feedbackOutcome with
        | .positive => some args.decision.createdAt
        | .negative => (existingPromotion existing).bind (·.lastValidatedAt)
      lastCounterEvidenceAt :=
        match args.feedbackOutcome with
        | .negative => some args.decision.createdAt
        | .positive => (existingPromotion existing).bind (·.lastCounterEvidenceAt)
      fallbackTransition :=
        if existingCredibilityState existing = .trusted then
          ((existingPromotion existing).bind (·.lastTransition)).or (some .promotedToTrusted)
        else none }

def baseTrustHardening (args : PatternFeedback) (existing : Option MemoryAnchorV1) :
    TrustHardening where
  taskFamily := args.taskFamily
  errorFamily := args.errorFamily
  observedTaskFamilies := observedTaskFamilies args existing
  observedErrorFamilies := observedErrorFamilies args existing
  distinctTaskFamilyCount := (observedTaskFamilies args existing).length
  distinctErrorFamilyCount := (observedErrorFamilies args existing).length
  postContestObservedRunIds := postContestObservedRunIds args existing
  postContestDistinctRunCount := (postContestObservedRunIds args existing).length
  promotionGateSatisfied := requiredDistinctRuns existing ≤ distinctRunCount args existing
  revalidationFloorSatisfied := revalidationFloorSatisfied args existing

def outcomeTags (args : PatternFeedback) (existing : Option MemoryAnchorV1) : List String :=
  uniqueStrings
    [match args.feedbackOutcome with
      | .negative => "negative_feedback"
      | .positive => "positive_feedback",
      if args.sourceRuleIds ≠ [] then "rule_backed_selection" else "feedback_derived_selection",
      if counterEvidenceOpen args existing then "counter_evidence_open"
      else "counter_evidence_clear",
      "credibility_" ++ (credibilityState args existing).name,
      if patternState args existing = .stable then "stable_pattern" else "provisional_pattern"] 8

/-- `baseAnchor`, before the schema reads it. -/
def baseAnchor (args : PatternFeedback) (existing : Option MemoryAnchorV1) : MemoryAnchorV1 where
  contractTrust := derivePatternAnchorContractTrust (some (patternState args existing))
    (some (credibilityState args existing))
  patternState := some (patternState args existing)
  credibilityState := some (credibilityState args existing)
  taskSignature := args.taskSignature
  taskFamily := args.taskFamily
  errorSignature := args.errorSignature
  errorFamily := args.errorFamily
  patternSignature := args.patternSignature
  summary := buildPatternSummary args (patternState args existing) (credibilityState args existing)
  toolSet := args.candidates
  selectedTool := args.selectedTool
  keySteps :=
    ["evaluate active tool rules", "select " ++ args.selectedTool,
      match args.feedbackOutcome with
      | .negative => "record negative execution feedback"
      | .positive => "record positive execution feedback"]
  outcome :=
    match args.feedbackOutcome with
    | .negative => ⟨.mixed, "tool_selection_pattern_counter_evidence", 34 / 100⟩
    | .positive =>
      if patternState args existing = .stable then
        ⟨.success, "tool_selection_pattern_stable", 92 / 100⟩
      else ⟨.success, "tool_selection_pattern_candidate", 68 / 100⟩
  source := ⟨some args.decision.id, args.decision.runId, some args.feedbackCommitId⟩
  payloadRefs :=
    { nodeIds := uniqueStrings ((existingPayloadRefs existing).nodeIds ++ args.sourceRuleIds) 256
      decisionIds := uniqueStrings
        ((existingPayloadRefs existing).decisionIds ++ [args.decision.id]) 256
      runIds := uniqueStrings
        ((existingPayloadRefs existing).runIds ++ args.decision.runId.toList) 256
      stepIds := (existingPayloadRefs existing).stepIds
      commitIds := uniqueStrings ((existingPayloadRefs existing).commitIds ++
        args.feedbackCommitId :: args.decision.commitId.toList) 256 }
  recallFeatures :=
    { errorTags := (args.errorSignature.filter (· ≠ "")).toList
      toolTags := uniqueStrings (args.selectedTool :: args.candidates) 16
      outcomeTags := outcomeTags args existing
      keywords := uniqueStrings (args.selectedTool :: args.taskCue.toList ++
        args.errorSignature.toList ++ args.candidates ++ args.sourceRuleIds) 16 }
  metrics := some
    { usageCount := ((existingMetrics existing).map (·.usageCount)).getD 0
      reuseSuccessCount := reuseSuccessCount args existing
      reuseFailureCount := reuseFailureCount args existing
      distinctRunCount := distinctRunCount args existing
      lastUsedAt := some args.decision.createdAt }
  maintenance := buildPatternMaintenanceMetadata
    { credibilityState := credibilityState args existing
      distinctRunCount := distinctRunCount args existing
      requiredDistinctRuns := requiredDistinctRuns existing
      counterEvidenceOpen := counterEvidenceOpen args existing
      atTime := args.decision.createdAt }
  promotion := some (basePromotion args existing)
  trustHardening := some (baseTrustHardening args existing)

/-- The anchor with the governed state, from the base anchor the schema returned. -/
def governedAnchor (args : PatternFeedback) (existing : Option MemoryAnchorV1)
    (base : MemoryAnchorV1) : MemoryAnchorV1 :=
  let promotion := base.promotion
  { base with
    contractTrust := derivePatternAnchorContractTrust (some .stable) (some .trusted)
    patternState := some .stable
    credibilityState := some .trusted
    summary := buildPatternSummary args .stable .trusted
    maintenance := buildPatternMaintenanceMetadata
      { credibilityState := .trusted
        distinctRunCount := distinctRunCount args existing
        requiredDistinctRuns := requiredDistinctRuns existing
        counterEvidenceOpen := false
        atTime := args.decision.createdAt }
    promotion := some (buildPatternPromotionMetadata
      { requiredDistinctRuns :=
          (promotion.map (·.requiredDistinctRuns)).getD (requiredDistinctRuns existing)
        distinctRunCount :=
          (promotion.map (·.distinctRunCount)).getD (distinctRunCount args existing)
        observedRunIds := (promotion.map (·.observedRunIds)).getD []
        counterEvidenceCount :=
          (promotion.map (·.counterEvidenceCount)).getD (nextCounterEvidenceCount args existing)
        counterEvidenceOpen := false
        credibilityState := .trusted
        previousCredibilityState := some ((base.credibilityState.or
          (promotion.map (·.credibilityState))).getD .candidate)
        atTime := args.decision.createdAt
        stableAt := (promotion.bind (·.stableAt)).or (some args.decision.createdAt)
        lastValidatedAt := some args.decision.createdAt
        lastCounterEvidenceAt := promotion.bind (·.lastCounterEvidenceAt) })
    trustHardening := some
      { base.trustHardening.getD {} with
        semanticReviewOverrideApplied := true
        semanticReviewOverrideReason := some "high_confidence_form_pattern_review" } }

def buildPatternAnchor (args : PatternFeedback) (existing : Option MemoryAnchorV1)
    (governedPatternStateOverride : Option PatternState) : Option MemoryAnchorV1 := do
  let base ← (baseAnchor args existing).parse
  if governedPatternStateOverride ≠ some .stable then return base
  if base.patternState.getD .provisional = .stable then return base
  (governedAnchor args existing base).parse

theorem buildPatternAnchor_none {args : PatternFeedback} {existing : Option MemoryAnchorV1}
    {a : MemoryAnchorV1} :
    buildPatternAnchor args existing none = some a ↔
      (baseAnchor args existing).valid ∧ baseAnchor args existing = a := by
  rw [← MemoryAnchorV1.parse_eq_some]
  cases h : (baseAnchor args existing).parse with
  | none => simp [buildPatternAnchor, h]
  | some base => simp [buildPatternAnchor, h]

theorem credibilityState_eq_trusted {args : PatternFeedback} {existing : Option MemoryAnchorV1} :
    credibilityState args existing = .trusted ↔ patternState args existing = .stable := by
  unfold credibilityState patternState
  cases counterEvidenceOpen args existing <;> cases runsSuffice args existing <;> simp

/-! ## The stored anchor -/

/-- `redactJsonStrings` on an anchor; the fixed words of the format hold nothing to redact. -/
def MemoryAnchorV1.redacted (redactPII : String → String) (a : MemoryAnchorV1) : MemoryAnchorV1 :=
  { a with
    taskSignature := redactPII a.taskSignature
    taskFamily := a.taskFamily.map redactPII
    errorSignature := a.errorSignature.map redactPII
    errorFamily := a.errorFamily.map redactPII
    patternSignature := redactPII a.patternSignature
    summary := redactPII a.summary
    toolSet := a.toolSet.map redactPII
    selectedTool := redactPII a.selectedTool
    keySteps := a.keySteps.map redactPII
    source :=
      { decisionId := a.source.decisionId.map redactPII
        runId := a.source.runId.map redactPII
        commitId := a.source.commitId.map redactPII }
    payloadRefs :=
      { nodeIds := a.payloadRefs.nodeIds.map redactPII
        decisionIds := a.payloadRefs.decisionIds.map redactPII
        runIds := a.payloadRefs.runIds.map redactPII
        stepIds := a.payloadRefs.stepIds.map redactPII
        commitIds := a.payloadRefs.commitIds.map redactPII }
    recallFeatures :=
      { errorTags := a.recallFeatures.errorTags.map redactPII
        toolTags := a.recallFeatures.toolTags.map redactPII
        outcomeTags := a.recallFeatures.outcomeTags
        keywords := a.recallFeatures.keywords.map redactPII }
    metrics := a.metrics.map fun m => { m with lastUsedAt := m.lastUsedAt.map redactPII }
    maintenance :=
      { a.maintenance with lastMaintenanceAt := a.maintenance.lastMaintenanceAt.map redactPII }
    promotion := a.promotion.map fun p =>
      { p with
        observedRunIds := p.observedRunIds.map redactPII
        lastTransitionAt := p.lastTransitionAt.map redactPII
        stableAt := p.stableAt.map redactPII
        lastValidatedAt := p.lastValidatedAt.map redactPII
        lastCounterEvidenceAt := p.lastCounterEvidenceAt.map redactPII }
    trustHardening := a.trustHardening.map fun h =>
      { h with
        taskFamily := h.taskFamily.map redactPII
        errorFamily := h.errorFamily.map redactPII
        observedTaskFamilies := h.observedTaskFamilies.map redactPII
        observedErrorFamilies := h.observedErrorFamilies.map redactPII
        postContestObservedRunIds := h.postContestObservedRunIds.map redactPII } }

/-- What `prepareMemoryWrite` leaves of the anchor of a new node. -/
def storedAnchor (opts : Util.TextPolicy) (a : MemoryAnchorV1) : MemoryAnchorV1 :=
  if opts.piiRedaction then a.redacted opts.redactPII else a

/-- `writeToolsDecisionPatternAnchor` as far as it changes the stored anchor, from no anchor
or from the one the lookup finds. `none` stands for a call that fails and records nothing. -/
def writePatternAnchor (opts : Util.TextPolicy) (governedPatternStateOverride : Option PatternState)
    (stored : Option MemoryAnchorV1) (args : PatternFeedback) : Option (Option MemoryAnchorV1) :=
  match stored with
  | none =>
    match args.feedbackOutcome with
    | .negative => some none
    | .positive => do
      let anchor ← buildPatternAnchor args none governedPatternStateOverride
      return some (storedAnchor opts anchor)
  | some stored => do
    let existing ← stored.parse
    let anchor ← buildPatternAnchor args (some existing) governedPatternStateOverride
    return some anchor

theorem writePatternAnchor_some {opts : Util.TextPolicy} {o : Option PatternState}
    {stored : MemoryAnchorV1} {args : PatternFeedback} {s : Option MemoryAnchorV1} :
    writePatternAnchor opts o (some stored) args = some s ↔
      stored.valid ∧ ∃ a, buildPatternAnchor args (some stored) o = some a ∧ s = some a := by
  unfold writePatternAnchor
  simp only [bind, pure, Option.bind_eq_some_iff, MemoryAnchorV1.parse_eq_some]
  constructor
  · rintro ⟨b, ⟨hv, rfl⟩, a, ha, h⟩
    exact ⟨hv, a, ha, (Option.some.inj h).symm⟩
  · rintro ⟨hv, a, ha, rfl⟩
    exact ⟨stored, ⟨hv, rfl⟩, a, ha, rfl⟩

theorem writePatternAnchor_none {opts : Util.TextPolicy} {o : Option PatternState}
    {args : PatternFeedback} {s : Option MemoryAnchorV1} (hpos : args.feedbackOutcome = .positive) :
    writePatternAnchor opts o none args = some s ↔
      ∃ a, buildPatternAnchor args none o = some a ∧ s = some (storedAnchor opts a) := by
  unfold writePatternAnchor
  simp only [hpos, bind, pure, Option.bind_eq_some_iff]
  constructor
  · rintro ⟨a, ha, h⟩
    exact ⟨a, ha, (Option.some.inj h).symm⟩
  · rintro ⟨a, ha, rfl⟩
    exact ⟨a, ha, rfl⟩

end AionisCore.Memory
