import AionisCore.Memory.ExecutionContract
import AionisCore.Memory.LifecycleSignals

/-!
# Forgetting

The tier that `resolveSemanticForgettingDecision` proposes: as time passes, and as the feedback
on a node gets worse, its scores fall, and the proposed tier gets colder.
-/

namespace AionisCore.Memory

open Lib Lib.JsString

/-- The environment with the contract that `deriveExecutionContractFromSlots` derives. -/
def ScoringEnv.withContract (env : ScoringEnv) : ScoringEnv :=
  { env with deriveExecutionContractFromSlots := fun slots provenance =>
      (ExecutionContract.deriveExecutionContractFromSlots slots provenance).map (·.toJson) }

def MemoryTierName.rank : MemoryTierName → Nat
  | .archive => 0
  | .cold => 1
  | .warm => 2
  | .hot => 3

/-- The target tier of a decision. -/
def proposedTier (env : ScoringEnv) (now : ℚ) (args : PriorityArgs) : MemoryTierName :=
  let tier := normalizeMemoryTier args.tier
  (forgettingAction tier (deriveLifecycleState env args.slots tier)
    (resolveNodePriorityProfile env now { args with tier := some tier.name }).retentionScore
    (deriveFeedbackQuality env args.slots)).2.1

/-! ## Scores that fall -/

def PriorityProfile.Below (p q : PriorityProfile) : Prop :=
  p.salience ≤ q.salience ∧ p.importance ≤ q.importance ∧ p.confidence ≤ q.confidence

section Scores

variable {p q d e : PriorityProfile} {a b x y : ℚ}

theorem PriorityProfile.Below.add (h : p.Below q) (hd : d.Below e) : (p.add d).Below (q.add e) :=
  ⟨add_le_add h.1 hd.1, add_le_add h.2.1 hd.2.1, add_le_add h.2.2 hd.2.2⟩

theorem PriorityProfile.Below.rfl : p.Below p := ⟨le_rfl, le_rfl, le_rfl⟩

theorem clamp01_le_clamp01 (h : a ≤ b) : clamp01 a ≤ clamp01 b := by
  unfold clamp01
  split_ifs <;> linarith

theorem clampUnit_le_clampUnit (h : a ≤ b) : clampUnit a ≤ clampUnit b :=
  max_le_max le_rfl (min_le_min le_rfl h)

/-- What a recency adjustment adds. -/
def recencyDelta (age : Option ℚ) : PriorityProfile := (recencyAdjustment age).getD ⟨0, 0, 0⟩

theorem adjusted_eq (age : Option ℚ) :
    ((recencyAdjustment age).map p.add).getD p = p.add (recencyDelta age) := by
  unfold recencyDelta
  cases recencyAdjustment age with
  | some d => rfl
  | none => simp [PriorityProfile.add]

theorem recencyDelta_below (h : a ≤ b) : (recencyDelta (some b)).Below (recencyDelta (some a)) := by
  unfold recencyDelta recencyAdjustment
  dsimp only
  split_ifs <;>
    simp [PriorityProfile.Below, profileOf, addProfile, PriorityProfile.add] <;>
    first
    | linarith
    | norm_num

theorem retentionRecency_le (h : a ≤ b) :
    retentionRecency (some b) ≤ retentionRecency (some a) := by
  unfold retentionRecency
  dsimp only
  split_ifs <;> linarith

theorem PriorityProfile.Below.addProfile (h : p.Below q) (hx : x ≤ y) (hab : a ≤ b) {c d : ℚ}
    (hcd : c ≤ d) : (addProfile p x a c).Below (addProfile q y b d) := by
  refine h.add ⟨?_, ?_, ?_⟩ <;> dsimp only <;> linarith

theorem PriorityProfile.Below.ite {u : Prop} [Decidable u] (s i c : ℚ) (h : p.Below q) :
    (if u then AionisCore.Memory.addProfile p s i c else p).Below
      (if u then AionisCore.Memory.addProfile q s i c else q) := by
  split
  · exact h.addProfile le_rfl le_rfl le_rfl
  · exact h

theorem PriorityProfile.Below.raised (h : p.Below q) :
    let salience (p : PriorityProfile) :=
      max (clamp01 p.salience) (min (35 / 100) (clamp01 p.importance * (1 / 2)))
    let importance (p : PriorityProfile) :=
      max (clamp01 p.importance) (min (35 / 100) (clamp01 (salience p) * (1 / 2)))
    let raise (p : PriorityProfile) : PriorityProfile :=
      ⟨clamp01 (salience p), clamp01 (importance p), clamp01 (clamp01 p.confidence)⟩
    (raise p).Below (raise q) := by
  obtain ⟨hs, hi, hc⟩ := h
  have hhalf : ∀ {x y : ℚ}, x ≤ y → min (35 / 100) (clamp01 x * (1 / 2)) ≤
      min (35 / 100) (clamp01 y * (1 / 2)) := by
    intro x y hxy
    exact min_le_min le_rfl (mul_le_mul_of_nonneg_right (clamp01_le_clamp01 hxy) (by norm_num))
  have hsalience := max_le_max (clamp01_le_clamp01 hs) (hhalf hi)
  exact ⟨clamp01_le_clamp01 hsalience,
    clamp01_le_clamp01 (max_le_max (clamp01_le_clamp01 hi) (hhalf hsalience)),
    clamp01_le_clamp01 (clamp01_le_clamp01 hc)⟩

/-- What the texts and the tier add keeps the order of the scores. -/
theorem PriorityProfile.Below.bounded {args args' : PriorityArgs} (h : p.Below q)
    (htitle : args'.title = args.title) (htext : args'.textSummary = args.textSummary)
    (htier : args'.tier = args.tier) :
    (boundedProfile args' p).Below (boundedProfile args q) := by
  unfold boundedProfile
  rw [htitle, htext, htier]
  refine PriorityProfile.Below.raised ?_
  have htitled := h.ite (u := firstString [args.title.map .str, args.textSummary.map .str] = none)
    (-2) (-1) (-4)
  split
  · exact htitled.addProfile le_rfl le_rfl le_rfl
  · exact htitled.ite _ _ _

theorem computeRetentionScore_le {age age' : Option ℚ} (h : p.Below q) (hab : a ≤ b)
    (hrecency : retentionRecency age' ≤ retentionRecency age) :
    computeRetentionScore p a age' ≤ computeRetentionScore q b age := by
  unfold computeRetentionScore
  have hs := clamp01_le_clamp01 h.1
  have hi := clamp01_le_clamp01 h.2.1
  have hc := clamp01_le_clamp01 h.2.2
  have hq := clampUnit_le_clampUnit hab
  refine clamp01_le_clamp01 ?_
  linarith

/-- The stored scores stand for the derived ones. -/
theorem PriorityProfile.Below.stored {args : PriorityArgs} (h : p.Below q) :
    PriorityProfile.Below
      ⟨(args.salience.map clamp01).getD p.salience,
        (args.importance.map clamp01).getD p.importance,
        (args.confidence.map clamp01).getD p.confidence⟩
      ⟨(args.salience.map clamp01).getD q.salience,
        (args.importance.map clamp01).getD q.importance,
        (args.confidence.map clamp01).getD q.confidence⟩ := by
  have hgetD : ∀ (o : Option ℚ) {x y : ℚ}, x ≤ y → o.getD x ≤ o.getD y := by
    intro o x y hxy
    cases o with
    | none => exact hxy
    | some z => exact le_rfl
  exact ⟨hgetD _ h.1, hgetD _ h.2.1, hgetD _ h.2.2⟩

/-- A lower score and a worse feedback give a tier that is not warmer. -/
theorem forgettingAction_le {tier : MemoryTierName} {state : SemanticForgettingLifecycleState}
    (hxy : x ≤ y) (hab : a ≤ b) :
    (forgettingAction tier state x a).2.1.rank ≤ (forgettingAction tier state y b).2.1.rank := by
  unfold forgettingAction
  dsimp only
  cases tier <;>
    split_ifs <;>
    first
    | decide
    | grind

theorem forgettingAction_le_current {tier : MemoryTierName}
    {state : SemanticForgettingLifecycleState} :
    (forgettingAction tier state x a).2.1.rank ≤ tier.rank := by
  unfold forgettingAction
  dsimp only
  cases tier <;> split_ifs <;> first | decide | grind

end Scores

/-! ## Time -/

section Time

variable {env : ScoringEnv} {now now' : ℚ} {args : PriorityArgs}

/-- The reference time in milliseconds, or else now. -/
def referenceMs (env : ScoringEnv) (now : ℚ) (referenceTime : Option String) : ℚ :=
  (referenceTime.bind env.parseDate).getD now

theorem priorityProfileAt_later {a b : ℚ} (h : a ≤ b) :
    (priorityProfileAt env args (some b)).retentionScore ≤
      (priorityProfileAt env args (some a)).retentionScore := by
  unfold priorityProfileAt
  dsimp only
  refine computeRetentionScore_le (PriorityProfile.Below.stored ?_) le_rfl (retentionRecency_le h)
  unfold derivePriorityProfile
  dsimp only
  rw [adjusted_eq, adjusted_eq]
  exact (PriorityProfile.Below.rfl.add (recencyDelta_below h)).bounded rfl rfl rfl

/-- The later the reference time, the colder the proposed tier. -/
theorem proposedTier_later {r r' : Option String}
    (h : referenceMs env now r ≤ referenceMs env now' r') :
    (proposedTier env now' { args with referenceTime := r' }).rank ≤
      (proposedTier env now { args with referenceTime := r }).rank := by
  unfold proposedTier resolveNodePriorityProfile
  refine forgettingAction_le ?_ le_rfl
  unfold PriorityArgs.age ageDays
  dsimp only
  cases (deriveAnchorMetrics env args.slots).lastUsedAt.bind env.parseDate with
  | none => exact le_rfl
  | some ms =>
    refine @priorityProfileAt_later env
      { args with tier := some (normalizeMemoryTier args.tier).name } _ _ ?_
    refine div_le_div_of_nonneg_right ?_ (by norm_num)
    exact sub_le_sub_right h ms

end Time

/-! ## Feedback -/

section Feedback

variable {env : ScoringEnv} {now : ℚ} {args : PriorityArgs} {slots : Json.Fields} {v : Json}

theorem deriveExecutionContractFromSlots_feedback :
    env.withContract.deriveExecutionContractFromSlots (Json.set slots "feedback_quality" v) none =
      env.withContract.deriveExecutionContractFromSlots slots none := by
  refine congrArg (Option.map _) ?_
  unfold ExecutionContract.deriveExecutionContractFromSlots
    ExecutionContract.deriveExecutionContract ExecutionContract.projected
    ExecutionContract.Sources.projection ExecutionContract.Sources.surface
    ExecutionContract.sources
  simp (disch := decide) only [Json.get_set_of_ne]

section Resolvers

variable (slots v)

theorem resolveNodeSummaryKind_feedback :
    resolveNodeSummaryKind (Json.set slots "feedback_quality" v) =
      resolveNodeSummaryKind slots := by
  unfold resolveNodeSummaryKind parseNodeExecutionNative
  simp (disch := decide) only [Json.get_set_of_ne]

theorem resolveNodeAnchorKind_feedback :
    resolveNodeAnchorKind (Json.set slots "feedback_quality" v) =
      resolveNodeAnchorKind slots := by
  unfold resolveNodeAnchorKind resolveNodeExecutionKind parseNodeExecutionNative parseNodeAnchor
  simp (disch := decide) only [Json.get_set_of_ne]

theorem resolveNodeCompressionLayer_feedback (type : String) :
    resolveNodeCompressionLayer (Json.set slots "feedback_quality" v) type =
      resolveNodeCompressionLayer slots type := by
  unfold resolveNodeCompressionLayer
  rw [resolveNodeSummaryKind_feedback]
  unfold parseNodeExecutionNative parseNodeAnchor
  simp (disch := decide) only [Json.get_set_of_ne]

theorem resolveNodeCredibilityState_feedback :
    resolveNodeCredibilityState (Json.set slots "feedback_quality" v) =
      resolveNodeCredibilityState slots := by
  unfold resolveNodeCredibilityState resolveNodePatternState surfaceRecord
    parseNodeExecutionNative parseNodeAnchor
  simp (disch := decide) only [Json.get_set_of_ne]

theorem resolveNodeWorkflowPromotionSurface_feedback :
    resolveNodeWorkflowPromotionSurface (Json.set slots "feedback_quality" v) =
      resolveNodeWorkflowPromotionSurface slots := by
  unfold resolveNodeWorkflowPromotionSurface surfaceRecord parseNodeExecutionNative
    parseNodeAnchor
  simp (disch := decide) only [Json.get_set_of_ne]

theorem resolveNodePolicyMemoryState_feedback :
    resolveNodePolicyMemoryState (Json.set slots "feedback_quality" v) =
      resolveNodePolicyMemoryState slots := by
  unfold resolveNodePolicyMemoryState parseNodeExecutionNative
  simp (disch := decide) only [Json.get_set_of_ne]

theorem resolveNodeExecutionContractTrust_feedback :
    resolveNodeExecutionContractTrust (Json.set slots "feedback_quality" v) env.withContract =
      resolveNodeExecutionContractTrust slots env.withContract := by
  unfold resolveNodeExecutionContractTrust
  rw [deriveExecutionContractFromSlots_feedback]

theorem deriveAnchorMetrics_feedback :
    deriveAnchorMetrics env (Json.set slots "feedback_quality" v) =
      deriveAnchorMetrics env slots := by
  unfold deriveAnchorMetrics
  rw [resolveNodeWorkflowPromotionSurface_feedback]
  unfold resolveNodeAnchorMetricsSurface resolvePatternDistinctRunCount surfaceRecord
    parseNodeExecutionNative parseNodeAnchor
  simp (disch := decide) only [Json.get_set_of_ne]

theorem deriveLifecycleState_feedback {tier : MemoryTierName} :
    deriveLifecycleState env.withContract (Json.set slots "feedback_quality" v) tier =
      deriveLifecycleState env.withContract slots tier := by
  unfold deriveLifecycleState
  rw [resolveNodePolicyMemoryState_feedback, resolveNodeCredibilityState_feedback,
    resolveNodeSummaryKind_feedback, resolveNodeExecutionContractTrust_feedback,
    Json.get_set_of_ne (by decide)]

end Resolvers

/-- The bonuses before that of the feedback do not depend on it. -/
theorem unadjustedProfile_feedback (env : ScoringEnv) (args : PriorityArgs) :
    ∃ base : PriorityProfile,
      unadjustedProfile env.withContract args =
        addProfile base (extractFeedbackQuality env args.slots * 4)
          (extractFeedbackQuality env args.slots * 6)
          (extractFeedbackQuality env args.slots * 6) ∧
      ∀ v, unadjustedProfile env.withContract
          { args with slots := Json.set args.slots "feedback_quality" v } =
        addProfile base
          (extractFeedbackQuality env (Json.set args.slots "feedback_quality" v) * 4)
          (extractFeedbackQuality env (Json.set args.slots "feedback_quality" v) * 6)
          (extractFeedbackQuality env (Json.set args.slots "feedback_quality" v) * 6) := by
  refine ⟨?_, ?_, fun v => ?_⟩
  rotate_left
  · unfold unadjustedProfile
    rfl
  · unfold unadjustedProfile
    simp only [resolveNodeSummaryKind_feedback, resolveNodeAnchorKind_feedback,
      resolveNodeCompressionLayer_feedback, resolveNodeCredibilityState_feedback,
      resolveNodeWorkflowPromotionSurface_feedback, resolveNodePolicyMemoryState_feedback,
      resolveNodeExecutionContractTrust_feedback, deriveAnchorMetrics_feedback]
    rfl

theorem extractFeedbackQuality_of_number {q : ℚ}
    (h : numeric env (Json.get slots "feedback_quality") = some q) :
    extractFeedbackQuality env slots = clampUnit q ∧
      deriveFeedbackQuality env slots = clampUnit q := by
  unfold extractFeedbackQuality deriveFeedbackQuality
  rw [h]
  exact ⟨rfl, rfl⟩

/-- The worse the feedback, the colder the proposed tier. -/
theorem proposedTier_feedback {p q : ℚ}
    (hq : numeric env (Json.get args.slots "feedback_quality") = some q)
    (hp : numeric env (some v) = some p) (hpq : p ≤ q) :
    (proposedTier env.withContract now
        { args with slots := Json.set args.slots "feedback_quality" v }).rank ≤
      (proposedTier env.withContract now args).rank := by
  have hquality := clampUnit_le_clampUnit hpq
  obtain ⟨hextract, hderive⟩ := extractFeedbackQuality_of_number hq
  have hset : numeric env (Json.get (Json.set args.slots "feedback_quality" v)
      "feedback_quality") = some p := (Json.get_set_self _ _ _).symm ▸ hp
  obtain ⟨hextract', hderive'⟩ := extractFeedbackQuality_of_number hset
  unfold proposedTier resolveNodePriorityProfile PriorityArgs.age
  dsimp only
  rw [deriveLifecycleState_feedback, deriveAnchorMetrics_feedback]
  refine forgettingAction_le ?_ (hderive'.trans_le (hquality.trans_eq hderive.symm))
  unfold priorityProfileAt
  dsimp only
  refine computeRetentionScore_le (PriorityProfile.Below.stored ?_)
    (hextract'.trans_le (hquality.trans_eq hextract.symm)) le_rfl
  obtain ⟨base, hbase, hbase'⟩ := unadjustedProfile_feedback env
    { args with tier := some (normalizeMemoryTier args.tier).name }
  unfold derivePriorityProfile
  dsimp only at hbase hbase' ⊢
  rw [hbase, hbase' v, adjusted_eq, adjusted_eq, hextract, hextract']
  have hbelow := PriorityProfile.Below.rfl.addProfile (p := base)
    (by linarith : clampUnit p * 4 ≤ clampUnit q * 4)
    (by linarith : clampUnit p * 6 ≤ clampUnit q * 6)
    (by linarith : clampUnit p * 6 ≤ clampUnit q * 6)
  exact (hbelow.add PriorityProfile.Below.rfl).bounded rfl rfl rfl

end Feedback

/-- The decision names the proposed tier. That tier is not warmer than the tier of the node, a
node of the archive stays there, and a later time or a worse feedback gives no warmer tier. -/
theorem semanticForgetting_cools (env : ScoringEnv) (args : PriorityArgs) :
    (∀ now, Json.field (Json.asRecord
        (some (resolveSemanticForgettingDecision env.withContract now args))) "target_tier" =
      some (.str (proposedTier env.withContract now args).name)) ∧
    (∀ now, (proposedTier env.withContract now args).rank ≤
      (normalizeMemoryTier args.tier).rank) ∧
    (∀ now, normalizeMemoryTier args.tier = .archive →
      proposedTier env.withContract now args = .archive) ∧
    (∀ now now' r r', referenceMs env now r ≤ referenceMs env now' r' →
      (proposedTier env.withContract now' { args with referenceTime := r' }).rank ≤
        (proposedTier env.withContract now { args with referenceTime := r }).rank) ∧
    ∀ now v p q, numeric env (Json.get args.slots "feedback_quality") = some q →
      numeric env (some v) = some p → p ≤ q →
      (proposedTier env.withContract now
          { args with slots := Json.set args.slots "feedback_quality" v }).rank ≤
        (proposedTier env.withContract now args).rank := by
  have hcurrent : ∀ now, (proposedTier env.withContract now args).rank ≤
      (normalizeMemoryTier args.tier).rank := fun _ => forgettingAction_le_current
  refine ⟨fun _ => rfl, hcurrent, fun now harchive => ?_, fun _ _ _ _ h => proposedTier_later h,
    fun now v p q hq hp hpq => proposedTier_feedback hq hp hpq⟩
  have hrank := hcurrent now
  rw [harchive] at hrank
  revert hrank
  cases proposedTier env.withContract now args <;> decide

/-- Numbers are numbers, and no date is read. -/
def sampleScoringEnv : ScoringEnv where
  toNumber
    | .num q => some q
    | _ => none
  parseDate _ := none
  deriveExecutionContractFromSlots _ _ := none

/-- A hot event with a good feedback. -/
def sampleStoredNode : PriorityArgs where
  type := "event"
  tier := some "hot"
  title := none
  textSummary := some "a note"
  slots := [("feedback_quality", .num 1)]

theorem semanticForgetting_cools_event :
    (proposedTier sampleScoringEnv.withContract 5
        { sampleStoredNode with referenceTime := none }).rank ≤
      (proposedTier sampleScoringEnv.withContract 4
        { sampleStoredNode with referenceTime := none }).rank ∧
    (proposedTier sampleScoringEnv.withContract 4 { sampleStoredNode with
        slots := Json.set sampleStoredNode.slots "feedback_quality" (.num (-1)) }).rank ≤
      (proposedTier sampleScoringEnv.withContract 4 sampleStoredNode).rank ∧
    proposedTier sampleScoringEnv.withContract 4 { sampleStoredNode with tier := none } =
      .archive :=
  ⟨(semanticForgetting_cools sampleScoringEnv sampleStoredNode).2.2.2.1 4 5 none none
      (by norm_num [referenceMs]),
    (semanticForgetting_cools sampleScoringEnv sampleStoredNode).2.2.2.2 4 (.num (-1)) (-1) 1 rfl
      rfl (by norm_num),
    (semanticForgetting_cools sampleScoringEnv { sampleStoredNode with tier := none }).2.2.1 4 rfl⟩

end AionisCore.Memory
