import AionisCore.Lib.Run
import AionisCore.Memory.PatternAnchor

/-!
# Events that the anchor schema accepts

Feedback whose texts are short enough is never rejected: the anchor built from it
and from a stored anchor is one the schema reads.
-/

namespace AionisCore.Memory

open Lib Lib.JsString

/-- The texts of an event are short enough for the anchor they go into. -/
structure PatternFeedback.Fits (args : PatternFeedback) : Prop where
  taskCue : ∀ s ∈ args.taskCue, length s ≤ 256
  taskSignature : fits 256 args.taskSignature
  taskFamily : args.taskFamily.all (fits 128)
  errorSignature : args.errorSignature.all (fits 256)
  errorFamily : args.errorFamily.all (fits 128)
  patternSignature : fits 256 args.patternSignature
  selectedTool : fits 128 args.selectedTool
  candidates : listFits 64 128 args.candidates
  sourceRuleIds : ∀ s ∈ args.sourceRuleIds, length s ≤ 256
  decisionId : fits 256 args.decision.id
  runId : args.decision.runId.all (fits 256)
  createdAt : args.decision.createdAt ≠ ""
  commitId : ∀ s ∈ args.decision.commitId, length s ≤ 256
  feedbackCommitId : fits 256 args.feedbackCommitId

variable {n k : Nat} {s : String}

theorem fits_iff : fits n s = true ↔ 1 ≤ length s ∧ length s ≤ n := by
  simp [fits]

theorem fits_mono {m : Nat} (hmn : m ≤ n) (h : fits m s) : fits n s := by
  rw [fits_iff] at h ⊢
  omega

theorem all_fits_mono {m : Nat} {s : Option String} (hmn : m ≤ n) (h : s.all (fits m)) :
    s.all (fits n) := by
  cases s with
  | none => rfl
  | some s => exact fits_mono hmn h

theorem listFits_iff {xs : List String} :
    listFits k n xs = true ↔ xs.length ≤ k ∧ ∀ x ∈ xs, fits n x := by
  simp [listFits]

/-- Collected strings fit where the strings they come from are short enough. -/
theorem listFits_uniqueStrings {limit : Nat} {values : List String} (hk : limit ≤ k)
    (h : ∀ v ∈ values, length v ≤ n) : listFits k n (uniqueStrings values limit) := by
  refine listFits_iff.2 ⟨?_, fun x hx => ?_⟩
  · have := List.length_take_le limit (distinctStrings values)
    rw [uniqueStrings]
    omega
  · obtain ⟨⟨y, hy, rfl⟩, hne⟩ := mem_uniqueStrings hx
    have := h y hy
    have := length_trim_le y
    exact fits_iff.2 ⟨one_le_length hne, by omega⟩

theorem length_le_of_mem {xs : List String} (h : listFits k n xs) (hs : s ∈ xs) : length s ≤ n :=
  (fits_iff.1 ((listFits_iff.1 h).2 s hs)).2

theorem length_le_of_all {o : Option String} (h : o.all (fits n)) (hs : s ∈ o.toList) :
    length s ≤ n := by
  cases o with
  | none => cases hs
  | some t =>
    obtain rfl := List.mem_singleton.1 hs
    exact (fits_iff.1 h).2

theorem fits_truncate (hn : 3 ≤ n) (hs : s ≠ "") : fits n (truncate s n) := by
  rw [fits_iff, truncate]
  split
  · next h => exact ⟨one_le_length hs, h⟩
  · have htake := length_take_le (n - 3) s
    have htrim : length (trimEnd (take (n - 3) s)) ≤ length (take (n - 3) s) := by
      simpa [length, trimEnd] using
        sum_width_le (List.rdropWhile_prefix isWhite (take (n - 3) s).toList).sublist
    rw [length_append, show length "..." = 3 from rfl]
    omega

theorem buildPatternSummary_fits (args : PatternFeedback) (state : PatternState)
    (credibility : PatternCredibilityState) :
    fits 400 (buildPatternSummary args state credibility) := by
  refine fits_truncate (by omega) fun h => ?_
  have := congrArg String.toList h
  cases credibility <;> simp at this

theorem outcomeTags_fit (args : PatternFeedback) (existing : Option MemoryAnchorV1) :
    stringListFits (outcomeTags args existing) := by
  refine listFits_uniqueStrings (by omega) fun v hv => ?_
  have hfixed : ∀ t ∈ ["negative_feedback", "positive_feedback", "rule_backed_selection",
      "feedback_derived_selection", "counter_evidence_open", "counter_evidence_clear",
      "credibility_candidate", "credibility_trusted", "credibility_contested", "stable_pattern",
      "provisional_pattern"], length t ≤ 256 := by decide +kernel
  refine hfixed v ?_
  simp only [List.mem_cons, List.not_mem_nil, or_false] at hv
  rcases hv with rfl | rfl | rfl | rfl | rfl
  · cases args.feedbackOutcome <;> simp
  · split <;> simp
  · split <;> simp
  · cases credibilityState args existing <;> simp [PatternCredibilityState.name] 
  · split <;> simp

/-- What the schema guarantees of the stored anchor, in the terms the next one is built from. -/
structure ExistingFits (existing : Option MemoryAnchorV1) : Prop where
  requiredDistinctRuns : requiredDistinctRuns existing ≤ 32
  observedRunIds : ∀ s ∈ existingObservedRunIds existing, length s ≤ 256
  postContest : ∀ s ∈ observedPostContestRunIds existing, length s ≤ 256
  taskFamilies : ∀ s ∈ ((existingHardening existing).map (·.observedTaskFamilies)).getD [],
    length s ≤ 256
  errorFamilies : ∀ s ∈ ((existingHardening existing).map (·.observedErrorFamilies)).getD [],
    length s ≤ 256
  payloadRefs : (existingPayloadRefs existing).valid
  times : ∀ p ∈ existingPromotion existing, p.valid

theorem length_le_of_mem_uniqueStrings {values : List String} {limit : Nat} {x : String}
    (h : ∀ v ∈ values, length v ≤ n) (hx : x ∈ uniqueStrings values limit) : length x ≤ n := by
  obtain ⟨⟨y, hy, rfl⟩, -⟩ := mem_uniqueStrings hx
  have := h y hy
  have := length_trim_le y
  omega

theorem MemoryAnchorV1.valid_parts {a : MemoryAnchorV1} (h : a.valid) :
    a.payloadRefs.valid ∧ (∀ p ∈ a.promotion, p.valid) ∧ ∀ t ∈ a.trustHardening, t.valid := by
  simp only [MemoryAnchorV1.valid, Bool.and_eq_true, and_assoc] at h
  obtain ⟨-, -, -, -, -, -, -, -, -, -, -, -, hrefs, -, -, -, -, hp, ht⟩ := h
  exact ⟨hrefs, (Option.all_eq_true _ _).1 hp, (Option.all_eq_true _ _).1 ht⟩

theorem PatternPromotionMetadata.valid_iff {p : PatternPromotionMetadata} :
    p.valid ↔ 2 ≤ p.requiredDistinctRuns ∧ p.requiredDistinctRuns ≤ 32 ∧
      listFits 16 256 p.observedRunIds ∧ timeFits p.lastTransitionAt ∧ timeFits p.stableAt ∧
      timeFits p.lastValidatedAt ∧ timeFits p.lastCounterEvidenceAt := by
  simp only [PatternPromotionMetadata.valid, Bool.and_eq_true, and_assoc, decide_eq_true_eq]

theorem TrustHardening.valid_parts {h : TrustHardening} (hv : h.valid) :
    stringListFits h.observedTaskFamilies ∧ stringListFits h.observedErrorFamilies ∧
      listFits 16 256 h.postContestObservedRunIds := by
  simp only [TrustHardening.valid, Bool.and_eq_true, and_assoc] at hv
  obtain ⟨-, -, ht, he, hp, -⟩ := hv
  exact ⟨ht, he, hp⟩

theorem forall_mem_getD {β : Type} {o : Option β} {f : β → List String} {P : String → Prop}
    (h : ∀ b, o = some b → ∀ s ∈ f b, P s) : ∀ s ∈ (o.map f).getD [], P s := by
  cases o with
  | none => exact List.forall_mem_nil _
  | some b => exact h b rfl

theorem existingFits_of_valid {existing : Option MemoryAnchorV1}
    (h : ∀ a ∈ existing, a.valid) : ExistingFits existing := by
  cases existing with
  | none =>
    refine ⟨by decide, ?_, ?_, ?_, ?_, by decide, ?_⟩ <;>
      simp [existingObservedRunIds, observedPostContestRunIds, existingHardening,
        existingPromotion, uniqueStrings, distinctStrings]
  | some a =>
    obtain ⟨hrefs, hp, ht⟩ := a.valid_parts (h a rfl)
    have hobserved : ∀ s ∈ (a.promotion.map (·.observedRunIds)).getD [], length s ≤ 256 :=
      forall_mem_getD fun p hpr s hs =>
        length_le_of_mem (PatternPromotionMetadata.valid_iff.1 (hp p hpr)).2.2.1 hs
    have hpost : ∀ s ∈ (a.trustHardening.map (·.postContestObservedRunIds)).getD [],
        length s ≤ 256 :=
      forall_mem_getD fun t hth s hs =>
        length_le_of_mem (TrustHardening.valid_parts (ht t hth)).2.2 hs
    refine ⟨?_, ?_, ?_, ?_, ?_, hrefs, hp⟩
    · show max 3 ((a.promotion.map (·.requiredDistinctRuns)).getD 3) ≤ 32
      cases hpr : a.promotion with
      | none => decide
      | some p =>
        have := (PatternPromotionMetadata.valid_iff.1 (hp p hpr)).2.1
        simp only [Option.map_some, Option.getD_some]
        omega
    · intro s hs
      exact length_le_of_mem_uniqueStrings hobserved hs
    · intro s hs
      exact length_le_of_mem_uniqueStrings hpost hs
    · exact forall_mem_getD fun t hth s hs =>
        length_le_of_mem (TrustHardening.valid_parts (ht t hth)).1 hs
    · exact forall_mem_getD fun t hth s hs =>
        length_le_of_mem (TrustHardening.valid_parts (ht t hth)).2.1 hs

section Parts

variable {args : PatternFeedback} {existing : Option MemoryAnchorV1}

theorem length_le_of_append {xs ys : List String} {n : Nat} (hx : ∀ s ∈ xs, length s ≤ n)
    (hy : ∀ s ∈ ys, length s ≤ n) : ∀ s ∈ xs ++ ys, length s ≤ n := by
  intro s hs
  rcases List.mem_append.1 hs with hs | hs
  · exact hx s hs
  · exact hy s hs

theorem nextObservedRunIds_fit (h : args.Fits) (he : ExistingFits existing) :
    listFits 16 256 (nextObservedRunIds args existing) := by
  unfold nextObservedRunIds
  split
  · exact listFits_uniqueStrings (Nat.le_refl 16)
      (length_le_of_append he.observedRunIds fun s => length_le_of_all h.runId)
  · cases existing with
    | none => rfl
    | some a =>
      refine listFits_iff.2 ⟨List.length_take_le _ _, fun s hs => fits_iff.2 ⟨?_, ?_⟩⟩
      · exact one_le_length (mem_uniqueStrings hs).2
      · exact he.observedRunIds s hs

theorem postContestObservedRunIds_fit (h : args.Fits) (he : ExistingFits existing) :
    listFits 16 256 (postContestObservedRunIds args existing) := by
  unfold postContestObservedRunIds
  split
  · rfl
  · split
    · exact listFits_uniqueStrings (Nat.le_refl 16)
        (length_le_of_append he.postContest fun s => length_le_of_all h.runId)
    · refine listFits_iff.2 ⟨List.length_take_le _ _, fun s hs => fits_iff.2 ⟨?_, ?_⟩⟩
      · exact one_le_length (mem_uniqueStrings hs).2
      · exact he.postContest s hs

theorem timeFits_some {s : String} (h : s ≠ "") : timeFits (some s) :=
  decide_eq_true (one_le_length h)

section

variable (h : args.Fits) (he : ExistingFits existing)

include h he

theorem basePromotion_valid : (basePromotion args existing).valid := by
  have hnow : timeFits (some args.decision.createdAt) := timeFits_some h.createdAt
  have hold : ∀ f : PatternPromotionMetadata → Option String,
      (∀ p : PatternPromotionMetadata, p.valid → timeFits (f p)) →
      timeFits ((existingPromotion existing).bind f) := by
    intro f hf
    cases hp : existingPromotion existing with
    | none => rfl
    | some p => exact hf p (he.times p hp)
  have hreq := he.requiredDistinctRuns
  have hmin : 3 ≤ requiredDistinctRuns existing := Nat.le_max_left _ _
  refine PatternPromotionMetadata.valid_iff.2
    ⟨?_, ?_, nextObservedRunIds_fit h he, hnow, ?_, ?_, ?_⟩
  · show 2 ≤ max 1 (requiredDistinctRuns existing)
    omega
  · show max 1 (requiredDistinctRuns existing) ≤ 32
    omega
  · show timeFits (stableAt args existing)
    unfold stableAt
    split
    · split
      · have := hold (·.stableAt) fun p hp => (PatternPromotionMetadata.valid_iff.1 hp).2.2.2.2.1
        cases hs : (existingPromotion existing).bind (·.stableAt) with
        | none => exact hnow
        | some t => rwa [hs] at this
      · exact hnow
    · rfl
  · unfold basePromotion buildPatternPromotionMetadata
    dsimp only
    split
    · exact hnow
    · exact hold _ fun p hp => (PatternPromotionMetadata.valid_iff.1 hp).2.2.2.2.2.1
  · unfold basePromotion buildPatternPromotionMetadata
    dsimp only
    split
    · exact hnow
    · exact hold _ fun p hp => (PatternPromotionMetadata.valid_iff.1 hp).2.2.2.2.2.2

theorem baseTrustHardening_valid : (baseTrustHardening args existing).valid := by
  have htask : stringListFits (observedTaskFamilies args existing) :=
    listFits_uniqueStrings (by omega) (length_le_of_append
      (fun s hs => length_le_of_mem_uniqueStrings he.taskFamilies hs)
      fun s => length_le_of_all (all_fits_mono (by omega) h.taskFamily))
  have herror : stringListFits (observedErrorFamilies args existing) :=
    listFits_uniqueStrings (by omega) (length_le_of_append
      (fun s hs => length_le_of_mem_uniqueStrings he.errorFamilies hs)
      fun s => length_le_of_all (all_fits_mono (by omega) h.errorFamily))
  simp only [TrustHardening.valid, Bool.and_eq_true, and_assoc]
  exact ⟨h.taskFamily, h.errorFamily, htask, herror, postContestObservedRunIds_fit h he,
    decide_eq_true rfl, decide_eq_true rfl, rfl⟩

theorem payloadRefs_valid : (baseAnchor args existing).payloadRefs.valid := by
  have hrefs := he.payloadRefs
  simp only [AnchorPayloadRefs.valid, Bool.and_eq_true, and_assoc] at hrefs ⊢
  obtain ⟨hn, hd, hr, hs, hc⟩ := hrefs
  refine ⟨listFits_uniqueStrings (Nat.le_refl _) ?_, listFits_uniqueStrings (Nat.le_refl _) ?_,
    listFits_uniqueStrings (Nat.le_refl _) ?_, hs, listFits_uniqueStrings (Nat.le_refl _) ?_⟩
  · exact length_le_of_append (fun s => length_le_of_mem hn) h.sourceRuleIds
  · refine length_le_of_append (fun s => length_le_of_mem hd) fun s hs => ?_
    exact List.mem_singleton.1 hs ▸ (fits_iff.1 h.decisionId).2
  · exact length_le_of_append (fun s => length_le_of_mem hr) fun s => length_le_of_all h.runId
  · refine length_le_of_append (fun s => length_le_of_mem hc) fun s hs => ?_
    rcases List.mem_cons.1 hs with rfl | hs
    · exact (fits_iff.1 h.feedbackCommitId).2
    · exact h.commitId s (Option.mem_toList.1 hs)

end

theorem recallFeatures_valid (h : args.Fits) :
    (baseAnchor args existing).recallFeatures.valid := by
  have htool : length args.selectedTool ≤ 256 :=
    (fits_iff.1 (fits_mono (show 128 ≤ 256 by omega) h.selectedTool)).2
  have hcandidates : ∀ s ∈ args.candidates, length s ≤ 256 := by
    intro s hs
    have := length_le_of_mem h.candidates hs
    omega
  simp only [AnchorRecallFeatures.valid, Bool.and_eq_true, and_assoc, baseAnchor]
  refine ⟨?_, listFits_uniqueStrings (show 16 ≤ 64 by omega) ?_, outcomeTags_fit args existing,
    listFits_uniqueStrings (show 16 ≤ 64 by omega) ?_⟩
  · cases he : args.errorSignature.filter (· ≠ "") with
    | none => rfl
    | some e =>
      have hmem : args.errorSignature = some e := (Option.filter_eq_some_iff.1 he).1
      have hfits := h.errorSignature
      rw [hmem] at hfits
      exact listFits_iff.2 ⟨by simp, fun s hs => List.mem_singleton.1 hs ▸ hfits⟩
  · intro s hs
    rcases List.mem_cons.1 hs with rfl | hs
    · exact htool
    · exact hcandidates s hs
  · refine length_le_of_append (length_le_of_append (length_le_of_append ?_ ?_) hcandidates)
      h.sourceRuleIds
    · intro s hs
      rcases List.mem_cons.1 hs with rfl | hs
      · exact htool
      · exact h.taskCue s (Option.mem_toList.1 hs)
    · exact fun s => length_le_of_all h.errorSignature

theorem keySteps_fit (h : args.Fits) : stringListFits (baseAnchor args existing).keySteps := by
  have htool := (fits_iff.1 h.selectedTool).2
  have hselect : fits 256 ("select " ++ args.selectedTool) := by
    rw [fits_iff, length_append, show length "select " = 7 by decide +kernel]
    omega
  have hfixed : fits 256 "evaluate active tool rules" ∧
      fits 256 "record negative execution feedback" ∧
      fits 256 "record positive execution feedback" := by decide +kernel
  simp only [baseAnchor, stringListFits, listFits, List.all_cons, List.all_nil, hselect,
    hfixed.1, Bool.true_and, Bool.and_true]
  cases args.feedbackOutcome
  · simp [hfixed.2.2]
  · simp [hfixed.2.1]

theorem baseOutcome_valid : (baseAnchor args existing).outcome.valid := by
  have hfixed : (⟨.mixed, "tool_selection_pattern_counter_evidence", 34 / 100⟩ :
      AnchorOutcome).valid ∧ (⟨.success, "tool_selection_pattern_stable", 92 / 100⟩ :
      AnchorOutcome).valid ∧ (⟨.success, "tool_selection_pattern_candidate", 68 / 100⟩ :
      AnchorOutcome).valid := by decide +kernel
  dsimp only [baseAnchor]
  split
  · exact hfixed.1
  · split
    · exact hfixed.2.1
    · exact hfixed.2.2

theorem buildPatternMaintenanceMetadata_valid {m : PatternMaintenanceArgs} (h : m.atTime ≠ "") :
    (buildPatternMaintenanceMetadata m).valid := by
  have hfields : stringListFits
      ["usage_count", "last_used_at", "reuse_success_count", "reuse_failure_count"] := by
    decide +kernel
  simp only [PatternMaintenanceMetadata.valid, Bool.and_eq_true]
  exact ⟨⟨decide_eq_true rfl, hfields⟩, timeFits_some h⟩

/-- Feedback whose texts fit is accepted whatever valid anchor it meets. -/
theorem baseAnchor_valid (h : args.Fits) (hex : ∀ a ∈ existing, a.valid) :
    (baseAnchor args existing).valid := by
  have he := existingFits_of_valid hex
  have hfixed : fits 128 "tools_select_pattern" ∧ stringListFits ["need_original_decision_context",
      "need_linked_rule_attribution", "pattern_summary_is_not_enough"] := by decide +kernel
  have hsource : (baseAnchor args existing).source.valid := by
    simp only [AnchorSource.valid, Bool.and_eq_true]
    exact ⟨⟨h.decisionId, h.runId⟩, h.feedbackCommitId⟩
  simp only [MemoryAnchorV1.valid, Bool.and_eq_true, and_assoc]
  exact ⟨h.taskSignature, hfixed.1, h.taskFamily, h.errorSignature, h.errorFamily,
    h.patternSignature, buildPatternSummary_fits _ _ _, h.candidates, h.selectedTool,
    keySteps_fit h, baseOutcome_valid, hsource, payloadRefs_valid h he, hfixed.2,
    recallFeatures_valid h, timeFits_some h.createdAt,
    buildPatternMaintenanceMetadata_valid h.createdAt, basePromotion_valid h he,
    baseTrustHardening_valid h he⟩

end Parts

/-! ## Runs of accepted events -/

/-- The stored anchor after an accepted event, where nothing is redacted. -/
def recorded (stored : Option MemoryAnchorV1) (args : PatternFeedback) : Option MemoryAnchorV1 :=
  if stored = none ∧ args.feedbackOutcome = .negative then none else some (baseAnchor args stored)

variable {stored : Option MemoryAnchorV1}

theorem recorded_valid {args : PatternFeedback} (h : args.Fits) (hs : ∀ a ∈ stored, a.valid) :
    ∀ a ∈ recorded stored args, a.valid := by
  intro a ha
  unfold recorded at ha
  split at ha
  · cases ha
  · obtain rfl := Option.some.inj ha
    exact baseAnchor_valid h hs

theorem writePatternAnchor_of_fits {opts : Util.TextPolicy} {args : PatternFeedback}
    (hopts : opts.piiRedaction = false) (h : args.Fits) (hs : ∀ a ∈ stored, a.valid) :
    writePatternAnchor opts none stored args = some (recorded stored args) := by
  have hbuild : buildPatternAnchor args stored none = some (baseAnchor args stored) :=
    buildPatternAnchor_none.2 ⟨baseAnchor_valid h hs, rfl⟩
  cases stored with
  | some a => exact writePatternAnchor_some.2 ⟨hs a rfl, _, hbuild, by simp [recorded]⟩
  | none =>
    cases ho : args.feedbackOutcome with
    | negative => simp [writePatternAnchor, recorded, ho]
    | positive =>
      exact (writePatternAnchor_none ho).2 ⟨_, hbuild, by simp [recorded, storedAnchor, ho, hopts]⟩

/-- A run of events that fit never fails. -/
theorem run_of_fits {opts : Util.TextPolicy} (hopts : opts.piiRedaction = false)
    {es : List PatternFeedback} (h : ∀ e ∈ es, e.Fits) (hs : ∀ a ∈ stored, a.valid) :
    run (writePatternAnchor opts none) stored es = some (es.foldl recorded stored) := by
  induction es generalizing stored with
  | nil => rfl
  | cons e es ih =>
    have he := h e List.mem_cons_self
    refine run_cons.2 ⟨_, writePatternAnchor_of_fits hopts he hs, ?_⟩
    exact ih (fun e' he' => h e' (List.mem_cons_of_mem _ he')) (recorded_valid he hs)

end AionisCore.Memory
