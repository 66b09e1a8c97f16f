import AionisCore.Memory.RuleEngine
import AionisCore.Memory.ToolRegistry
import AionisCore.Memory.ToolSelector

/-!
# The order of the candidates

How `selectTools` orders the candidates before it applies the policy: those that the control
profile leaves, first the ones that rules prefer, then the ones that trusted patterns prefer,
then the others, and after that the members of each family by quality. The places of the
families are those they had before the preferred candidates went to the front.
-/

namespace AionisCore.Memory

open Lib Lib.JsString

/-- The part of a control profile that bears on candidates. -/
structure ControlProfileV1 where
  allowBroadScan : Bool
  allowBroadTest : Bool

inductive BroadToolKind where
  | scan
  | test
  deriving DecidableEq, Repr

def inferBroadToolKind (toLowerCase : String → String) (name : String) : Option BroadToolKind :=
  let lowered := toLowerCase name
  if !includesText lowered "broad" then none
  else if includesText lowered "test" then some .test
  else if includesText lowered "scan" then some .scan
  else none

def normalizeToolCandidates (candidates : List String) : List String := distinctStrings candidates

/-- The candidates that the profile leaves, and those that it denies. -/
def applyControlProfileCandidateFilter (toLowerCase : String → String) (candidates : List String)
    (controlProfile : Option ControlProfileV1) : List String × List DeniedTool :=
  match controlProfile with
  | none => (candidates, [])
  | some profile =>
    let denied (candidate : String) : Bool :=
      match inferBroadToolKind toLowerCase candidate with
      | some .scan => !profile.allowBroadScan
      | some .test => !profile.allowBroadTest
      | none => false
    (candidates.filter fun c => !denied c, (candidates.filter denied).map (⟨·, .controlProfile⟩))

/-- Distinct trimmed strings; the loop stops when it has reached the limit. -/
def uniqueStringsUpTo (values : List String) (limit : Nat) : List String :=
  uniqueStrings values (max 1 limit)

def prioritizeExplicitPreferred (candidates preferred : List String) : List String :=
  if preferred.length = 0 then candidates
  else
    let head := preferred.filter fun tool => decide (tool ∈ candidates)
    let tail := candidates.filter fun tool => !decide (tool ∈ preferred)
    head ++ tail

/-- A recalled pattern, as far as the selection looks at it. -/
structure RecalledToolPattern where
  selectedTool : String
  trusted : Bool
  affinityScore : ℚ

/-- What a selection orders its candidates by. -/
structure ToolsSelectInputs where
  candidates : List String
  controlProfile : Option ControlProfileV1
  policy : PolicyPatch
  recalledPatterns : List RecalledToolPattern
  reorderCandidates : Bool

section Select

variable (toLowerCase : String → String) (index : ToolRegistryIndex) (inputs : ToolsSelectInputs)

def filteredCandidates : List String :=
  (applyControlProfileCandidateFilter toLowerCase (normalizeToolCandidates inputs.candidates)
    inputs.controlProfile).1

def patternTools : List String :=
  ((inputs.recalledPatterns.filter (·.trusted)).filter (0 < ·.affinityScore)).map (·.selectedTool)

def explicitPreferred : List String := (inputs.policy.tool.bind (·.prefer)).getD []

def mergedPreferred : List String :=
  let filtered := filteredCandidates toLowerCase inputs
  let patternPreferred := uniqueStringsUpTo (patternTools inputs) filtered.length
  uniqueStringsUpTo (explicitPreferred inputs ++ patternPreferred) filtered.length

def selectionOrder : List String :=
  let filtered := filteredCandidates toLowerCase inputs
  let candidateFamilies := mapCandidatesToFamilies index filtered
  let merged := mergedPreferred toLowerCase inputs
  let preferredOrdered := prioritizeExplicitPreferred filtered merged
  let recommended := applyFamilyAwareOrdering preferredOrdered candidateFamilies merged
  if inputs.reorderCandidates then recommended else filtered

end Select

/-! ## A faithful order -/

/-- The order has every candidate once, the preferred ones in front, and the members of a family
without preferred one change places for their quality only; so it keeps every choice open. -/
structure OrdersCandidates (index : ToolRegistryIndex) (candidates pref : List String)
    (reorder : Bool) (out : List String) : Prop where
  perm : out.Perm candidates
  front : reorder = true → (pref.filter fun tool => decide (tool ∈ candidates)) <+: out
  families : ∀ family, (∀ c ∈ familyCandidates index candidates family, c ∉ pref) →
    ∀ a ∈ familyCandidates index candidates family,
    ∀ b ∈ familyCandidates index candidates family, ∀ {i j k l : Nat},
      candidates[i]? = some a → candidates[j]? = some b → i < j →
      out[k]? = some b → out[l]? = some a → k < l →
      tierRank (candidateMetadata index b).qualityTier <
        tierRank (candidateMetadata index a).qualityTier
  selectable : ∀ p strict c, c ∈ (filterCandidates (uniq out) p strict).1 ↔
    c ∈ (filterCandidates (uniq candidates) p strict).1

/-- Behind a member of a family of several candidates, none of them preferred, stands no
preferred candidate. -/
def NoPreferredBehind (index : ToolRegistryIndex) (candidates pref : List String) : Prop :=
  candidates.Pairwise fun a b =>
    (∃ family, familyName index a = some family ∧ Unpreferred index candidates pref family) →
      b ∉ pref

section Order

variable {records : List ToolRegistryRecord} {candidates pref : List String}

theorem prioritizeExplicitPreferred_eq (candidates pref : List String) :
    prioritizeExplicitPreferred candidates pref =
      Slots.toFront (pref.filter fun tool => decide (tool ∈ candidates))
        (fun tool => decide (tool ∈ pref)) candidates := by
  unfold prioritizeExplicitPreferred Slots.toFront
  split
  · next h =>
    rw [List.eq_nil_of_length_eq_zero h]
    simp
  · rfl

theorem front_perm (hcandidates : candidates.Nodup) (hpref : pref.Nodup) :
    (pref.filter fun tool => decide (tool ∈ candidates)).Perm
      (candidates.filter fun tool => decide (tool ∈ pref)) := by
  refine (List.perm_ext_iff_of_nodup (hpref.filter _) (hcandidates.filter _)).2 fun c => ?_
  simp only [List.mem_filter, decide_eq_true_eq]
  exact and_comm

/-- The names written are the members of the families that are reordered. -/
theorem mem_names_orderingWrites {a : String} (ha : a ∈ candidates) :
    a ∈ (orderingWrites pref (mapCandidatesToFamilies (buildToolRegistryIndex records)
        candidates)).map (·.2) ↔
      ∃ family, familyName (buildToolRegistryIndex records) a = some family ∧
        Unpreferred (buildToolRegistryIndex records) candidates pref family := by
  rw [List.mem_map]
  refine ⟨?_, fun ⟨family, hfamily, hunpref⟩ => ?_⟩
  · rintro ⟨w, hw, rfl⟩
    obtain ⟨family, hunpref, hw⟩ := mem_orderingWrites.1 hw
    exact ⟨family, of_decide_eq_true (List.mem_filter.1 (familyName_of_mem_names hw)).2, hunpref⟩
  · obtain ⟨w, hw, rfl⟩ := List.mem_map.1 ((names_familyWrites hunpref).mem_iff.2
      (List.mem_filter.2 ⟨ha, decide_eq_true hfamily⟩))
    exact ⟨w, mem_orderingWrites.2 ⟨family, hunpref, hw⟩, rfl⟩

theorem aligned_iff :
    Slots.Aligned (orderingWrites pref (mapCandidatesToFamilies (buildToolRegistryIndex records)
        candidates)) (fun tool => decide (tool ∈ pref)) candidates ↔
      NoPreferredBehind (buildToolRegistryIndex records) candidates pref := by
  unfold Slots.Aligned NoPreferredBehind
  refine List.Pairwise.iff_of_mem fun {a b} ha _ => ?_
  rw [mem_names_orderingWrites ha, decide_eq_false_iff_not]

theorem selectable_of_perm {out : List String} (h : out.Perm candidates) (p : PolicyPatch)
    (strict : Bool) (c : String) : c ∈ (filterCandidates (uniq out) p strict).1 ↔
      c ∈ (filterCandidates (uniq candidates) p strict).1 := by
  have hmem : ∀ x, x ∈ uniq out ↔ x ∈ uniq candidates := fun x => by
    rw [mem_uniq, mem_uniq, h.mem_iff]
  simp only [mem_filterCandidates, hmem]

/-- The candidates in the order of the preferences and the families. -/
theorem ordersCandidates_iff (hcandidates : candidates.Nodup) (hpref : pref.Nodup) :
    OrdersCandidates (buildToolRegistryIndex records) candidates pref true
        (applyFamilyAwareOrdering (prioritizeExplicitPreferred candidates pref)
          (mapCandidatesToFamilies (buildToolRegistryIndex records) candidates) pref) ↔
      NoPreferredBehind (buildToolRegistryIndex records) candidates pref := by
  have hfits := @fits_orderingWrites records candidates pref hcandidates
  have hfront := front_perm hcandidates hpref
  rw [applyFamilyAwareOrdering_eq, prioritizeExplicitPreferred_eq, ← aligned_iff]
  refine ⟨fun h => (hfits.perm_iff hcandidates hfront).1 h.perm, fun haligned => ?_⟩
  have hperm := (hfits.perm_iff hcandidates hfront).2 haligned
  refine ⟨hperm, fun _ => hfits.prefix_write hfront haligned, ?_,
    fun p strict c => selectable_of_perm hperm p strict c⟩
  intro family hnone a ha b hb i j k l hi hj hij hk hl hkl
  have hafamily := of_decide_eq_true (List.mem_filter.1 ha).2
  have hbfamily := of_decide_eq_true (List.mem_filter.1 hb).2
  have hunpref : Unpreferred (buildToolRegistryIndex records) candidates pref family := by
    refine ⟨?_, hnone⟩
    have hne : a ≠ b := by
      rintro rfl
      have hsame := (List.getElem?_inj (List.getElem?_eq_some_iff.1 hi).1 hcandidates).1
        (hi.trans hj.symm)
      omega
    have hsub : [a, b] ⊆ familyCandidates (buildToolRegistryIndex records) candidates family := by
      intro x hx
      rcases List.mem_cons.1 hx with rfl | hx
      · exact ha
      · exact List.mem_singleton.1 hx ▸ hb
    have hpair : [a, b].Nodup := List.nodup_cons.2
      ⟨fun h => hne (List.mem_singleton.1 h), List.nodup_singleton b⟩
    exact (List.subperm_of_subset hpair hsub).length_le
  -- each of the two stands where it was written for its family
  have hwritten : ∀ {x : String} {n : Nat}, x ∈ candidates →
      familyName (buildToolRegistryIndex records) x = some family →
      (Slots.write (orderingWrites pref (mapCandidatesToFamilies
        (buildToolRegistryIndex records) candidates))
        (Slots.toFront (pref.filter fun tool => decide (tool ∈ candidates))
          (fun tool => decide (tool ∈ pref)) candidates))[n]? = some x →
      (n, x) ∈ familyWrites pref (membersOf (mapCandidatesToFamilies
        (buildToolRegistryIndex records) candidates) family) := by
    intro x n hx hfamily hn
    have hname := (@mem_names_orderingWrites records candidates pref x hx).2
      ⟨family, hfamily, hunpref⟩
    obtain ⟨m, -, hmem, hm⟩ := hfits.exists_slot hfront hname
    have hnodup := hperm.nodup_iff.2 hcandidates
    obtain rfl := (List.getElem?_inj (List.getElem?_eq_some_iff.1 hm).1 hnodup).1
      (hm.trans hn.symm)
    obtain ⟨family', hunpref', hw⟩ := mem_orderingWrites.1 hmem
    have hfamily' := of_decide_eq_true (List.mem_filter.1 (familyName_of_mem_names hw)).2
    obtain rfl := Option.some.inj (hfamily.symm.trans hfamily')
    exact hw
  exact tierRank_of_familyWrites hcandidates hunpref
    (hwritten (List.mem_filter.1 ha).1 hafamily hl) (hwritten (List.mem_filter.1 hb).1 hbfamily hk)
    hkl hi hj hij

theorem ordersCandidates_self (hcandidates : candidates.Nodup) (index : ToolRegistryIndex) :
    OrdersCandidates index candidates pref false candidates := by
  refine ⟨.refl _, nofun, ?_, fun _ _ _ => Iff.rfl⟩
  intro family _ a _ b _ i j k l hi hj hij hk hl hkl
  have hil := (List.getElem?_inj (List.getElem?_eq_some_iff.1 hi).1 hcandidates).1
    (hi.trans hl.symm)
  have hjk := (List.getElem?_inj (List.getElem?_eq_some_iff.1 hj).1 hcandidates).1
    (hj.trans hk.symm)
  omega

theorem ordersCandidates_asked_iff {reorder : Bool} (hcandidates : candidates.Nodup)
    (hpref : pref.Nodup) :
    OrdersCandidates (buildToolRegistryIndex records) candidates pref reorder
        (if reorder then applyFamilyAwareOrdering (prioritizeExplicitPreferred candidates pref)
          (mapCandidatesToFamilies (buildToolRegistryIndex records) candidates) pref
        else candidates) ↔
      (reorder = true → NoPreferredBehind (buildToolRegistryIndex records) candidates pref) := by
  cases reorder with
  | true => exact (ordersCandidates_iff hcandidates hpref).trans ⟨fun h _ => h, fun h => h rfl⟩
  | false => exact iff_of_true (ordersCandidates_self hcandidates _) nofun

/-- The order looks at the preferences for candidates alone. -/
theorem ordersCandidates_congr {pref' out : List String} {index : ToolRegistryIndex}
    {reorder : Bool}
    (hfront : (pref.filter fun tool => decide (tool ∈ candidates)) =
      pref'.filter fun tool => decide (tool ∈ candidates))
    (h : OrdersCandidates index candidates pref reorder out) :
    OrdersCandidates index candidates pref' reorder out := by
  have hmem : ∀ c ∈ candidates, c ∈ pref → c ∈ pref' := by
    intro c hc hpref
    have hin : c ∈ pref.filter fun tool => decide (tool ∈ candidates) :=
      List.mem_filter.2 ⟨hpref, decide_eq_true hc⟩
    rw [hfront] at hin
    exact (List.mem_filter.1 hin).1
  refine ⟨h.perm, hfront ▸ h.front, fun family hnone => h.families family fun c hc hpref => ?_,
    h.selectable⟩
  exact hnone c hc (hmem c (List.mem_filter.1 hc).1 hpref)

theorem noPreferredBehind_congr {pref' : List String} {index : ToolRegistryIndex}
    (hfront : ∀ c ∈ candidates, c ∈ pref ↔ c ∈ pref') :
    NoPreferredBehind index candidates pref ↔ NoPreferredBehind index candidates pref' := by
  unfold NoPreferredBehind
  refine List.Pairwise.iff_of_mem fun {a b} _ hb => ?_
  have hunpref : ∀ family, Unpreferred index candidates pref family ↔
      Unpreferred index candidates pref' family := fun family =>
    and_congr_right fun _ => forall₂_congr fun c hc =>
      not_congr (hfront c (List.mem_filter.1 hc).1)
  simp only [hunpref, hfront b hb]

end Order

/-! ## The selection -/

/-- All tools that are preferred, those of rules first, without the cap of the merged list. -/
def preferredTools (inputs : ToolsSelectInputs) : List String :=
  distinctStrings (explicitPreferred inputs ++ patternTools inputs)

theorem nodup_distinctStrings (xs : List String) : (distinctStrings xs).Nodup :=
  nodup_eraseDups _

theorem nodup_filteredCandidates (toLowerCase : String → String) (inputs : ToolsSelectInputs) :
    (filteredCandidates toLowerCase inputs).Nodup := by
  unfold filteredCandidates applyControlProfileCandidateFilter normalizeToolCandidates
  cases inputs.controlProfile with
  | none => exact nodup_distinctStrings _
  | some profile => exact (nodup_distinctStrings _).filter _

theorem eraseDups_filter (p : String → Bool) (xs : List String) :
    (xs.filter p).eraseDups = xs.eraseDups.filter p := by
  induction hn : xs.length using Nat.strong_induction_on generalizing xs with
  | _ n ih =>
    cases xs with
    | nil => rfl
    | cons x xs =>
      have hle := List.length_filter_le (fun y => !y == x) xs
      rw [List.length_cons] at hn
      have hrest := ih _ (by omega) (xs.filter fun y => !y == x) rfl
      rw [List.eraseDups_cons]
      by_cases hx : p x = true
      · rw [List.filter_cons_of_pos hx, List.filter_cons_of_pos hx, List.eraseDups_cons, ← hrest,
          List.filter_filter, List.filter_filter]
        simp only [Bool.and_comm]
      · rw [List.filter_cons_of_neg hx, List.filter_cons_of_neg hx, ← hrest, List.filter_filter]
        refine congrArg List.eraseDups (List.filter_congr fun y _ => ?_)
        by_cases hy : y = x
        · rw [hy, Bool.eq_false_iff.2 hx, Bool.false_and]
        · simp [hy]

/-- Strings that a cap left out of the second list only shorten the joint list. -/
theorem distinctStrings_append_take (xs ys : List String) (n : Nat) :
    (distinctStrings (xs ++ uniqueStrings ys n)).Sublist (distinctStrings (xs ++ ys)) := by
  have hplain : ∀ y ∈ uniqueStrings ys n, Plain y := fun y hy =>
    ⟨by obtain ⟨⟨z, -, rfl⟩, -⟩ := mem_uniqueStrings hy; exact trimmed_trim z,
      (mem_uniqueStrings hy).2⟩
  have hclean : ((uniqueStrings ys n).map trim).filter (· ≠ "") = uniqueStrings ys n := by
    have hmap : (uniqueStrings ys n).map trim = uniqueStrings ys n := by
      rw [List.map_congr_left fun y hy => (hplain y hy).1, List.map_id']
    rw [hmap]
    exact List.filter_eq_self.2 fun y hy => by simpa using (hplain y hy).2
  unfold distinctStrings
  rw [List.map_append, List.filter_append, List.map_append, List.filter_append, hclean,
    List.eraseDups_append, List.eraseDups_append]
  refine List.Sublist.append_left ?_ _
  unfold List.removeAll
  rw [eraseDups_filter, eraseDups_filter]
  refine List.Sublist.filter _ ?_
  have hnodup : (uniqueStrings ys n).Nodup :=
    (nodup_distinctStrings ys).sublist (List.take_sublist _ _)
  rw [eraseDups_of_nodup hnodup]
  exact List.take_sublist _ _

theorem mergedPreferred_sublist (toLowerCase : String → String) (inputs : ToolsSelectInputs) :
    (mergedPreferred toLowerCase inputs).Sublist (preferredTools inputs) :=
  (List.take_sublist _ _).trans (distinctStrings_append_take _ _ _)

/-- The order of the candidates is faithful to the merged preferences exactly if it is not asked
for or no preferred candidate stands behind a family that is reordered, and to all preferences
under the same condition when the cap of the merged list drops no candidate. -/
theorem selectionOrder_iff (toLowerCase : String → String) (records : List ToolRegistryRecord)
    (inputs : ToolsSelectInputs) :
    (OrdersCandidates (buildToolRegistryIndex records) (filteredCandidates toLowerCase inputs)
        (mergedPreferred toLowerCase inputs) inputs.reorderCandidates
        (selectionOrder toLowerCase (buildToolRegistryIndex records) inputs) ↔
      (inputs.reorderCandidates = true → NoPreferredBehind (buildToolRegistryIndex records)
        (filteredCandidates toLowerCase inputs) (mergedPreferred toLowerCase inputs))) ∧
    ((∀ c ∈ filteredCandidates toLowerCase inputs, c ∈ preferredTools inputs →
        c ∈ mergedPreferred toLowerCase inputs) →
      (OrdersCandidates (buildToolRegistryIndex records) (filteredCandidates toLowerCase inputs)
          (preferredTools inputs) inputs.reorderCandidates
          (selectionOrder toLowerCase (buildToolRegistryIndex records) inputs) ↔
        (inputs.reorderCandidates = true → NoPreferredBehind (buildToolRegistryIndex records)
          (filteredCandidates toLowerCase inputs) (preferredTools inputs)))) := by
  have hcandidates := nodup_filteredCandidates toLowerCase inputs
  have hsub := mergedPreferred_sublist toLowerCase inputs
  have hall : (preferredTools inputs).Nodup := nodup_distinctStrings _
  have hmerged := @ordersCandidates_asked_iff records _ _ inputs.reorderCandidates hcandidates
    (hall.sublist hsub)
  refine ⟨hmerged, fun hcap => ?_⟩
  have hmem : ∀ c ∈ filteredCandidates toLowerCase inputs,
      c ∈ mergedPreferred toLowerCase inputs ↔ c ∈ preferredTools inputs :=
    fun c hc => ⟨fun h => hsub.subset h, hcap c hc⟩
  have hfront : ((mergedPreferred toLowerCase inputs).filter fun tool =>
      decide (tool ∈ filteredCandidates toLowerCase inputs)) =
        (preferredTools inputs).filter fun tool =>
          decide (tool ∈ filteredCandidates toLowerCase inputs) := by
    refine (hsub.filter _).eq_of_length_le ?_
    refine (List.subperm_of_subset (hall.filter _) fun c hc => ?_).length_le
    obtain ⟨hc, hin⟩ := List.mem_filter.1 hc
    exact List.mem_filter.2 ⟨hcap c (of_decide_eq_true hin) hc, hin⟩
  rw [← noPreferredBehind_congr hmem, ← hmerged]
  exact ⟨ordersCandidates_congr hfront.symm, ordersCandidates_congr hfront⟩

/-- Three candidates, the last of which a rule prefers. -/
private def threeTools (prefer : List String) : ToolsSelectInputs where
  candidates := ["test-file-quick", "test-file-local", "grep"]
  controlProfile := none
  policy := ⟨some { prefer := some prefer }⟩
  recalledPatterns := []
  reorderCandidates := true

/-- The preferred tool is overwritten by a member of the family in front of it. -/
theorem preferred_tool_lost :
    ¬ OrdersCandidates DEFAULT_TOOL_REGISTRY_INDEX
      (filteredCandidates id (threeTools ["grep"]))
      (mergedPreferred id (threeTools ["grep"])) true
      (selectionOrder id DEFAULT_TOOL_REGISTRY_INDEX (threeTools ["grep"])) := by
  have hfiltered : filteredCandidates id (threeTools ["grep"]) =
      ["test-file-quick", "test-file-local", "grep"] := by decide
  have hmerged : mergedPreferred id (threeTools ["grep"]) = ["grep"] := by decide
  have hordered : selectionOrder id DEFAULT_TOOL_REGISTRY_INDEX (threeTools ["grep"]) =
      applyFamilyAwareOrdering (prioritizeExplicitPreferred
        ["test-file-quick", "test-file-local", "grep"] ["grep"])
        (mapCandidatesToFamilies DEFAULT_TOOL_REGISTRY_INDEX
          ["test-file-quick", "test-file-local", "grep"]) ["grep"] := by
    unfold selectionOrder
    rw [hfiltered, hmerged]
    rfl
  rw [hfiltered, hmerged, hordered]
  unfold DEFAULT_TOOL_REGISTRY_INDEX
  rw [ordersCandidates_iff (by decide) (by decide)]
  intro h
  have hfamily : familyCandidates (buildToolRegistryIndex DEFAULT_TOOL_REGISTRY_RECORDS)
      ["test-file-quick", "test-file-local", "grep"] "focused_test_execution" =
        ["test-file-quick", "test-file-local"] := by decide +kernel
  have hbehind := (List.pairwise_cons.1 h).1 "grep" (by decide)
  refine hbehind ⟨"focused_test_execution", ?_, ?_, ?_⟩ (by decide)
  · have hin : "test-file-quick" ∈ familyCandidates
        (buildToolRegistryIndex DEFAULT_TOOL_REGISTRY_RECORDS)
        ["test-file-quick", "test-file-local", "grep"] "focused_test_execution" := by
      rw [hfamily]
      exact List.mem_cons_self
    exact of_decide_eq_true (List.mem_filter.1 hin).2
  · rw [hfamily]
    decide
  · rw [hfamily]
    decide

end AionisCore.Memory
