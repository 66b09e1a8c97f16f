import AionisCore.Lib.OrderedMap
import AionisCore.Lib.Slots
import Mathlib.Data.List.Sort

/-!
# The tool registry

What is known of the tools, by name, and the ordering of candidates within a family of tools:
the members of a family take the places of the family in the order of their quality.
-/

namespace AionisCore.Memory

open Lib

inductive ToolQualityTier where
  | experimental
  | supported
  | preferred
  | deprecated
  deriving DecidableEq, Repr

inductive ToolRegistryStatus where
  | active
  | disabled
  | shadowOnly
  deriving DecidableEq, Repr

structure ToolRegistryRecord where
  toolName : String
  capabilityFamily : String
  capabilityTags : List String
  qualityTier : ToolQualityTier
  status : ToolRegistryStatus
  replacementFor : List String
  replacedBy : List String

structure ToolRegistryCandidateMetadata where
  toolName : String
  capabilityFamily : Option String
  qualityTier : Option ToolQualityTier
  status : Option ToolRegistryStatus
  replacementFor : List String
  replacedBy : List String

abbrev ToolRegistryIndex := OrderedMap String ToolRegistryRecord

def SYNTHETIC_FOCUSED_TEST_EXECUTION_TOOLS : List String :=
  ["test-symbol-targeted", "pytest-targeted", "test-regression-lite", "test-module-targeted",
    "test-patch-verify", "test-suite-slice", "test-case-focused", "test-targeted-fast",
    "test-targeted-diff-aware", "test-targeted-contextual", "test-selection-lite",
    "test-file-quick", "test-file-contextual", "test-file-sliced", "test-file-merge-aware",
    "test-file-annotated", "test-file-minimal", "test-file-local", "test-file-focused-v2",
    "test-file-precise", "test-target-windowed", "test-target-anchored", "test-target-resume",
    "test-symbol-focused-v2", "test-symbol-contextual", "test-module-focused",
    "test-module-contextual", "test-suite-focused", "test-suite-contextual", "test-case-targeted",
    "test-case-minimal", "test-diff-targeted", "test-diff-windowed", "test-patch-focused",
    "test-patch-contextual", "test-recovery-targeted", "test-recovery-contextual",
    "test-auth-targeted", "test-auth-contextual"]

def DEFAULT_TOOL_REGISTRY_RECORDS : List ToolRegistryRecord :=
  [⟨"read-source-focused-v2", "focused_repo_read", ["repo_read", "file_targeted", "source"],
      .preferred, .active, ["read-markdown-impl"], []⟩,
    ⟨"read-markdown-impl", "focused_repo_read", ["repo_read", "file_targeted", "markdown"],
      .supported, .active, [], ["read-source-focused-v2"]⟩,
    ⟨"test-file-targeted", "focused_test_execution",
      ["test_execution", "file_targeted", "narrow_validation"], .preferred, .active, [], []⟩] ++
  SYNTHETIC_FOCUSED_TEST_EXECUTION_TOOLS.map fun toolName =>
    ⟨toolName, "focused_test_execution", ["test_execution", "file_targeted", "narrow_validation"],
      .supported, .active, [], ["test-file-targeted"]⟩

def buildToolRegistryIndex (records : List ToolRegistryRecord) : ToolRegistryIndex :=
  OrderedMap.ofValues (·.toolName) records

def DEFAULT_TOOL_REGISTRY_INDEX : ToolRegistryIndex :=
  buildToolRegistryIndex DEFAULT_TOOL_REGISTRY_RECORDS

def candidateMetadata (index : ToolRegistryIndex) (toolName : String) :
    ToolRegistryCandidateMetadata :=
  match index.get toolName with
  | none => ⟨toolName, none, none, none, [], []⟩
  | some record => ⟨record.toolName, some record.capabilityFamily, some record.qualityTier,
      some record.status, record.replacementFor, record.replacedBy⟩

def mapCandidatesToFamilies (index : ToolRegistryIndex) (candidates : List String) :
    List ToolRegistryCandidateMetadata :=
  candidates.map (candidateMetadata index)

def tierRank : Option ToolQualityTier → Nat
  | some .preferred => 0
  | some .supported => 1
  | some .experimental => 2
  | some .deprecated => 3
  | none => 4

/-- A candidate of a family, with its place. -/
structure FamilyMember where
  index : Nat
  candidate : ToolRegistryCandidateMetadata

/-- The family of a candidate, if it has one with a name. -/
def namedFamily (candidate : ToolRegistryCandidateMetadata) : Option String :=
  candidate.capabilityFamily.filter (· ≠ "")

/-- The families of the candidates with their members, in order of first occurrence. -/
def families (metadata : List ToolRegistryCandidateMetadata) :
    OrderedMap String (List FamilyMember) :=
  metadata.zipIdx.foldl
    (fun out entry =>
      match namedFamily entry.1 with
      | none => out
      | some family =>
        out.set family ((out.get family).getD [] ++ [⟨entry.2, entry.1⟩]))
    OrderedMap.empty

/-- By quality, then by place. -/
def memberLe (a b : FamilyMember) : Bool :=
  decide (tierRank a.candidate.qualityTier < tierRank b.candidate.qualityTier) ||
    decide (tierRank a.candidate.qualityTier = tierRank b.candidate.qualityTier) &&
      decide (a.index ≤ b.index)

/-- What is written for a family: the names in the new order, to the places of the members. -/
def familyWrites (explicitPreferred : List String) (members : List FamilyMember) :
    List (Nat × String) :=
  if members.length < 2 then []
  else if members.any fun entry => decide (entry.candidate.toolName ∈ explicitPreferred) then []
  else
    let reordered := members.mergeSort memberLe
    ((members.map (·.index)).mergeSort fun a b => decide (a ≤ b)).zip
      (reordered.map (·.candidate.toolName))

def applyFamilyAwareOrdering (candidates : List String)
    (metadata : List ToolRegistryCandidateMetadata) (explicitPreferred : List String) :
    List String :=
  (families metadata).values.foldl
    (fun out members => Slots.write (familyWrites explicitPreferred members) out) candidates

/-! ## Families -/

/-- The members of a family, in their order. -/
def membersOf (metadata : List ToolRegistryCandidateMetadata) (family : String) :
    List FamilyMember :=
  (metadata.zipIdx.filter fun entry => namedFamily entry.1 = some family).map
    fun entry => ⟨entry.2, entry.1⟩

theorem get_families (metadata : List ToolRegistryCandidateMetadata) (family : String) :
    ((families metadata).get family).getD [] = membersOf metadata family ∧
      ((families metadata).get family ≠ some []) := by
  unfold families membersOf
  induction metadata.zipIdx using List.reverseRecOn with
  | nil => exact ⟨rfl, nofun⟩
  | append_singleton entries entry ih =>
    rw [List.foldl_append, List.foldl_cons, List.foldl_nil, List.filter_append, List.map_append,
      ← ih.1]
    cases hentry : namedFamily entry.1 with
    | none =>
      rw [List.filter_cons_of_neg (by simp [hentry]), List.filter_nil, List.map_nil,
        List.append_nil]
      exact ⟨rfl, ih.2⟩
    | some own =>
      dsimp only
      rw [OrderedMap.get_set]
      by_cases hown : family = own
      · rw [if_pos hown, List.filter_cons_of_pos (by simp [hentry, hown]), List.filter_nil]
        refine ⟨by rw [hown]; rfl, fun h => ?_⟩
        exact List.append_ne_nil_of_right_ne_nil _ (List.cons_ne_nil _ _) (Option.some.inj h)
      · rw [if_neg hown, List.filter_cons_of_neg (by simp [hentry, Ne.symm hown]),
          List.filter_nil, List.map_nil, List.append_nil]
        exact ⟨rfl, ih.2⟩

theorem mem_families {metadata : List ToolRegistryCandidateMetadata} {family : String}
    {members : List FamilyMember} :
    (family, members) ∈ (families metadata).entries ↔
      members = membersOf metadata family ∧ members ≠ [] := by
  rw [← OrderedMap.get_eq_some]
  obtain ⟨hget, hne⟩ := get_families metadata family
  refine ⟨fun h => ?_, fun ⟨h, hmem⟩ => ?_⟩
  · rw [h, Option.getD_some] at hget
    exact ⟨hget, fun hnil => hne (hnil ▸ h)⟩
  · cases hcase : (families metadata).get family with
    | none =>
      rw [hcase, Option.getD_none] at hget
      exact absurd (h.trans hget.symm) hmem
    | some ms =>
      rw [hcase, Option.getD_some] at hget
      rw [h, hget]

theorem mem_membersOf {metadata : List ToolRegistryCandidateMetadata} {family : String}
    {member : FamilyMember} : member ∈ membersOf metadata family ↔
      metadata[member.index]? = some member.candidate ∧
        namedFamily member.candidate = some family := by
  unfold membersOf
  rw [List.mem_map]
  refine ⟨?_, fun ⟨hget, hfamily⟩ => ⟨(member.candidate, member.index), ?_, rfl⟩⟩
  · rintro ⟨⟨c, i⟩, hmem, rfl⟩
    obtain ⟨hmem, hfamily⟩ := List.mem_filter.1 hmem
    exact ⟨List.mk_mem_zipIdx_iff_getElem?.1 hmem, of_decide_eq_true hfamily⟩
  · exact List.mem_filter.2 ⟨List.mk_mem_zipIdx_iff_getElem?.2 hget, decide_eq_true hfamily⟩

theorem pairwise_membersOf (metadata : List ToolRegistryCandidateMetadata) (family : String) :
    ((membersOf metadata family).map (·.index)).Pairwise (· < ·) := by
  unfold membersOf
  rw [List.map_map]
  have hsub : ((metadata.zipIdx.filter fun entry => namedFamily entry.1 = some family).map
      (·.2)).Sublist (metadata.zipIdx.map (·.2)) := List.filter_sublist.map _
  refine List.Pairwise.sublist hsub ?_
  rw [List.zipIdx_map_snd]
  exact List.pairwise_lt_range'

/-! ## What is written -/

section Writes

variable {records : List ToolRegistryRecord} {candidates pref : List String} {family : String}

def familyName (index : ToolRegistryIndex) (candidate : String) : Option String :=
  namedFamily (candidateMetadata index candidate)

/-- The candidates of a family. -/
def familyCandidates (index : ToolRegistryIndex) (candidates : List String) (family : String) :
    List String :=
  candidates.filter fun c => familyName index c = some family

/-- A family of two candidates at least, none of which is preferred. -/
def Unpreferred (index : ToolRegistryIndex) (candidates pref : List String) (family : String) :
    Prop :=
  2 ≤ (familyCandidates index candidates family).length ∧
    ∀ c ∈ familyCandidates index candidates family, c ∉ pref

theorem toolName_candidateMetadata (records : List ToolRegistryRecord) (c : String) :
    (candidateMetadata (buildToolRegistryIndex records) c).toolName = c := by
  unfold candidateMetadata
  cases h : (buildToolRegistryIndex records).get c with
  | none => rfl
  | some record => exact OrderedMap.keyed_ofValues records c record h

theorem map_toolName_membersOf (records : List ToolRegistryRecord) (candidates : List String)
    (family : String) :
    (membersOf (mapCandidatesToFamilies (buildToolRegistryIndex records) candidates) family).map
        (·.candidate.toolName) =
      familyCandidates (buildToolRegistryIndex records) candidates family := by
  unfold membersOf familyCandidates
  rw [List.map_map]
  have hfst : ∀ entries : List (ToolRegistryCandidateMetadata × Nat),
      (entries.filter fun e => namedFamily e.1 = some family).map (·.1) =
        (entries.map (·.1)).filter fun c => namedFamily c = some family := by
    intro entries
    rw [List.filter_map]
    rfl
  have hnames : ∀ entries : List (ToolRegistryCandidateMetadata × Nat),
      entries.map ((fun m : FamilyMember => m.candidate.toolName) ∘ fun e => ⟨e.2, e.1⟩) =
        (entries.map (·.1)).map (·.toolName) := by
    intro entries
    rw [List.map_map]
    rfl
  rw [hnames, hfst, List.zipIdx_map_fst, mapCandidatesToFamilies, List.filter_map, List.map_map]
  refine (List.map_congr_left fun c _ => ?_).trans (List.map_id _)
  exact toolName_candidateMetadata records c

theorem familyWrites_eq (pref : List String) (metadata : List ToolRegistryCandidateMetadata)
    (family : String) (h : ¬ (membersOf metadata family).length < 2)
    (hpref : ∀ m ∈ membersOf metadata family, m.candidate.toolName ∉ pref) :
    familyWrites pref (membersOf metadata family) =
      ((membersOf metadata family).map (·.index)).zip
        (((membersOf metadata family).mergeSort memberLe).map (·.candidate.toolName)) := by
  have hsorted : ((membersOf metadata family).map (·.index)).mergeSort (fun a b => decide (a ≤ b)) =
      (membersOf metadata family).map (·.index) :=
    List.mergeSort_of_pairwise
      ((pairwise_membersOf metadata family).imp fun hlt => decide_eq_true hlt.le)
  have hany : (membersOf metadata family).any
      (fun entry => decide (entry.candidate.toolName ∈ pref)) = false := by
    rw [List.any_eq_false]
    intro m hm
    simp [hpref m hm]
  unfold familyWrites
  rw [if_neg h, hany, if_neg Bool.false_ne_true, hsorted]

/-- All that the ordering writes. -/
def orderingWrites (pref : List String) (metadata : List ToolRegistryCandidateMetadata) :
    List (Nat × String) :=
  (families metadata).values.flatMap (familyWrites pref)

theorem applyFamilyAwareOrdering_eq (candidates : List String)
    (metadata : List ToolRegistryCandidateMetadata) (pref : List String) :
    applyFamilyAwareOrdering candidates metadata pref =
      Slots.write (orderingWrites pref metadata) candidates := by
  unfold applyFamilyAwareOrdering orderingWrites Slots.write
  rw [List.foldl_flatMap]

theorem length_membersOf (records : List ToolRegistryRecord) (candidates : List String)
    (family : String) :
    (membersOf (mapCandidatesToFamilies (buildToolRegistryIndex records) candidates)
        family).length =
      (familyCandidates (buildToolRegistryIndex records) candidates family).length := by
  rw [← map_toolName_membersOf, List.length_map]

/-- A family is written when it has two candidates and none of them is preferred. -/
theorem familyWrites_of_unpreferred
    (h : Unpreferred (buildToolRegistryIndex records) candidates pref family) :
    familyWrites pref (membersOf (mapCandidatesToFamilies (buildToolRegistryIndex records)
        candidates) family) =
      ((membersOf (mapCandidatesToFamilies (buildToolRegistryIndex records) candidates)
        family).map (·.index)).zip
        (((membersOf (mapCandidatesToFamilies (buildToolRegistryIndex records) candidates)
          family).mergeSort memberLe).map (·.candidate.toolName)) := by
  refine familyWrites_eq _ _ _ ?_ fun m hm => h.2 _ ?_
  · rw [length_membersOf]
    exact Nat.not_lt.2 h.1
  · rw [← map_toolName_membersOf]
    exact List.mem_map_of_mem hm

theorem familyWrites_of_not_unpreferred
    (h : ¬ Unpreferred (buildToolRegistryIndex records) candidates pref family) :
    familyWrites pref (membersOf (mapCandidatesToFamilies (buildToolRegistryIndex records)
      candidates) family) = [] := by
  unfold familyWrites
  rw [length_membersOf]
  split
  · rfl
  · next hlen =>
    rw [if_pos]
    by_contra hany
    refine h ⟨Nat.not_lt.1 hlen, fun c hc hpref => hany ?_⟩
    rw [← map_toolName_membersOf] at hc
    obtain ⟨m, hm, rfl⟩ := List.mem_map.1 hc
    exact List.any_eq_true.2 ⟨m, hm, decide_eq_true hpref⟩

section

variable (h : Unpreferred (buildToolRegistryIndex records) candidates pref family)

include h

theorem slots_familyWrites :
    (familyWrites pref (membersOf (mapCandidatesToFamilies (buildToolRegistryIndex records)
        candidates) family)).map (·.1) =
      (membersOf (mapCandidatesToFamilies (buildToolRegistryIndex records) candidates)
        family).map (·.index) := by
  rw [familyWrites_of_unpreferred h]
  refine List.map_fst_zip ?_
  rw [List.length_map, List.length_map, List.length_mergeSort]

theorem names_familyWrites :
    ((familyWrites pref (membersOf (mapCandidatesToFamilies (buildToolRegistryIndex records)
        candidates) family)).map (·.2)).Perm
      (familyCandidates (buildToolRegistryIndex records) candidates family) := by
  have hsnd : (familyWrites pref (membersOf (mapCandidatesToFamilies
      (buildToolRegistryIndex records) candidates) family)).map (·.2) =
      ((membersOf (mapCandidatesToFamilies (buildToolRegistryIndex records) candidates)
        family).mergeSort memberLe).map (·.candidate.toolName) := by
    rw [familyWrites_of_unpreferred h]
    refine List.map_snd_zip ?_
    rw [List.length_map, List.length_map, List.length_mergeSort]
  rw [hsnd, ← map_toolName_membersOf]
  exact (List.mergeSort_perm _ _).map _

/-- A place is written for the family of the candidate that stands there. -/
theorem mem_slots_familyWrites {i : Nat} :
    i ∈ (familyWrites pref (membersOf (mapCandidatesToFamilies (buildToolRegistryIndex records)
        candidates) family)).map (·.1) ↔
      ∃ x, candidates[i]? = some x ∧
        familyName (buildToolRegistryIndex records) x = some family := by
  rw [slots_familyWrites h, List.mem_map]
  refine ⟨?_, fun ⟨x, hx, hfamily⟩ => ⟨⟨i, candidateMetadata _ x⟩, mem_membersOf.2 ⟨?_, hfamily⟩,
    rfl⟩⟩
  · rintro ⟨m, hm, rfl⟩
    obtain ⟨hget, hfamily⟩ := mem_membersOf.1 hm
    unfold mapCandidatesToFamilies at hget
    rw [List.getElem?_map, Option.map_eq_some_iff] at hget
    obtain ⟨x, hx, hcandidate⟩ := hget
    refine ⟨x, hx, ?_⟩
    unfold familyName
    rw [hcandidate]
    exact hfamily
  · unfold mapCandidatesToFamilies
    dsimp only
    rw [List.getElem?_map, hx]
    rfl

end

theorem orderingWrites_eq (pref : List String) (metadata : List ToolRegistryCandidateMetadata) :
    orderingWrites pref metadata =
      (families metadata).entries.flatMap fun e => familyWrites pref (membersOf metadata e.1) := by
  unfold orderingWrites OrderedMap.values
  rw [List.flatMap_map]
  refine List.flatMap_congr fun e he => ?_
  rw [(mem_families.1 (show (e.1, e.2) ∈ _ from he)).1]

variable {w : Nat × String}

/-- The writes are those of the families that are reordered. -/
theorem mem_orderingWrites :
    w ∈ orderingWrites pref (mapCandidatesToFamilies (buildToolRegistryIndex records)
        candidates) ↔
      ∃ family, Unpreferred (buildToolRegistryIndex records) candidates pref family ∧
        w ∈ familyWrites pref (membersOf (mapCandidatesToFamilies
          (buildToolRegistryIndex records) candidates) family) := by
  rw [orderingWrites_eq, List.mem_flatMap]
  refine ⟨?_, fun ⟨family, hunpref, hw⟩ => ⟨(family, _), mem_families.2 ⟨rfl, ?_⟩, hw⟩⟩
  · rintro ⟨e, -, hw⟩
    refine ⟨e.1, by_contra fun hnot => ?_, hw⟩
    rw [familyWrites_of_not_unpreferred hnot] at hw
    cases hw
  · rw [← List.length_pos_iff, length_membersOf]
    exact Nat.lt_of_lt_of_le Nat.zero_lt_two hunpref.1

section

variable (hw : w ∈ familyWrites pref (membersOf (mapCandidatesToFamilies
  (buildToolRegistryIndex records) candidates) family))

include hw

theorem familyName_of_mem_names :
    w.2 ∈ familyCandidates (buildToolRegistryIndex records) candidates family := by
  by_cases h : Unpreferred (buildToolRegistryIndex records) candidates pref family
  · exact (names_familyWrites h).mem_iff.1 (List.mem_map_of_mem hw)
  · rw [familyWrites_of_not_unpreferred h] at hw
    cases hw

theorem familyName_of_mem_slots : ∃ x, candidates[w.1]? = some x ∧
      familyName (buildToolRegistryIndex records) x = some family := by
  by_cases h : Unpreferred (buildToolRegistryIndex records) candidates pref family
  · exact (mem_slots_familyWrites h).1 (List.mem_map_of_mem hw)
  · rw [familyWrites_of_not_unpreferred h] at hw
    cases hw

end

/-- What is written of each entry has no doubles, and no two families write the same. -/
theorem nodup_map_orderingWrites {β : Type} (g : Nat × String → β)
    (hfamily : ∀ family, ((familyWrites pref (membersOf (mapCandidatesToFamilies
      (buildToolRegistryIndex records) candidates) family)).map g).Nodup)
    (hcommon : ∀ family family', ∀ w ∈ familyWrites pref (membersOf (mapCandidatesToFamilies
      (buildToolRegistryIndex records) candidates) family),
      ∀ w' ∈ familyWrites pref (membersOf (mapCandidatesToFamilies
        (buildToolRegistryIndex records) candidates) family'),
        g w = g w' → family = family') :
    ((orderingWrites pref (mapCandidatesToFamilies (buildToolRegistryIndex records)
      candidates)).map g).Nodup := by
  rw [orderingWrites_eq, List.map_flatMap, List.nodup_flatMap]
  refine ⟨fun e _ => hfamily e.1, ?_⟩
  have hkeys := (families (mapCandidatesToFamilies (buildToolRegistryIndex records)
    candidates)).nodup
  rw [List.Nodup, List.pairwise_map] at hkeys
  refine hkeys.imp fun {e e'} hne => ?_
  intro y hy hy'
  obtain ⟨w, hw, rfl⟩ := List.mem_map.1 hy
  obtain ⟨w', hw', heq⟩ := List.mem_map.1 hy'
  exact hne (hcommon e.1 e'.1 w hw w' hw' heq.symm)

theorem fits_orderingWrites (hnodup : candidates.Nodup) :
    Slots.Fits (orderingWrites pref (mapCandidatesToFamilies (buildToolRegistryIndex records)
      candidates)) (fun x => decide (x ∈ pref)) candidates := by
  have hname : ∀ x, x ∈ (orderingWrites pref (mapCandidatesToFamilies
      (buildToolRegistryIndex records) candidates)).map (·.2) ↔
        ∃ family, Unpreferred (buildToolRegistryIndex records) candidates pref family ∧
          x ∈ familyCandidates (buildToolRegistryIndex records) candidates family := by
    intro x
    rw [List.mem_map]
    refine ⟨?_, fun ⟨family, hunpref, hx⟩ => ?_⟩
    · rintro ⟨w, hw, rfl⟩
      obtain ⟨family, hunpref, hw⟩ := mem_orderingWrites.1 hw
      exact ⟨family, hunpref, familyName_of_mem_names hw⟩
    · obtain ⟨w, hw, rfl⟩ := List.mem_map.1 ((names_familyWrites hunpref).mem_iff.2 hx)
      exact ⟨w, mem_orderingWrites.2 ⟨family, hunpref, hw⟩, rfl⟩
  refine ⟨nodup_map_orderingWrites _ (fun family => ?_) ?_,
    nodup_map_orderingWrites _ (fun family => ?_) ?_, fun i => ?_, fun x hx => ?_⟩
  · by_cases h : Unpreferred (buildToolRegistryIndex records) candidates pref family
    · rw [slots_familyWrites h]
      exact (pairwise_membersOf _ family).imp Nat.ne_of_lt
    · rw [familyWrites_of_not_unpreferred h]
      exact List.nodup_nil
  · intro family family' w hw w' hw' heq
    obtain ⟨x, hx, hfamily⟩ := familyName_of_mem_slots hw
    obtain ⟨x', hx', hfamily'⟩ := familyName_of_mem_slots hw'
    rw [heq, hx'] at hx
    obtain rfl := Option.some.inj hx
    exact Option.some.inj (hfamily.symm.trans hfamily')
  · by_cases h : Unpreferred (buildToolRegistryIndex records) candidates pref family
    · exact (names_familyWrites h).nodup_iff.2 (hnodup.filter _)
    · rw [familyWrites_of_not_unpreferred h]
      exact List.nodup_nil
  · intro family family' w hw w' hw' heq
    have hfamily := of_decide_eq_true (List.mem_filter.1 (familyName_of_mem_names hw)).2
    have hfamily' := of_decide_eq_true (List.mem_filter.1 (familyName_of_mem_names hw')).2
    rw [heq] at hfamily
    exact Option.some.inj (hfamily.symm.trans hfamily')
  · simp only [hname]
    refine ⟨fun hi => ?_, ?_⟩
    · obtain ⟨w, hw, rfl⟩ := List.mem_map.1 hi
      obtain ⟨family, hunpref, hw⟩ := mem_orderingWrites.1 hw
      obtain ⟨x, hx, hfamily⟩ := familyName_of_mem_slots hw
      exact ⟨x, ⟨family, hunpref, List.mem_filter.2
        ⟨List.mem_of_getElem? hx, decide_eq_true hfamily⟩⟩, hx⟩
    · rintro ⟨x, ⟨family, hunpref, hmem⟩, hx⟩
      have hfamily := of_decide_eq_true (List.mem_filter.1 hmem).2
      obtain ⟨w, hw, rfl⟩ := List.mem_map.1 ((mem_slots_familyWrites hunpref).2 ⟨x, hx, hfamily⟩)
      exact List.mem_map.2 ⟨w, mem_orderingWrites.2 ⟨family, hunpref, hw⟩, rfl⟩
  · obtain ⟨family, hunpref, hmem⟩ := (hname x).1 hx
    exact ⟨(List.mem_filter.1 hmem).1, decide_eq_false (hunpref.2 x hmem)⟩

/-- A candidate that a family puts in front of one that stood before it is of a better tier. -/
theorem tierRank_of_familyWrites (hnodup : candidates.Nodup) {a b : String} {i j k l : Nat}
    (hunpref : Unpreferred (buildToolRegistryIndex records) candidates pref family)
    (ha : (l, a) ∈ familyWrites pref (membersOf (mapCandidatesToFamilies
      (buildToolRegistryIndex records) candidates) family))
    (hb : (k, b) ∈ familyWrites pref (membersOf (mapCandidatesToFamilies
      (buildToolRegistryIndex records) candidates) family))
    (hkl : k < l) (hi : candidates[i]? = some a) (hj : candidates[j]? = some b) (hij : i < j) :
    tierRank (candidateMetadata (buildToolRegistryIndex records) b).qualityTier <
      tierRank (candidateMetadata (buildToolRegistryIndex records) a).qualityTier := by
  rw [familyWrites_of_unpreferred hunpref] at ha hb
  obtain ⟨p, hp⟩ := List.mem_iff_getElem?.1 ha
  obtain ⟨q, hq⟩ := List.mem_iff_getElem?.1 hb
  rw [List.getElem?_zip_eq_some] at hp hq
  obtain ⟨hpslot, hpname⟩ := hp
  obtain ⟨hqslot, hqname⟩ := hq
  have hqp : q < p := by
    by_contra hnot
    have hslots := pairwise_membersOf (mapCandidatesToFamilies (buildToolRegistryIndex records)
      candidates) family
    rcases Nat.lt_or_eq_of_le (Nat.not_lt.1 hnot) with hlt | rfl
    · have hlt' := List.pairwise_iff_getElem.1 hslots p q (List.getElem?_eq_some_iff.1 hpslot).1
        (List.getElem?_eq_some_iff.1 hqslot).1 hlt
      rw [(List.getElem?_eq_some_iff.1 hpslot).2, (List.getElem?_eq_some_iff.1 hqslot).2] at hlt'
      omega
    · have hsame := Option.some.inj (hpslot.symm.trans hqslot)
      omega
  rw [List.getElem?_map, Option.map_eq_some_iff] at hpname hqname
  obtain ⟨ma, hma, rfl⟩ := hpname
  obtain ⟨mb, hmb, rfl⟩ := hqname
  have hle : memberLe mb ma = true := by
    have hsorted := @List.pairwise_mergeSort _ memberLe (by
        intro x y z hxy hyz
        simp only [memberLe, Bool.or_eq_true, Bool.and_eq_true, decide_eq_true_eq] at *
        omega) (by
        intro x y
        simp only [memberLe, Bool.or_eq_true, Bool.and_eq_true, decide_eq_true_eq]
        omega) (membersOf (mapCandidatesToFamilies (buildToolRegistryIndex records)
          candidates) family)
    have hget := List.pairwise_iff_getElem.1 hsorted q p (List.getElem?_eq_some_iff.1 hmb).1
      (List.getElem?_eq_some_iff.1 hma).1 hqp
    rwa [(List.getElem?_eq_some_iff.1 hmb).2, (List.getElem?_eq_some_iff.1 hma).2] at hget
  -- a member stands at the index it was taken from
  have hplace : ∀ m ∈ (membersOf (mapCandidatesToFamilies (buildToolRegistryIndex records)
      candidates) family).mergeSort memberLe, ∀ {n : Nat},
      candidates[n]? = some m.candidate.toolName → m.index = n ∧ m.candidate =
        candidateMetadata (buildToolRegistryIndex records) m.candidate.toolName := by
    intro m hm n hn
    obtain ⟨hget, -⟩ := mem_membersOf.1 (List.mem_mergeSort.1 hm)
    unfold mapCandidatesToFamilies at hget
    rw [List.getElem?_map, Option.map_eq_some_iff] at hget
    obtain ⟨x, hx, hcandidate⟩ := hget
    have hname : m.candidate.toolName = x := by
      rw [← hcandidate, toolName_candidateMetadata]
    rw [hname] at hn ⊢
    exact ⟨(List.getElem?_inj (List.getElem?_eq_some_iff.1 hx).1 hnodup).1 (hx.trans hn.symm),
      hcandidate.symm⟩
  obtain ⟨hia, hca⟩ := hplace ma (List.mem_of_getElem? hma) hi
  obtain ⟨hjb, hcb⟩ := hplace mb (List.mem_of_getElem? hmb) hj
  rw [← hca, ← hcb]
  simp only [memberLe, Bool.or_eq_true, Bool.and_eq_true, decide_eq_true_eq] at hle
  omega

end Writes

end AionisCore.Memory
