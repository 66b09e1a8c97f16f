import AionisCore.Memory.Recall
import AionisCore.Store.EmbeddedReads

/-!
# The subgraph of a recall

The nodes of an answer are the core, which the seeds and the ranked nodes make up to a bound,
and a few draft topics, which are appended or take the place of core nodes that are no seeds.
Drafts and nodes that are not ready take no part in the ranking of what stage 2 has found.
-/

namespace AionisCore.Memory

open Lib Lib.JsString Lib.StableSort Store Util

namespace Neighborhood

/-! ## Rows and edges -/

section Build

variable {layers : Option (List String)} {seeds : List RecallCandidate}
  {edges : List RecallEdgeRow} {rows : List RecallNodeRow} {id : String} {n : RecallNodeRow}

/-- What the layers of a retrieval let through. -/
def inLayers (layers : Option (List String)) (n : RecallNodeRow) : Bool :=
  layers.all fun layers => (resolveCompressionLayer n).any (· ∈ layers)

theorem get_build : (build layers seeds edges rows).nodes.get id =
    ((OrderedMap.ofValues (·.id) rows).get id).filter (inLayers layers) := by
  cases layers with
  | none =>
    change (OrderedMap.ofValues (·.id) rows).get id = _
    cases (OrderedMap.ofValues (·.id) rows).get id <;> rfl
  | some layers =>
    unfold build inLayers
    simp only [OrderedMap.get_filter]
    cases (OrderedMap.ofValues (·.id) rows).get id with
    | none => rfl
    | some n =>
      rw [Option.any_some, Option.filter_some]
      rfl

theorem id_of_get (h : (build layers seeds edges rows).nodes.get id = some n) : n.id = id := by
  rw [get_build, Option.filter_eq_some_iff] at h
  exact OrderedMap.keyed_ofValues rows id n h.1

theorem mem_rows_of_get (h : (build layers seeds edges rows).nodes.get id = some n) :
    n ∈ rows := by
  rw [get_build, Option.filter_eq_some_iff] at h
  exact OrderedMap.mem_of_get_ofValues h.1

theorem edges_build : (build layers seeds edges rows).edges = edges.filter fun e =>
    (build layers seeds edges rows).nodes.has e.srcId &&
      (build layers seeds edges rows).nodes.has e.dstId := by
  have hhas : ∀ id, (build layers seeds edges rows).nodes.has id = true →
      (OrderedMap.ofValues (·.id) rows).has id = true := by
    intro id h
    obtain ⟨n, hn⟩ := OrderedMap.has_iff.1 h
    rw [get_build, Option.filter_eq_some_iff] at hn
    exact OrderedMap.has_iff.2 ⟨n, hn.1⟩
  cases layers with
  | none => rfl
  | some layers =>
    unfold build at hhas ⊢
    simp only at hhas ⊢
    rw [List.filter_filter]
    refine List.filter_congr fun e _ => ?_
    have hsrc := hhas e.srcId
    have hdst := hhas e.dstId
    rw [Bool.eq_iff_iff]
    simp only [Bool.and_eq_true]
    exact ⟨fun h => h.1, fun h => ⟨h, hsrc h.1, hdst h.2⟩⟩

theorem mem_edges_of_build {e : RecallEdgeRow} (h : e ∈ (build layers seeds edges rows).edges) :
    e ∈ edges := by
  rw [edges_build] at h
  exact (List.mem_filter.1 h).1

theorem mem_seeds_build {s : RecallCandidate} (h : s ∈ (build layers seeds edges rows).seeds) :
    s ∈ seeds := by
  cases layers with
  | none => exact h
  | some layers => exact (List.mem_filter.1 h).1

theorem mem_seeds_of_get {s : RecallCandidate} (hs : s ∈ seeds)
    (h : (build layers seeds edges rows).nodes.get s.id = some n) :
    s ∈ (build layers seeds edges rows).seeds := by
  cases layers with
  | none => exact hs
  | some layers => exact List.mem_filter.2 ⟨hs, OrderedMap.has_iff.2 ⟨n, h⟩⟩

end Build

/-! ## The core -/

section Core

variable {nb : Neighborhood} {maxNodes : Nat} {core ids : List String} {id : String}

def Ready (nb : Neighborhood) (id : String) : Prop :=
  ∃ n, nb.nodes.get id = some n ∧ n.embeddingStatus = .ready

structure Core (nb : Neighborhood) (maxNodes : Nat) (core : List String) : Prop where
  nodup : core.Nodup
  length_le : core.length ≤ maxNodes
  ready : ∀ id ∈ core, nb.Ready id

/-- What one turn does. -/
theorem pushCore_cases (nb : Neighborhood) (maxNodes : Nat) (core : List String) (id : String) :
    (nb.pushCore maxNodes core id = core ∧
        (maxNodes ≤ core.length ∨ ¬ nb.Ready id ∨ id ∈ core)) ∨
      (nb.pushCore maxNodes core id = core ++ [id] ∧ core.length < maxNodes ∧ nb.Ready id ∧
        id ∉ core) := by
  unfold pushCore
  split
  · next hfull => exact .inl ⟨rfl, .inl hfull⟩
  · next hroom =>
    split
    · next n hn =>
      split
      · next h => exact .inr ⟨rfl, Nat.not_le.1 hroom, ⟨n, hn, h.1⟩, h.2⟩
      · next h =>
        refine .inl ⟨rfl, .inr ?_⟩
        rw [not_and_or, not_not] at h
        refine h.imp (fun hready => ?_) fun hmem => hmem
        rintro ⟨m, hm, hmready⟩
        obtain rfl := Option.some.inj (hn.symm.trans hm)
        exact hready hmready
    · next hn =>
      refine .inl ⟨rfl, .inr (.inl ?_)⟩
      rintro ⟨m, hm, -⟩
      rw [hn] at hm
      cases hm

theorem Core.push (h : nb.Core maxNodes core) :
    nb.Core maxNodes (nb.pushCore maxNodes core id) := by
  obtain ⟨heq, -⟩ | ⟨heq, hroom, hready, hnew⟩ := pushCore_cases nb maxNodes core id
  · rwa [heq]
  · rw [heq]
    refine ⟨?_, ?_, ?_⟩
    · exact List.nodup_append.2 ⟨h.nodup, List.nodup_singleton id, fun x hx y hy heq =>
        hnew (List.mem_singleton.1 hy ▸ heq ▸ hx)⟩
    · rw [List.length_append, List.length_singleton]
      exact hroom
    · intro x hx
      rcases List.mem_append.1 hx with hx | hx
      · exact h.ready x hx
      · rw [List.mem_singleton.1 hx]
        exact hready

theorem Core.foldl (h : nb.Core maxNodes core) (ids : List String) :
    nb.Core maxNodes (ids.foldl (nb.pushCore maxNodes) core) := by
  induction ids generalizing core with
  | nil => exact h
  | cons id ids ih => exact ih h.push

theorem mem_foldl_pushCore (h : id ∈ ids.foldl (nb.pushCore maxNodes) core) :
    id ∈ core ∨ id ∈ ids := by
  induction ids generalizing core with
  | nil => exact .inl h
  | cons i ids ih =>
    rcases ih h with hmem | hmem
    · obtain ⟨heq, -⟩ | ⟨heq, -⟩ := pushCore_cases nb maxNodes core i
      · exact .inl (heq ▸ hmem)
      · rw [heq, List.mem_append, List.mem_singleton] at hmem
        rcases hmem with hmem | rfl
        · exact .inl hmem
        · exact .inr List.mem_cons_self
    · exact .inr (List.mem_cons_of_mem i hmem)

theorem subset_foldl_pushCore (h : id ∈ core) : id ∈ ids.foldl (nb.pushCore maxNodes) core := by
  induction ids generalizing core with
  | nil => exact h
  | cons i ids ih =>
    refine ih ?_
    obtain ⟨heq, -⟩ | ⟨heq, -⟩ := pushCore_cases nb maxNodes core i
    · rwa [heq]
    · rw [heq]
      exact List.mem_append_left _ h

theorem foldl_pushCore_full (h : maxNodes ≤ core.length) :
    ids.foldl (nb.pushCore maxNodes) core = core := by
  induction ids with
  | nil => rfl
  | cons i ids ih =>
    rw [List.foldl_cons, pushCore, if_pos h]
    exact ih

/-- A ready node is left out only where the core is full when its turn comes. -/
theorem full_of_left_out (hid : id ∈ ids) (hready : nb.Ready id)
    (hnot : id ∉ ids.foldl (nb.pushCore maxNodes) core) :
    ∃ before after, ids = before ++ id :: after ∧
      ids.foldl (nb.pushCore maxNodes) core = before.foldl (nb.pushCore maxNodes) core ∧
      maxNodes ≤ (before.foldl (nb.pushCore maxNodes) core).length := by
  obtain ⟨before, after, rfl⟩ := List.append_of_mem hid
  refine ⟨before, after, rfl, ?_⟩
  rw [List.foldl_append, List.foldl_cons] at hnot ⊢
  generalize before.foldl (nb.pushCore maxNodes) core = core' at hnot ⊢
  obtain ⟨heq, hcause⟩ | ⟨heq, -⟩ := pushCore_cases nb maxNodes core' id
  · rw [heq] at hnot ⊢
    rcases hcause with hfull | hunready | hmem
    · exact ⟨foldl_pushCore_full hfull, hfull⟩
    · exact absurd hready hunready
    · exact absurd (subset_foldl_pushCore hmem) hnot
  · rw [heq] at hnot
    exact absurd (subset_foldl_pushCore (List.mem_append_right _ (List.mem_singleton_self id))) hnot

variable {endpoint : RecallEndpoint} {ranked : List RankedNode}

theorem core_coreIds (nb : Neighborhood) (endpoint : RecallEndpoint) (ranked : List RankedNode)
    (maxNodes : Nat) : nb.Core maxNodes (nb.coreIds endpoint ranked maxNodes) :=
  have hempty : nb.Core maxNodes [] := ⟨List.nodup_nil, Nat.zero_le _, nofun⟩
  (hempty.foldl _).foldl _

theorem mem_prioritizedCoreIds (h : id ∈ nb.seedIds) :
    id ∈ nb.prioritizedCoreIds endpoint ranked := by
  unfold prioritizedCoreIds
  split
  · rw [List.mem_eraseDups]
    exact List.mem_append_right _ h
  · exact h

theorem mem_coreIds (h : id ∈ nb.coreIds endpoint ranked maxNodes) :
    id ∈ nb.seedIds ∨ id ∈ ranked.map (·.id) := by
  rcases mem_foldl_pushCore h with h | h
  · have h := (mem_foldl_pushCore h).resolve_left (List.not_mem_nil)
    unfold prioritizedCoreIds at h
    split at h
    · rw [List.mem_eraseDups, List.mem_append] at h
      exact h.symm
    · exact .inl h
  · exact .inr h

/-- A ready seed is left out of the core only behind `maxNodes` others. -/
theorem seed_left_out (hid : id ∈ nb.seedIds) (hready : nb.Ready id)
    (hnot : id ∉ nb.coreIds endpoint ranked maxNodes) :
    ∃ before after, nb.prioritizedCoreIds endpoint ranked = before ++ id :: after ∧
      (∀ x ∈ nb.coreIds endpoint ranked maxNodes, x ∈ before) ∧
      (nb.coreIds endpoint ranked maxNodes).length = maxNodes := by
  have hnot' : id ∉ (nb.prioritizedCoreIds endpoint ranked).foldl (nb.pushCore maxNodes) [] :=
    fun h => hnot (subset_foldl_pushCore h)
  obtain ⟨before, after, hsplit, heq, hfull⟩ :=
    full_of_left_out (mem_prioritizedCoreIds hid) hready hnot'
  have hcore : nb.coreIds endpoint ranked maxNodes =
      before.foldl (nb.pushCore maxNodes) [] := by
    unfold coreIds
    rw [heq, foldl_pushCore_full hfull]
  refine ⟨before, after, hsplit, fun x hx => ?_, ?_⟩
  · rw [hcore] at hx
    exact (mem_foldl_pushCore hx).resolve_left List.not_mem_nil
  · have hle := (core_coreIds nb endpoint ranked maxNodes).length_le
    rw [hcore] at hle ⊢
    exact Nat.le_antisymm hle hfull

end Core

/-! ## Drafts -/

section Drafts

variable {nb : Neighborhood} {maxNodes : Nat} {core : List String} {id : String}

/-- A draft topic that a strong edge joins with the core. -/
structure JoinedDraft (nb : Neighborhood) (core : List String) (id : String) : Prop where
  draft : id ∈ nb.draftTopicIds
  joined : ∃ e ∈ nb.edges, (e.type = "part_of" ∨ e.type = "derived_from") ∧
    ∃ c ∈ core, Joins e c id

theorem joinedDraft_of_draftScores {x : ℚ} (h : (nb.draftScores core).get id = some x) :
    nb.JoinedDraft core id := by
  have hinv : ∀ j y, (nb.draftScores core).get j = some y → nb.JoinedDraft core j := by
    unfold draftScores
    refine List.foldlRecOn (motive := fun m : OrderedMap String ℚ =>
      ∀ j y, m.get j = some y → nb.JoinedDraft core j) nb.edges _ (fun _ _ h => nomatch h) ?_
    intro m hm e he
    by_cases htype : e.type = "part_of" ∨ e.type = "derived_from"
    · by_cases hout : e.srcId ∉ core ∧ e.dstId ∉ core
      · simp only [if_pos htype, if_pos hout]
        exact hm
      · have hother : ∃ c ∈ core, Joins e c (if e.srcId ∈ core then e.dstId else e.srcId) := by
          by_cases hsrc : e.srcId ∈ core
          · exact ⟨e.srcId, hsrc, by rw [if_pos hsrc]; exact .inl ⟨rfl, rfl⟩⟩
          · have hdst : e.dstId ∈ core := by
              by_contra hdst
              exact hout ⟨hsrc, hdst⟩
            exact ⟨e.dstId, hdst, by rw [if_neg hsrc]; exact .inr ⟨rfl, rfl⟩⟩
        simp only [if_pos htype, if_neg hout]
        generalize (if e.srcId ∈ core then e.dstId else e.srcId) = other at hother ⊢
        split
        · next hdraft =>
          intro j y hj
          unfold addScore at hj
          rw [OrderedMap.get_set] at hj
          split at hj
          · next hjeq =>
            subst hjeq
            exact ⟨hdraft, e, he, htype, hother⟩
          · exact hm j y hj
        · exact hm
    · simp only [if_neg htype]
      exact hm
  exact hinv id x h

theorem mem_draftCandidates (h : id ∈ nb.draftCandidates core) :
    nb.JoinedDraft core id ∧ id ∉ core ∧ nb.Ready id := by
  unfold draftCandidates at h
  rw [List.mem_filter, Bool.and_eq_true] at h
  obtain ⟨hmem, hnot, hready⟩ := h
  obtain ⟨⟨_, x⟩, hentry, rfl⟩ := List.mem_map.1 hmem
  refine ⟨?_, by simpa using hnot, ?_⟩
  · exact joinedDraft_of_draftScores (OrderedMap.get_eq_some.2 (List.mem_mergeSort.1 hentry))
  · obtain ⟨n, hn, hstatus⟩ := Option.any_eq_true _ _ |>.1 hready
    exact ⟨n, hn, by simpa using hstatus⟩

theorem nodup_draftCandidates (nb : Neighborhood) (core : List String) :
    (nb.draftCandidates core).Nodup := by
  have hperm := (List.mergeSort_perm (nb.draftScores core).entries fun a b => b.2 ≤ a.2).map
    (·.1)
  exact (hperm.nodup_iff.2 (nb.draftScores core).nodup).filter _

theorem draftsToAdd_sublist : (nb.draftsToAdd maxNodes core).Sublist (nb.draftCandidates core) := by
  unfold draftsToAdd
  split
  · exact List.take_sublist _ _
  · exact List.take_sublist _ _

theorem length_draftsToAdd_le : (nb.draftsToAdd maxNodes core).length ≤ draftBudget maxNodes := by
  unfold draftsToAdd
  split
  · rw [List.length_take]
    omega
  · rw [List.length_take]
    omega

theorem mem_removableCore : id ∈ nb.removableCore core ↔ id ∈ core ∧ id ∉ nb.seedIds := by
  unfold removableCore
  rw [List.mem_filter, List.mem_reverse, decide_eq_true_eq]

end Drafts

/-! ## The ids of the answer -/

section OutIds

variable {nb : Neighborhood} {maxNodes : Nat} {core : List String} {id : String}

theorem length_filter_notMem {xs ys : List String} (hxs : xs.Nodup) (hys : ys.Nodup)
    (hsub : ∀ y ∈ ys, y ∈ xs) : (xs.filter (· ∉ ys)).length + ys.length = xs.length := by
  have hin : (xs.filter (· ∈ ys)).Perm ys := by
    refine (List.perm_ext_iff_of_nodup (hxs.filter _) hys).2 fun x => ?_
    rw [List.mem_filter, decide_eq_true_eq]
    exact ⟨fun h => h.2, fun h => ⟨hsub x h, h⟩⟩
  have hsplit := List.length_eq_length_filter_add (l := xs) fun x => decide (x ∈ ys)
  rw [hin.length_eq] at hsplit
  rw [hsplit, Nat.add_comm]
  simp only [decide_not]

theorem mem_outIdsOrdered (h : id ∈ nb.outIdsOrdered maxNodes core) :
    id ∈ core ∨ id ∈ nb.draftsToAdd maxNodes core := by
  unfold outIdsOrdered at h
  simp only at h
  split at h
  · exact List.mem_append.1 h
  · exact (List.mem_append.1 h).imp (fun h => (List.mem_filter.1 h).1) fun h => h

theorem seed_mem_outIdsOrdered (hcore : id ∈ core) (hseed : id ∈ nb.seedIds) :
    id ∈ nb.outIdsOrdered maxNodes core := by
  unfold outIdsOrdered
  simp only
  split
  · exact List.mem_append_left _ hcore
  · refine List.mem_append_left _ (List.mem_filter.2 ⟨hcore, decide_eq_true fun hmem => ?_⟩)
    exact (mem_removableCore.1 (List.mem_of_mem_take hmem)).2 hseed

theorem Core.outIdsOrdered (h : nb.Core maxNodes core) :
    nb.Core maxNodes (nb.outIdsOrdered maxNodes core) where
  nodup := by
    have hdrafts : (nb.draftsToAdd maxNodes core).Nodup :=
      (nodup_draftCandidates nb core).sublist draftsToAdd_sublist
    have hdisjoint : ∀ x ∈ core, ∀ y ∈ nb.draftsToAdd maxNodes core, x ≠ y := by
      rintro x hx y hy rfl
      exact (mem_draftCandidates (draftsToAdd_sublist.subset hy)).2.1 hx
    unfold Neighborhood.outIdsOrdered
    simp only
    split
    · exact List.nodup_append.2 ⟨h.nodup, hdrafts, hdisjoint⟩
    · exact List.nodup_append.2 ⟨h.nodup.filter _, hdrafts, fun x hx => hdisjoint x
        (List.mem_filter.1 hx).1⟩
  length_le := by
    unfold Neighborhood.outIdsOrdered
    simp only
    split
    · next hroom =>
      rw [List.length_append]
      have : (nb.draftsToAdd maxNodes core).length ≤ maxNodes - core.length := by
        unfold draftsToAdd
        rw [if_pos hroom, List.length_take]
        omega
      omega
    · next hfull =>
      have hlength := h.length_le
      have hdrafts : (nb.draftsToAdd maxNodes core).length ≤ (nb.removableCore core).length := by
        unfold draftsToAdd
        rw [if_neg hfull, List.length_take]
        omega
      have hremoved : ((nb.removableCore core).take
          (nb.draftsToAdd maxNodes core).length).length =
            (nb.draftsToAdd maxNodes core).length := by
        rw [List.length_take, Nat.min_eq_left hdrafts]
      have hcount := length_filter_notMem h.nodup
        (((List.nodup_reverse.2 h.nodup).filter _).sublist (List.take_sublist
          (nb.draftsToAdd maxNodes core).length (nb.removableCore core)))
        fun y hy => (mem_removableCore.1 (List.mem_of_mem_take hy)).1
      rw [List.length_append]
      rw [hremoved] at hcount
      omega
  ready id hid := by
    rcases mem_outIdsOrdered hid with hcore | hdraft
    · exact h.ready id hcore
    · exact (mem_draftCandidates (draftsToAdd_sublist.subset hdraft)).2.2

/-- Every node is under its own id, as in the map of a stage 2. -/
def ById (nb : Neighborhood) : Prop := ∀ id n, nb.nodes.get id = some n → n.id = id

variable {outIds : List String}

theorem map_id_outNodeRows (hid : nb.ById) (h : ∀ id ∈ outIds, nb.Ready id) :
    (nb.outNodeRows outIds).map (·.id) = outIds := by
  unfold outNodeRows
  induction outIds with
  | nil => rfl
  | cons id outIds ih =>
    obtain ⟨hhead, htail⟩ := List.forall_mem_cons.1 h
    obtain ⟨n, hn, -⟩ := hhead
    rw [List.filterMap_cons_some hn, List.map_cons, ih htail, hid id n hn]

theorem mem_outNodeRows {n : RecallNodeRow} (hid : nb.ById) (hn : n ∈ nb.outNodeRows outIds) :
    n.id ∈ outIds ∧ nb.nodes.get n.id = some n := by
  obtain ⟨id, hmem, hget⟩ := List.mem_filterMap.1 hn
  rw [hid id n hget]
  exact ⟨hmem, hget⟩

theorem mem_outEdgeRows {maxEdges : Nat} {e : RecallEdgeRow}
    (h : e ∈ nb.outEdgeRows maxEdges outIds) :
    e ∈ nb.edges ∧ e.srcId ∈ outIds ∧ e.dstId ∈ outIds := by
  have h := List.mem_filter.1 (List.mem_mergeSort.1 (List.mem_of_mem_take h))
  rw [Bool.and_eq_true, decide_eq_true_eq, decide_eq_true_eq] at h
  exact h

end OutIds

/-! ## What takes part in the ranking -/

section Settled

variable {nb nb' : Neighborhood} {layers : Option (List String)} {seeds : List RecallCandidate}
  {edges edges' : List RecallEdgeRow} {rows rows' : List RecallNodeRow} {id : String}

/-- A row that is ready and no draft topic. -/
def settled (n : RecallNodeRow) : Bool := n.embeddingStatus == .ready && !isDraftTopic n

def settledRow (rows : List RecallNodeRow) (id : String) : Option RecallNodeRow :=
  ((OrderedMap.ofValues (·.id) rows).get id).filter settled

def settledEnds (rows : List RecallNodeRow) (e : RecallEdgeRow) : Bool :=
  (settledRow rows e.srcId).isSome && (settledRow rows e.dstId).isSome

/-- Answers of stage 2 that differ only in draft topics, in nodes that are not ready, and in the
edges that touch them. -/
structure SameSettled (edges : List RecallEdgeRow) (rows : List RecallNodeRow)
    (edges' : List RecallEdgeRow) (rows' : List RecallNodeRow) : Prop where
  sameRows : ∀ id, settledRow rows id = settledRow rows' id
  sameEdges : edges.filter (settledEnds rows) = edges'.filter (settledEnds rows')

section

variable (hid : nb.ById)

include hid

theorem mem_filteredIds {p : RecallNodeRow → Bool} :
    id ∈ (nb.nodes.values.filter p).map (·.id) ↔ ∃ n, nb.nodes.get id = some n ∧ p n = true := by
  rw [List.mem_map]
  refine ⟨fun ⟨n, hn, hnid⟩ => ?_, fun ⟨n, hget, hp⟩ => ?_⟩
  · obtain ⟨hvalue, hp⟩ := List.mem_filter.1 hn
    obtain ⟨k, hk⟩ := OrderedMap.mem_values.1 hvalue
    obtain rfl : n.id = k := hid k n hk
    exact ⟨n, hnid ▸ hk, hp⟩
  · exact ⟨n, List.mem_filter.2 ⟨OrderedMap.mem_values.2 ⟨id, hget⟩, hp⟩, hid id n hget⟩

theorem mem_draftTopicIds : id ∈ nb.draftTopicIds ↔
    ∃ n, nb.nodes.get id = some n ∧ isDraftTopic n = true := mem_filteredIds hid

theorem mem_notReadyIds : id ∈ nb.notReadyIds ↔
    ∃ n, nb.nodes.get id = some n ∧ n.embeddingStatus ≠ .ready := by
  simp only [notReadyIds, mem_filteredIds hid, decide_eq_true_eq]

/-- The nodes that neither filter takes away are the settled ones. -/
theorem settled_iff {n : RecallNodeRow} (hget : nb.nodes.get id = some n) :
    (id ∉ nb.draftTopicIds ∧ id ∉ nb.notReadyIds) ↔ settled n = true := by
  rw [mem_draftTopicIds hid, mem_notReadyIds hid]
  simp only [hget, Option.some.injEq, exists_eq_left']
  unfold settled
  rw [Bool.and_eq_true, beq_iff_eq, Bool.not_eq_true', not_not, Bool.not_eq_true]
  exact and_comm

theorem get_nodeMapForScoring : nb.nodeMapForScoring.get id = (nb.nodes.get id).filter settled := by
  unfold nodeMapForScoring
  rw [OrderedMap.get_filter, OrderedMap.get_filter]
  cases hget : nb.nodes.get id with
  | none => simp
  | some n =>
    have hsettled := settled_iff hid hget
    rw [Option.filter_some]
    by_cases hdraft : id ∈ nb.draftTopicIds
    · have hnot : settled n ≠ true := fun h => (hsettled.2 h).1 hdraft
      simp [hdraft, hnot]
    · by_cases hready : id ∈ nb.notReadyIds
      · have hnot : settled n ≠ true := fun h => (hsettled.2 h).2 hready
        simp [hready, hnot]
      · simp [hdraft, hready, hsettled.1 ⟨hdraft, hready⟩]

theorem edgesForScoringReady_eq
    (hends : ∀ e ∈ nb.edges, nb.nodes.has e.srcId = true ∧ nb.nodes.has e.dstId = true) :
    nb.edgesForScoringReady = nb.edges.filter fun e =>
      ((nb.nodes.get e.srcId).filter settled).isSome &&
        ((nb.nodes.get e.dstId).filter settled).isSome := by
  unfold edgesForScoringReady
  rw [List.filter_filter]
  refine List.filter_congr fun e he => ?_
  obtain ⟨hsrc, hdst⟩ := hends e he
  obtain ⟨n, hn⟩ := OrderedMap.has_iff.1 hsrc
  obtain ⟨m, hm⟩ := OrderedMap.has_iff.1 hdst
  have hn' := settled_iff hid hn
  have hm' := settled_iff hid hm
  rw [hn, hm, Option.filter_some, Option.filter_some, Bool.eq_iff_iff]
  cases hsn : settled n <;> cases hsm : settled m <;> simp_all <;> tauto

end

theorem byId_build : (build layers seeds edges rows).ById := fun _ _ h => id_of_get h

variable {hops : Nat}

/-- The settled rows and edges decide the ranking. -/
theorem rankedAllBase_congr (h : SameSettled edges rows edges' rows')
    (hseeds : (build layers seeds edges' rows').seeds = (build layers seeds edges rows).seeds) :
    (build layers seeds edges' rows').rankedAllBase hops =
      (build layers seeds edges rows).rankedAllBase hops := by
  have hget : ∀ (edges : List RecallEdgeRow) (rows : List RecallNodeRow) (id : String),
      ((build layers seeds edges rows).nodes.get id).filter settled =
        (settledRow rows id).filter (inLayers layers) := by
    intro edges rows id
    rw [get_build, settledRow, Option.filter_filter, Option.filter_filter]
    simp only [Bool.and_comm]
  have hedges : ∀ (edges : List RecallEdgeRow) (rows : List RecallNodeRow),
      (build layers seeds edges rows).edgesForScoringReady =
        (edges.filter (settledEnds rows)).filter fun e =>
          ((settledRow rows e.srcId).filter (inLayers layers)).isSome &&
            ((settledRow rows e.dstId).filter (inLayers layers)).isSome := by
    intro edges rows
    have hends : ∀ e ∈ (build layers seeds edges rows).edges,
        (build layers seeds edges rows).nodes.has e.srcId = true ∧
          (build layers seeds edges rows).nodes.has e.dstId = true := by
      intro e he
      rw [edges_build] at he
      exact Bool.and_eq_true _ _ ▸ (List.mem_filter.1 he).2
    rw [edgesForScoringReady_eq byId_build hends, edges_build, List.filter_filter,
      List.filter_filter]
    refine List.filter_congr fun e _ => ?_
    have hsome : ∀ id, ((settledRow rows id).filter (inLayers layers)).isSome = true →
        (build layers seeds edges rows).nodes.has id = true ∧
          (settledRow rows id).isSome = true := by
      intro id h
      refine ⟨?_, ?_⟩
      · rw [← hget] at h
        obtain ⟨n, hn⟩ := Option.isSome_iff_exists.1 h
        rw [Option.filter_eq_some_iff] at hn
        exact OrderedMap.has_iff.2 ⟨n, hn.1⟩
      · obtain ⟨n, hn⟩ := Option.isSome_iff_exists.1 h
        rw [Option.filter_eq_some_iff] at hn
        exact Option.isSome_iff_exists.2 ⟨n, hn.1⟩
    simp only [hget]
    unfold settledEnds
    rw [Bool.eq_iff_iff]
    simp only [Bool.and_eq_true]
    refine ⟨fun h => ⟨h.1, (hsome _ h.1.1).2, (hsome _ h.1.2).2⟩,
      fun h => ⟨h.1, (hsome _ h.1.1).1, (hsome _ h.1.2).1⟩⟩
  have hnodes : ∀ id, (build layers seeds edges' rows').nodeMapForScoring.get id =
      (build layers seeds edges rows).nodeMapForScoring.get id := by
    intro id
    rw [get_nodeMapForScoring byId_build, get_nodeMapForScoring byId_build, hget, hget,
      h.sameRows id]
  unfold rankedAllBase
  rw [hseeds, hedges, hedges, ← h.sameEdges]
  simp only [← h.sameRows]
  unfold spreadActivation
  have hranked : rankedNode (build layers seeds edges' rows').nodeMapForScoring =
      rankedNode (build layers seeds edges rows).nodeMapForScoring := by
    funext entry
    unfold rankedNode
    rw [hnodes entry.1]
  rw [hranked]

theorem mem_rankedAll {env : ContextEnv} {endpoint : RecallEndpoint} {r : RankedNode} :
    r ∈ nb.rankedAll env endpoint hops ↔ r ∈ nb.rankedAllBase hops := by
  unfold rankedAll prioritizeRankedForActionRecall
  simp only
  split
  · exact List.mem_mergeSort
  · exact Iff.rfl

theorem nodup_rankedAll {env : ContextEnv} {endpoint : RecallEndpoint} :
    ((nb.rankedAll env endpoint hops).map (·.id)).Nodup := by
  unfold rankedAll prioritizeRankedForActionRecall
  simp only
  split
  · exact ((List.mergeSort_perm _ _).map _).nodup_iff.2 (nodup_spreadActivation _ _ _ _)
  · exact nodup_spreadActivation _ _ _ _

end Settled

end Neighborhood

end AionisCore.Memory
