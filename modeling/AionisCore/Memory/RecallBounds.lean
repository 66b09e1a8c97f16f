import AionisCore.Memory.ContextBudget
import AionisCore.Memory.RecallGraph
import AionisCore.Memory.RecallStage1

/-!
# Bounds of an answer

How large the subgraph of a recall is, what is in it, and what a ranking depends on, for every
store that keeps the contract of the recall access.
-/

namespace AionisCore.Memory

open Lib Lib.JsString Lib.StableSort Store Util

/-! ## The contract of a store -/

/-- The lanes that a consumer reads. -/
def rowVisible (n : RecallNodeRow) (consumerAgentId consumerTeamId : Option String) : Bool :=
  n.memoryLane == .sharedLane || n.ownerAgentId == consumerAgentId ||
    ((given consumerTeamId).isSome && n.ownerTeamId == consumerTeamId)

/-- Stage 2 answers with rows that the consumer reads, and finds the candidates of stage 1. -/
structure Lawful (access : RecallStoreAccess) : Prop where
  visible : ∀ params, ∀ n ∈ access.stage2Nodes params,
    rowVisible n params.consumerAgentId params.consumerTeamId = true
  found : ∀ params₁ params₂, params₁.scope = params₂.scope →
    params₁.consumerAgentId = params₂.consumerAgentId →
    params₁.consumerTeamId = params₂.consumerTeamId →
    ∀ s, s ∈ access.stage1CandidatesAnn params₁ ∨
        s ∈ access.stage1CandidatesExactFallback params₁ → s.id ∈ params₂.nodeIds →
      ∃ n ∈ access.stage2Nodes params₂, n.id = s.id

theorem mem_sliceTo {α : Type} {n : Int} {xs : List α} {x : α} (h : x ∈ sliceTo n xs) : x ∈ xs := by
  unfold sliceTo at h
  split at h
  · exact List.mem_of_mem_take h
  · exact List.mem_of_mem_take h

theorem lawful_lite (host : RecallHost) (t : LiteTables) : Lawful (liteRecallAccess host t) where
  visible params n hn := by
    obtain ⟨row, hrow, rfl⟩ := List.mem_map.1 hn
    have hvisible := (of_decide_eq_true (List.mem_filter.1 hrow).2).2.2
    unfold candidateVisible at hvisible
    unfold rowVisible
    simp only [Bool.or_eq_true, Bool.and_eq_true] at hvisible ⊢
    simp only [nodeToRecallRow]
    tauto
  found params₁ params₂ hscope hagent hteam s hs hid := by
    have hs : s ∈ t.stage1Candidates host params₁ := hs.elim (fun h => h) fun h => h
    obtain ⟨item, hitem, rfl⟩ := List.mem_map.1 hs
    have hitem := List.mem_mergeSort.1 (mem_sliceTo hitem)
    have hitem := List.mem_mergeSort.1 (List.mem_of_mem_take (List.mem_filter.1 hitem).1)
    obtain ⟨row, hrow, hitem⟩ := List.mem_filterMap.1 hitem
    split at hitem
    · next hcond =>
      obtain ⟨e, -, rfl⟩ := Option.map_eq_some_iff.1 hitem
      refine ⟨nodeToRecallRow row host params₂.includeSlots, ?_, rfl⟩
      refine List.mem_map_of_mem (List.mem_filter.2 ⟨hrow, decide_eq_true ?_⟩)
      exact ⟨hcond.1.trans hscope, hid, hagent ▸ hteam ▸ hcond.2.2.2⟩
    · cases hitem

/-- The recall access of the embedded runtime. -/
def embeddedRecallAccess (host : EmbeddedHost) (r : EmbeddedRuntime) : RecallStoreAccess where
  stage1CandidatesAnn := r.stage1Candidates host
  stage1CandidatesExactFallback := r.stage1Candidates host
  stage2Edges := r.stage2Edges host
  stage2Nodes := r.stage2Nodes host
  ruleDefs := r.getRuleDefs

section Answer

variable {env : ContextEnv} {access : RecallStoreAccess} {parsed : MemoryRecallInput}
  {defaults : TenantDefaults} {allowDebugEmbeddings : Bool} {endpoint : RecallEndpoint}
  {options : MemoryRecallOptions} {out : RecallAnswer}

/-- The edges that stage 2 answers with. -/
def answerEdges (access : RecallStoreAccess) (parsed : MemoryRecallInput) (out : RecallAnswer) :
    List RecallEdgeRow :=
  access.stage2Edges
    (stage2EdgesParams parsed out.tenancy.scopeKey (out.seeds.map (·.id)))

/-- What stage 2 is asked for. -/
def answerNodesParams (env : ContextEnv) (access : RecallStoreAccess) (parsed : MemoryRecallInput)
    (out : RecallAnswer) : RecallStage2NodesParams where
  scope := out.tenancy.scopeKey
  nodeIds := neighborhoodNodeIds env.localeCompare (nodeFetchBudget parsed)
    (out.seeds.map (·.id)) (answerEdges access parsed out)
  consumerAgentId := consumerId parsed.consumerAgentId
  consumerTeamId := consumerId parsed.consumerTeamId
  includeSlots := true

/-- The rows that stage 2 answers with. -/
def answerRows (env : ContextEnv) (access : RecallStoreAccess) (parsed : MemoryRecallInput)
    (out : RecallAnswer) : List RecallNodeRow :=
  access.stage2Nodes (answerNodesParams env access parsed out)

/-- The neighbourhood that an answer is made of. -/
def answerNeighborhood (env : ContextEnv) (access : RecallStoreAccess) (parsed : MemoryRecallInput)
    (options : MemoryRecallOptions) (out : RecallAnswer) : Neighborhood :=
  .build (retrievalLayers out.layerPolicy options) out.seeds (answerEdges access parsed out)
    (answerRows env access parsed out)

/-- The ranking that an answer is made of. -/
def answerRanked (env : ContextEnv) (access : RecallStoreAccess) (parsed : MemoryRecallInput)
    (endpoint : RecallEndpoint) (options : MemoryRecallOptions) (out : RecallAnswer) :
    List RankedNode :=
  (answerNeighborhood env access parsed options out).rankedAll env endpoint parsed.neighborhoodHops

def answerCore (env : ContextEnv) (access : RecallStoreAccess) (parsed : MemoryRecallInput)
    (endpoint : RecallEndpoint) (options : MemoryRecallOptions) (out : RecallAnswer) :
    List String :=
  (answerNeighborhood env access parsed options out).coreIds endpoint
    (answerRanked env access parsed endpoint options out) parsed.maxNodes

/-- How the parts of an answer come about. -/
structure Assembled (env : ContextEnv) (access : RecallStoreAccess) (parsed : MemoryRecallInput)
    (endpoint : RecallEndpoint) (options : MemoryRecallOptions) (out : RecallAnswer) : Prop where
  policy : out.layerPolicy = resolveMemoryLayerPolicy endpoint parsed.allowedLayers options
  seeds : out.seeds = stage1Seeds access options.stage1ExactFallbackOnEmpty
    (stage1Params parsed out.tenancy.scopeKey)
  parts : (out.seeds = [] ∧ out.nodes = [] ∧ out.edges = [] ∧ out.context = none) ∨
    ∃ context,
      let nb := answerNeighborhood env access parsed options out
      let ranked := answerRanked env access parsed endpoint options out
      let outIds := nb.outIdsOrdered parsed.maxNodes
        (answerCore env access parsed endpoint options out)
      out.nodes = nb.outNodeRows outIds ∧ out.edges = nb.outEdgeRows parsed.maxEdges outIds ∧
        out.ranked = ranked.take parsed.rankedLimit ∧ out.context = some context ∧
        buildContext env ranked nb.nodes
          (recallRuleDefMap access out.tenancy.scopeKey out.nodes)
          (recallContextOptions parsed out.tenancy out.layerPolicy endpoint options) =
            .ok context

theorem assembled (h : memoryRecallParsed env access parsed defaults allowDebugEmbeddings endpoint
    options = .ok out) : Assembled env access parsed endpoint options out := by
  unfold memoryRecallParsed at h
  obtain ⟨tenancy, -, h⟩ := bind_eq_ok.1 h
  obtain ⟨_, -, h⟩ := bind_eq_ok.1 h
  obtain ⟨_, -, h⟩ := bind_eq_ok.1 h
  dsimp only at h
  split at h
  · next hseeds =>
    cases h
    exact ⟨rfl, rfl, .inl ⟨hseeds, rfl, rfl, rfl⟩⟩
  · obtain ⟨context, hcontext, h⟩ := bind_eq_ok.1 h
    cases h
    exact ⟨rfl, rfl, .inr ⟨context, rfl, rfl, rfl, rfl, mapError_eq_ok.1 hcontext⟩⟩

theorem mem_neighborhoodNodeIds {localeCompare : String → String → Int} {budget : Nat}
    {seedIds : List String} {edges : List RecallEdgeRow} {id : String} (h : id ∈ seedIds) :
    id ∈ neighborhoodNodeIds localeCompare budget seedIds edges := by
  unfold neighborhoodNodeIds
  simp only
  split
  · exact List.mem_append_left _ h
  · rw [List.mem_eraseDups]
    exact List.mem_append_left _ h

theorem Assembled.mem_seeds {s : RecallCandidate}
    (h : Assembled env access parsed endpoint options out) (hs : s ∈ out.seeds) :
    s ∈ access.stage1CandidatesAnn (stage1Params parsed out.tenancy.scopeKey) ∨
      s ∈ access.stage1CandidatesExactFallback (stage1Params parsed out.tenancy.scopeKey) := by
  rw [h.seeds] at hs
  unfold stage1Seeds at hs
  dsimp only at hs
  split at hs
  · exact .inr hs
  · exact .inl hs

/-- The row that stage 2 has of a seed. -/
theorem Assembled.exists_row {s : RecallCandidate} (haccess : Lawful access)
    (h : Assembled env access parsed endpoint options out) (hs : s ∈ out.seeds) :
    ∃ row ∈ answerRows env access parsed out, row.id = s.id ∧
      (OrderedMap.ofValues (·.id) (answerRows env access parsed out)).get s.id = some row := by
  obtain ⟨n, hn, hid⟩ := haccess.found (stage1Params parsed out.tenancy.scopeKey)
    (answerNodesParams env access parsed out) rfl rfl rfl s (h.mem_seeds hs)
    (mem_neighborhoodNodeIds (List.mem_map_of_mem hs))
  obtain ⟨row, hrow⟩ : ∃ row, (OrderedMap.ofValues (·.id)
      (answerRows env access parsed out)).get n.id = some row := OrderedMap.exists_get_ofValues hn
  rw [hid] at hrow
  exact ⟨row, OrderedMap.mem_of_get_ofValues hrow, OrderedMap.keyed_ofValues _ _ _ hrow, hrow⟩

/-- Whatever is ranked is a seed or at the end of an edge that stage 2 answered with. -/
theorem answerRanked_cases (hedges : ∀ e ∈ answerEdges access parsed out, Weighted e)
    {r : RankedNode} (hr : r ∈ answerRanked env access parsed endpoint options out) :
    r.id ∈ out.seeds.map (·.id) ∨
      ∃ e ∈ answerEdges access parsed out, r.id = e.srcId ∨ r.id = e.dstId := by
  have hsub : ∀ e ∈ (answerNeighborhood env access parsed options out).edgesForScoringReady,
      e ∈ answerEdges access parsed out := fun e he =>
    Neighborhood.mem_edges_of_build (List.mem_filter.1 (List.mem_filter.1 he).1).1
  rcases activated_cases (fun e he => hedges e (hsub e he)) (Neighborhood.mem_rankedAll.1 hr) with
    hseed | ⟨e, he, hend⟩
  · obtain ⟨s, hs, hid⟩ := List.mem_map.1 hseed
    exact .inl (List.mem_map.2 ⟨s, Neighborhood.mem_seeds_build hs, hid⟩)
  · exact .inr ⟨e, hsub e he, hend⟩

/-- A recall answers where the ids of nodes and commits are UUIDs. -/
theorem memoryRecallParsed_ok {tenancy : TenantScope}
    (htenancy : resolveTenantScope ⟨parsed.tenantId, parsed.scope⟩ defaults = .ok tenancy)
    (hdim : parsed.queryEmbedding.length = 1536) (hembeddings : parsed.includeEmbeddings = false)
    (hids : ∀ params, ∀ n ∈ access.stage2Nodes params,
      isUuid n.id = true ∧ ∀ c, n.commitId = some c → isUuid c = true) :
    ∃ out, memoryRecallParsed env access parsed defaults allowDebugEmbeddings endpoint options =
      .ok out ∧ out.tenancy = tenancy := by
  have hcontract : enforceHardContract parsed allowDebugEmbeddings = .ok () := by
    unfold enforceHardContract
    rw [hembeddings]
    rfl
  unfold memoryRecallParsed
  rw [htenancy, assertQueryDim, if_pos hdim, hcontract]
  simp only [Except.mapError, Except.bind, bind, pure, Except.pure]
  split
  · exact ⟨_, rfl, rfl⟩
  · generalize hnb : recallNeighborhood env.localeCompare access parsed tenancy.scopeKey _ _ = nb
    obtain ⟨context, hcontext⟩ := @buildContext_ok env
      (nb.rankedAll env endpoint parsed.neighborhoodHops) nb.nodes
      (recallRuleDefMap access tenancy.scopeKey (nb.outNodeRows (nb.outIdsOrdered parsed.maxNodes
        (nb.coreIds endpoint (nb.rankedAll env endpoint parsed.neighborhoodHops)
          parsed.maxNodes))))
      (recallContextOptions parsed tenancy (resolveMemoryLayerPolicy endpoint parsed.allowedLayers
        options) endpoint options) fun id n hget => by
          subst hnb
          obtain ⟨hid, hcommit⟩ := hids _ n (Neighborhood.mem_rows_of_get hget)
          exact uriSafe_of_isUuid hid hcommit
    rw [hcontext]
    exact ⟨_, rfl, rfl⟩

end Answer

/-! ## The subgraph -/

/-- Neither a seed nor ranked. -/
def Unranked (seeds : List RecallCandidate) (ranked : List RankedNode) (n : RecallNodeRow) : Prop :=
  n.id ∉ seeds.map (·.id) ∧ n.id ∉ ranked.map (·.id)

instance (seeds : List RecallCandidate) (ranked : List RankedNode) :
    DecidablePred (Unranked seeds ranked) := fun _ => inferInstanceAs (Decidable (_ ∧ _))

structure SubgraphBounds (env : ContextEnv) (access : RecallStoreAccess)
    (parsed : MemoryRecallInput) (endpoint : RecallEndpoint) (options : MemoryRecallOptions)
    (out : RecallAnswer) : Prop where
  nodup : (out.nodes.map (·.id)).Nodup
  nodes_le : out.nodes.length ≤ parsed.maxNodes
  visible : ∀ n ∈ out.nodes, n.embeddingStatus = .ready ∧
    rowVisible n (consumerId parsed.consumerAgentId) (consumerId parsed.consumerTeamId) = true
  edges_le : out.edges.length ≤ parsed.maxEdges
  joined : ∀ e ∈ out.edges, e.srcId ∈ out.nodes.map (·.id) ∧ e.dstId ∈ out.nodes.map (·.id)
  drafts : ∀ n ∈ out.nodes, Unranked out.seeds (answerRanked env access parsed endpoint options out)
    n → isDraftTopic n = true ∧
      ∃ e ∈ answerEdges access parsed out, (e.type = "part_of" ∨ e.type = "derived_from") ∧
        ∃ c ∈ answerCore env access parsed endpoint options out, Joins e c n.id
  drafts_le : out.nodes.countP (Unranked out.seeds
    (answerRanked env access parsed endpoint options out)) ≤ min 10 (parsed.maxNodes / 5)
  /-- A seed is left out if it is not ready, if the layers of the retrieval leave it out, or behind
  `maxNodes` others. -/
  seeds : ∀ s ∈ out.seeds, s.id ∉ out.nodes.map (·.id) →
    ∃ row ∈ answerRows env access parsed out, row.id = s.id ∧
      (row.embeddingStatus ≠ .ready ∨
        Neighborhood.inLayers (retrievalLayers out.layerPolicy options) row = false ∨
        ∃ before after,
          (answerNeighborhood env access parsed options out).prioritizedCoreIds endpoint
            (answerRanked env access parsed endpoint options out) = before ++ s.id :: after ∧
          (∀ c ∈ answerCore env access parsed endpoint options out, c ∈ before ∧ c ≠ s.id) ∧
          (answerCore env access parsed endpoint options out).Nodup ∧
          (answerCore env access parsed endpoint options out).length = parsed.maxNodes)
  /-- Drafts and nodes that are not ready change no activation and no score. -/
  independent : ∀ edges rows,
    let nb := Neighborhood.build (retrievalLayers out.layerPolicy options) out.seeds edges rows
    Neighborhood.SameSettled (answerEdges access parsed out) (answerRows env access parsed out)
        edges rows →
      nb.seeds = (answerNeighborhood env access parsed options out).seeds →
      ∀ r, r ∈ nb.rankedAll env endpoint parsed.neighborhoodHops ↔
        r ∈ answerRanked env access parsed endpoint options out

section Bounds

variable {env : ContextEnv} {access : RecallStoreAccess} {parsed : MemoryRecallInput}
  {defaults : TenantDefaults} {allowDebugEmbeddings : Bool} {endpoint : RecallEndpoint}
  {options : MemoryRecallOptions} {out : RecallAnswer}

theorem independent_answer (edges : List RecallEdgeRow) (rows : List RecallNodeRow)
    (h : Neighborhood.SameSettled (answerEdges access parsed out) (answerRows env access parsed out)
      edges rows)
    (hseeds : (Neighborhood.build (retrievalLayers out.layerPolicy options) out.seeds edges
      rows).seeds = (answerNeighborhood env access parsed options out).seeds) (r : RankedNode) :
    r ∈ (Neighborhood.build (retrievalLayers out.layerPolicy options) out.seeds edges
        rows).rankedAll env endpoint parsed.neighborhoodHops ↔
      r ∈ answerRanked env access parsed endpoint options out := by
  unfold answerRanked
  rw [Neighborhood.mem_rankedAll, Neighborhood.mem_rankedAll,
    Neighborhood.rankedAllBase_congr h hseeds]
  rfl

/-- What no seed and no rank brings in is a draft that was added. -/
theorem mem_drafts_of_unranked {nb : Neighborhood} {seeds : List RecallCandidate}
    {ranked : List RankedNode} {maxNodes : Nat} {n : RecallNodeRow}
    (hseeds : ∀ s ∈ nb.seeds, s ∈ seeds)
    (hn : n.id ∈ nb.outIdsOrdered maxNodes (nb.coreIds endpoint ranked maxNodes))
    (hunranked : Unranked seeds ranked n) :
    n.id ∈ nb.draftsToAdd maxNodes (nb.coreIds endpoint ranked maxNodes) := by
  refine (Neighborhood.mem_outIdsOrdered hn).resolve_left fun hcore => ?_
  rcases Neighborhood.mem_coreIds hcore with hseed | hrank
  · obtain ⟨s, hs, hid⟩ := List.mem_map.1 hseed
    exact hunranked.1 (List.mem_map.2 ⟨s, hseeds s hs, hid⟩)
  · exact hunranked.2 hrank

theorem SubgraphBounds.of_empty (hseeds : out.seeds = []) (hnodes : out.nodes = [])
    (hedges : out.edges = []) : SubgraphBounds env access parsed endpoint options out where
  nodup := by rw [hnodes]; exact List.nodup_nil
  nodes_le := by rw [hnodes]; exact Nat.zero_le _
  visible n hn := by rw [hnodes] at hn; cases hn
  edges_le := by rw [hedges]; exact Nat.zero_le _
  joined e he := by rw [hedges] at he; cases he
  drafts n hn := by rw [hnodes] at hn; cases hn
  drafts_le := by rw [hnodes]; exact Nat.zero_le _
  seeds s hs := by rw [hseeds] at hs; cases hs
  independent := independent_answer

theorem memoryRecallParsed_bounds (haccess : Lawful access)
    (h : memoryRecallParsed env access parsed defaults allowDebugEmbeddings endpoint options =
      .ok out) : SubgraphBounds env access parsed endpoint options out := by
  have hparts := assembled h
  rcases hparts.parts with ⟨hseeds, hnodes, hedges, -⟩ | ⟨context, hnodes, hedges, -⟩
  · exact .of_empty hseeds hnodes hedges
  · have hcore := Neighborhood.core_coreIds (answerNeighborhood env access parsed options out)
      endpoint (answerRanked env access parsed endpoint options out) parsed.maxNodes
    have houtIds := Neighborhood.Core.outIdsOrdered hcore
    have hbyId : (answerNeighborhood env access parsed options out).ById :=
      Neighborhood.byId_build
    have hids : out.nodes.map (·.id) =
        (answerNeighborhood env access parsed options out).outIdsOrdered parsed.maxNodes
          (answerCore env access parsed endpoint options out) := by
      rw [hnodes]
      exact Neighborhood.map_id_outNodeRows hbyId houtIds.ready
    have hmem : ∀ n ∈ out.nodes, n.id ∈ out.nodes.map (·.id) ∧
        (answerNeighborhood env access parsed options out).nodes.get n.id = some n := by
      intro n hn
      refine ⟨List.mem_map_of_mem hn, ?_⟩
      rw [hnodes] at hn
      exact (Neighborhood.mem_outNodeRows hbyId hn).2
    have hseeds : ∀ s ∈ (answerNeighborhood env access parsed options out).seeds,
        s ∈ out.seeds := fun s hs => Neighborhood.mem_seeds_build hs
    have hadded : ∀ n ∈ out.nodes,
        Unranked out.seeds (answerRanked env access parsed endpoint options out) n →
        n.id ∈ (answerNeighborhood env access parsed options out).draftsToAdd parsed.maxNodes
          (answerCore env access parsed endpoint options out) := by
      intro n hn hunranked
      exact mem_drafts_of_unranked hseeds (hids ▸ (hmem n hn).1) hunranked
    refine ⟨?_, ?_, ?_, ?_, ?_, ?_, ?_, ?_, independent_answer⟩
    · rw [hids]
      exact houtIds.nodup
    · have hlength := congrArg List.length hids
      rw [List.length_map] at hlength
      rw [hlength]
      exact houtIds.length_le
    · intro n hn
      obtain ⟨hid, hget⟩ := hmem n hn
      obtain ⟨m, hm, hready⟩ := houtIds.ready n.id (hids ▸ hid)
      obtain rfl := Option.some.inj (hget.symm.trans hm)
      exact ⟨hready, haccess.visible (answerNodesParams env access parsed out) n
        (Neighborhood.mem_rows_of_get hget)⟩
    · rw [hedges]
      exact List.length_take_le _ _
    · intro e he
      rw [hedges] at he
      rw [hids]
      exact (Neighborhood.mem_outEdgeRows he).2
    · intro n hn hunranked
      have hdraft := (Neighborhood.mem_draftCandidates (Neighborhood.draftsToAdd_sublist.subset
        (hadded n hn hunranked))).1
      obtain ⟨m, hm, hisdraft⟩ := (Neighborhood.mem_draftTopicIds hbyId).1 hdraft.draft
      obtain rfl := Option.some.inj ((hmem n hn).2.symm.trans hm)
      obtain ⟨e, he, htype, hjoins⟩ := hdraft.joined
      exact ⟨hisdraft, e, Neighborhood.mem_edges_of_build he, htype, hjoins⟩
    · have hle : ((answerNeighborhood env access parsed options out).draftsToAdd parsed.maxNodes
          (answerCore env access parsed endpoint options out)).length ≤
            Neighborhood.draftBudget parsed.maxNodes := Neighborhood.length_draftsToAdd_le
      refine Nat.le_trans ?_ hle
      rw [List.countP_eq_length_filter, ← List.length_map (f := fun n : RecallNodeRow => n.id)]
      refine List.Subperm.length_le (List.Nodup.subperm ?_ ?_)
      · refine List.Nodup.sublist (List.filter_sublist.map _) ?_
        rw [hids]
        exact houtIds.nodup
      · intro id hid
        obtain ⟨n, hn, rfl⟩ := List.mem_map.1 hid
        obtain ⟨hn, hunranked⟩ := List.mem_filter.1 hn
        exact hadded n hn (of_decide_eq_true hunranked)
    · intro s hs hnot
      obtain ⟨row, hrow, hid, hget⟩ := hparts.exists_row haccess hs
      refine ⟨row, hrow, hid, ?_⟩
      by_cases hready : row.embeddingStatus = .ready
      · refine .inr ?_
        cases hlayers : Neighborhood.inLayers (retrievalLayers out.layerPolicy options) row with
        | false => exact .inl rfl
        | true =>
          have hget : (answerNeighborhood env access parsed options out).nodes.get s.id =
              some row := by
            unfold answerNeighborhood
            rw [Neighborhood.get_build, hget, Option.filter_some, if_pos hlayers]
          have hseed := List.mem_map_of_mem (f := fun s : RecallCandidate => s.id)
            (Neighborhood.mem_seeds_of_get hs hget)
          rw [hids] at hnot
          have hnotcore : s.id ∉ answerCore env access parsed endpoint options out :=
            fun h => hnot (Neighborhood.seed_mem_outIdsOrdered h hseed)
          obtain ⟨before, after, hsplit, hbefore, hfull⟩ :=
            Neighborhood.seed_left_out hseed ⟨row, hget, hready⟩ hnotcore
          refine .inr ⟨before, after, hsplit, fun c hc => ⟨hbefore c hc, ?_⟩, hcore.nodup, hfull⟩
          rintro rfl
          exact hnotcore hc
      · exact .inl hready

end Bounds

theorem selectHop_of_pairwise {localeCompare : String → String → Int} {rows : List RecallEdgeRow}
    {ids : List String} {budget : Int} (hsrc : ∀ e ∈ rows, e.srcId ∈ ids)
    (hdst : ∀ e ∈ rows, e.dstId ∉ ids)
    (hsorted : rows.Pairwise fun a b => edgeSortDesc localeCompare a b = true)
    (hids : (rows.map (·.id)).Nodup) (hbudget : rows.length ≤ budget) :
    selectHop localeCompare rows ids budget = rows := by
  have hfrom : rows.filter (fun e => decide (e.srcId ∈ ids)) = rows :=
    List.filter_eq_self.2 fun e he => decide_eq_true (hsrc e he)
  have hto : rows.filter (fun e => decide (e.dstId ∈ ids)) = [] :=
    List.filter_eq_nil_iff.2 fun e he => by simpa using hdst e he
  unfold selectHop
  rw [hfrom, hto, List.mergeSort_nil, List.mergeSort_of_pairwise hsorted]
  have hslice : sliceTo budget rows = rows := by
    rw [sliceTo, if_pos (by omega)]
    exact List.take_of_length_le (by omega)
  have hnil : sliceTo budget ([] : List RecallEdgeRow) = [] := by
    unfold sliceTo
    split <;> exact List.take_nil
  rw [hslice, hnil]
  simp only
  rw [List.append_nil, OrderedMap.values_ofValues hids,
    List.mergeSort_of_pairwise hsorted]


/-- One hop along the best edges, which are stored in their order. -/
theorem selectStage2Edges_of_pairwise {localeCompare : String → String → Int}
    {edges : List RecallEdgeRow} {params : RecallStage2EdgesParams} (hops : params.twoHops = false)
    (hrows : ∀ e ∈ edges, e.scope = params.scope ∧ params.minEdgeWeight ≤ e.weight ∧
      params.minEdgeConfidence ≤ e.confidence)
    (hsrc : ∀ e ∈ edges, e.srcId ∈ params.seedIds) (hdst : ∀ e ∈ edges, e.dstId ∉ params.seedIds)
    (hsorted : edges.Pairwise fun a b => edgeSortDesc localeCompare a b = true)
    (hids : (edges.map (·.id)).Nodup) (hbudget : edges.length ≤ params.hop1Budget) :
    selectStage2Edges localeCompare edges params = sliceTo params.edgeFetchBudget edges := by
  unfold selectStage2Edges
  rw [List.filter_eq_self.2 fun e he => decide_eq_true (hrows e he)]
  simp only [hops]
  rw [selectHop_of_pairwise hsrc hdst hsorted hids hbudget]
  rfl

/-! ## Drafts that crowd the edges out -/

def recalledId (digit : String) : String := "00000000-0000-4000-8000-00000000000" ++ digit

def recalledNode (digit type tier : String) (slots : Json.Fields) : LiteNodeRow :=
  { crowdedNode digit type with
    tier := tier
    slots := slots
    commitId := recalledId "0" }

def recalledEdge (digit : String) (weight : ℚ) : LiteEdgeRow where
  scope := "default"
  type := "part_of"
  srcId := recalledId "1"
  dstId := recalledId digit
  id := digit
  weight := weight
  confidence := 1
  decayRate := 0
  commitId := recalledId "0"
  createdAt := ""

/-- An event with an edge to a node of some type, and definitions of rules. -/
def linkedTables (type : String) (ruleDefs : List LiteRuleDefRow) : LiteTables :=
  { LiteTables.empty with
    nodes := [recalledNode "1" "event" "hot" [], recalledNode "7" type "cold" []]
    edges := [recalledEdge "7" (1 / 2)]
    ruleDefs := ruleDefs
    nodeIds := by
      change ["00000000-0000-4000-8000-000000000001", "00000000-0000-4000-8000-000000000007"].Nodup
      decide
    edgeIds := by unfold Table.Unique; decide
    edgeKeys := by unfold Table.Unique; decide }

/-- The event with edges to another one and to five drafts of topics. -/
def draftedTables : LiteTables :=
  { LiteTables.empty with
    nodes := [recalledNode "1" "event" "hot" [], recalledNode "7" "event" "cold" []] ++
      ["2", "3", "4", "5", "6"].map (recalledNode · "topic" "cold" [("topic_state", .str "draft")])
    edges := ["2", "3", "4", "5", "6"].map (recalledEdge · 1) ++ [recalledEdge "7" (1 / 2)]
    nodeIds := by unfold Table.Unique; decide
    edgeIds := by unfold Table.Unique; decide
    edgeKeys := by unfold Table.Unique; decide }

def sampleDefaults : TenantDefaults := ⟨"default", "default"⟩

def hopRequest (allowedLayers : List String) : MemoryRecallInput where
  queryEmbedding := crowdedQuery
  limit := 1
  neighborhoodHops := 1
  maxEdges := 1
  allowedLayers := allowedLayers

/-- What stage 1 makes of the hot event. -/
def hubCandidate : RecallCandidate :=
  RankedRow.candidate ⟨recalledNode "1" "event" "hot" [],
    cosineDistance sampleRecallHost crowdedQuery crowdedQuery⟩

theorem weighted_recalledEdge (digit : String) {weight : ℚ} (h : 0 ≤ weight ∧ weight ≤ 1) :
    Weighted (recalledEdge digit weight).recallRow := ⟨h, zero_le_one, le_rfl⟩

theorem tenancy_sampleDefaults : resolveTenantScope ⟨none, none⟩ sampleDefaults =
    .ok ⟨"default", "default", "default"⟩ := by
  decide +kernel

/-- A recall that starts from the hot event. -/
structure HubRecall (t : LiteTables) (layers : List String) (options : MemoryRecallOptions)
    (out : RecallAnswer) : Prop where
  ok : memoryRecallParsed sampleContextEnv (liteRecallAccess sampleRecallHost t)
    (hopRequest layers) sampleDefaults false .recall options = .ok out
  tenancy : out.tenancy = ⟨"default", "default", "default"⟩
  seeds : out.seeds = [hubCandidate]

theorem hubRecall {t : LiteTables} {layers : List String}
    (hids : ∀ n ∈ t.nodes, isUuid n.id = true ∧ isUuid n.commitId = true)
    (hstage1 : t.stage1Candidates sampleRecallHost (stage1Params (hopRequest layers) "default") =
      [hubCandidate]) (options : MemoryRecallOptions) : ∃ out, HubRecall t layers options out := by
  obtain ⟨out, hout, htenancy⟩ := @memoryRecallParsed_ok sampleContextEnv
    (liteRecallAccess sampleRecallHost t) (hopRequest layers) sampleDefaults false .recall options
    _ tenancy_sampleDefaults List.length_replicate rfl fun params n hn => by
      obtain ⟨row, hrow, rfl⟩ := List.mem_map.1 hn
      obtain ⟨hid, hcommit⟩ := hids row (List.mem_filter.1 hrow).1
      exact ⟨hid, fun c hc => Option.some.inj hc ▸ hcommit⟩
  refine ⟨out, hout, htenancy, ?_⟩
  rw [(assembled hout).seeds, stage1Seeds_lite, htenancy]
  exact hstage1

theorem hubRecall_linked (type : String) (ruleDefs : List LiteRuleDefRow) (layers : List String)
    (options : MemoryRecallOptions) :
    ∃ out, HubRecall (linkedTables type ruleDefs) layers options out := by
  refine hubRecall ?_ ?_ options
  · have hids : isUuid (recalledId "1") = true ∧ isUuid (recalledId "7") = true ∧
        isUuid (recalledId "0") = true := by decide
    intro n hn
    simp only [linkedTables, List.mem_cons, List.not_mem_nil, or_false] at hn
    rcases hn with rfl | rfl
    · exact ⟨hids.1, hids.2.2⟩
    · exact ⟨hids.2.1, hids.2.2⟩
  · exact stage1Candidates_single (by rfl) (by rfl) (show (0 : Int) < 5 by decide)
      (show (0 : Int) < 1 by decide)

theorem hubRecall_drafted (options : MemoryRecallOptions) :
    ∃ out, HubRecall draftedTables [] options out :=
  hubRecall (by decide) (stage1Candidates_single (by rfl) (by rfl)
    (show (0 : Int) < 5 by decide) (show (0 : Int) < 1 by decide)) options

theorem stage2Edges_linked : selectStage2Edges sampleRecallHost.localeCompare
    [(recalledEdge "7" (1 / 2)).recallRow]
      (stage2EdgesParams (hopRequest []) "default" [recalledId "1"]) =
        [(recalledEdge "7" (1 / 2)).recallRow] :=
  selectStage2Edges_of_pairwise (by decide) (by decide +kernel) (by decide) (by decide)
    (List.pairwise_singleton _ _) (List.nodup_singleton _) (by decide)

theorem stage2Edges_drafted : draftedTables.stage2Edges sampleRecallHost
    (stage2EdgesParams (hopRequest []) "default" [recalledId "1"]) =
      ["2", "3", "4", "5", "6"].map fun digit => (recalledEdge digit 1).recallRow :=
  selectStage2Edges_of_pairwise (by decide) (by decide +kernel) (by decide) (by decide)
    (by decide +kernel) (by decide) (by decide)

section Linked

variable {type : String} {ruleDefs : List LiteRuleDefRow} {out : RecallAnswer}

/-- The access to the store of an edge. -/
abbrev linkedAccess (type : String) (ruleDefs : List LiteRuleDefRow) : RecallStoreAccess :=
  liteRecallAccess sampleRecallHost (linkedTables type ruleDefs)

theorem HubRecall.edges (h : HubRecall (linkedTables type ruleDefs) [] {} out) :
    answerEdges (linkedAccess type ruleDefs) (hopRequest []) out =
      [(recalledEdge "7" (1 / 2)).recallRow] := by
  unfold answerEdges
  rw [h.seeds, h.tenancy]
  exact stage2Edges_linked

theorem HubRecall.rows (h : HubRecall (linkedTables type ruleDefs) [] {} out) :
    answerRows sampleContextEnv (linkedAccess type ruleDefs) (hopRequest []) out =
      [nodeToRecallRow (recalledNode "1" "event" "hot" []) sampleRecallHost true,
        nodeToRecallRow (recalledNode "7" type "cold" []) sampleRecallHost true] := by
  unfold answerRows answerNodesParams
  rw [h.edges, h.seeds, h.tenancy]
  rfl

theorem weighted_linked : ∀ e ∈ [(recalledEdge "7" (1 / 2)).recallRow], Weighted e := by
  intro e he
  obtain rfl := List.mem_singleton.1 he
  exact weighted_recalledEdge "7" (by norm_num)

/-- The node at the end of the edge is ranked. -/
theorem HubRecall.exists_ranked (h : HubRecall (linkedTables type ruleDefs) [] {} out)
    (htype : type = "event" ∨ type = "rule") :
    ∃ r ∈ answerRanked sampleContextEnv (linkedAccess type ruleDefs) (hopRequest []) .recall {} out,
      r.id = recalledId "7" := by
  unfold answerRanked answerNeighborhood
  rw [h.seeds, h.edges, h.rows]
  have hseed : lastSeed [hubCandidate] (recalledId "1") = some hubCandidate := by rfl
  rcases htype with rfl | rfl
  · exact activated_of_edge weighted_linked le_rfl hseed (List.mem_singleton.2 rfl)
  · exact activated_of_edge weighted_linked le_rfl hseed (List.mem_singleton.2 rfl)

theorem HubRecall.length_ranked (h : HubRecall (linkedTables type ruleDefs) [] {} out) :
    (answerRanked sampleContextEnv (linkedAccess type ruleDefs) (hopRequest []) .recall {}
      out).length ≤ 2 := by
  have hsub : (answerRanked sampleContextEnv (linkedAccess type ruleDefs) (hopRequest []) .recall {}
      out).map (·.id) ⊆ [recalledId "1", recalledId "7"] := by
    intro id hid
    obtain ⟨r, hr, rfl⟩ := List.mem_map.1 hid
    rcases answerRanked_cases (h.edges ▸ weighted_linked) hr with hseed | ⟨e, he, hend⟩
    · rw [h.seeds] at hseed
      exact List.mem_cons.2 (.inl (List.mem_singleton.1 hseed))
    · rw [h.edges] at he
      obtain rfl := List.mem_singleton.1 he
      rcases hend with hend | hend
      · exact List.mem_cons.2 (.inl hend)
      · exact List.mem_cons.2 (.inr (List.mem_singleton.2 hend))
  have hlength := (Neighborhood.nodup_rankedAll.subperm hsub).length_le
  rwa [List.length_map] at hlength

end Linked

/-- What an answer with seeds is made of. -/
theorem HubRecall.parts {t : LiteTables} {layers : List String} {options : MemoryRecallOptions}
    {out : RecallAnswer} (h : HubRecall t layers options out) :
    out.ranked = (answerRanked sampleContextEnv (liteRecallAccess sampleRecallHost t)
        (hopRequest layers) .recall options out).take 100 ∧
      ∃ outIds, out.nodes = (answerNeighborhood sampleContextEnv
        (liteRecallAccess sampleRecallHost t) (hopRequest layers) options out).outNodeRows
          outIds := by
  obtain ⟨hnone, -⟩ | ⟨_, hnodes, -, hranked, -⟩ := (assembled h.ok).parts
  · rw [h.seeds] at hnone
    cases hnone
  · exact ⟨hranked, _, hnodes⟩

/-- No node is left by the layers of a request for `L5` alone. -/
theorem HubRecall.nodes_of_layers {t : LiteTables} {options : MemoryRecallOptions}
    {out : RecallAnswer} (h : HubRecall t ["L5"] options out)
    (hdrop : options = { unsafeAllowDropTrustAnchors := true
                         unsafeApplyLayerPolicyToRetrieval := true }) : out.nodes = [] := by
  obtain ⟨-, outIds, hnodes⟩ := h.parts
  have hlayers : retrievalLayers out.layerPolicy options = some [] := by
    rw [(assembled h.ok).policy, hdrop]
    decide
  rw [hnodes]
  refine List.filterMap_eq_nil_iff.2 fun id _ => ?_
  unfold answerNeighborhood
  rw [Neighborhood.get_build, hlayers, Option.filter_eq_none_iff]
  intro n _
  unfold Neighborhood.inLayers
  cases resolveCompressionLayer n <;> simp

theorem left_out_by_drafts_and_layers :
    (∃ linked drafted,
      memoryRecallParsed sampleContextEnv
          (liteRecallAccess sampleRecallHost (linkedTables "event" [])) (hopRequest [])
          sampleDefaults false .recall {} = .ok linked ∧
        memoryRecallParsed sampleContextEnv (liteRecallAccess sampleRecallHost draftedTables)
          (hopRequest []) sampleDefaults false .recall {} = .ok drafted ∧
        (∃ r ∈ linked.ranked, r.id = recalledId "7") ∧
          ¬ ∃ r ∈ drafted.ranked, r.id = recalledId "7") ∧
      ∃ out, memoryRecallParsed sampleContextEnv
          (liteRecallAccess sampleRecallHost (linkedTables "event" [])) (hopRequest ["L5"])
          sampleDefaults false .recall
          { unsafeAllowDropTrustAnchors := true, unsafeApplyLayerPolicyToRetrieval := true } =
            .ok out ∧ out.seeds = [hubCandidate] ∧ out.nodes = [] := by
  obtain ⟨linked, hlinked⟩ := hubRecall_linked "event" [] [] {}
  obtain ⟨drafted, hdrafted⟩ := hubRecall_drafted {}
  obtain ⟨out, hout⟩ := hubRecall_linked "event" [] ["L5"]
    { unsafeAllowDropTrustAnchors := true, unsafeApplyLayerPolicyToRetrieval := true }
  refine ⟨⟨linked, drafted, hlinked.ok, hdrafted.ok, ?_, ?_⟩, out, hout.ok, hout.seeds,
    hout.nodes_of_layers rfl⟩
  · obtain ⟨r, hr, hid⟩ := hlinked.exists_ranked (.inl rfl)
    refine ⟨r, ?_, hid⟩
    rw [hlinked.parts.1, List.take_of_length_le (hlinked.length_ranked.trans (by decide))]
    exact hr
  · rintro ⟨r, hr, hid⟩
    have hedges : answerEdges (liteRecallAccess sampleRecallHost draftedTables) (hopRequest [])
        drafted =
        ["2", "3", "4", "5", "6"].map fun digit => (recalledEdge digit 1).recallRow := by
      unfold answerEdges
      rw [hdrafted.seeds, hdrafted.tenancy]
      exact stage2Edges_drafted
    rw [hdrafted.parts.1] at hr
    have hcases := answerRanked_cases (hedges ▸ by
      intro e he
      obtain ⟨digit, -, rfl⟩ := List.mem_map.1 he
      exact weighted_recalledEdge digit ⟨zero_le_one, le_rfl⟩) (List.mem_of_mem_take hr)
    rw [hedges, hdrafted.seeds, hid] at hcases
    revert hcases
    decide

theorem memoryRecallParsed_bounds_linked :
    ∃ out, memoryRecallParsed sampleContextEnv (linkedAccess "event" []) (hopRequest [])
        sampleDefaults false .recall {} = .ok out ∧
      out.seeds = [hubCandidate] ∧
      SubgraphBounds sampleContextEnv (linkedAccess "event" []) (hopRequest []) .recall {} out := by
  obtain ⟨out, hout⟩ := hubRecall_linked "event" [] [] {}
  exact ⟨out, hout.ok, hout.seeds, memoryRecallParsed_bounds (lawful_lite _ _) hout.ok⟩

end AionisCore.Memory
