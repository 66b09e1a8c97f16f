import AionisCore.Memory.RecallBounds

/-!
# Rules of a context

A context lists the rules that rank best among the nodes around the seeds, whatever is known of
their definitions. They all apply if and only if six others come before each that does not.
-/

namespace AionisCore.Memory

open Lib Lib.JsString Lib.StableSort Store Util

/-! ## Items -/

section Items

variable {env : ContextEnv} {options : ContextBuildOptions} {ranked : List RankedNode}
  {nodes : OrderedMap String RecallNodeRow} {ruleDefs : OrderedMap String RecallRuleDefRow}
  {n : RecallNodeRow}

theorem mem_pushItem {item : RecallNodeRow → Option String → ContextItem}
    {out out' : List ContextItem × List ContextCitation}
    (h : pushItem env options item out n = .ok out') : ∃ uri, out'.1 = out.1 ++ [item n uri] := by
  unfold pushItem at h
  obtain ⟨uri, -, h⟩ := bind_eq_ok.1 h
  obtain ⟨citations, -, h⟩ := bind_eq_ok.1 h
  cases h
  exact ⟨uri, rfl⟩

/-- Each node has its item, and no other item comes in. -/
structure Pushed (item : RecallNodeRow → Option String → ContextItem) (ns : List RecallNodeRow)
    (before after : List ContextItem) : Prop where
  kept : ∀ i ∈ before, i ∈ after
  listed : ∀ n ∈ ns, ∃ uri, item n uri ∈ after
  only : ∀ i ∈ after, i ∈ before ∨ ∃ n ∈ ns, ∃ uri, i = item n uri

theorem pushed_foldlM {item : RecallNodeRow → Option String → ContextItem}
    {ns : List RecallNodeRow} {out out' : List ContextItem × List ContextCitation}
    (h : ns.foldlM (pushItem env options item) out = .ok out') :
    Pushed item ns out.1 out'.1 := by
  induction ns generalizing out with
  | nil =>
    rw [List.foldlM_nil] at h
    obtain rfl := Except.ok.inj h
    exact ⟨fun _ hi => hi, fun _ hn => absurd hn List.not_mem_nil, fun _ hi => .inl hi⟩
  | cons n ns ih =>
    rw [List.foldlM_cons] at h
    obtain ⟨mid, hmid, h⟩ := bind_eq_ok.1 h
    obtain ⟨uri, heq⟩ := mem_pushItem hmid
    have hrest := ih h
    rw [heq] at hrest
    refine ⟨fun i hi => hrest.kept i (List.mem_append_left _ hi), ?_, fun i hi => ?_⟩
    · rw [List.forall_mem_cons]
      exact ⟨⟨uri, hrest.kept _ (List.mem_append_right _ (List.mem_singleton.2 rfl))⟩,
        hrest.listed⟩
    · rcases hrest.only i hi with hi | ⟨m, hm, huri⟩
      · rcases List.mem_append.1 hi with hi | hi
        · exact .inl hi
        · exact .inr ⟨n, List.mem_cons_self, uri, List.mem_singleton.1 hi⟩
      · exact .inr ⟨m, List.mem_cons_of_mem _ hm, huri⟩

/-- The rules of a context are the nodes of its items of kind `rule`. -/
theorem buildContext_rules {out : BuiltContext}
    (h : buildContext env ranked nodes ruleDefs options = .ok out) (P : String → Prop) :
    (∀ item ∈ out.items, item.kind = "rule" → P item.nodeId) ↔
      ∀ n ∈ contextRules ranked nodes options, P n.id := by
  unfold buildContext at h
  obtain ⟨out₁, h₁, h⟩ := bind_eq_ok.1 h
  obtain ⟨out₂, h₂, h⟩ := bind_eq_ok.1 h
  obtain ⟨out₃, h₃, h⟩ := bind_eq_ok.1 h
  obtain ⟨out₄, h₄, h⟩ := bind_eq_ok.1 h
  cases h
  refine ⟨fun hall n hn => ?_, fun hall i hi hkind => ?_⟩
  · obtain ⟨uri, hmem⟩ := (pushed_foldlM h₄).listed n hn
    exact hall _ hmem rfl
  · rcases (pushed_foldlM h₄).only i hi with hi | ⟨n, hn, uri, rfl⟩
    · exfalso
      rcases (pushed_foldlM h₃).only i hi with hi | ⟨n, hn, uri, rfl⟩
      · rcases (pushed_foldlM h₂).only i hi with hi | ⟨n, hn, uri, rfl⟩
        · rcases (pushed_foldlM h₁).only i hi with hi | ⟨n, hn, uri, rfl⟩
          · cases hi
          · have htype := (mem_pickTop (List.mem_mergeSort.1 hn)).1
            have hrule : n.type = "rule" := hkind
            rw [hrule] at htype
            revert htype
            decide
        · exact absurd hkind (by decide : ("entity" : String) ≠ "rule")
      · obtain ⟨limit, hpick⟩ := mem_contextEvents hn
        have htype := (mem_pickTop hpick).1
        have hrule : n.type = "rule" := hkind
        rw [hrule] at htype
        revert htype
        decide
    · exact hall n hn

/-- A ranked node of one of the types is picked where all are. -/
theorem mem_pickTop_of_le {r : RankedNode} {types : List String} {limit : Nat}
    {policy : Option MemoryLayerPolicy} (hr : r ∈ ranked) (hget : nodes.get r.id = some n)
    (htype : n.type ∈ types) (hdraft : contextDraft n = false)
    (hlayer : layerAllowed policy n = true) (hle : ranked.length ≤ limit) :
    n ∈ pickTop ranked nodes types limit policy := by
  have hmem : n ∈ (rankedOfTypes ranked nodes types).filter (layerAllowed policy) := by
    refine List.mem_filter.2 ⟨List.mem_filterMap.2 ⟨r, hr, ?_⟩, hlayer⟩
    rw [hget, Option.filter_some, hdraft, decide_eq_true htype]
    rfl
  have hlength : (sortByLayer policy ((rankedOfTypes ranked nodes types).filter
      (layerAllowed policy))).length ≤ limit := by
    have hshort := (List.length_filter_le (layerAllowed policy) _).trans
      ((List.length_filterMap_le (fun r : RankedNode => (nodes.get r.id).filter fun n =>
        n.type ∈ types && !contextDraft n) ranked).trans hle)
    cases policy with
    | none => exact hshort
    | some p =>
      unfold sortByLayer
      rw [List.length_mergeSort]
      exact hshort
  unfold pickTop
  rw [List.take_of_length_le hlength]
  exact mem_sortByLayer.2 hmem

theorem sectionId_topicLines {line : SectionLine} (h : line ∈ topicLines env options n) :
    line.sectionId = .topics := by
  unfold topicLines at h
  split at h
  · rcases List.mem_cons.1 h with rfl | h
    · rfl
    · obtain ⟨id, -, rfl⟩ := List.mem_map.1 h
      rfl
  · split at h
    · rw [List.mem_singleton.1 h]
      rfl
    · rw [List.mem_singleton.1 h]
      rfl

theorem rule_of_line {line : SectionLine}
    (h : line ∈ (contextLines env ranked nodes ruleDefs options).flatten)
    (hsection : line.sectionId = .rules) :
    ∃ n ∈ contextRules ranked nodes options, line ∈ ruleLines env options ruleDefs n := by
  obtain ⟨item, hitem, hline⟩ := List.mem_flatten.1 h
  unfold contextLines at hitem
  simp only [List.mem_append, List.mem_map] at hitem
  obtain ((⟨n, -, rfl⟩ | ⟨n, -, rfl⟩) | ⟨n, -, rfl⟩) | ⟨n, hn, rfl⟩ := hitem
  · rw [sectionId_topicLines hline] at hsection
    cases hsection
  · rw [List.mem_singleton.1 hline] at hsection
    cases hsection
  · rw [List.mem_singleton.1 hline] at hsection
    cases hsection
  · exact ⟨n, hn, hline⟩

/-- A text is made of lines that were added. -/
theorem buildContext_lines {out : BuiltContext}
    (h : buildContext env ranked nodes ruleDefs options = .ok out) :
    ∃ active, out.text = renderText active ∧
      ∀ line ∈ active, line ∈ (contextLines env ranked nodes ruleDefs options).flatten := by
  obtain ⟨htext, -⟩ := buildContext_text h
  generalize (contextLines env ranked nodes ruleDefs options).flatten = lines at htext ⊢
  cases hbudget : resolveContextCharBudget options with
  | none =>
    rw [hbudget] at htext
    refine ⟨lines.zipIdx.map Prod.fst, htext, fun line hline => ?_⟩
    rwa [List.zipIdx_map_fst] at hline
  | some budget =>
    have hnodup : lines.zipIdx.Nodup :=
      List.Nodup.of_map Prod.snd (by rw [List.zipIdx_map_snd]; exact List.nodup_range')
    obtain ⟨dropped, hafter, -⟩ := compactLines_dropped budget hnodup
    rw [hbudget, hafter] at htext
    refine ⟨activeLines lines.zipIdx dropped, htext, fun line hline => ?_⟩
    obtain ⟨placed, hplaced, rfl⟩ := List.mem_map.1 hline
    exact List.fst_mem_of_mem_zipIdx (List.mem_filter.1 hplaced).1

end Items

/-! ## Rules that apply -/

/-- The store has a definition of the rule in shadow or active state, and the rule is for the
consumer. -/
def Applicable (access : RecallStoreAccess) (scope : String)
    (consumerAgentId consumerTeamId : Option String) (ruleId : String) : Prop :=
  ∃ d ∈ access.ruleDefs scope [ruleId], d.ruleNodeId = ruleId ∧
    (d.state = "shadow" ∨ d.state = "active") ∧
    (d.ruleScope = "agent" → ∃ id, d.targetAgentId = some id ∧ consumerAgentId = some id) ∧
    (d.ruleScope = "team" → ∃ id, d.targetTeamId = some id ∧ consumerTeamId = some id)

theorem applicable_lite {host : RecallHost} {t : LiteTables} {scope : String}
    {consumerAgentId consumerTeamId : Option String} {ruleId : String} :
    Applicable (liteRecallAccess host t) scope consumerAgentId consumerTeamId ruleId ↔
      ∃ d ∈ t.ruleDefs, (d.scope = scope ∧ d.ruleNodeId = ruleId) ∧
        (d.state = "shadow" ∨ d.state = "active") ∧
        (d.ruleScope = "agent" → ∃ id, d.targetAgentId = some id ∧ consumerAgentId = some id) ∧
        (d.ruleScope = "team" → ∃ id, d.targetTeamId = some id ∧ consumerTeamId = some id) := by
  refine ⟨?_, ?_⟩
  · rintro ⟨row, hrow, hid, hrest⟩
    obtain ⟨d, hd, rfl⟩ := List.mem_map.1 hrow
    obtain ⟨hd, hkey⟩ := List.mem_filter.1 hd
    exact ⟨d, hd, ⟨(of_decide_eq_true hkey).1, hid⟩, hrest⟩
  · rintro ⟨d, hd, ⟨hscope, hid⟩, hrest⟩
    refine ⟨d.recallRow, List.mem_map_of_mem (List.mem_filter.2 ⟨hd, decide_eq_true ?_⟩), hid,
      hrest⟩
    exact ⟨hscope, List.mem_singleton.2 hid⟩

/-- Every rule that is listed, as an item or in its section, is one of which `P` holds. -/
structure ListsRules (env : ContextEnv) (ruleDefs : OrderedMap String RecallRuleDefRow)
    (options : ContextBuildOptions) (P : String → Prop) (context : BuiltContext) : Prop where
  items : ∀ item ∈ context.items, item.kind = "rule" → P item.nodeId
  lines : ∃ active, context.text = renderText active ∧
    ∀ line ∈ active, line.sectionId = .rules →
      ∃ n, n.type = "rule" ∧ P n.id ∧ line ∈ ruleLines env options ruleDefs n

section Recall

variable {env : ContextEnv} {access : RecallStoreAccess} {parsed : MemoryRecallInput}
  {defaults : TenantDefaults} {allowDebugEmbeddings : Bool} {endpoint : RecallEndpoint}
  {options : MemoryRecallOptions} {out : RecallAnswer}

/-- The neighbourhood of a recall of a scope. -/
def neighborhoodOf (env : ContextEnv) (access : RecallStoreAccess) (parsed : MemoryRecallInput)
    (endpoint : RecallEndpoint) (options : MemoryRecallOptions) (scope : String) : Neighborhood :=
  recallNeighborhood env.localeCompare access parsed scope
    (retrievalLayers (resolveMemoryLayerPolicy endpoint parsed.allowedLayers options) options)
    (stage1Seeds access options.stage1ExactFallbackOnEmpty (stage1Params parsed scope))

/-- The rules that are ranked and that the layers of the request let through, as they rank. -/
def rankedRules (env : ContextEnv) (access : RecallStoreAccess) (parsed : MemoryRecallInput)
    (endpoint : RecallEndpoint) (options : MemoryRecallOptions) (scope : String) :
    List RecallNodeRow :=
  let nb := neighborhoodOf env access parsed endpoint options scope
  (rankedOfTypes (nb.rankedAll env endpoint parsed.neighborhoodHops) nb.nodes ["rule"]).filter
    (layerAllowed (some (resolveMemoryLayerPolicy endpoint parsed.allowedLayers options)))

/-- The order of the layers. -/
def layerOrder (policy : MemoryLayerPolicy) (a b : RecallNodeRow) : Bool :=
  layerPreference policy a ≤ layerPreference policy b

theorem ranks_layerOrder (policy : MemoryLayerPolicy) : Ranks (layerOrder policy) where
  trans a b c hab hbc :=
    decide_eq_true ((of_decide_eq_true hab).trans (of_decide_eq_true hbc))
  total a b := by
    unfold layerOrder
    rw [Bool.or_eq_true, decide_eq_true_eq, decide_eq_true_eq]
    exact Nat.le_total _ _

theorem tenancy_of_ok {tenancy : TenantScope}
    (htenancy : resolveTenantScope ⟨parsed.tenantId, parsed.scope⟩ defaults = .ok tenancy)
    (h : memoryRecallParsed env access parsed defaults allowDebugEmbeddings endpoint options =
      .ok out) : out.tenancy = tenancy := by
  unfold memoryRecallParsed at h
  obtain ⟨tenancy', htenancy', h⟩ := bind_eq_ok.1 h
  obtain ⟨_, -, h⟩ := bind_eq_ok.1 h
  obtain ⟨_, -, h⟩ := bind_eq_ok.1 h
  have heq : tenancy' = tenancy := by
    rw [htenancy] at htenancy'
    exact (Except.ok.inj htenancy').symm
  rw [← heq]
  dsimp only at h
  split at h
  · cases h
    rfl
  · obtain ⟨context, -, h⟩ := bind_eq_ok.1 h
    cases h
    rfl

theorem Assembled.neighborhood (h : Assembled env access parsed endpoint options out) :
    answerNeighborhood env access parsed options out =
      neighborhoodOf env access parsed endpoint options out.tenancy.scopeKey := by
  unfold answerNeighborhood answerRows answerNodesParams answerEdges neighborhoodOf
  rw [h.policy, h.seeds]
  rfl

/-- The rows keep the order of their ranks. -/
theorem map_id_rankedOfTypes {nodes : OrderedMap String RecallNodeRow}
    (hid : ∀ id n, nodes.get id = some n → n.id = id) (ranked : List RankedNode)
    (types : List String) :
    ((rankedOfTypes ranked nodes types).map (·.id)).Sublist (ranked.map (·.id)) := by
  induction ranked with
  | nil => exact List.Sublist.refl _
  | cons r ranked ih =>
    unfold rankedOfTypes at ih ⊢
    rw [List.filterMap_cons]
    split
    · exact ih.cons _
    · next n hn =>
      rw [List.map_cons, List.map_cons, hid r.id n (Option.filter_eq_some_iff.1 hn).1]
      exact ih.cons_cons _

theorem nodup_rankedRules (scope : String) :
    (rankedRules env access parsed endpoint options scope).Nodup := by
  refine List.Nodup.filter _ (List.Nodup.of_map (·.id) ?_)
  exact Neighborhood.nodup_rankedAll.sublist (map_id_rankedOfTypes Neighborhood.byId_build _ _)

/-- Without seeds nothing is ranked. -/
theorem rankedRules_of_empty {scope : String}
    (h : stage1Seeds access options.stage1ExactFallbackOnEmpty (stage1Params parsed scope) = []) :
    rankedRules env access parsed endpoint options scope = [] := by
  have hseeds : (neighborhoodOf env access parsed endpoint options scope).seeds = [] := by
    refine List.eq_nil_iff_forall_not_mem.2 fun s hs => ?_
    have hs := Neighborhood.mem_seeds_build hs
    rw [h] at hs
    cases hs
  have hranked : (neighborhoodOf env access parsed endpoint options scope).rankedAll env endpoint
      parsed.neighborhoodHops = [] := by
    refine List.eq_nil_iff_forall_not_mem.2 fun r hr => ?_
    have hr := Neighborhood.mem_rankedAll.1 hr
    unfold Neighborhood.rankedAllBase at hr
    rw [hseeds, spreadActivation_nil] at hr
    cases hr
  unfold rankedRules
  simp only
  rw [hranked]
  rfl

theorem recalledRules_applicable_iff {tenancy : TenantScope}
    (htenancy : resolveTenantScope ⟨parsed.tenantId, parsed.scope⟩ defaults = .ok tenancy)
    (h : memoryRecallParsed env access parsed defaults allowDebugEmbeddings endpoint options =
      .ok out) :
    let policy := resolveMemoryLayerPolicy endpoint parsed.allowedLayers options
    let applies := Applicable access tenancy.scopeKey (consumerId parsed.consumerAgentId)
      (consumerId parsed.consumerTeamId)
    (∀ context, out.context = some context →
        ListsRules env (recallRuleDefMap access tenancy.scopeKey out.nodes)
          (recallContextOptions parsed tenancy policy endpoint options) applies context) ↔
      ∀ before n after,
        rankedRules env access parsed endpoint options tenancy.scopeKey = before ++ n :: after →
          ¬ applies n.id → 6 ≤ place (layerOrder policy) before n after := by
  intro policy applies
  have hparts := assembled h
  have htenancy := tenancy_of_ok htenancy h
  have hrules : (∀ n ∈ ((rankedRules env access parsed endpoint options
      tenancy.scopeKey).mergeSort (layerOrder policy)).take 6, applies n.id) ↔
      ∀ before n after,
        rankedRules env access parsed endpoint options tenancy.scopeKey = before ++ n :: after →
          ¬ applies n.id → 6 ≤ place (layerOrder policy) before n after := by
    have hnodup := @nodup_rankedRules env access parsed endpoint options tenancy.scopeKey
    refine ⟨fun hall before n after hsplit hnot => ?_, fun hfar n hn => ?_⟩
    · by_contra hlt
      rw [hsplit] at hnodup hall
      exact hnot (hall n (((ranks_layerOrder policy).mem_take_mergeSort hnodup).2
        (Nat.not_le.1 hlt)))
    · by_contra hnot
      obtain ⟨before, after, hsplit⟩ := List.append_of_mem
        (List.mem_mergeSort.1 (List.mem_of_mem_take hn))
      have hle := hfar before n after hsplit hnot
      rw [hsplit] at hn hnodup
      exact absurd (((ranks_layerOrder policy).mem_take_mergeSort hnodup).1 hn) (Nat.not_lt.2 hle)
  rw [← hrules]
  rcases hparts.parts with ⟨hseeds, -, -, hnone⟩ | ⟨context, -, -, -, hcontext, hbuild⟩
  · rw [hparts.seeds, htenancy] at hseeds
    rw [rankedRules_of_empty hseeds, hnone, List.mergeSort_nil]
    exact iff_of_true (fun _ h => nomatch h) fun _ h => nomatch h
  · have hlisted : contextRules (answerRanked env access parsed endpoint options out)
        (answerNeighborhood env access parsed options out).nodes
        (recallContextOptions parsed out.tenancy out.layerPolicy endpoint options) =
          ((rankedRules env access parsed endpoint options tenancy.scopeKey).mergeSort
            (layerOrder policy)).take 6 := by
      unfold answerRanked
      rw [hparts.neighborhood, htenancy, hparts.policy]
      rfl
    rw [← hlisted]
    refine ⟨fun hall => ?_, fun hall context' hcontext' => ?_⟩
    · exact (buildContext_rules hbuild applies).1 (hall context hcontext).items
    · obtain rfl := Option.some.inj (hcontext.symm.trans hcontext')
      refine ⟨(buildContext_rules hbuild applies).2 hall, ?_⟩
      obtain ⟨active, htext, hactive⟩ := buildContext_lines hbuild
      refine ⟨active, htext, fun line hline hsection => ?_⟩
      obtain ⟨n, hn, hmem⟩ := rule_of_line (hactive line hline) hsection
      have htype := (mem_pickTop hn).1
      refine ⟨n, List.mem_singleton.1 htype, hall n hn, ?_⟩
      rw [hparts.policy, htenancy] at hmem
      exact hmem

end Recall

/-! ## A rule at the end of an edge -/

/-- The definition of the rule of the sample tables. -/
def recalledRule (state ruleScope : String) (targetAgentId : Option String) : LiteRuleDefRow where
  ruleNodeId := recalledId "7"
  scope := "default"
  state := state
  ifJson := .obj []
  thenJson := .obj []
  exceptionsJson := .arr []
  ruleScope := ruleScope
  targetAgentId := targetAgentId
  targetTeamId := none
  positiveCount := 0
  negativeCount := 0
  commitId := recalledId "0"
  createdAt := ""
  updatedAt := ""

/-- A rule is listed whatever its definition. -/
theorem HubRecall.lists_rule {ruleDefs : List LiteRuleDefRow} {out : RecallAnswer}
    (h : HubRecall (linkedTables "rule" ruleDefs) [] {} out) :
    ∃ context, out.context = some context ∧
      ∃ item ∈ context.items, item.kind = "rule" ∧ item.nodeId = recalledId "7" := by
  obtain ⟨hnone, -⟩ | ⟨context, -, -, -, hcontext, hbuild⟩ := (assembled h.ok).parts
  · rw [h.seeds] at hnone
    cases hnone
  refine ⟨context, hcontext, ?_⟩
  by_contra hnot
  have hrules := (buildContext_rules hbuild (· ≠ recalledId "7")).1 fun item hitem hkind hid =>
    hnot ⟨item, hitem, hkind, hid⟩
  refine hrules _ ?_ (rfl : (nodeToRecallRow (recalledNode "7" "rule" "cold" [])
    sampleRecallHost true).id = recalledId "7")
  have hget : (answerNeighborhood sampleContextEnv (linkedAccess "rule" ruleDefs) (hopRequest [])
      {} out).nodes.get (recalledId "7") =
        some (nodeToRecallRow (recalledNode "7" "rule" "cold" []) sampleRecallHost true) := by
    unfold answerNeighborhood
    rw [h.rows]
    rfl
  have hpolicy : allowedLayers (some out.layerPolicy) = none := by
    rw [(assembled h.ok).policy]
    rfl
  obtain ⟨r, hr, hid⟩ := h.exists_ranked (.inr rfl)
  refine mem_pickTop_of_le hr (hid.symm ▸ hget) (List.mem_singleton.2 rfl) rfl ?_
    (h.length_ranked.trans (by decide))
  unfold layerAllowed recallContextOptions
  simp only [hpolicy]

/-- No other node is a rule. -/
theorem HubRecall.rule_of_mem {ruleDefs : List LiteRuleDefRow} {out : RecallAnswer}
    {n : RecallNodeRow} (h : HubRecall (linkedTables "rule" ruleDefs) [] {} out)
    (hn : n ∈ rankedRules sampleContextEnv (linkedAccess "rule" ruleDefs) (hopRequest []) .recall {}
      "default") :
    n = nodeToRecallRow (recalledNode "7" "rule" "cold" []) sampleRecallHost true := by
  have hnb := (assembled h.ok).neighborhood
  rw [h.tenancy] at hnb
  obtain ⟨r, -, hget⟩ := List.mem_filterMap.1 (List.mem_filter.1 hn).1
  rw [← hnb, Option.filter_eq_some_iff, Bool.and_eq_true, decide_eq_true_eq,
    List.mem_singleton] at hget
  have hrow := Neighborhood.mem_rows_of_get hget.1
  rw [h.rows, List.mem_cons, List.mem_singleton] at hrow
  rcases hrow with rfl | rfl
  · exact absurd hget.2.1 (by decide)
  · rfl

/-- A rule without a definition is listed, and a rule for agent `a` without a consumer. -/
theorem inapplicable_rules_listed :
    (∃ out context item,
      memoryRecallParsed sampleContextEnv (linkedAccess "rule" []) (hopRequest []) sampleDefaults
          false .recall {} = .ok out ∧
        out.context = some context ∧ item ∈ context.items ∧ item.kind = "rule" ∧
        ¬ Applicable (linkedAccess "rule" []) "default" none none item.nodeId) ∧
      ∃ out context item,
        memoryRecallParsed sampleContextEnv
            (linkedAccess "rule" [recalledRule "active" "agent" (some "a")]) (hopRequest [])
            sampleDefaults false .recall {} = .ok out ∧
          out.context = some context ∧ item ∈ context.items ∧ item.kind = "rule" ∧
          ¬ Applicable (linkedAccess "rule" [recalledRule "active" "agent" (some "a")]) "default"
            none none item.nodeId := by
  refine ⟨?_, ?_⟩
  · obtain ⟨out, h⟩ := hubRecall_linked "rule" [] [] {}
    obtain ⟨context, hcontext, item, hitem, hkind, -⟩ := h.lists_rule
    refine ⟨out, context, item, h.ok, hcontext, hitem, hkind, ?_⟩
    rintro ⟨d, hd, -⟩
    cases hd
  · obtain ⟨out, h⟩ := hubRecall_linked "rule" [recalledRule "active" "agent" (some "a")] [] {}
    obtain ⟨context, hcontext, item, hitem, hkind, -⟩ := h.lists_rule
    refine ⟨out, context, item, h.ok, hcontext, hitem, hkind, fun happlies => ?_⟩
    obtain ⟨d, hd, -, -, hagent, -⟩ := applicable_lite.1 happlies
    obtain rfl := List.mem_singleton.1 hd
    obtain ⟨id, -, hnone⟩ := hagent rfl
    cases hnone

theorem recalledRules_applicable_iff_shadow :
    ∃ out context,
      memoryRecallParsed sampleContextEnv
          (linkedAccess "rule" [recalledRule "shadow" "global" none]) (hopRequest [])
          sampleDefaults false .recall {} = .ok out ∧
        out.context = some context ∧
        ListsRules sampleContextEnv
          (recallRuleDefMap (linkedAccess "rule" [recalledRule "shadow" "global" none]) "default"
            out.nodes)
          (recallContextOptions (hopRequest []) ⟨"default", "default", "default"⟩
            (resolveMemoryLayerPolicy .recall [] {}) .recall {})
          (Applicable (linkedAccess "rule" [recalledRule "shadow" "global" none]) "default" none
            none) context := by
  obtain ⟨out, h⟩ := hubRecall_linked "rule" [recalledRule "shadow" "global" none] [] {}
  obtain ⟨context, hcontext, -⟩ := h.lists_rule
  refine ⟨out, context, h.ok, hcontext, ?_⟩
  have htenancy : resolveTenantScope ⟨(hopRequest []).tenantId, (hopRequest []).scope⟩
      sampleDefaults = .ok ⟨"default", "default", "default"⟩ := tenancy_sampleDefaults
  have hiff := recalledRules_applicable_iff htenancy h.ok
  refine hiff.2 (fun before n after hsplit hnot => ?_) context hcontext
  have hid : n.id = recalledId "7" := by
    have hn : n ∈ before ++ n :: after := List.mem_append_right _ List.mem_cons_self
    rw [← hsplit] at hn
    rw [h.rule_of_mem hn]
    rfl
  exact absurd (applicable_lite.2 ⟨recalledRule "shadow" "global" none, List.mem_singleton.2 rfl,
    ⟨rfl, hid.symm⟩, .inl rfl, fun hscope => absurd hscope (by decide),
    fun hscope => absurd hscope (by decide)⟩) hnot

end AionisCore.Memory
