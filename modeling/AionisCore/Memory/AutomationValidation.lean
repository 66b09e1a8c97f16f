import AionisCore.Lib.Search
import AionisCore.Memory.AutomationGraph

/-!
# What the validation of a graph decides

`validateAutomationGraph` accepts a graph if and only if it is well formed, which `WellFormed`
says in terms of the nodes, the edges and the strings of the graph alone. The order it returns
then lists every node once, after the sources of its edges and the nodes that it reads.
-/

namespace AionisCore.Memory

open Lib Lib.JsString Relation

/-! ## Bindings -/

/-- The string `$nodes.name…`, white space around the name apart. -/
def NamesNode (name s : String) : Prop :=
  ∃ rest, s.toList = "$nodes.".toList ++ rest ∧
    trim (String.ofList (rest.takeWhile (· ≠ '.'))) = name

/-- Somewhere in a value there is a binding of the node `name`. -/
inductive Binds (name : String) : Json → Prop where
  | str {s : String} (h : NamesNode name s) : Binds name (.str s)
  | item {items : List Json} {item : Json} (hmem : item ∈ items) (h : Binds name item) :
    Binds name (.arr items)
  | field {fields : Json.Fields} {k : String} {value : Json} (hmem : (k, value) ∈ fields)
    (h : Binds name value) : Binds name (.obj fields)

/-- The inputs, the expression or the required artifacts of a node bind the node `name`. -/
def AutomationGraphNode.Binds (node : AutomationGraphNode) (name : String) : Prop :=
  (∃ inputs, node.inputs = some inputs ∧ Memory.Binds name (.obj inputs)) ∨
  (∃ expression, node.kind = .condition (some expression) ∧ Memory.Binds name expression) ∨
  ∃ artifacts, node.kind = .artifactGate artifacts ∧ ∃ s ∈ artifacts, NamesNode name s

theorem bindingPath_eq_some {head s : String} {path : List String} :
    bindingPath head s = some path ↔ ∃ rest, s.toList = head.toList ++ rest ∧
      path = (rest.splitOn '.').map String.ofList := by
  unfold bindingPath
  rw [Option.map_eq_some_iff]
  refine exists_congr fun rest => ?_
  rw [List.dropPrefix?_eq_some_iff, eq_comm (b := path)]
  simp

theorem splitOn_head (c : Char) (xs : List Char) :
    ∃ more, xs.splitOn c = xs.takeWhile (· ≠ c) :: more := by
  induction xs with
  | nil => exact ⟨[], rfl⟩
  | cons x xs ih =>
    obtain ⟨more, hmore⟩ := ih
    rw [List.splitOn_cons_eq_if_modifyHead]
    by_cases hx : x = c
    · exact ⟨xs.splitOn c, by simp [hx]⟩
    · exact ⟨more, by simp [hx, hmore]⟩

theorem mem_collectBindingRefs_str {name s : String} :
    name ∈ collectBindingRefs (.str s) ↔ NamesNode name s ∧ name ≠ "" := by
  rw [collectBindingRefs]
  cases hpath : bindingPath "$nodes." s with
  | none =>
    refine iff_of_false List.not_mem_nil ?_
    rintro ⟨⟨rest, hs, -⟩, -⟩
    have hsome := bindingPath_eq_some.2 ⟨rest, hs, rfl⟩
    rw [hpath] at hsome
    cases hsome
  | some path =>
    obtain ⟨rest, hs, rfl⟩ := bindingPath_eq_some.1 hpath
    obtain ⟨more, hmore⟩ := splitOn_head '.' rest
    have hnames : NamesNode name s ↔ trim (String.ofList (rest.takeWhile (· ≠ '.'))) = name := by
      refine ⟨fun ⟨rest', hs', hname⟩ => ?_, fun hname => ⟨rest, hs, hname⟩⟩
      rwa [List.append_cancel_left (hs.symm.trans hs')]
    rw [hmore, List.map_cons, hnames]
    dsimp only
    split
    · next hblank =>
      exact iff_of_false List.not_mem_nil fun ⟨hname, hne⟩ => hne (hname.symm.trans hblank)
    · next hnamed =>
      rw [List.mem_singleton, eq_comm (a := name)]
      exact (and_iff_left_of_imp fun hname => hname ▸ hnamed).symm

mutual

theorem mem_collectBindingRefs {name : String} : ∀ {value : Json},
    name ∈ collectBindingRefs value ↔ Binds name value ∧ name ≠ ""
  | .str s => by
    rw [mem_collectBindingRefs_str]
    refine and_congr_left fun _ => ⟨.str, fun h => ?_⟩
    cases h with
    | str h => exact h
  | .arr items => by
    rw [collectBindingRefs, mem_collectItems]
    refine and_congr_left fun _ => ⟨fun ⟨item, hitem, h⟩ => .item hitem h, fun h => ?_⟩
    cases h with
    | item hmem h => exact ⟨_, hmem, h⟩
  | .obj fields => by
    rw [collectBindingRefs, mem_collectFields]
    refine and_congr_left fun _ => ⟨fun ⟨field, hfield, h⟩ => .field hfield h, fun h => ?_⟩
    cases h with
    | field hmem h => exact ⟨_, hmem, h⟩
  | .null => iff_of_false (by simp [collectBindingRefs]) fun h => nomatch h.1
  | .bool _ => iff_of_false (by simp [collectBindingRefs]) fun h => nomatch h.1
  | .num _ => iff_of_false (by simp [collectBindingRefs]) fun h => nomatch h.1

theorem mem_collectItems {name : String} : ∀ {items : List Json},
    name ∈ collectItems items ↔ (∃ item ∈ items, Binds name item) ∧ name ≠ ""
  | [] => by simp [collectItems]
  | item :: items => by
    rw [collectItems, List.mem_append, mem_collectBindingRefs, mem_collectItems,
      List.exists_mem_cons_iff, or_and_right]

theorem mem_collectFields {name : String} : ∀ {fields : List (String × Json)},
    name ∈ collectFields fields ↔ (∃ field ∈ fields, Binds name field.2) ∧ name ≠ ""
  | [] => by simp [collectFields]
  | field :: fields => by
    rw [collectFields, List.mem_append, mem_collectField, mem_collectFields,
      List.exists_mem_cons_iff, or_and_right]

theorem mem_collectField {name : String} : ∀ {field : String × Json},
    name ∈ collectField field ↔ Binds name field.2 ∧ name ≠ ""
  | (_, value) => by rw [collectField, mem_collectBindingRefs]

end

theorem mem_refs {node : AutomationGraphNode} {name : String} :
    name ∈ node.refs ↔ node.Binds name ∧ name ≠ "" := by
  unfold AutomationGraphNode.refs AutomationGraphNode.Binds
  rw [List.mem_eraseDups, List.mem_append, or_and_right]
  refine or_congr ?_ ?_
  · cases hinputs : node.inputs with
    | none => simp [collectBindingRefs, collectFields]
    | some inputs =>
      rw [Option.getD_some, mem_collectBindingRefs]
      simp
  · cases hkind : node.kind with
    | playbook playbookId version mode => simp
    | approval approvalKey => simp
    | condition expression =>
      cases expression with
      | none => simp
      | some expression => simp [mem_collectBindingRefs]
    | artifactGate artifacts =>
      rw [mem_collectItems]
      refine and_congr_left fun _ => ?_
      simp only [List.mem_map, exists_exists_and_eq_and, reduceCtorEq, false_and, exists_false,
        false_or, AutomationNodeKind.artifactGate.injEq, exists_eq_left']
      refine exists_congr fun s => and_congr_right fun _ => ⟨fun h => ?_, .str⟩
      cases h with
      | str h => exact h

namespace AutomationGraph

variable {graph : AutomationGraph}

/-! ## Paths -/

/-- Some edge leads from one node to the other. -/
def Edge (graph : AutomationGraph) (u v : String) : Prop :=
  ∃ edge ∈ graph.edges, edge.source = u ∧ edge.target = v

variable {u v : String}

theorem mem_outgoing : v ∈ graph.outgoing u ↔ (u, v) ∈ graph.links := by
  unfold outgoing
  simp

theorem length_outgoing (u : String) :
    (graph.outgoing u).length = graph.links.countP fun link => link.1 = u := by
  unfold outgoing
  rw [List.length_map, List.countP_eq_length_filter]

theorem reaches_eq (target : String) (fuel : Nat) (seen queue : List String) :
    graph.reaches target fuel seen queue = Search.search graph.outgoing target fuel seen queue := by
  induction fuel generalizing seen queue with
  | zero => rfl
  | succ fuel ih =>
    cases queue with
    | nil => rfl
    | cons nodeId queue => rw [reaches, Search.search, ih, ih]

/-- `hasGraphPath` decides whether a path leads from one node to the other. -/
theorem hasGraphPath_iff :
    graph.hasGraphPath u v = true ↔ ReflTransGen (fun u v => (u, v) ∈ graph.links) u v := by
  unfold hasGraphPath
  split
  · next hsame => exact iff_of_true rfl (hsame ▸ .refl)
  · next hne =>
    have hclosed : Search.Closed graph.outgoing v [u] (graph.outgoing u) := by
      refine ⟨fun hmem => hne (List.mem_singleton.1 hmem).symm, fun w hw x hx => .inr ?_⟩
      rwa [List.mem_singleton.1 hw] at hx
    have hfuel : Search.unseen graph.links [u] + _ = Search.unseen graph.links [] :=
      Search.unseen_expand List.not_mem_nil
    have hall : Search.unseen graph.links [] ≤ graph.links.length := List.countP_le_length
    rw [← length_outgoing] at hfuel
    rw [reaches_eq, Search.search_iff length_outgoing hclosed (by omega),
      ReflTransGen.cases_head_iff]
    unfold Search.Path
    simp only [mem_outgoing, hne, false_or]

/-! ## Well-formed graphs -/

/-- What the validation asks of a graph. -/
structure WellFormed (graph : AutomationGraph) : Prop where
  nonempty : graph.nodes ≠ []
  unique : (graph.nodes.map (·.nodeId)).Nodup
  source : ∀ edge ∈ graph.edges, edge.source ∈ graph.nodes.map (·.nodeId)
  target : ∀ edge ∈ graph.edges, edge.target ∈ graph.nodes.map (·.nodeId)
  distinct : ∀ edge ∈ graph.edges, edge.source ≠ edge.target
  supported : ∀ edge ∈ graph.edges, edge.type ≠ .onFailure
  acyclic : ∀ nodeId, ¬ TransGen graph.Edge nodeId nodeId
  bound : ∀ node ∈ graph.nodes, ∀ name, node.Binds name → name ≠ "" →
    name ∈ graph.nodes.map (·.nodeId) ∧ name ≠ node.nodeId ∧
      ReflTransGen graph.Edge name node.nodeId

theorem mem_nodeIds {nodeId : String} :
    nodeId ∈ graph.nodeIds ↔ nodeId ∈ graph.nodes.map (·.nodeId) := List.mem_eraseDups

theorem edgeIssue_eq_none {edge : AutomationGraphEdge} : graph.edgeIssue edge = none ↔
    edge.source ∈ graph.nodes.map (·.nodeId) ∧ edge.target ∈ graph.nodes.map (·.nodeId) ∧
      edge.source ≠ edge.target ∧ edge.type ≠ .onFailure := by
  unfold AutomationGraph.edgeIssue
  rw [← mem_nodeIds, ← mem_nodeIds]
  dsimp only
  split
  · next hsource => exact iff_of_false nofun fun h => hsource h.1
  split
  · next htarget => exact iff_of_false nofun fun h => htarget h.2.1
  split
  · next hself => exact iff_of_false nofun fun h => h.2.2.1 hself
  split
  · next htype => exact iff_of_false nofun fun h => h.2.2.2 htype
  · next hsource htarget hself htype =>
    exact iff_of_true rfl ⟨not_not.1 hsource, not_not.1 htarget, hself, htype⟩

theorem bindingIssue_eq_none {node : AutomationGraphNode} {ref : String} :
    graph.bindingIssue node ref = none ↔ ref ∈ graph.nodes.map (·.nodeId) ∧ ref ≠ node.nodeId ∧
      graph.hasGraphPath ref node.nodeId = true := by
  unfold bindingIssue
  rw [← mem_nodeIds]
  split
  · next hmem => exact iff_of_false nofun fun h => hmem h.1
  split
  · next hself => exact iff_of_false nofun fun h => h.2.1 hself
  split
  · next hpath => exact iff_of_false nofun fun h => by simp [h.2.2] at hpath
  · next hmem hself hpath =>
    exact iff_of_true rfl ⟨not_not.1 hmem, hself, by simpa using hpath⟩

theorem duplicateIssues_of_nodup {seen : List String} {nodes : List AutomationGraphNode}
    (hnodup : (nodes.map (·.nodeId)).Nodup) (hfresh : ∀ node ∈ nodes, node.nodeId ∉ seen) :
    duplicateIssues seen nodes = [] := by
  induction nodes generalizing seen with
  | nil => rfl
  | cons node nodes ih =>
    rw [List.map_cons, List.nodup_cons] at hnodup
    rw [duplicateIssues, if_neg (hfresh node List.mem_cons_self)]
    refine ih hnodup.2 fun other hother hmem => ?_
    rcases List.mem_cons.1 hmem with hsame | hmem
    · exact hnodup.1 (List.mem_map.2 ⟨other, hother, hsame⟩)
    · exact hfresh other (List.mem_cons_of_mem _ hother) hmem

theorem mem_links_iff (hedges : ∀ edge ∈ graph.edges, graph.edgeIssue edge = none) :
    (u, v) ∈ graph.links ↔ graph.Edge u v := by
  unfold links Edge
  rw [List.filter_eq_self.2 fun edge hedge => by rw [hedges edge hedge]; rfl]
  simp

theorem links_eq_edge (hedges : ∀ edge ∈ graph.edges, graph.edgeIssue edge = none) :
    (fun u v => (u, v) ∈ graph.links) = graph.Edge := by
  funext u v
  exact propext (mem_links_iff hedges)

/-! ## Accepted graphs are the well-formed ones -/

theorem accepted_iff_parts : graph.Accepted ↔ duplicateIssues [] graph.nodes = [] ∧
    (∀ edge ∈ graph.edges, graph.edgeIssue edge = none) ∧
    (∀ node ∈ graph.nodes, ∀ ref ∈ node.refs, graph.bindingIssue node ref = none) ∧
    graph.startNodeIds ≠ [] ∧ graph.topologicalOrder.length = graph.nodeIds.length := by
  unfold Accepted issues
  simp only [List.append_eq_nil_iff, List.filterMap_eq_nil_iff, List.flatMap_eq_nil_iff,
    ite_eq_right_iff, reduceCtorEq, imp_false, ne_eq, not_not, and_assoc]

theorem Accepted.wellFormed (h : graph.Accepted) : graph.WellFormed := by
  obtain ⟨-, hedges, hbindings, hstart, -⟩ := accepted_iff_parts.1 h
  have hends : ∀ link ∈ graph.links, link.2 ∈ graph.topologicalOrder := fun link hlink =>
    h.order_perm.mem_iff.2 (mem_nodeIds.1 (target_of_mem_links hlink))
  refine ⟨fun hnil => hstart ?_, h.nodup,
    fun edge hedge => (edgeIssue_eq_none.1 (hedges edge hedge)).1,
    fun edge hedge => (edgeIssue_eq_none.1 (hedges edge hedge)).2.1,
    fun edge hedge => (edgeIssue_eq_none.1 (hedges edge hedge)).2.2.1,
    fun edge hedge => (edgeIssue_eq_none.1 (hedges edge hedge)).2.2.2, fun nodeId => ?_,
    fun node hnode name hname hne => ?_⟩
  · simp [startNodeIds, nodeIds, hnil]
  · rw [← links_eq_edge hedges]
    exact graph.order_spec.2.2.acyclic graph.order_spec.1 hends nodeId
  · obtain ⟨hmem, hother, hpath⟩ :=
      bindingIssue_eq_none.1 (hbindings node hnode name (mem_refs.2 ⟨hname, hne⟩))
    rw [hasGraphPath_iff, links_eq_edge hedges] at hpath
    exact ⟨hmem, hother, hpath⟩

theorem WellFormed.edgeIssue (h : graph.WellFormed) :
    ∀ edge ∈ graph.edges, graph.edgeIssue edge = none := fun edge hedge =>
  edgeIssue_eq_none.2
    ⟨h.source edge hedge, h.target edge hedge, h.distinct edge hedge, h.supported edge hedge⟩

theorem WellFormed.mem_order (h : graph.WellFormed) {nodeId : String}
    (hmem : nodeId ∈ graph.nodeIds) : nodeId ∈ graph.topologicalOrder := by
  refine kahn_starts.mem_loop_of_acyclic (fun link hlink => ?_) ?_ hmem
  · obtain ⟨edge, hedge, hsource, -⟩ :=
      (mem_links_iff h.edgeIssue (u := link.1) (v := link.2)).1 hlink
    exact hsource ▸ mem_nodeIds.2 (h.source edge hedge)
  · rw [links_eq_edge h.edgeIssue]
    exact h.acyclic

theorem WellFormed.accepted (h : graph.WellFormed) : graph.Accepted := by
  obtain ⟨hnodup, hsub, -⟩ := graph.order_spec
  refine accepted_iff_parts.2 ⟨duplicateIssues_of_nodup h.unique fun _ _ => List.not_mem_nil,
    h.edgeIssue, fun node hnode ref href => ?_, fun hstart => ?_, ?_⟩
  · obtain ⟨hbinds, hne⟩ := mem_refs.1 href
    obtain ⟨hmem, hother, hpath⟩ := h.bound node hnode ref hbinds hne
    rw [← links_eq_edge h.edgeIssue, ← hasGraphPath_iff] at hpath
    exact bindingIssue_eq_none.2 ⟨hmem, hother, hpath⟩
  · -- without a start node the order is empty
    obtain ⟨node, hnode⟩ := List.exists_mem_of_ne_nil _ h.nonempty
    have hlisted := h.mem_order (mem_nodeIds.2 (List.mem_map_of_mem hnode))
    have hempty : graph.topologicalOrder = [] := by
      unfold topologicalOrder
      rw [hstart, List.eq_nil_of_length_eq_zero ((sortStrings_perm []).length_eq)]
      cases graph.nodeIds.length <;> rfl
    rw [hempty] at hlisted
    cases hlisted
  · have hperm := (List.perm_ext_iff_of_nodup hnodup (nodup_eraseDups _)).2 fun nodeId =>
      ⟨hsub nodeId, h.mem_order⟩
    exact hperm.length_eq

/-- In the order of an accepted graph every path leads forward. -/
theorem Accepted.idxOf_lt (h : graph.Accepted) (hpath : TransGen graph.Edge u v) :
    graph.topologicalOrder.idxOf u < graph.topologicalOrder.idxOf v := by
  have hedges := (accepted_iff_parts.1 h).2.1
  have hends : ∀ link ∈ graph.links, link.2 ∈ graph.topologicalOrder := fun link hlink =>
    h.order_perm.mem_iff.2 (mem_nodeIds.1 (target_of_mem_links hlink))
  have hstep : ∀ u v, graph.Edge u v →
      graph.topologicalOrder.idxOf u < graph.topologicalOrder.idxOf v := fun u v hedge =>
    graph.order_spec.2.2.idxOf_lt graph.order_spec.1 hends ((mem_links_iff hedges).2 hedge)
  induction hpath with
  | single hedge => exact hstep _ _ hedge
  | tail _ hedge ih => exact ih.trans (hstep _ _ hedge)

end AutomationGraph

/-- The validation accepts the well-formed graphs, and orders their nodes along the edges and the
bindings. -/
theorem validateAutomationGraph_iff (graph : AutomationGraph) :
    ((∃ result, validateAutomationGraph graph = .ok result) ↔ graph.WellFormed) ∧
    ∀ result, validateAutomationGraph graph = .ok result →
      result.topologicalOrder.Perm (graph.nodes.map (·.nodeId)) ∧
      (∀ edge ∈ graph.edges,
        result.topologicalOrder.idxOf edge.source < result.topologicalOrder.idxOf edge.target) ∧
      ∀ node ∈ graph.nodes, ∀ name, node.Binds name → name ≠ "" →
        result.topologicalOrder.idxOf name < result.topologicalOrder.idxOf node.nodeId := by
  refine ⟨⟨fun ⟨result, hresult⟩ => ?_, fun h => ?_⟩, fun result hresult => ?_⟩
  · exact (AutomationGraph.accepted_of_validate hresult).1.wellFormed
  · exact ⟨_, AutomationGraph.validate_of_accepted h.accepted⟩
  · obtain ⟨haccepted, horder⟩ := AutomationGraph.accepted_of_validate hresult
    rw [horder]
    refine ⟨haccepted.order_perm, fun edge hedge => ?_, fun node hnode name hname hne => ?_⟩
    · exact haccepted.idxOf_lt (.single ⟨edge, hedge, rfl, rfl⟩)
    · obtain ⟨-, hother, hpath⟩ := haccepted.wellFormed.bound node hnode name hname hne
      rcases reflTransGen_iff_eq_or_transGen.1 hpath with hsame | hpath
      · exact absurd hsame.symm hother
      · exact haccepted.idxOf_lt hpath

/-- One node, with a binding of a node without a name. -/
def blankGraph : AutomationGraph where
  nodes := [{ nodeId := "a", kind := .approval none, inputs := some [("x", .str "$nodes.")] }]
  edges := []

/-- A binding without a name is accepted, although it names no node. -/
theorem blank_binding_accepted :
    ¬ ((∃ result, validateAutomationGraph blankGraph = .ok result) ↔ blankGraph.WellFormed ∧
      ∀ node ∈ blankGraph.nodes, ∀ name, node.Binds name →
        name ∈ blankGraph.nodes.map (·.nodeId)) := by
  have hrefs : ∀ node ∈ blankGraph.nodes, node.refs = [] := by decide
  have hnoEdge : ∀ u v, ¬ blankGraph.Edge u v := fun u v ⟨edge, hedge, _⟩ =>
    List.not_mem_nil hedge
  have hwell : blankGraph.WellFormed := by
    refine ⟨nofun, by decide, nofun, nofun, nofun, nofun, fun nodeId h => ?_,
      fun node hnode name hname hne => ?_⟩
    · obtain ⟨_, -, hlast⟩ := TransGen.tail'_iff.1 h
      exact hnoEdge _ _ hlast
    · have hmem := mem_refs.2 ⟨hname, hne⟩
      rw [hrefs node hnode] at hmem
      cases hmem
  intro h
  have hnames := (h.1 ⟨_, AutomationGraph.validate_of_accepted hwell.accepted⟩).2
  have hblank : NamesNode "" "$nodes." := ⟨[], by decide, by decide⟩
  exact absurd (hnames _ List.mem_cons_self ""
    (.inl ⟨_, rfl, .field List.mem_cons_self (.str hblank)⟩)) (by decide)

end AionisCore.Memory
