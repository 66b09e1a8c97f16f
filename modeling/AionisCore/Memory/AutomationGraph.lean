import AionisCore.Lib.JsString
import AionisCore.Lib.Json
import AionisCore.Lib.Kahn
import AionisCore.Util.Http

/-!
# Automation graphs

Nodes and edges of an automation, and `validateAutomationGraph`. What it accepts has unique
node ids, edges between its nodes, and a topological order: every node comes once, after the
nodes it depends on.
-/

namespace AionisCore.Memory

open Lib Lib.JsString Util

inductive ReplayRunMode where
  | simulate
  | strict
  | guided
  deriving DecidableEq, Repr

inductive AutomationNodeKind where
  | playbook (playbookId : String) (version : Option Nat) (mode : Option ReplayRunMode)
  | approval (approvalKey : Option String)
  | condition (expression : Option Json)
  | artifactGate (requiredArtifacts : List String)

structure AutomationGraphNode where
  nodeId : String
  kind : AutomationNodeKind
  inputs : Option Json.Fields := none

inductive AutomationEdgeType where
  | dependsOn
  | onSuccess
  | onFailure
  deriving DecidableEq, Repr

/-- An edge; its `from` and `to` are the source and the target. -/
structure AutomationGraphEdge where
  source : String
  target : String
  type : AutomationEdgeType := .onSuccess
  deriving DecidableEq, Repr

structure AutomationGraph where
  nodes : List AutomationGraphNode
  edges : List AutomationGraphEdge

/-! ## Bindings -/

/-- `rest.split(".")` after `prefix`. -/
def bindingPath (head s : String) : Option (List String) :=
  (s.toList.dropPrefix? head.toList).map fun rest => (rest.splitOn '.').map String.ofList

mutual

/-- The nodes that a value reads, in the order of their names in it. -/
def collectBindingRefs : Json → List String
  | .str s =>
    match bindingPath "$nodes." s with
    | some (nodeId :: _) => if trim nodeId = "" then [] else [trim nodeId]
    | _ => []
  | .arr items => collectItems items
  | .obj fields => collectFields fields
  | _ => []

def collectItems : List Json → List String
  | [] => []
  | item :: items => collectBindingRefs item ++ collectItems items

def collectFields : List (String × Json) → List String
  | [] => []
  | field :: fields => collectField field ++ collectFields fields

def collectField : String × Json → List String
  | (_, next) => collectBindingRefs next

end

/-- The set `refs` of a node. -/
def AutomationGraphNode.refs (node : AutomationGraphNode) : List String :=
  let inputs := collectBindingRefs (.obj (node.inputs.getD []))
  let more := match node.kind with
    | .condition expression => (expression.map collectBindingRefs).getD []
    | .artifactGate artifacts => collectItems (artifacts.map .str)
    | _ => []
  (inputs ++ more).eraseDups

/-! ## Validation -/

structure AutomationValidationIssue where
  code : String
  message : String
  nodeId : Option String := none
  edge : Option (String × String × String) := none
  deriving DecidableEq, Repr

def AutomationEdgeType.name : AutomationEdgeType → String
  | .dependsOn => "depends_on"
  | .onSuccess => "on_success"
  | .onFailure => "on_failure"

namespace AutomationGraph

variable (graph : AutomationGraph)

def nodeIds : List String := (graph.nodes.map (·.nodeId)).eraseDups

/-- The issue of a node whose id an earlier node has. -/
def duplicateIssues : List String → List AutomationGraphNode → List AutomationValidationIssue
  | _, [] => []
  | seen, node :: nodes =>
    if node.nodeId ∈ seen then
      { code := "duplicate_node_id", message := "node_id must be unique", nodeId := node.nodeId } ::
        duplicateIssues seen nodes
    else duplicateIssues (node.nodeId :: seen) nodes

/-- The issue for which an edge is left out of the graph. -/
def edgeIssue (edge : AutomationGraphEdge) : Option AutomationValidationIssue :=
  let described := some (edge.source, edge.target, edge.type.name)
  if edge.source ∉ graph.nodeIds then some {
    code := "edge_from_missing", message := "edge source node does not exist", edge := described }
  else if edge.target ∉ graph.nodeIds then some {
    code := "edge_to_missing", message := "edge target node does not exist", edge := described }
  else if edge.source = edge.target then some {
    code := "self_cycle", message := "self-referential edges are not allowed", edge := described }
  else if edge.type = .onFailure then some {
    code := "unsupported_edge_type"
    message := "on_failure edges are not supported in lite automation kernel"
    edge := described }
  else none

/-- The edges without an issue, as pairs. -/
def links : List (String × String) :=
  (graph.edges.filter fun edge => (graph.edgeIssue edge).isNone).map fun edge =>
    (edge.source, edge.target)

def outgoing (nodeId : String) : List String :=
  (graph.links.filter (·.1 = nodeId)).map (·.2)

def indegree (nodeId : String) : Int := graph.links.countP (·.2 = nodeId)

/-- The search from `queue`; every edge is taken once at most. -/
def reaches (target : String) : Nat → List String → List String → Bool
  | 0, _, _ => false
  | _ + 1, _, [] => false
  | fuel + 1, seen, nodeId :: queue =>
    if nodeId = target then true
    else if nodeId ∈ seen then reaches target fuel seen queue
    else reaches target fuel (nodeId :: seen)
      (queue ++ (graph.outgoing nodeId).filter (· ∉ nodeId :: seen))

def hasGraphPath (source target : String) : Bool :=
  if source = target then true
  else graph.reaches target (graph.links.length + 1) [source] (graph.outgoing source)

def bindingIssue (node : AutomationGraphNode) (ref : String) : Option AutomationValidationIssue :=
  if ref ∉ graph.nodeIds then some {
    code := "binding_node_missing"
    message := "input binding references a node that does not exist"
    nodeId := node.nodeId }
  else if ref = node.nodeId then some {
    code := "binding_self_reference"
    message := "node bindings may not reference the same node"
    nodeId := node.nodeId }
  else if !graph.hasGraphPath ref node.nodeId then some {
    code := "binding_dependency_missing"
    message := "node bindings require an explicit dependency path from referenced node to consumer"
    nodeId := node.nodeId
    edge := some (ref, node.nodeId, "binding") }
  else none

def startNodeIds : List String := graph.nodeIds.filter fun nodeId => graph.indegree nodeId = 0

def topologicalOrder : List String :=
  Kahn.loop (fun nodeId => sortStrings (graph.outgoing nodeId)) graph.nodeIds.length
    (sortStrings graph.startNodeIds) graph.indegree []

def issues : List AutomationValidationIssue :=
  duplicateIssues [] graph.nodes ++
  graph.edges.filterMap graph.edgeIssue ++
  (graph.nodes.flatMap fun node => node.refs.filterMap (graph.bindingIssue node)) ++
  (if graph.startNodeIds = [] then [{
    code := "missing_start_node"
    message := "automation graph must have at least one start node" }] else []) ++
  (if graph.topologicalOrder.length ≠ graph.nodeIds.length then [{
    code := "cycle_detected", message := "automation graph must be acyclic" }] else [])

end AutomationGraph

structure AutomationValidationResult where
  nodeIds : List String
  startNodeIds : List String
  topologicalOrder : List String

def validateAutomationGraph (graph : AutomationGraph) :
    Except (HttpError (List AutomationValidationIssue)) AutomationValidationResult :=
  if graph.issues ≠ [] then
    .error (badRequest "automation_graph_invalid" "automation graph validation failed" graph.issues)
  else .ok {
    nodeIds := graph.nodeIds
    startNodeIds := sortStrings graph.startNodeIds
    topologicalOrder := graph.topologicalOrder }

namespace AutomationGraph

variable {graph : AutomationGraph}

/-! ## Accepted graphs -/

/-- The graph has no issue. -/
def Accepted (graph : AutomationGraph) : Prop := graph.issues = []

theorem accepted_of_validate {result : AutomationValidationResult}
    (h : validateAutomationGraph graph = .ok result) :
    graph.Accepted ∧ result.topologicalOrder = graph.topologicalOrder := by
  unfold validateAutomationGraph at h
  split at h
  · cases h
  · next hissues =>
    obtain rfl := Except.ok.inj h
    exact ⟨not_not.1 hissues, rfl⟩

theorem validate_of_accepted (h : graph.Accepted) : validateAutomationGraph graph = .ok {
    nodeIds := graph.nodeIds
    startNodeIds := sortStrings graph.startNodeIds
    topologicalOrder := graph.topologicalOrder } := if_neg (not_not.2 h)

theorem duplicateIssues_eq_nil {seen : List String} {nodes : List AutomationGraphNode}
    (h : duplicateIssues seen nodes = []) :
    (nodes.map (·.nodeId)).Nodup ∧ ∀ node ∈ nodes, node.nodeId ∉ seen := by
  induction nodes generalizing seen with
  | nil => exact ⟨List.nodup_nil, fun node hnode => absurd hnode List.not_mem_nil⟩
  | cons node nodes ih =>
    unfold duplicateIssues at h
    split at h
    · cases h
    · next hfresh =>
      obtain ⟨hnodup, hnot⟩ := ih h
      refine ⟨List.nodup_cons.2 ⟨fun hmem => ?_, hnodup⟩, fun other hother => ?_⟩
      · obtain ⟨other, hother, hsame⟩ := List.mem_map.1 hmem
        exact hnot other hother (hsame ▸ List.mem_cons_self)
      · rcases List.mem_cons.1 hother with rfl | hother
        · exact hfresh
        · exact fun hmem => hnot other hother (List.mem_cons_of_mem _ hmem)

/-- Each kind of issue is missing from an accepted graph. -/
theorem Accepted.parts (h : graph.Accepted) : duplicateIssues [] graph.nodes = [] ∧
    graph.edges.filterMap graph.edgeIssue = [] ∧
    graph.topologicalOrder.length = graph.nodeIds.length := by
  unfold Accepted issues at h
  simp only [List.append_eq_nil_iff] at h
  refine ⟨h.1.1.1.1, h.1.1.1.2, ?_⟩
  by_contra hne
  rw [if_pos hne] at h
  cases h.2

theorem Accepted.nodup (h : graph.Accepted) : (graph.nodes.map (·.nodeId)).Nodup :=
  (duplicateIssues_eq_nil h.parts.1).1

theorem Accepted.nodeIds_eq (h : graph.Accepted) : graph.nodeIds = graph.nodes.map (·.nodeId) :=
  eraseDups_of_nodup h.nodup

variable {edge : AutomationGraphEdge}

theorem Accepted.edgeIssue (h : graph.Accepted) (he : edge ∈ graph.edges) :
    graph.edgeIssue edge = none :=
  List.filterMap_eq_nil_iff.1 h.parts.2.1 edge he

theorem Accepted.mem_links (h : graph.Accepted) (he : edge ∈ graph.edges) :
    (edge.source, edge.target) ∈ graph.links :=
  List.mem_map.2 ⟨edge, List.mem_filter.2 ⟨he, by rw [h.edgeIssue he]; rfl⟩, rfl⟩

theorem target_of_mem_links {link : String × String} (h : link ∈ graph.links) :
    link.2 ∈ graph.nodeIds := by
  obtain ⟨edge, hedge, rfl⟩ := List.mem_map.1 h
  have hnone := Option.isNone_iff_eq_none.1 (List.mem_filter.1 hedge).2
  unfold AutomationGraph.edgeIssue at hnone
  dsimp only at hnone
  split at hnone
  · cases hnone
  · split at hnone
    · cases hnone
    · next hmem => exact not_not.1 hmem

theorem kahn_starts : Kahn.Starts graph.nodeIds graph.links
    (fun nodeId => sortStrings (graph.outgoing nodeId)) (sortStrings graph.startNodeIds)
    graph.indegree where
  out u v := by
    rw [(sortStrings_perm _).count_eq]
    unfold outgoing
    rw [List.count, List.countP_map, List.countP_filter]
    refine List.countP_congr fun link _ => ?_
    simp [and_comm]
  ends _ := target_of_mem_links
  nodup := (sortStrings_perm _).nodup_iff.2 (List.Nodup.filter _ (nodup_eraseDups _))
  start v := by
    rw [(sortStrings_perm _).mem_iff]
    unfold startNodeIds
    rw [List.mem_filter, decide_eq_true_iff]
  indegree _ := rfl

theorem order_spec (graph : AutomationGraph) : graph.topologicalOrder.Nodup ∧
    (∀ nodeId ∈ graph.topologicalOrder, nodeId ∈ graph.nodeIds) ∧
    Kahn.Ordered graph.links graph.topologicalOrder :=
  kahn_starts.ordered_loop

/-- The topological order of an accepted graph lists every node. -/
theorem Accepted.order_perm (h : graph.Accepted) :
    graph.topologicalOrder.Perm (graph.nodes.map (·.nodeId)) := by
  obtain ⟨hnodup, hsub, -⟩ := graph.order_spec
  have hperm := (List.Nodup.subperm hnodup hsub).perm_of_length_le h.parts.2.2.ge
  rw [h.nodeIds_eq] at hperm
  exact hperm

theorem Accepted.mem_order (h : graph.Accepted) {nodeId : String} :
    nodeId ∈ graph.topologicalOrder ↔ ∃ node ∈ graph.nodes, node.nodeId = nodeId :=
  h.order_perm.mem_iff.trans List.mem_map

/-- In the topological order of an accepted graph a node comes after the sources of its edges. -/
theorem Accepted.source_mem (h : graph.Accepted) {pre post : List String} {nodeId : String}
    (hsplit : graph.topologicalOrder = pre ++ nodeId :: post) (he : edge ∈ graph.edges)
    (htarget : edge.target = nodeId) : edge.source ∈ pre :=
  graph.order_spec.2.2 pre nodeId post hsplit edge.source
    (htarget ▸ h.mem_links he)

end AutomationGraph

end AionisCore.Memory
