import AionisCore.AionisDoc.GraphEdges
import AionisCore.AionisDoc.EnvelopeArtifacts

/-!
# Envelopes and direct execution

What an envelope keeps of a compilation. The schemas ask for names that the compiler lets be
empty; JSON has no infinite number and no negative zero; and a plan that is rebuilt from the
representation has no graph.
-/

namespace AionisCore.AionisDoc

open Lib

/-! ## Artifacts -/

structure CompileArtifacts.Holds (P : AionisValue → Prop) (Q : AionisObject → Prop)
    (artifacts : CompileArtifacts) : Prop where
  ast : ∀ ast ∈ artifacts.ast, ast.Holds P
  ir : ∀ ir ∈ artifacts.ir, ir.Holds P Q
  graph : ∀ graph ∈ artifacts.graph, graph.Fits ∧ ∀ node ∈ graph.nodes, Q node.payload
  plan : ∀ plan ∈ artifacts.plan, plan.Fits ∧ ∀ o ∈ plan.objects, Q o

section Artifacts

variable {a : Arrival} {P : AionisValue → Prop} {Q : AionisObject → Prop}
  {artifacts : CompileArtifacts}

theorem CompileArtifacts.Holds.parse (ha : a.Takes P Q) (h : artifacts.Holds P Q)
    (hnumbers : ∀ ir ∈ artifacts.ir, ir.NumbersArrive a) :
    ∃ taken, artifacts.parse a = some taken ∧
      taken.Holds PlainValue AionisObject.PlainObject ∧
      taken.ir = artifacts.ir.map (AionisDocIR.taken a) ∧
      taken.graph = artifacts.graph.map (ExecutionGraph.mapObjects a.takeRecord) ∧
      taken.plan = artifacts.plan.map (ExecutionPlanV1.mapObjects a.takeRecord) := by
  choose! ast hast hastHolds using fun ast hmem => (h.ast ast hmem).parse ha
  have hasts : artifacts.ast.mapM (DocumentNode.parse a) = some (artifacts.ast.map ast) :=
    optionMapM_eq_map hast
  have hirs : artifacts.ir.mapM (AionisDocIR.parse a) =
      some (artifacts.ir.map (AionisDocIR.taken a)) :=
    optionMapM_eq_map fun ir hir => (h.ir ir hir).parse ha (hnumbers ir hir)
  have hgraphs : artifacts.graph.mapM (ExecutionGraph.parse a) =
      some (artifacts.graph.map (ExecutionGraph.mapObjects a.takeRecord)) :=
    optionMapM_eq_map fun graph hgraph => (h.graph graph hgraph).1.parse
      fun node hnode => (ha.record _ ((h.graph graph hgraph).2 node hnode)).1
  have hplans : artifacts.plan.mapM (ExecutionPlanV1.parse a) =
      some (artifacts.plan.map (ExecutionPlanV1.mapObjects a.takeRecord)) :=
    optionMapM_eq_map fun plan hplan => (h.plan plan hplan).1.parse
      fun o ho => (ha.record o ((h.plan plan hplan).2 o ho)).1
  refine ⟨⟨artifacts.ast.map ast, _, _, _⟩, ?_, ⟨?_, ?_, ?_, ?_⟩, rfl, rfl, rfl⟩
  · unfold CompileArtifacts.parse
    rw [hasts, hirs, hgraphs, hplans]
    rfl
  · intro taken htaken
    obtain ⟨before, hbefore, rfl⟩ := Option.map_eq_some_iff.1 htaken
    exact hastHolds before hbefore
  · intro taken htaken
    obtain ⟨before, hbefore, rfl⟩ := Option.map_eq_some_iff.1 htaken
    exact (h.ir before hbefore).taken ha
  · intro taken htaken
    obtain ⟨before, hbefore, rfl⟩ := Option.map_eq_some_iff.1 htaken
    obtain ⟨hfits, hclean⟩ := h.graph before hbefore
    refine ⟨hfits.mapObjects, fun node hnode => ?_⟩
    obtain ⟨node, hmem, rfl⟩ := List.mem_map.1 hnode
    exact (ha.record _ (hclean node hmem)).2
  · intro taken htaken
    obtain ⟨before, hbefore, rfl⟩ := Option.map_eq_some_iff.1 htaken
    obtain ⟨hfits, hclean⟩ := h.plan before hbefore
    refine ⟨hfits.mapObjects, fun o ho => ?_⟩
    rw [objects_mapObjects] at ho
    obtain ⟨o, hmem, rfl⟩ := List.mem_map.1 ho
    exact (ha.record o (hclean o hmem)).2

theorem CompileArtifacts.parse_isSome (h : (artifacts.parse a).isSome = true) :
    (∀ ir ∈ artifacts.ir, (ir.parse a).isSome = true) ∧
      (∀ graph ∈ artifacts.graph, (graph.parse a).isSome = true) ∧
      ∀ plan ∈ artifacts.plan, (plan.parse a).isSome = true := by
  have hsome : ∀ {α : Type} {f : α → Option α} {o : Option α} {x y}, o.mapM f = some x → y ∈ o →
      (f y).isSome = true := by
    intro α f o x y hx hy
    obtain rfl : o = some y := hy
    cases hf : f y with
    | some z => rfl
    | none =>
      have hnone : (f y).map some = some x := hx
      rw [hf] at hnone
      cases hnone
  obtain ⟨taken, htaken⟩ := Option.isSome_iff_exists.1 h
  unfold CompileArtifacts.parse at htaken
  simp only [Option.bind_eq_bind, Option.bind_eq_some_iff] at htaken
  obtain ⟨-, -, ir, hir, graph, hgraph, plan, hplan, -⟩ := htaken
  exact ⟨fun _ => hsome hir, fun _ => hsome hgraph, fun _ => hsome hplan⟩

end Artifacts

/-! ## Compilations -/

section Compilation

variable {ir : AionisDocIR} {source : String}

theorem AstNode.WellFormed.holds {node : AstNode} (h : node.WellFormed) : node.Holds Clean := by
  cases node with
  | heading node => exact h
  | paragraph node => exact h
  | fence node => exact h
  | directive node => exact h

theorem AionisDocIR.WellFormed.holds (h : ir.WellFormed) :
    ir.Holds Clean AionisObject.CleanObject where
  doc := h.doc
  context := h.context
  plans := h.plans
  executions := h.executions
  decisions := h.decisions
  evidence := fun e he =>
    ⟨(h.evidence e he).1, fun vs hvs => cleanItems_iff.1 ((h.evidence e he).2 vs hvs)⟩
  replay := h.replay
  memory := h.memory
  state := h.state
  diagnostics := h.diagnostics

theorem buildExecutionId_ne_empty (step : ExecuteIR) (index : Nat) :
    buildExecutionId step index ≠ "" := by
  unfold buildExecutionId
  dsimp only
  split
  · next houtput =>
    intro hempty
    rw [falsy, hempty] at houtput
    cases houtput
  · split
    · simp only [toString, String.append_assoc]
      exact interpolated_ne_empty (by decide)
    · split
      · simp only [toString, String.append_assoc]
        exact interpolated_ne_empty (by decide)
      · split
        · simp only [toString, String.append_assoc]
          exact interpolated_ne_empty (by decide)
        · simp only [toString]
          exact interpolated_ne_empty (by decide)

theorem buildExecutionGraph_fits (h : ir.WellFormed) {graph : ExecutionGraph}
    (hgraph : (buildExecutionGraph ir).1 = some graph) (hid : graph.docId ≠ "") :
    graph.Fits ∧ ∀ node ∈ graph.nodes, node.payload.CleanObject := by
  have hedges := mem_edges hgraph
  unfold buildExecutionGraph at hgraph
  split at hgraph
  · cases hgraph
  · obtain rfl := Option.some.inj hgraph
    have hstate := graphState_wellFormed h
    refine ⟨⟨⟨?_, hid⟩, fun node hnode => ?_, fun edge hedge => ?_, hstate.diagnostics⟩,
      fun node hnode => (hstate.nodes node hnode).2.1⟩
    · simp only [toString]
      exact interpolated_ne_empty nofun
    · exact ⟨(hstate.nodes node hnode).1, (hstate.nodes node hnode).2.2⟩
    · obtain ⟨i, j, type, -, rfl⟩ := (hedges edge).1 hedge
      have hi : decide (nodeId i ≠ "") = true := decide_eq_true (nodeId_ne_empty i)
      have hj : decide (nodeId j ≠ "") = true := decide_eq_true (nodeId_ne_empty j)
      exact Bool.and_eq_true_iff.2 ⟨hi, hj⟩

theorem buildExecutionPlan_fits {P : AionisValue → Prop} {Q : AionisObject → Prop}
    (h : ir.Holds P Q) {graph : Option ExecutionGraph}
    {diagnostics : List Diagnostic} (hgraph : ∀ g ∈ graph, g.Fits)
    (hdiagnostics : ∀ d ∈ diagnostics, d.valid = true)
    (hdoc : ∀ doc ∈ ir.doc, doc.id ≠ "" ∧ doc.version ≠ "") :
    (buildExecutionPlanV1 ir graph diagnostics).Fits where
  doc := by
    intro described hdescribed
    obtain ⟨doc, hmem, rfl⟩ := Option.map_eq_some_iff.1 hdescribed
    obtain ⟨hid, hversion⟩ := hdoc doc hmem
    exact Bool.and_eq_true_iff.2 ⟨decide_eq_true hid, decide_eq_true hversion⟩
  executions := by
    intro step hstep
    obtain ⟨index, hindex, rfl⟩ := List.mem_mapIdx.1 hstep
    exact ⟨buildExecutionId_ne_empty _ _, (h.executions _ (List.getElem_mem hindex)).1.2⟩
  graph := hgraph
  diagnostics := hdiagnostics

/-- The objects of a plan are those of the representation and of its graph. -/
theorem buildExecutionPlan_clean {P : AionisValue → Prop}
    (h : ir.Holds P AionisObject.CleanObject) {graph : Option ExecutionGraph}
    {diagnostics : List Diagnostic}
    (hgraph : ∀ g ∈ graph, ∀ node ∈ g.nodes, node.payload.CleanObject) :
    ∀ o ∈ (buildExecutionPlanV1 ir graph diagnostics).objects, o.CleanObject := by
  have hframes : ∀ frame ∈ ir.context.map (·.data), frame.CleanObject := by
    intro frame hframe
    obtain ⟨context, hcontext, rfl⟩ := List.mem_map.1 hframe
    exact (h.context context hcontext).1
  intro o ho
  obtain rfl | ho := List.mem_cons.1 ho
  · exact mergeContextFrames_clean hframes
  · obtain ho | ho := List.mem_append.1 ho
    · obtain ho | ho := List.mem_append.1 ho
      · exact hframes o ho
      · obtain ⟨step, hstep, hinput⟩ := List.mem_filterMap.1 ho
        obtain ⟨index, hindex, rfl⟩ := List.mem_mapIdx.1 hstep
        exact (h.executions _ (List.getElem_mem hindex)).2 o hinput
    · cases graph with
      | none => cases ho
      | some graph =>
        obtain ⟨node, hnode, rfl⟩ := List.mem_map.1 ho
        exact hgraph graph rfl node hnode

end Compilation

end AionisCore.AionisDoc
