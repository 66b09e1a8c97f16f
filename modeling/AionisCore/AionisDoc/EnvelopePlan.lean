import AionisCore.AionisDoc.WellFormed

/-!
# Artifacts through the schemas

A schema that accepts the values of an artifact maps them where they stand and keeps the rest. So
a plan that went through an envelope is the plan the schema makes, with every object as JSON keeps
it.
-/

namespace AionisCore.AionisDoc

open Lib

/-! ## Lists of accepted values -/

variable {α β : Type}

theorem mapM_eq_map {f : α → Option β} {g : α → β} {xs : List α} (h : ∀ x ∈ xs, f x = some (g x)) :
    xs.mapM f = some (xs.map g) := by
  induction xs with
  | nil => rfl
  | cons x xs ih =>
    rw [List.mapM_cons, h x List.mem_cons_self, ih fun y hy => h y (List.mem_cons_of_mem x hy)]
    rfl

theorem optionMapM_eq_map {f : α → Option β} {g : α → β} {o : Option α}
    (h : ∀ x ∈ o, f x = some (g x)) : o.mapM f = some (o.map g) := by
  cases o with
  | none => rfl
  | some x =>
    show (f x).map some = _
    rw [h x rfl]
    rfl

theorem mapM_eq_none {f : α → Option β} {xs : List α} {x : α} (hx : x ∈ xs) (h : f x = none) :
    xs.mapM f = none := by
  induction xs with
  | nil => cases hx
  | cons y ys ih =>
    rw [List.mapM_cons]
    cases hy : f y with
    | none => rfl
    | some z =>
      have hmem : x ∈ ys := by
        obtain rfl | hmem := List.mem_cons.1 hx
        · rw [h] at hy
          cases hy
        · exact hmem
      rw [ih hmem]
      rfl

/-- What the record schema makes of an object. -/
def flattenObject (o : AionisObject) : AionisObject := (parseRecord o).getD {}

def flattenValue (v : AionisValue) : AionisValue := (parseAionisValue v).getD .null

section Flatten

variable {o : AionisObject} {v : AionisValue}

theorem parseRecord_eq_flatten (h : o.CleanObject) : parseRecord o = some (flattenObject o) := by
  obtain ⟨o', ho', -⟩ := parseRecord_clean h
  rw [flattenObject, ho']
  rfl

theorem flattenObject_plain (h : o.CleanObject) : (flattenObject o).PlainObject := by
  obtain ⟨o', ho', hplain⟩ := parseRecord_clean h
  rw [flattenObject, ho']
  exact hplain

theorem flattenObject_eq_self (h : o.PlainObject) : flattenObject o = o := by
  rw [flattenObject, parseRecord_plain h]
  rfl

theorem parseAionisValue_eq_flatten (h : Clean v) : parseAionisValue v = some (flattenValue v) := by
  obtain ⟨w, hw, -⟩ := parse_clean v h
  rw [flattenValue, hw]
  rfl

theorem flattenValue_plain (h : Clean v) : PlainValue (flattenValue v) := by
  obtain ⟨w, hw, hplain⟩ := parse_clean v h
  rw [flattenValue, hw]
  exact hplain

end Flatten

theorem mergeContextFrames_clean {frames : List AionisObject}
    (h : ∀ frame ∈ frames, frame.CleanObject) : (mergeContextFrames frames).CleanObject := by
  have hfields : ∀ (fields : List (String × AionisValue)) (merged : AionisObject),
      merged.CleanObject → CleanFields fields →
        (fields.foldl (fun m f => m.set f.1 f.2) merged).CleanObject := by
    intro fields
    induction fields with
    | nil => exact fun merged hmerged _ => hmerged
    | cons f fs ih =>
      intro merged hmerged hfields
      rw [List.foldl_cons]
      exact ih _ (hmerged.set (cleanFields_iff.1 hfields f List.mem_cons_self)) hfields.2
  have hframes : ∀ (frames : List AionisObject) (merged : AionisObject), merged.CleanObject →
      (∀ frame ∈ frames, frame.CleanObject) → (frames.foldl (fun merged frame =>
        frame.own.foldl (fun m f => m.set f.1 f.2) merged) merged).CleanObject := by
    intro frames
    induction frames with
    | nil => exact fun merged hmerged _ => hmerged
    | cons frame frames ih =>
      intro merged hmerged hframes
      rw [List.foldl_cons]
      exact ih _ (hfields frame.own merged hmerged (hframes frame List.mem_cons_self).1)
        fun g hg => hframes g (List.mem_cons_of_mem _ hg)
  exact hframes frames {} ⟨trivial, trivial⟩ h

/-! ## Plans -/

def ExecutionGraph.mapObjects (f : AionisObject → AionisObject) (graph : ExecutionGraph) :
    ExecutionGraph :=
  { graph with nodes := graph.nodes.map fun node => { node with payload := f node.payload } }

def ExecutionPlanStep.mapObjects (f : AionisObject → AionisObject) (step : ExecutionPlanStep) :
    ExecutionPlanStep :=
  { step with input := step.input.map f }

def ExecutionPlanV1.mapObjects (f : AionisObject → AionisObject) (plan : ExecutionPlanV1) :
    ExecutionPlanV1 :=
  { plan with
    context := { merged := f plan.context.merged, frames := plan.context.frames.map f }
    executions := plan.executions.map (ExecutionPlanStep.mapObjects f)
    graph := plan.graph.map (ExecutionGraph.mapObjects f) }

/-- The objects of a plan. -/
def ExecutionPlanV1.objects (plan : ExecutionPlanV1) : List AionisObject :=
  plan.context.merged :: (plan.context.frames ++ plan.executions.filterMap (·.input) ++
    (plan.graph.map fun graph => graph.nodes.map (·.payload)).getD [])

structure ExecutionGraph.Fits (graph : ExecutionGraph) : Prop where
  ids : graph.graphId ≠ "" ∧ graph.docId ≠ ""
  nodes : ∀ node ∈ graph.nodes, node.id ≠ "" ∧ validLoc node.loc = true
  edges : ∀ edge ∈ graph.edges, edge.valid = true
  diagnostics : ∀ d ∈ graph.diagnostics, d.valid = true

/-- All of the plan but its objects is what the schema asks for. -/
structure ExecutionPlanV1.Fits (plan : ExecutionPlanV1) : Prop where
  doc : ∀ doc ∈ plan.doc, doc.valid = true
  executions : ∀ step ∈ plan.executions, step.executionId ≠ "" ∧ validLoc step.loc = true
  graph : ∀ graph ∈ plan.graph, graph.Fits
  diagnostics : ∀ d ∈ plan.diagnostics, d.valid = true

section Plan

variable {a : Arrival} {f : AionisObject → AionisObject} {plan : ExecutionPlanV1}
  {graph : ExecutionGraph}

theorem parseEntry_eq {α : Type} {data data' : AionisObject} {loc : Option SourceRange}
    {withData : AionisObject → α} (hloc : validLoc loc = true)
    (hdata : a.record data = some data') :
    parseEntry a data loc withData = some (withData data') := by
  rw [parseEntry, if_pos hloc, hdata]
  rfl

theorem mem_objects_frame {frame : AionisObject} (h : frame ∈ plan.context.frames) :
    frame ∈ plan.objects :=
  List.mem_cons_of_mem _ (List.mem_append_left _ (List.mem_append_left _ h))

theorem mem_objects_input {step : ExecutionPlanStep} (hstep : step ∈ plan.executions)
    {input : AionisObject} (hinput : step.input = some input) : input ∈ plan.objects :=
  List.mem_cons_of_mem _ (List.mem_append_left _ (List.mem_append_right _
    (List.mem_filterMap.2 ⟨step, hstep, hinput⟩)))

theorem mem_objects_payload (hgraph : plan.graph = some graph) {node : ExecutionNode}
    (hnode : node ∈ graph.nodes) : node.payload ∈ plan.objects := by
  refine List.mem_cons_of_mem _ (List.mem_append_right _ ?_)
  rw [hgraph]
  exact List.mem_map_of_mem hnode

theorem ExecutionGraph.Fits.parse (h : graph.Fits)
    (hobjects : ∀ node ∈ graph.nodes, a.record node.payload = some (f node.payload)) :
    graph.parse a = some (graph.mapObjects f) := by
  have hchecks : (graph.graphId ≠ "" && graph.docId ≠ "" && graph.edges.all (·.valid) &&
      graph.diagnostics.all (·.valid)) = true := by
    simp only [Bool.and_eq_true, decide_eq_true_eq, List.all_eq_true]
    exact ⟨⟨h.ids, h.edges⟩, h.diagnostics⟩
  have hnodes : graph.nodes.mapM (ExecutionNode.parse a) =
      some (graph.nodes.map fun node => { node with payload := f node.payload }) := by
    refine mapM_eq_map fun node hnode => ?_
    rw [ExecutionNode.parse, if_pos (h.nodes node hnode).1]
    exact parseEntry_eq (h.nodes node hnode).2 (hobjects node hnode)
  rw [ExecutionGraph.parse, if_pos hchecks, hnodes]
  rfl

theorem ExecutionPlanV1.Fits.parse (h : plan.Fits)
    (hobjects : ∀ o ∈ plan.objects, a.record o = some (f o)) :
    plan.parse a = some (plan.mapObjects f) := by
  have hmerged : a.record plan.context.merged = some (f plan.context.merged) :=
    hobjects _ List.mem_cons_self
  have hframes : plan.context.frames.mapM a.record = some (plan.context.frames.map f) :=
    mapM_eq_map fun frame hframe => hobjects frame (mem_objects_frame hframe)
  have hexecutions : plan.executions.mapM (ExecutionPlanStep.parse a) =
      some (plan.executions.map (ExecutionPlanStep.mapObjects f)) := by
    refine mapM_eq_map fun step hstep => ?_
    obtain ⟨hid, hloc⟩ := h.executions step hstep
    have hinput : step.input.mapM a.record = some (step.input.map f) :=
      optionMapM_eq_map fun input hinput => hobjects input (mem_objects_input hstep hinput)
    rw [ExecutionPlanStep.parse, if_pos (by simp [hid, hloc]), hinput]
    rfl
  have hgraph : plan.graph.mapM (ExecutionGraph.parse a) =
      some (plan.graph.map (ExecutionGraph.mapObjects f)) :=
    optionMapM_eq_map fun graph hgraph => (h.graph graph hgraph).parse
      fun node hnode => hobjects _ (mem_objects_payload hgraph hnode)
  have hchecks : (plan.doc.all (·.valid) && plan.diagnostics.all (·.valid)) = true := by
    rw [Bool.and_eq_true, Option.all_eq_true, List.all_eq_true]
    exact ⟨h.doc, h.diagnostics⟩
  unfold ExecutionPlanV1.parse
  rw [hmerged, hframes, hexecutions, hgraph]
  exact if_pos hchecks

theorem ExecutionPlanV1.parse_eq_none {doc : ExecutionPlanDocMeta} (hdoc : plan.doc = some doc)
    (h : doc.valid = false) : plan.parse a = none := by
  have hchecks : ¬ (plan.doc.all (·.valid) && plan.diagnostics.all (·.valid)) = true := by
    rw [hdoc, Option.all_some, h]
    simp
  unfold ExecutionPlanV1.parse
  cases a.record plan.context.merged with
  | none => rfl
  | some merged =>
    cases plan.context.frames.mapM a.record with
    | none => rfl
    | some frames =>
      cases plan.executions.mapM (ExecutionPlanStep.parse a) with
      | none => rfl
      | some executions =>
        cases plan.graph.mapM (ExecutionGraph.parse a) with
        | none => rfl
        | some graph => exact if_neg hchecks

theorem objects_mapObjects : (plan.mapObjects f).objects = plan.objects.map f := by
  have hinputs : (plan.mapObjects f).executions.filterMap (·.input) =
      (plan.executions.filterMap (·.input)).map f := by
    show (plan.executions.map _).filterMap _ = _
    rw [List.filterMap_map, List.map_filterMap]
    rfl
  have hpayloads :
      ((plan.mapObjects f).graph.map fun graph => graph.nodes.map (·.payload)).getD [] =
      ((plan.graph.map fun graph => graph.nodes.map (·.payload)).getD []).map f := by
    show ((plan.graph.map _).map _).getD [] = _
    cases plan.graph with
    | none => rfl
    | some graph =>
      show (graph.nodes.map _).map _ = (graph.nodes.map _).map f
      rw [List.map_map, List.map_map]
      rfl
  rw [ExecutionPlanV1.objects, hinputs, hpayloads, ExecutionPlanV1.objects, List.map_cons,
    List.map_append, List.map_append]
  rfl

theorem map_eq_self_iff {α : Type} {f : α → α} {xs : List α} :
    xs.map f = xs ↔ ∀ x ∈ xs, f x = x := by
  constructor
  · intro h x hx
    exact List.map_eq_map_iff.1 (h.trans (List.map_id xs).symm) x hx
  · intro h
    exact (List.map_congr_left h).trans (List.map_id xs)

/-- Mapping the objects leaves the plan as it is just if it leaves them. -/
theorem mapObjects_eq_self : plan.mapObjects f = plan ↔ ∀ o ∈ plan.objects, f o = o := by
  constructor
  · intro h
    have hobjects := @objects_mapObjects f plan
    rw [h] at hobjects
    exact map_eq_self_iff.1 hobjects.symm
  · intro h
    obtain ⟨doc, ⟨merged, frames⟩, executions, graph, expected, required, determinism,
      diagnostics⟩ := plan
    have hmerged : f merged = merged := h merged List.mem_cons_self
    have hframes : frames.map f = frames :=
      map_eq_self_iff.2 fun frame hframe => h frame (mem_objects_frame hframe)
    have hexecutions : executions.map (ExecutionPlanStep.mapObjects f) = executions := by
      refine map_eq_self_iff.2 fun step hstep => ?_
      cases hinput : step.input with
      | none =>
        rw [ExecutionPlanStep.mapObjects, hinput, Option.map_none, ← hinput]
      | some input =>
        rw [ExecutionPlanStep.mapObjects, hinput, Option.map_some,
          h input (mem_objects_input hstep hinput), ← hinput]
    have hgraph : graph.map (ExecutionGraph.mapObjects f) = graph := by
      cases hgraph : graph with
      | none => rfl
      | some g =>
        have hnodes : (g.nodes.map fun node => { node with payload := f node.payload }) =
            g.nodes := by
          refine map_eq_self_iff.2 fun node hnode => ?_
          rw [h node.payload (mem_objects_payload hgraph hnode)]
        rw [Option.map_some, ExecutionGraph.mapObjects, hnodes]
    rw [ExecutionPlanV1.mapObjects]
    dsimp only
    rw [hmerged, hframes, hexecutions, hgraph]

theorem ExecutionGraph.Fits.mapObjects (h : graph.Fits) :
    (graph.mapObjects f).Fits where
  ids := h.ids
  nodes := by
    intro node hnode
    obtain ⟨node, hmem, rfl⟩ := List.mem_map.1 hnode
    exact h.nodes node hmem
  edges := h.edges
  diagnostics := h.diagnostics

theorem ExecutionPlanV1.Fits.mapObjects (h : plan.Fits) : (plan.mapObjects f).Fits where
  doc := h.doc
  executions := by
    intro step hstep
    obtain ⟨step, hmem, rfl⟩ := List.mem_map.1 hstep
    exact h.executions step hmem
  graph := by
    intro graph hgraph
    obtain ⟨before, hbefore, rfl⟩ := Option.map_eq_some_iff.1 hgraph
    exact (h.graph before hbefore).mapObjects
  diagnostics := h.diagnostics

end Plan

end AionisCore.AionisDoc
