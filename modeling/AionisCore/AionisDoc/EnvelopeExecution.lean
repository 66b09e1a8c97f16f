import AionisCore.AionisDoc.Envelope

/-!
# Execution from an envelope

`EnvelopeFaithful` says that the compiler's envelope is made, and that executing from it is the
same as executing the compiled plan. `Survives` is the condition on the document under which it is.
-/

namespace AionisCore.AionisDoc

open Lib

/-! ## The condition -/

def JsNumber.IsFinite : JsNumber → Prop
  | .finite _ _ => True
  | .infinity _ => False

/-- JSON keeps the numbers of what the schema makes of the object. -/
def AionisObject.KeptByJson (o : AionisObject) : Prop := JsonSafeFields (flattenObject o).own

structure AionisDocIR.FiniteConfidences (ir : AionisDocIR) : Prop where
  decisions : ∀ d ∈ ir.decisions, ∀ n ∈ d.confidence, JsNumber.IsFinite n
  evidence : ∀ e ∈ ir.evidence, ∀ n ∈ e.confidence, JsNumber.IsFinite n

/-- The id and the version are those that the schemas of the emitted artifacts ask for. -/
structure AionisDocIR.Named (ir : AionisDocIR) (emit : EmitMode) : Prop where
  id : ∀ doc ∈ ir.doc, emit = .all ∨ emit = .graph ∨ emit = .plan → doc.id ≠ ""
  version : ∀ doc ∈ ir.doc, emit = .all ∨ emit = .plan → doc.version ≠ ""

/-- The plan is refused also when it is executed directly. -/
def AionisDocIR.Nameless (ir : AionisDocIR) : Prop := ∃ doc ∈ ir.doc, doc.id = "" ∨ doc.version = ""

/-- The plan rebuilt from the representation in JSON is the one that was compiled. -/
structure AionisDocIR.RebuildsPlan (ir : AionisDocIR) : Prop where
  noGraph : ir.doc = none
  frames : ∀ c ∈ ir.context, c.data.KeptByJson
  inputs : ∀ e ∈ ir.executions, ∀ o ∈ e.input, o.KeptByJson
  merged : flattenObject (mergeContextFrames (ir.context.map fun c => flattenObject c.data)) =
    flattenObject (mergeContextFrames (ir.context.map (·.data)))

def RunsTheSame (result : CompileResult) : EmitMode → Prop
  | .all => result.ir.FiniteConfidences ∧
    (result.plan.Idle ∨ ∀ o ∈ result.plan.objects, o.KeptByJson)
  | .plan => result.plan.Idle ∨ ∀ o ∈ result.plan.objects, o.KeptByJson
  | .ir => result.ir.Nameless ∨
    result.ir.FiniteConfidences ∧ (result.plan.Idle ∨ result.ir.RebuildsPlan)
  | _ => True

structure Survives (result : CompileResult) (inputPath : String) (emit : EmitMode) : Prop where
  inputPath : inputPath ≠ ""
  named : result.ir.Named emit
  runs : RunsTheSame result emit

/-! ## The claim -/

/-- Executing from the envelope comes out as executing the plan does, with every registry. -/
def ExecutesAs (envelope : AionisDocCompileEnvelope) (plan : ExecutionPlanV1) : Prop :=
  ∀ runtime executedAt, observed (executeCompileEnvelope runtime executedAt envelope) =
    observed (executeExecutionPlan runtime executedAt plan)

def EnvelopeFaithful (source inputPath : String) (emit : EmitMode) (generatedAt : IsoTime) : Prop :=
  ∃ envelope,
    buildCompileEnvelope inputPath emit (compileAionisDoc source) generatedAt = some envelope ∧
    (envelope.parse .inMemory).isSome = true ∧
    (emit = .all ∨ emit = .plan ∨ emit = .ir →
      ExecutesAs envelope (compileAionisDoc source).plan)

/-! ## Making the envelope -/

section Make

variable {result : CompileResult} {inputPath : String} {emit : EmitMode} {generatedAt : IsoTime}

/-- The graph and the plan are made of the representation. -/
structure Compiled (result : CompileResult) : Prop where
  well : result.WellFormed
  graph : result.graph = (buildExecutionGraph result.ir).1
  plan : result.plan = buildExecutionPlanV1 result.ir result.graph result.diagnostics

theorem compiled_compileAionisDoc (source : String) : Compiled (compileAionisDoc source) :=
  ⟨compileAionisDoc_wellFormed source, rfl, rfl⟩

theorem numbersArrive_inMemory (ir : AionisDocIR) : ir.NumbersArrive .inMemory :=
  ⟨fun _ _ _ _ => rfl, fun _ _ _ _ => rfl⟩

/-- The graph passes its schema where the document has an id. -/
theorem Compiled.graph_fits (hc : Compiled result) (hid : ∀ doc ∈ result.ir.doc, doc.id ≠ "") :
    ∀ graph ∈ result.graph,
      graph.Fits ∧ ∀ node ∈ graph.nodes, node.payload.CleanObject := by
  intro graph hgraph
  have hmade : (buildExecutionGraph result.ir).1 = some graph := hc.graph.symm.trans hgraph
  refine buildExecutionGraph_fits hc.well.ir hmade ?_
  unfold buildExecutionGraph at hmade
  split at hmade
  · cases hmade
  · next doc hdoc =>
    rw [← Option.some.inj hmade]
    exact hid doc hdoc

theorem Compiled.plan_fits (hc : Compiled result)
    (hnamed : ∀ doc ∈ result.ir.doc, doc.id ≠ "" ∧ doc.version ≠ "") :
    result.plan.Fits ∧
      ∀ o ∈ result.plan.objects, o.CleanObject := by
  have hwell := hc.well
  have hgraph := hc.graph_fits fun doc hdoc => (hnamed doc hdoc).1
  rw [hc.plan]
  exact ⟨buildExecutionPlan_fits hwell.ir.holds (fun g hg => (hgraph g hg).1) hwell.diagnostics
    hnamed, buildExecutionPlan_clean hwell.ir.holds fun g hg => (hgraph g hg).2⟩

theorem forall_mem_none {α : Type} (P : α → Prop) : ∀ x ∈ (none : Option α), P x :=
  fun _ h => nomatch h

theorem Compiled.artifacts_hold (hc : Compiled result) (hnamed : result.ir.Named emit) :
    (selectArtifacts result emit).Holds Clean AionisObject.CleanObject := by
  have hwell := hc.well
  have hast : ∀ ast ∈ some result.ast, ast.Holds Clean := by
    rintro ast ⟨⟩
    exact ⟨fun node hnode => (hwell.nodes node hnode).holds, hwell.astDiagnostics, hwell.loc⟩
  have hir : ∀ ir ∈ some result.ir, ir.Holds Clean AionisObject.CleanObject := by
    rintro ir ⟨⟩
    exact hwell.ir.holds
  have hgraph := fun hemit : emit = .all ∨ emit = .graph ∨ emit = .plan =>
    hc.graph_fits fun doc hdoc => hnamed.id doc hdoc hemit
  have hplan : emit = .all ∨ emit = .plan → ∀ plan ∈ some result.plan,
      plan.Fits ∧ ∀ o ∈ plan.objects, o.CleanObject := by
    rintro hemit plan ⟨⟩
    exact hc.plan_fits fun doc hdoc =>
      ⟨hnamed.id doc hdoc (hemit.imp_right .inr), hnamed.version doc hdoc hemit⟩
  cases emit with
  | all => exact ⟨hast, hir, hgraph (.inl rfl), hplan (.inl rfl)⟩
  | ast => exact ⟨hast, forall_mem_none _, forall_mem_none _, forall_mem_none _⟩
  | ir => exact ⟨forall_mem_none _, hir, forall_mem_none _, forall_mem_none _⟩
  | graph =>
    exact ⟨forall_mem_none _, forall_mem_none _, hgraph (.inr (.inl rfl)), forall_mem_none _⟩
  | plan => exact ⟨forall_mem_none _, forall_mem_none _, forall_mem_none _, hplan (.inr rfl)⟩
  | diagnostics =>
    exact ⟨forall_mem_none _, forall_mem_none _, forall_mem_none _, forall_mem_none _⟩

/-- What the envelope of a compilation is made of. -/
structure Wraps (result : CompileResult) (emit : EmitMode) (envelope : AionisDocCompileEnvelope) :
    Prop where
  generatedAt : envelope.generatedAt ≠ ""
  inputPath : envelope.inputPath ≠ ""
  diagnostics : envelope.diagnostics = result.diagnostics
  valid : ∀ d ∈ envelope.diagnostics, d.valid = true
  plain : envelope.artifacts.Holds PlainValue AionisObject.PlainObject
  ir : envelope.artifacts.ir =
    (selectArtifacts result emit).ir.map (AionisDocIR.taken .inMemory)
  graph : envelope.artifacts.graph =
    (selectArtifacts result emit).graph.map (ExecutionGraph.mapObjects flattenObject)
  plan : envelope.artifacts.plan =
    (selectArtifacts result emit).plan.map (ExecutionPlanV1.mapObjects flattenObject)

theorem envelope_checks {envelope : AionisDocCompileEnvelope} (hat : envelope.generatedAt ≠ "")
    (hpath : envelope.inputPath ≠ "") (hvalid : ∀ d ∈ envelope.diagnostics, d.valid = true) :
    (envelope.generatedAt ≠ "" && envelope.inputPath ≠ "" &&
      envelope.diagnostics.all (·.valid)) = true := by
  simp only [Bool.and_eq_true, decide_eq_true_eq, List.all_eq_true]
  exact ⟨⟨hat, hpath⟩, hvalid⟩

theorem Compiled.wraps (hc : Compiled result) (hpath : inputPath ≠ "")
    (hnamed : result.ir.Named emit) :
    ∃ envelope,
      buildCompileEnvelope inputPath emit result generatedAt = some envelope ∧
      Wraps result emit envelope := by
  have hvalid := hc.well.diagnostics
  obtain ⟨taken, htaken, hplain, hir, hgraph, hplan⟩ :=
    (hc.artifacts_hold hnamed).parse Arrival.inMemory_takes fun ir _ => numbersArrive_inMemory ir
  refine ⟨{
    generatedAt := generatedAt.1
    inputPath
    selectedArtifact := emit
    diagnostics := result.diagnostics
    summary := summarizeCompileResult result
    artifacts := taken }, ?_, generatedAt.2, hpath, rfl, hvalid, hplain, hir, hgraph, hplan⟩
  rw [buildCompileEnvelope, AionisDocCompileEnvelope.parse,
    if_pos (envelope_checks generatedAt.2 hpath hvalid), htaken]
  rfl

theorem Compiled.doc_named_of_plan (hc : Compiled result)
    (h : (result.plan.parse .inMemory).isSome = true)
    {doc : DocMetaIR} (hdoc : result.ir.doc = some doc) :
    doc.id ≠ "" ∧ doc.version ≠ "" := by
  obtain ⟨described, hdescribed, hvalid⟩ : ∃ described,
      result.plan.doc = some described ∧
        described.valid = (doc.id ≠ "" && doc.version ≠ "") :=
    ⟨_, by rw [hc.plan]; exact congrArg (Option.map _) hdoc, rfl⟩
  cases hcheck : described.valid with
  | true =>
    rw [hcheck] at hvalid
    have hboth := Bool.and_eq_true_iff.1 hvalid.symm
    exact ⟨of_decide_eq_true hboth.1, of_decide_eq_true hboth.2⟩
  | false =>
    rw [ExecutionPlanV1.parse_eq_none hdescribed hcheck] at h
    cases h

theorem Compiled.doc_named_of_graph (hc : Compiled result)
    (h : ∀ graph ∈ result.graph, (graph.parse .inMemory).isSome = true)
    {doc : DocMetaIR} (hdoc : result.ir.doc = some doc) : doc.id ≠ "" := by
  obtain ⟨graph, hgraph, hid⟩ : ∃ graph, result.graph = some graph ∧
      graph.docId = doc.id := by
    rw [hc.graph]
    unfold buildExecutionGraph
    rw [hdoc]
    exact ⟨_, rfl, rfl⟩
  have haccepted := h graph hgraph
  unfold ExecutionGraph.parse at haccepted
  split at haccepted
  · next hchecks =>
    simp only [Bool.and_eq_true, decide_eq_true_eq] at hchecks
    exact hid ▸ hchecks.1.1.2
  · cases haccepted

theorem Compiled.named (hc : Compiled result) {envelope : AionisDocCompileEnvelope}
    (h : buildCompileEnvelope inputPath emit result generatedAt =
      some envelope) : inputPath ≠ "" ∧ result.ir.Named emit := by
  unfold buildCompileEnvelope AionisDocCompileEnvelope.parse at h
  split at h
  · next hchecks =>
    simp only [Bool.and_eq_true, decide_eq_true_eq] at hchecks
    obtain ⟨taken, htaken, -⟩ := Option.map_eq_some_iff.1 h
    obtain ⟨-, hgraph, hplan⟩ := CompileArtifacts.parse_isSome
      (show ((selectArtifacts result emit).parse .inMemory).isSome = true by
        rw [htaken]; rfl)
    refine ⟨hchecks.1.2, fun doc hdoc hemit => ?_, fun doc hdoc hemit => ?_⟩
    · obtain rfl | rfl | rfl := hemit
      · exact hc.doc_named_of_graph hgraph hdoc
      · exact hc.doc_named_of_graph hgraph hdoc
      · exact (hc.doc_named_of_plan (hplan _ rfl) hdoc).1
    · obtain rfl | rfl := hemit
      · exact (hc.doc_named_of_plan (hplan _ rfl) hdoc).2
      · exact (hc.doc_named_of_plan (hplan _ rfl) hdoc).2
  · cases h

end Make

/-! ## Reading it back -/

section ReadBack

variable {result : CompileResult} {emit : EmitMode} {envelope : AionisDocCompileEnvelope}
  {runtime : ModuleRegistryExecutionRuntime} {executedAt : String} {plan : ExecutionPlanV1}
  {ir : AionisDocIR} {o : AionisObject}

theorem number_fromJson (n : JsNumber) :
    (Arrival.fromJson.number n).isSome = true ↔ JsNumber.IsFinite n := by
  cases n with
  | finite d h =>
    refine iff_of_true ?_ trivial
    unfold Arrival.fromJson
    dsimp only
    rw [jsonValue]
    by_cases hzero : d.digits = 0
    · rw [if_pos hzero]
      rfl
    · rw [if_neg hzero]
      rfl
  | infinity negative => exact iff_of_false Bool.false_ne_true id

theorem numbersArrive_fromJson :
    (ir.taken .inMemory).NumbersArrive .fromJson ↔ ir.FiniteConfidences := by
  have htaken : ∀ confidence : Option JsNumber,
      confidence.map Arrival.inMemory.takeNumber = confidence := fun confidence => by
    cases confidence with
    | none => rfl
    | some n => rfl
  constructor
  · rintro ⟨hdecisions, hevidence⟩
    refine ⟨fun d hd n hn => ?_, fun e he n hn => ?_⟩
    · exact (number_fromJson n).1
        (hdecisions _ (List.mem_map_of_mem hd) n ((htaken d.confidence).symm ▸ hn))
    · exact (number_fromJson n).1
        (hevidence _ (List.mem_map_of_mem he) n ((htaken e.confidence).symm ▸ hn))
  · rintro ⟨hdecisions, hevidence⟩
    refine ⟨fun d hd n hn => ?_, fun e he n hn => ?_⟩
    · obtain ⟨before, hbefore, rfl⟩ := List.mem_map.1 hd
      exact (number_fromJson n).2 (hdecisions before hbefore n (htaken before.confidence ▸ hn))
    · obtain ⟨before, hbefore, rfl⟩ := List.mem_map.1 he
      exact (number_fromJson n).2 (hevidence before hbefore n (htaken before.confidence ▸ hn))

/-- An object that went through the envelope is still what the schema made of it at first. -/
theorem takeRecord_eq_self (h : o.CleanObject) :
    Arrival.fromJson.takeRecord (flattenObject o) = flattenObject o ↔ o.KeptByJson := by
  have hplain := flattenObject_plain h
  rw [Arrival.takeRecord, fromJson_record hplain]
  exact jsonObject_eq_self hplain

theorem executeExecutionPlan_eq (hfits : plan.Fits) (hclean : ∀ o ∈ plan.objects, o.CleanObject) :
    executeExecutionPlan runtime executedAt plan =
      execute runtime (plan.mapObjects flattenObject) executedAt := by
  have hparsed : plan.parse .inMemory = some (plan.mapObjects flattenObject) :=
    hfits.parse fun o ho => parseRecord_eq_flatten (hclean o ho)
  rw [executeExecutionPlan, hparsed]

/-- A plan of plain objects is executed as it is. -/
theorem executeExecutionPlan_plain (hfits : plan.Fits)
    (hplain : ∀ o ∈ plan.objects, o.PlainObject) :
    executeExecutionPlan runtime executedAt plan = execute runtime plan executedAt := by
  rw [executeExecutionPlan_eq hfits fun o ho => (hplain o ho).clean,
    mapObjects_eq_self.2 fun o ho => flattenObject_eq_self (hplain o ho)]

theorem executeExecutionPlan_nameless (h : result.ir.Nameless)
    (hplan : plan.doc = (buildExecutionPlanV1 result.ir none []).doc) :
    observed (executeExecutionPlan runtime executedAt plan) = none := by
  obtain ⟨doc, hdoc, hempty⟩ := h
  have hdescribed : plan.doc = some ⟨doc.id, doc.version, doc.kind, doc.title, doc.status,
      doc.tags⟩ := hplan.trans (congrArg (Option.map _) hdoc)
  have hrefused : plan.parse .inMemory = none := by
    refine ExecutionPlanV1.parse_eq_none hdescribed (Bool.and_eq_false_iff.2 ?_)
    exact hempty.imp (fun h => decide_eq_false (not_not.2 h)) fun h =>
      decide_eq_false (not_not.2 h)
  rw [executeExecutionPlan, hrefused]
  rfl

section

variable (h : Wraps result emit envelope)

include h

theorem Wraps.parse (hnumbers : ∀ ir ∈ envelope.artifacts.ir, ir.NumbersArrive .fromJson) :
    ∃ taken, envelope.parse .fromJson = some { envelope with artifacts := taken } ∧
      taken.Holds PlainValue AionisObject.PlainObject ∧
      taken.ir = envelope.artifacts.ir.map (AionisDocIR.taken .fromJson) ∧
      taken.graph =
        envelope.artifacts.graph.map (ExecutionGraph.mapObjects Arrival.fromJson.takeRecord) ∧
      taken.plan =
        envelope.artifacts.plan.map (ExecutionPlanV1.mapObjects Arrival.fromJson.takeRecord) := by
  obtain ⟨taken, htaken, hrest⟩ := h.plain.parse Arrival.fromJson_takes hnumbers
  refine ⟨taken, ?_, hrest⟩
  rw [AionisDocCompileEnvelope.parse, if_pos (envelope_checks h.generatedAt h.inputPath h.valid),
    htaken]
  rfl

theorem Wraps.accepted : (envelope.parse .inMemory).isSome = true := by
  obtain ⟨taken, htaken, -⟩ :=
    h.plain.parse Arrival.inMemory_takes_plain fun ir _ => numbersArrive_inMemory ir
  rw [AionisDocCompileEnvelope.parse, if_pos (envelope_checks h.generatedAt h.inputPath h.valid),
    htaken]
  rfl

theorem planFromEnvelope_of_plan
    (hnumbers : ∀ ir ∈ envelope.artifacts.ir, ir.NumbersArrive .fromJson)
    (hplan : envelope.artifacts.plan = some plan) :
    planFromEnvelope envelope = .ok (plan.mapObjects Arrival.fromJson.takeRecord) := by
  obtain ⟨taken, htaken, -, -, -, hreturned⟩ := h.parse hnumbers
  rw [hplan] at hreturned
  rw [planFromEnvelope, htaken]
  dsimp only
  rw [hreturned]
  rfl

theorem planFromEnvelope_of_ir
    (hplan : envelope.artifacts.plan = none) (hgraph : envelope.artifacts.graph = none)
    (hir : envelope.artifacts.ir = some ir) (hnumbers : ir.NumbersArrive .fromJson) :
    planFromEnvelope envelope =
      .ok (buildExecutionPlanV1 (ir.taken .fromJson) none result.diagnostics) := by
  obtain ⟨taken, htaken, -, htakenIr, htakenGraph, htakenPlan⟩ := h.parse fun other hother => by
    obtain rfl := Option.some.inj (hir.symm.trans hother)
    exact hnumbers
  rw [hplan] at htakenPlan
  rw [hir] at htakenIr
  rw [hgraph] at htakenGraph
  rw [planFromEnvelope, htaken]
  dsimp only
  rw [htakenPlan, htakenIr, htakenGraph, h.diagnostics]
  rfl

end

theorem planFromEnvelope_error (hir : envelope.artifacts.ir = some ir)
    (h : ¬ ir.NumbersArrive .fromJson) : ∃ message, planFromEnvelope envelope = .error message := by
  have hrefused : envelope.artifacts.parse .fromJson = none := by
    by_contra hsome
    have hparsed := (CompileArtifacts.parse_isSome (Option.isSome_iff_ne_none.2 hsome)).1 ir hir
    rw [AionisDocIR.parse_eq_none h] at hparsed
    cases hparsed
  have hnone : envelope.parse .fromJson = none := by
    rw [AionisDocCompileEnvelope.parse, hrefused]
    exact ite_self _
  rw [planFromEnvelope, hnone]
  exact ⟨_, rfl⟩

end ReadBack

/-! ## Rebuilding the plan -/

section Rebuild

variable {a : Arrival} {ir : AionisDocIR} {graph : Option ExecutionGraph}
  {diagnostics : List Diagnostic}

theorem collectExpectedOutputs_taken :
    collectExpectedOutputs (ir.taken a) = collectExpectedOutputs ir := by
  unfold collectExpectedOutputs AionisDocIR.taken
  dsimp only
  rw [List.flatMap_map, List.filterMap_map]
  rfl

theorem collectRequiredCapabilities_taken :
    collectRequiredCapabilities (ir.taken a) = collectRequiredCapabilities ir := by
  unfold collectRequiredCapabilities AionisDocIR.taken
  dsimp only
  rw [List.flatMap_map, List.any_map, List.length_map]
  rfl

theorem buildDeterminism_taken : buildDeterminism (ir.taken a) = buildDeterminism ir := by
  unfold buildDeterminism AionisDocIR.taken
  dsimp only
  rw [List.any_map, List.length_map, List.head?_map]
  cases ir.replay with
  | nil => rfl
  | cons r rs => rfl

theorem ExecutionPlanStep.mapObjects_mapObjects {f g : AionisObject → AionisObject}
    (step : ExecutionPlanStep) :
    (step.mapObjects f).mapObjects g = step.mapObjects fun o => g (f o) := by
  rw [ExecutionPlanStep.mapObjects, ExecutionPlanStep.mapObjects, ExecutionPlanStep.mapObjects,
    Option.map_map]
  rfl

/-- A plan differs after the way through the schemas in its context and its inputs only. -/
theorem buildExecutionPlan_taken : buildExecutionPlanV1 (ir.taken a) graph diagnostics =
    { buildExecutionPlanV1 ir graph diagnostics with
      context := {
        merged := mergeContextFrames (ir.context.map fun c => a.takeRecord c.data)
        frames := ir.context.map fun c => a.takeRecord c.data }
      executions := (buildExecutionPlanV1 ir graph diagnostics).executions.map
        (ExecutionPlanStep.mapObjects a.takeRecord) } := by
  have hdoc : (buildExecutionPlanV1 (ir.taken a) graph diagnostics).doc =
      (buildExecutionPlanV1 ir graph diagnostics).doc := by
    show (ir.doc.map _).map _ = ir.doc.map _
    rw [Option.map_map]
    rfl
  have hframes : (ir.taken a).context.map (·.data) =
      ir.context.map fun c => a.takeRecord c.data := by
    show (ir.context.map _).map _ = _
    rw [List.map_map]
    rfl
  have hexecutions : (buildExecutionPlanV1 (ir.taken a) graph diagnostics).executions =
      (buildExecutionPlanV1 ir graph diagnostics).executions.map
        (ExecutionPlanStep.mapObjects a.takeRecord) := by
    show (ir.executions.map _).mapIdx _ = (ir.executions.mapIdx _).map _
    refine List.ext_getElem? fun i => ?_
    rw [List.getElem?_mapIdx, List.getElem?_map, List.getElem?_map, List.getElem?_mapIdx,
      Option.map_map, Option.map_map]
    rfl
  rw [ExecutionPlanV1.mk.injEq]
  have hcontext : (buildExecutionPlanV1 (ir.taken a) graph diagnostics).context =
      ⟨mergeContextFrames (ir.context.map fun c => a.takeRecord c.data),
        ir.context.map fun c => a.takeRecord c.data⟩ := by
    rw [← hframes]
    rfl
  exact ⟨hdoc, hcontext, hexecutions, rfl, collectExpectedOutputs_taken,
    collectRequiredCapabilities_taken, buildDeterminism_taken, rfl⟩

theorem AionisDocIR.Holds.clean (h : ir.Holds PlainValue AionisObject.PlainObject) :
    ir.Holds Clean AionisObject.CleanObject where
  doc := fun d hd => ⟨(h.doc d hd).1.clean, (h.doc d hd).2⟩
  context := fun c hc => ⟨(h.context c hc).1.clean, (h.context c hc).2⟩
  plans := fun p hp => ⟨(h.plans p hp).1.clean, (h.plans p hp).2⟩
  executions := fun e he => ⟨⟨(h.executions e he).1.1.clean, (h.executions e he).1.2⟩,
    fun o ho => ((h.executions e he).2 o ho).clean⟩
  decisions := fun d hd => ⟨(h.decisions d hd).1.clean, (h.decisions d hd).2⟩
  evidence := fun e he => ⟨⟨(h.evidence e he).1.1.clean, (h.evidence e he).1.2⟩,
    fun vs hvs v hv => PlainValue.clean v ((h.evidence e he).2 vs hvs v hv)⟩
  replay := fun r hr => ⟨(h.replay r hr).1.clean, (h.replay r hr).2⟩
  memory := fun m hm => ⟨(h.memory m hm).1.clean, (h.memory m hm).2⟩
  state := fun s hs => ⟨(h.state s hs).1.clean, (h.state s hs).2⟩
  diagnostics := h.diagnostics

/-- The representation as it is read back from the envelope. -/
def AionisDocIR.returned (ir : AionisDocIR) : AionisDocIR := (ir.taken .inMemory).taken .fromJson

/-- What an object of the document has become in the rebuilt plan. -/
def returnedObject (o : AionisObject) : AionisObject :=
  flattenObject (Arrival.fromJson.takeRecord (flattenObject o))

theorem returnedObject_eq {o : AionisObject} (h : o.CleanObject) :
    returnedObject o = Arrival.fromJson.takeRecord (flattenObject o) := by
  have hplain := flattenObject_plain h
  rw [returnedObject]
  exact flattenObject_eq_self (Arrival.fromJson_takes.record _ hplain).2

theorem returnedObject_eq_flatten {o : AionisObject} (h : o.CleanObject) :
    returnedObject o = flattenObject o ↔ o.KeptByJson := by
  rw [returnedObject_eq h]
  exact takeRecord_eq_self h

/-- The context and the inputs of the plan are all that the way through the envelope changes. -/
theorem returned_plan :
    (buildExecutionPlanV1 ir.returned graph diagnostics).mapObjects flattenObject =
      { (buildExecutionPlanV1 ir graph diagnostics).mapObjects flattenObject with
        context := {
          merged := flattenObject (mergeContextFrames (ir.context.map fun c =>
            Arrival.fromJson.takeRecord (flattenObject c.data)))
          frames := ir.context.map fun c => returnedObject c.data }
        executions :=
          ((buildExecutionPlanV1 ir graph diagnostics).mapObjects flattenObject).executions.map
            (ExecutionPlanStep.mapObjects fun o =>
              flattenObject (Arrival.fromJson.takeRecord o)) } := by
  have hframes : (ir.taken .inMemory).context.map (fun c => Arrival.fromJson.takeRecord c.data) =
      ir.context.map fun c => Arrival.fromJson.takeRecord (flattenObject c.data) := by
    show (ir.context.map _).map _ = _
    rw [List.map_map]
    rfl
  have hexecutions : (((buildExecutionPlanV1 ir graph diagnostics).executions.map
      (ExecutionPlanStep.mapObjects flattenObject)).map
        (ExecutionPlanStep.mapObjects Arrival.fromJson.takeRecord)).map
          (ExecutionPlanStep.mapObjects flattenObject) =
      ((buildExecutionPlanV1 ir graph diagnostics).executions.map
        (ExecutionPlanStep.mapObjects flattenObject)).map (ExecutionPlanStep.mapObjects fun o =>
          flattenObject (Arrival.fromJson.takeRecord o)) := by
    rw [List.map_map]
    exact List.map_congr_left fun step _ => ExecutionPlanStep.mapObjects_mapObjects step
  rw [AionisDocIR.returned, buildExecutionPlan_taken, hframes, buildExecutionPlan_taken,
    ExecutionPlanV1.mk.injEq]
  exact ⟨rfl, congrArg (ExecutionPlanContext.mk _) List.map_map, hexecutions, rfl, rfl, rfl, rfl,
    rfl⟩

/-- The steps keep their inputs just if JSON does. -/
theorem executions_kept_iff (h : ir.WellFormed) {steps : List ExecutionPlanStep}
    (hsteps : steps = ((buildExecutionPlanV1 ir graph diagnostics).mapObjects
      flattenObject).executions) :
    steps.map (ExecutionPlanStep.mapObjects fun o =>
      flattenObject (Arrival.fromJson.takeRecord o)) = steps ↔
      ∀ e ∈ ir.executions, ∀ o ∈ e.input, o.KeptByJson := by
  have hmem : ∀ step, step ∈ steps ↔ ∃ i, ∃ hi : i < ir.executions.length,
      (buildExecutionStep ir.executions[i] i).mapObjects flattenObject = step := by
    intro step
    rw [hsteps]
    show step ∈ (ir.executions.mapIdx _).map _ ↔ _
    rw [List.mem_map]
    constructor
    · rintro ⟨before, hbefore, rfl⟩
      obtain ⟨i, hi, rfl⟩ := List.mem_mapIdx.1 hbefore
      exact ⟨i, hi, rfl⟩
    · rintro ⟨i, hi, rfl⟩
      exact ⟨_, List.mem_mapIdx.2 ⟨i, hi, rfl⟩, rfl⟩
  rw [map_eq_self_iff]
  constructor
  · intro hkept e he o ho
    obtain ⟨i, hi, rfl⟩ := List.getElem_of_mem he
    have hinput := congrArg ExecutionPlanStep.input (hkept _ ((hmem _).2 ⟨i, hi, rfl⟩))
    have hsame : (ir.executions[i].input.map flattenObject).map (fun o =>
        flattenObject (Arrival.fromJson.takeRecord o)) =
        ir.executions[i].input.map flattenObject := hinput
    rw [show ir.executions[i].input = some o from ho] at hsame
    exact (returnedObject_eq_flatten ((h.executions _ he).2 o ho)).1 (Option.some.inj hsame)
  · intro hkept step hstep
    obtain ⟨i, hi, rfl⟩ := (hmem step).1 hstep
    have he := List.getElem_mem hi
    rw [ExecutionPlanStep.mapObjects_mapObjects, ExecutionPlanStep.mapObjects,
      ExecutionPlanStep.mapObjects]
    cases hinput : ir.executions[i].input with
    | none =>
      rw [show (buildExecutionStep ir.executions[i] i).input = none from hinput]
      rfl
    | some o =>
      rw [show (buildExecutionStep ir.executions[i] i).input = some o from hinput]
      rw [Option.map_some, Option.map_some, ← returnedObject,
        (returnedObject_eq_flatten ((h.executions _ he).2 o hinput)).2 (hkept _ he o hinput)]

/-- The rebuilt plan is the compiled one just if the condition holds. -/
theorem rebuilt_eq_iff (h : ir.WellFormed) :
    (buildExecutionPlanV1 ir.returned none diagnostics).mapObjects flattenObject =
      (buildExecutionPlanV1 ir (buildExecutionGraph ir).1 diagnostics).mapObjects flattenObject ↔
      ir.RebuildsPlan := by
  have hclean : ∀ c ∈ ir.context, c.data.CleanObject := fun c hc => (h.context c hc).1
  have hframes : (ir.context.map fun c => returnedObject c.data) =
      (ir.context.map (·.data)).map flattenObject ↔ ∀ c ∈ ir.context, c.data.KeptByJson := by
    rw [List.map_map, List.map_inj_left]
    exact forall₂_congr fun c hc => returnedObject_eq_flatten (hclean c hc)
  have hmerge : (∀ c ∈ ir.context, c.data.KeptByJson) →
      (ir.context.map fun c => Arrival.fromJson.takeRecord (flattenObject c.data)) =
        ir.context.map fun c => flattenObject c.data :=
    fun hkept => List.map_congr_left fun c hc => (takeRecord_eq_self (hclean c hc)).2 (hkept c hc)
  have hsteps := @executions_kept_iff ir (buildExecutionGraph ir).1 diagnostics h _ rfl
  have hreturned := @returned_plan ir none diagnostics
  constructor
  · intro heq
    have hgraph : none = (buildExecutionGraph ir).1.map (ExecutionGraph.mapObjects flattenObject) :=
      congrArg ExecutionPlanV1.graph heq
    rw [hreturned] at heq
    have hcontext := congrArg ExecutionPlanV1.context heq
    have hexecutions := congrArg ExecutionPlanV1.executions heq
    have hkept := hframes.1 (congrArg ExecutionPlanContext.frames hcontext)
    refine ⟨buildExecutionGraph_eq_none.1 (Option.map_eq_none_iff.1 hgraph.symm), hkept,
      hsteps.1 hexecutions, ?_⟩
    rw [← hmerge hkept]
    exact congrArg ExecutionPlanContext.merged hcontext
  · intro hrebuilds
    have hgraph : (buildExecutionGraph ir).1 = none :=
      buildExecutionGraph_eq_none.2 hrebuilds.noGraph
    have hexecutions := hsteps.2 hrebuilds.inputs
    rw [hgraph] at hexecutions ⊢
    rw [hreturned, hmerge hrebuilds.frames, hframes.2 hrebuilds.frames, hrebuilds.merged,
      hexecutions]
    rfl

end Rebuild

/-! ## Executing -/

section Executing

variable {result : CompileResult} {emit : EmitMode}
  {envelope : AionisDocCompileEnvelope} {plan : ExecutionPlanV1}

theorem mapObjects_idle {f : AionisObject → AionisObject} :
    (plan.mapObjects f).Idle ↔ plan.Idle := by
  constructor
  · intro h step hstep
    exact h (step.mapObjects f) (List.mem_map_of_mem hstep)
  · intro h step hstep
    obtain ⟨before, hbefore, rfl⟩ := List.mem_map.1 hstep
    exact h before hbefore

/-- A registry whose handlers tell plans apart rejects none. -/
theorem observed_telling (known plan : ExecutionPlanV1) (executedAt : String) :
    (observed (execute (tellingRuntime known) plan executedAt)).isSome = true := by
  obtain ⟨s, hs, -⟩ := @runSteps_telling known plan 0 {} plan.executions
  rw [observed_execute, hs]
  rfl

/-- An envelope that is refused does not execute as a plan that the schema accepts. -/
theorem not_executesAs_of_error {message : String} (h : planFromEnvelope envelope = .error message)
    (hfits : plan.Fits) (hclean : ∀ o ∈ plan.objects, o.CleanObject) :
    ¬ ExecutesAs envelope plan := by
  intro hexecutes
  have hsame := hexecutes (tellingRuntime plan) ""
  rw [executeExecutionPlan_eq hfits hclean, executeCompileEnvelope, h] at hsame
  have hsome := observed_telling plan (plan.mapObjects flattenObject) ""
  rw [← hsame] at hsome
  cases hsome

theorem executesAs_plan_iff (h : Wraps result emit envelope)
    (hnumbers : ∀ ir ∈ envelope.artifacts.ir, ir.NumbersArrive .fromJson)
    (hplan : envelope.artifacts.plan = some (plan.mapObjects flattenObject))
    (hfits : plan.Fits) (hclean : ∀ o ∈ plan.objects, o.CleanObject) :
    ExecutesAs envelope plan ↔ plan.Idle ∨ ∀ o ∈ plan.objects, o.KeptByJson := by
  have hread := planFromEnvelope_of_plan h hnumbers hplan
  have hplain : ∀ o ∈ ((plan.mapObjects flattenObject).mapObjects
      Arrival.fromJson.takeRecord).objects, o.PlainObject := by
    intro o ho
    rw [objects_mapObjects, objects_mapObjects] at ho
    obtain ⟨flat, hflat, rfl⟩ := List.mem_map.1 ho
    obtain ⟨before, hbefore, rfl⟩ := List.mem_map.1 hflat
    exact (Arrival.fromJson_takes.record _ (flattenObject_plain (hclean before hbefore))).2
  have hexecutes : ExecutesAs envelope plan ↔ ∀ runtime executedAt,
      observed (execute runtime ((plan.mapObjects flattenObject).mapObjects
        Arrival.fromJson.takeRecord) executedAt) =
      observed (execute runtime (plan.mapObjects flattenObject) executedAt) := by
    refine forall₂_congr fun runtime executedAt => ?_
    rw [executeExecutionPlan_eq hfits hclean, executeCompileEnvelope, hread, Except.bind,
      executeExecutionPlan_plain hfits.mapObjects.mapObjects hplain]
  rw [hexecutes, observed_eq_iff rfl, mapObjects_idle, or_comm]
  refine or_congr_right ?_
  rw [mapObjects_eq_self, objects_mapObjects]
  constructor
  · intro hkept o ho
    exact (takeRecord_eq_self (hclean o ho)).1 (hkept _ (List.mem_map_of_mem ho))
  · intro hkept o ho
    obtain ⟨before, hbefore, rfl⟩ := List.mem_map.1 ho
    exact (takeRecord_eq_self (hclean before hbefore)).2 (hkept before hbefore)

/-- With no plan in the envelope it is rebuilt from the representation. -/
theorem executesAs_ir_iff (hc : Compiled result) (h : Wraps result .ir envelope) :
    ExecutesAs envelope result.plan ↔
      RunsTheSame result .ir := by
  have hwell := hc.well
  have hdoc : (buildExecutionPlanV1 result.ir.returned none
      result.diagnostics).doc =
        (buildExecutionPlanV1 result.ir none []).doc := by
    rw [AionisDocIR.returned, buildExecutionPlan_taken, buildExecutionPlan_taken]
    rfl
  have hread := fun hnumbers => planFromEnvelope_of_ir h h.plan h.graph h.ir hnumbers
  by_cases hnameless : result.ir.Nameless
  · refine iff_of_true (fun runtime executedAt => ?_) (.inl hnameless)
    have hdirect : observed (executeExecutionPlan runtime executedAt result.plan) = none :=
      executeExecutionPlan_nameless hnameless (by rw [hc.plan]; rfl)
    rw [hdirect, executeCompileEnvelope]
    by_cases hnumbers : (result.ir.taken .inMemory).NumbersArrive .fromJson
    · rw [hread hnumbers]
      exact executeExecutionPlan_nameless hnameless hdoc
    · obtain ⟨message, hmessage⟩ := planFromEnvelope_error h.ir hnumbers
      rw [hmessage]
      rfl
  · have hnamed : ∀ doc ∈ result.ir.doc, doc.id ≠ "" ∧ doc.version ≠ "" :=
      fun doc hmem => not_or.1 fun hempty => hnameless ⟨doc, hmem, hempty⟩
    obtain ⟨hfits, hclean⟩ := hc.plan_fits hnamed
    by_cases hnumbers : (result.ir.taken .inMemory).NumbersArrive .fromJson
    · have hreturned : result.ir.returned.Holds Clean
          AionisObject.CleanObject :=
        ((hwell.ir.holds.taken Arrival.inMemory_takes).taken Arrival.fromJson_takes).clean
      have hreturnedDoc : ∀ doc ∈ result.ir.returned.doc,
          doc.id ≠ "" ∧ doc.version ≠ "" := by
        intro doc hmem
        obtain ⟨taken, htaken, rfl⟩ := Option.map_eq_some_iff.1 hmem
        obtain ⟨before, hbefore, rfl⟩ := Option.map_eq_some_iff.1 htaken
        exact hnamed before hbefore
      have hreturnedFits : (buildExecutionPlanV1 result.ir.returned none result.diagnostics).Fits :=
        buildExecutionPlan_fits hreturned nofun hwell.diagnostics hreturnedDoc
      have hreturnedClean :
          ∀ o ∈ (buildExecutionPlanV1 result.ir.returned none result.diagnostics).objects,
            o.CleanObject :=
        buildExecutionPlan_clean hreturned nofun
      have hexecutes : ExecutesAs envelope result.plan ↔
          ∀ runtime executedAt,
            observed (execute runtime ((buildExecutionPlanV1 result.ir.returned
              none result.diagnostics).mapObjects flattenObject) executedAt) =
            observed (execute runtime
              (result.plan.mapObjects flattenObject) executedAt) := by
        have hread := hread hnumbers
        rw [← AionisDocIR.returned] at hread
        refine forall₂_congr fun runtime executedAt => ?_
        rw [executeExecutionPlan_eq hfits hclean, executeCompileEnvelope, hread, Except.bind,
          executeExecutionPlan_eq hreturnedFits hreturnedClean]
      have hfinite := numbersArrive_fromJson.1 hnumbers
      have hsteps := congrArg ExecutionPlanV1.executions (@returned_plan
        result.ir none result.diagnostics)
      have hrebuilt := @rebuilt_eq_iff result.ir result.diagnostics hwell.ir
      rw [← hc.graph, ← hc.plan] at hrebuilt
      have hexecutions : result.plan.executions =
          (buildExecutionPlanV1 result.ir none result.diagnostics).executions := by
        rw [hc.plan]
        rfl
      have hmapped : (result.plan.mapObjects flattenObject).executions =
          ((buildExecutionPlanV1 result.ir none result.diagnostics).mapObjects
            flattenObject).executions :=
        congrArg (List.map (ExecutionPlanStep.mapObjects flattenObject)) hexecutions
      rw [hexecutes, observed_eq_iff (hsteps.trans (congrArg _ hmapped.symm)), mapObjects_idle,
        or_comm]
      constructor
      · intro h
        exact .inr ⟨hfinite, h.imp_right hrebuilt.1⟩
      · intro h
        exact (h.resolve_left hnameless).2.imp_right hrebuilt.2
    · obtain ⟨message, hmessage⟩ := planFromEnvelope_error h.ir hnumbers
      refine iff_of_false (not_executesAs_of_error hmessage hfits hclean) ?_
      rintro (hempty | hruns)
      · exact hnameless hempty
      · exact hnumbers (numbersArrive_fromJson.2 hruns.1)

theorem executesAs_iff (hc : Compiled result) (h : Wraps result emit envelope)
    (hnamed : result.ir.Named emit)
    (hemit : emit = .all ∨ emit = .plan ∨ emit = .ir) :
    ExecutesAs envelope result.plan ↔
      RunsTheSame result emit := by
  obtain rfl | rfl | rfl := hemit
  · obtain ⟨hfits, hclean⟩ := hc.plan_fits fun doc hdoc =>
      ⟨hnamed.id doc hdoc (.inl rfl), hnamed.version doc hdoc (.inl rfl)⟩
    by_cases hnumbers : (result.ir.taken .inMemory).NumbersArrive .fromJson
    · have hall : ∀ ir ∈ envelope.artifacts.ir, ir.NumbersArrive .fromJson := by
        intro ir hir
        obtain rfl : _ = ir := Option.some.inj (h.ir.symm.trans hir)
        exact hnumbers
      rw [executesAs_plan_iff h hall h.plan hfits hclean]
      exact (and_iff_right (numbersArrive_fromJson.1 hnumbers)).symm
    · obtain ⟨message, hmessage⟩ := planFromEnvelope_error h.ir hnumbers
      refine iff_of_false (not_executesAs_of_error hmessage hfits hclean) fun hruns => ?_
      exact hnumbers (numbersArrive_fromJson.2 hruns.1)
  · obtain ⟨hfits, hclean⟩ := hc.plan_fits fun doc hdoc =>
      ⟨hnamed.id doc hdoc (.inr (.inr rfl)), hnamed.version doc hdoc (.inr rfl)⟩
    have hnone : envelope.artifacts.ir = none := h.ir
    exact executesAs_plan_iff h (by rw [hnone]; nofun) h.plan hfits hclean
  · exact executesAs_ir_iff hc h

end Executing

/-- The envelope is made and executes as the plan does just if the condition holds. -/
theorem envelope_faithful_iff (source inputPath : String) (emit : EmitMode)
    (generatedAt : IsoTime) :
    EnvelopeFaithful source inputPath emit generatedAt ↔
      Survives (compileAionisDoc source) inputPath emit := by
  have hc := compiled_compileAionisDoc source
  constructor
  · rintro ⟨envelope, hmade, -, hexecutes⟩
    obtain ⟨hpath, hnamed⟩ := hc.named hmade
    obtain ⟨wrapped, hwrapped, hwraps⟩ :=
      @Compiled.wraps _ inputPath emit generatedAt hc hpath hnamed
    obtain rfl : wrapped = envelope := Option.some.inj (hwrapped.symm.trans hmade)
    refine ⟨hpath, hnamed, ?_⟩
    by_cases hemit : emit = .all ∨ emit = .plan ∨ emit = .ir
    · exact (executesAs_iff hc hwraps hnamed hemit).1 (hexecutes hemit)
    · cases emit with
      | all => exact absurd (.inl rfl) hemit
      | plan => exact absurd (.inr (.inl rfl)) hemit
      | ir => exact absurd (.inr (.inr rfl)) hemit
      | ast => trivial
      | graph => trivial
      | diagnostics => trivial
  · rintro ⟨hpath, hnamed, hruns⟩
    obtain ⟨envelope, hmade, hwraps⟩ :=
      @Compiled.wraps _ inputPath emit generatedAt hc hpath hnamed
    exact ⟨envelope, hmade, hwraps.accepted, fun hemit =>
      (executesAs_iff hc hwraps hnamed hemit).2 hruns⟩

/-- A document with an empty directive is reported, but its envelope is not made. -/
theorem unnamed_document_raises :
    (compileAionisDoc "@doc \x7b\x7d").diagnostics.map (·.code) =
      ["INVALID_SCHEMA", "INVALID_SCHEMA"] ∧
    ¬ EnvelopeFaithful "@doc \x7b\x7d" "input.md" .all ⟨"2026-01-01T00:00:00.000Z", by decide⟩ := by
  have hrun : (compileAionisDoc "@doc \x7b\x7d").diagnostics.map (·.code) =
      ["INVALID_SCHEMA", "INVALID_SCHEMA"] ∧
      (compileAionisDoc "@doc \x7b\x7d").ir.doc.map (·.id) = some "" := by decide +kernel
  refine ⟨hrun.1, ?_⟩
  rintro ⟨envelope, hmade, -⟩
  obtain ⟨-, hnamed⟩ := (compiled_compileAionisDoc "@doc \x7b\x7d").named hmade
  obtain ⟨doc, hdoc, hid⟩ := Option.map_eq_some_iff.1 hrun.2
  exact hnamed.id doc hdoc (.inl rfl) hid

end AionisCore.AionisDoc
