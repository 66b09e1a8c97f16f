import AionisCore.AionisDoc.Runtime

/-!
# Envelopes

`buildCompileEnvelope` wraps what the compiler made and checks it against the schemas of the
contracts; `executeCompileEnvelope` checks an envelope that was read back from JSON and runs its
plan, or one rebuilt from its representation. The shapes are those of the data types here, so that
a schema is left with the bounds and with the values, which it copies: a record keeps the fields
that are enumerable, inherited ones among them, and drops `__proto__`.
-/

namespace AionisCore.AionisDoc

open Lib

/-! ## Values -/

/-- The fields of an object before those it inherits. -/
def shadow {α : Type} (own inherited : List (String × α)) : List (String × α) :=
  own ++ inherited.filter fun f => own.all (·.1 ≠ f.1)

/-- A record is accepted with all its fields, and built without `__proto__`. -/
def buildRecord (fields : List (String × Option AionisValue)) :
    Option (List (String × AionisValue)) :=
  (fields.mapM fun f : String × Option AionisValue => f.2.map fun v => (f.1, v)).map fun fields =>
    fields.filter (·.1 ≠ "__proto__")

mutual

/-- `AionisValueSchema.parse` -/
def parseAionisValue : AionisValue → Option AionisValue
  | .null => some .null
  | .bool b => some (.bool b)
  | .num n => some (.num n)
  | .str s => some (.str s)
  | .arr items => ((parseEach items).mapM id).map .arr
  | .obj own proto =>
    (buildRecord (shadow (parseOwn own) (inheritedFields proto))).map fun fields =>
      .obj fields .objectPrototype
  | .objectPrototype => some (.obj [] .objectPrototype)
  | .method _ => none

def parseEach : List AionisValue → List (Option AionisValue)
  | [] => []
  | v :: vs => parseAionisValue v :: parseEach vs

def parseOwn : List (String × AionisValue) → List (String × Option AionisValue)
  | [] => []
  | f :: fs => parseOwnField f :: parseOwn fs

def parseOwnField : String × AionisValue → String × Option AionisValue
  | (k, v) => (k, parseAionisValue v)

/-- What `for (const key in data)` finds in a prototype. -/
def inheritedFields : AionisValue → List (String × Option AionisValue)
  | .obj own proto => shadow (parseOwn own) (inheritedFields proto)
  | .arr items => (parseEach items).mapIdx fun i v => (toString i, v)
  | _ => []

end

/-- `z.record(AionisValueSchema).parse` -/
def parseRecord (o : AionisObject) : Option AionisObject :=
  (buildRecord (shadow (parseOwn o.own) (inheritedFields o.proto))).map fun own => { own }

mutual

/-- `JSON.parse(JSON.stringify(value))` for a value that a schema has accepted. -/
def jsonValue : AionisValue → AionisValue
  | .num (.finite d h) => if d.digits = 0 then .num (.zero false) else .num (.finite d h)
  | .num (.infinity _) => .null
  | .arr items => .arr (jsonItems items)
  | .obj own _ => .obj (jsonFields own) .objectPrototype
  | v => v

def jsonItems : List AionisValue → List AionisValue
  | [] => []
  | v :: vs => jsonValue v :: jsonItems vs

def jsonFields : List (String × AionisValue) → List (String × AionisValue)
  | [] => []
  | f :: fs => jsonField f :: jsonFields fs

def jsonField : String × AionisValue → String × AionisValue
  | (k, v) => (k, jsonValue v)

end

def jsonObject (o : AionisObject) : AionisObject := { own := jsonFields o.own }

/-- How numbers and values arrive at the schemas. -/
structure Arrival where
  number : JsNumber → Option JsNumber
  value : AionisValue → Option AionisValue
  record : AionisObject → Option AionisObject

namespace Arrival

def inMemory : Arrival where
  number := some
  value := parseAionisValue
  record := parseRecord

/-- An infinite number arrives as null, which is none. -/
def fromJson : Arrival where
  number := fun n => match jsonValue (.num n) with
    | .num n => some n
    | _ => none
  value := fun v => parseAionisValue (jsonValue v)
  record := fun o => parseRecord (jsonObject o)

end Arrival

/-! ## Diagnostics -/

def SourcePos.valid (p : SourcePos) : Bool := 0 ≤ p.column

def SourceRange.valid (r : SourceRange) : Bool := r.start.valid && r.stop.valid

def validLoc (loc : Option SourceRange) : Bool := loc.all (·.valid)

def Diagnostic.valid (d : Diagnostic) : Bool := d.code ≠ "" && d.message ≠ "" && d.loc.valid

section Schemas

variable (a : Arrival)

/-! ## The syntax tree -/

def AstNode.parse : AstNode → Option AstNode
  | .heading node => if 0 < node.depth && node.loc.valid then some (.heading node) else none
  | .paragraph node => if node.loc.valid then some (.paragraph node) else none
  | .fence node => if node.loc.valid then some (.fence node) else none
  | .directive node =>
    if node.name ≠ "" && node.diagnostics.all (·.valid) && node.loc.valid then
      (node.payload.mapM a.value).map fun payload => .directive { node with payload }
    else none

def DocumentNode.parse (ast : DocumentNode) : Option DocumentNode :=
  if ast.diagnostics.all (·.valid) && ast.loc.valid then
    (ast.children.mapM (AstNode.parse a)).map fun children => { ast with children }
  else none

/-! ## The intermediate representation -/

/-- An entry with a payload and a place. -/
def parseEntry {α : Type} (data : AionisObject) (loc : Option SourceRange)
    (withData : AionisObject → α) : Option α :=
  if validLoc loc then (a.record data).map withData else none

def DocMetaIR.parse (doc : DocMetaIR) : Option DocMetaIR :=
  parseEntry a doc.data doc.loc fun data => { doc with data }

def ContextIR.parse (context : ContextIR) : Option ContextIR :=
  parseEntry a context.data context.loc fun data => { context with data }

def PlanIR.parse (plan : PlanIR) : Option PlanIR :=
  parseEntry a plan.data plan.loc fun data => { plan with data }

def ExecuteIR.parse (execution : ExecuteIR) : Option ExecuteIR :=
  (execution.input.mapM a.record).bind fun input =>
    parseEntry a execution.data execution.loc fun data => { execution with input, data }

def DecisionIR.parse (decision : DecisionIR) : Option DecisionIR :=
  (decision.confidence.mapM a.number).bind fun confidence =>
    parseEntry a decision.data decision.loc fun data => { decision with confidence, data }

def EvidenceIR.parse (evidence : EvidenceIR) : Option EvidenceIR :=
  (evidence.sources.mapM fun sources : List AionisValue => sources.mapM a.value).bind fun sources =>
    (evidence.confidence.mapM a.number).bind fun confidence =>
      parseEntry a evidence.data evidence.loc fun data =>
        { evidence with sources, confidence, data }

def ReplayIR.parse (replay : ReplayIR) : Option ReplayIR :=
  parseEntry a replay.data replay.loc fun data => { replay with data }

def MemoryIR.parse (memory : MemoryIR) : Option MemoryIR :=
  parseEntry a memory.data memory.loc fun data => { memory with data }

def StateIR.parse (state : StateIR) : Option StateIR :=
  parseEntry a state.data state.loc fun data => { state with data }

def AionisDocIR.parse (ir : AionisDocIR) : Option AionisDocIR := do
  let doc ← ir.doc.mapM (DocMetaIR.parse a)
  let context ← ir.context.mapM (ContextIR.parse a)
  let plans ← ir.plans.mapM (PlanIR.parse a)
  let executions ← ir.executions.mapM (ExecuteIR.parse a)
  let decisions ← ir.decisions.mapM (DecisionIR.parse a)
  let evidence ← ir.evidence.mapM (EvidenceIR.parse a)
  let replay ← ir.replay.mapM (ReplayIR.parse a)
  let memory ← ir.memory.mapM (MemoryIR.parse a)
  let state ← ir.state.mapM (StateIR.parse a)
  if ir.diagnostics.all (·.valid) then
    some {
      doc, context, plans, executions, decisions, evidence, replay, memory, state
      diagnostics := ir.diagnostics }
  else none

/-! ## The graph and the plan -/

def ExecutionNode.parse (node : ExecutionNode) : Option ExecutionNode :=
  if node.id ≠ "" then
    parseEntry a node.payload node.loc fun payload => { node with payload }
  else none

def ExecutionEdge.valid (edge : ExecutionEdge) : Bool := edge.source ≠ "" && edge.target ≠ ""

def ExecutionGraph.parse (graph : ExecutionGraph) : Option ExecutionGraph :=
  if graph.graphId ≠ "" && graph.docId ≠ "" && graph.edges.all (·.valid) &&
      graph.diagnostics.all (·.valid) then
    (graph.nodes.mapM (ExecutionNode.parse a)).map fun nodes => { graph with nodes }
  else none

def ExecutionPlanDocMeta.valid (doc : ExecutionPlanDocMeta) : Bool :=
  doc.id ≠ "" && doc.version ≠ ""

def ExecutionPlanStep.parse (step : ExecutionPlanStep) : Option ExecutionPlanStep :=
  if step.executionId ≠ "" && validLoc step.loc then
    (step.input.mapM a.record).map fun input => { step with input }
  else none

def ExecutionPlanV1.parse (plan : ExecutionPlanV1) : Option ExecutionPlanV1 := do
  let merged ← a.record plan.context.merged
  let frames ← plan.context.frames.mapM a.record
  let executions ← plan.executions.mapM (ExecutionPlanStep.parse a)
  let graph ← plan.graph.mapM (ExecutionGraph.parse a)
  if plan.doc.all (·.valid) && plan.diagnostics.all (·.valid) then
    some { plan with context := { merged, frames }, executions, graph }
  else none

end Schemas

/-! ## The envelope -/

inductive EmitMode where
  | all
  | ast
  | ir
  | graph
  | plan
  | diagnostics
  deriving DecidableEq, Repr

structure CompileArtifacts where
  ast : Option DocumentNode := none
  ir : Option AionisDocIR := none
  graph : Option ExecutionGraph := none
  plan : Option ExecutionPlanV1 := none

structure CompileSummary where
  hasErrors : Bool
  errorCount : Nat
  warningCount : Nat
  infoCount : Nat
  astNodeCount : Nat
  executionCount : Nat
  graphNodeCount : Nat
  graphEdgeCount : Nat
  deriving DecidableEq, Repr

structure AionisDocCompileEnvelope where
  generatedAt : String
  inputPath : String
  selectedArtifact : EmitMode
  diagnostics : List Diagnostic
  summary : CompileSummary
  artifacts : CompileArtifacts

def selectArtifacts (result : CompileResult) : EmitMode → CompileArtifacts
  | .all => {
      ast := some result.ast
      ir := some result.ir
      graph := result.graph
      plan := some result.plan }
  | .ast => { ast := some result.ast }
  | .ir => { ir := some result.ir }
  | .graph => { graph := result.graph }
  | .plan => { plan := some result.plan }
  | .diagnostics => {}

def countSeverity (severity : DiagnosticSeverity) (diagnostics : List Diagnostic) : Nat :=
  (diagnostics.filter (·.severity = severity)).length

def summarizeCompileResult (result : CompileResult) : CompileSummary where
  hasErrors := 0 < countSeverity .error result.diagnostics
  errorCount := countSeverity .error result.diagnostics
  warningCount := countSeverity .warning result.diagnostics
  infoCount := countSeverity .info result.diagnostics
  astNodeCount := result.ast.children.length
  executionCount := result.ir.executions.length
  graphNodeCount := (result.graph.map (·.nodes.length)).getD 0
  graphEdgeCount := (result.graph.map (·.edges.length)).getD 0

def CompileArtifacts.parse (a : Arrival) (artifacts : CompileArtifacts) :
    Option CompileArtifacts := do
  let ast ← artifacts.ast.mapM (DocumentNode.parse a)
  let ir ← artifacts.ir.mapM (AionisDocIR.parse a)
  let graph ← artifacts.graph.mapM (ExecutionGraph.parse a)
  let plan ← artifacts.plan.mapM (ExecutionPlanV1.parse a)
  some { ast, ir, graph, plan }

/-- `AionisDocCompileEnvelopeSchema.parse` -/
def AionisDocCompileEnvelope.parse (a : Arrival) (envelope : AionisDocCompileEnvelope) :
    Option AionisDocCompileEnvelope :=
  if envelope.generatedAt ≠ "" && envelope.inputPath ≠ "" &&
      envelope.diagnostics.all (·.valid) then
    (envelope.artifacts.parse a).map fun artifacts => { envelope with artifacts }
  else none

/-- The text of a time. -/
def IsoTime : Type := { text : String // text ≠ "" }

def buildCompileEnvelope (inputPath : String) (emit : EmitMode) (result : CompileResult)
    (generatedAt : IsoTime) : Option AionisDocCompileEnvelope :=
  AionisDocCompileEnvelope.parse .inMemory {
    generatedAt := generatedAt.1
    inputPath
    selectedArtifact := emit
    diagnostics := result.diagnostics
    summary := summarizeCompileResult result
    artifacts := selectArtifacts result emit }

/-! ## Execution -/

/-- The envelope in JSON text is checked; its plan is taken, or made of its representation. -/
def planFromEnvelope (envelope : AionisDocCompileEnvelope) : Except String ExecutionPlanV1 :=
  match AionisDocCompileEnvelope.parse .fromJson envelope with
  | none => .error "invalid envelope"
  | some envelope =>
    match envelope.artifacts.plan, envelope.artifacts.ir with
    | some plan, _ => .ok plan
    | none, some ir => .ok (buildExecutionPlanV1 ir envelope.artifacts.graph envelope.diagnostics)
    | none, none => .error "Execution requires a plan or IR artifact."

def executeExecutionPlan (runtime : ModuleRegistryExecutionRuntime) (executedAt : String)
    (plan : ExecutionPlanV1) : Except String ExecutionResultV1 :=
  match ExecutionPlanV1.parse .inMemory plan with
  | none => .error "invalid plan"
  | some plan => execute runtime plan executedAt

def executeCompileEnvelope (runtime : ModuleRegistryExecutionRuntime) (executedAt : String)
    (envelope : AionisDocCompileEnvelope) : Except String ExecutionResultV1 :=
  (planFromEnvelope envelope).bind (executeExecutionPlan runtime executedAt)

end AionisCore.AionisDoc
