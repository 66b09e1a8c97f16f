import AionisCore.AionisDoc.Ir

/-!
# Compilation

`compileAionisDoc` parses a document, resolves the references of its executions, builds the graph
of their dependencies and lays out the execution plan. Errors are reported as diagnostics; the
compiler goes on with what it has.
-/

namespace AionisCore.AionisDoc

open Lib Lib.JsString

/-! ## References -/

structure RefBinding where
  raw : String
  scope : String
  path : List String
  deriving DecidableEq, Repr

def validScopes : List String := ["doc", "ctx", "run", "out", "mem"]

def isScopePart (c : Char) : Bool := c.isAlphanum || c == '_' || c == '-'

/-- `/^([A-Za-z][A-Za-z0-9_-]*)(?:\.([A-Za-z0-9_.-]+))?$/` on the trimmed reference. -/
def parseRef (ref : String) : Option RefBinding :=
  match trimChars ref.toList with
  | c :: cs =>
    let scope := String.ofList (c :: cs.takeWhile isScopePart)
    if !c.isAlpha then none
    else match cs.dropWhile isScopePart with
      | [] => some { raw := ref, scope, path := [] }
      | '.' :: path =>
        if path ≠ [] ∧ path.all isIdentifierPart then
          some { raw := ref, scope, path := (splitOn '.' path).map String.ofList }
        else none
      | _ => none
  | [] => none

namespace ResolveRefs

def getPathValue : Option AionisValue → List String → Option AionisValue
  | v, [] => v
  | v, segment :: path =>
    match v.bind AionisValue.asObject with
    | some o => if o.has segment then getPathValue (o.get segment) path else none
    | none => none

end ResolveRefs

/-- `Object.assign(merged, data)` -/
def assignOwn (merged data : AionisObject) : AionisObject :=
  data.own.foldl (fun merged f => merged.set f.1 f.2) merged

def buildMergedContext (context : List ContextIR) : AionisObject :=
  context.foldl (fun merged entry => assignOwn merged entry.data) {}

/-- Where a diagnostic about an execution points to. -/
def executionLoc (ir : AionisDocIR) (execution : ExecuteIR) : SourceRange :=
  (execution.loc.or (ir.doc.bind (·.loc))).getD noLoc

/-- The value that a reference into the document or the context denotes. -/
def boundValue (ir : AionisDocIR) (binding : RefBinding) : Option AionisValue :=
  if binding.scope = "ctx" then
    ResolveRefs.getPathValue (some (.ofObject (buildMergedContext ir.context))) binding.path
  else
    ResolveRefs.getPathValue (ir.doc.map fun doc => .ofObject doc.data) binding.path

def validateBinding (ir : AionisDocIR) (binding : RefBinding) (execution : ExecuteIR) :
    Option Diagnostic :=
  let unresolved (message : String) : Diagnostic :=
    makeDiagnostic (executionLoc ir execution) "UNRESOLVED_REF" message
  if binding.scope ∉ validScopes then
    some (unresolved s!"Unknown ref scope '{binding.scope}' in '{binding.raw}'.")
  else if binding.scope = "ctx" ∧ (boundValue ir binding).isNone then
    some (unresolved s!"Context ref '{binding.raw}' could not be resolved.")
  else if binding.scope = "doc" ∧ (boundValue ir binding).isNone then
    some (unresolved s!"Document ref '{binding.raw}' could not be resolved.")
  else none

/-- What `resolveRefs` reports about one execution. -/
def refDiagnostics (ir : AionisDocIR) (execution : ExecuteIR) : List Diagnostic :=
  if falsy execution.inputRef then []
  else
    let ref := execution.inputRef.getD ""
    match parseRef ref with
    | none =>
      [makeDiagnostic (executionLoc ir execution) "UNRESOLVED_REF" s!"Invalid ref syntax '{ref}'."]
    | some binding => (validateBinding ir binding execution).toList

def resolveRefs (ir : AionisDocIR) : List Diagnostic := ir.executions.flatMap (refDiagnostics ir)

/-! ## The execution graph -/

structure ExecutionNode where
  id : String
  label : String
  module : Option String
  inputRef : Option String
  outputRef : Option String
  payload : AionisObject
  loc : Option SourceRange

inductive EdgeType where
  | dataDependency
  | sequenceDependency
  deriving DecidableEq, Repr

structure ExecutionEdge where
  source : String
  target : String
  type : EdgeType
  deriving DecidableEq, Repr

structure ExecutionGraph where
  graphId : String
  docId : String
  nodes : List ExecutionNode
  edges : List ExecutionEdge
  diagnostics : List Diagnostic

/-- The name of the execution at an index. -/
def nodeId (index : Nat) : String := s!"exec_{index + 1}"

structure GraphState where
  nodes : List ExecutionNode := []
  edges : List ExecutionEdge := []
  diagnostics : List Diagnostic := []
  nodeByOutputRef : List (String × String) := []
  nodeById : List (String × String) := []

def buildNode (execution : ExecuteIR) (index : Nat) : ExecutionNode where
  id := nodeId index
  label := ((execution.module.or execution.tool).or execution.agent).getD s!"execute_{index + 1}"
  module := execution.module
  inputRef := execution.inputRef
  outputRef := execution.outputRef
  payload := execution.data
  loc := execution.loc

namespace GraphState

/-- The node is entered into both tables before its references are looked up. -/
def register (s : GraphState) (execution : ExecuteIR) (index : Nat) : GraphState :=
  { s with
    nodes := s.nodes ++ [buildNode execution index]
    nodeById := OrderedMap.setEntry (nodeId index) (nodeId index) s.nodeById
    nodeByOutputRef :=
      if falsy execution.outputRef then s.nodeByOutputRef
      else OrderedMap.setEntry (execution.outputRef.getD "") (nodeId index) s.nodeByOutputRef }

def inputEdges (s : GraphState) (execution : ExecuteIR) (index : Nat) : List ExecutionEdge :=
  if falsy execution.inputRef then []
  else match OrderedMap.getEntry (execution.inputRef.getD "") s.nodeByOutputRef with
    | some upstream => [⟨upstream, nodeId index, .dataDependency⟩]
    | none => []

/-- The node a dependency names: by its output, else by its id. -/
def upstreamOf (s : GraphState) (dependency : String) : Option String :=
  (OrderedMap.getEntry dependency s.nodeByOutputRef).or (OrderedMap.getEntry dependency s.nodeById)

def dependencyEdges (s : GraphState) (execution : ExecuteIR) (index : Nat) : List ExecutionEdge :=
  (execution.dependsOn.getD []).filterMap fun dependency =>
    (s.upstreamOf dependency).map fun upstream => ⟨upstream, nodeId index, .sequenceDependency⟩

def unknownDependency (ir : AionisDocIR) (execution : ExecuteIR) (dependency : String) :
    Diagnostic where
  severity := .warning
  code := "UNKNOWN_DEPENDENCY"
  message := s!"Dependency '{dependency}' does not match a previous node or output ref."
  loc := executionLoc ir execution

def dependencyDiagnostics (s : GraphState) (ir : AionisDocIR) (execution : ExecuteIR) :
    List Diagnostic :=
  (execution.dependsOn.getD []).filterMap fun dependency =>
    if (s.upstreamOf dependency).isSome then none
    else some (unknownDependency ir execution dependency)

def addExecution (s : GraphState) (ir : AionisDocIR) (execution : ExecuteIR) (index : Nat) :
    GraphState :=
  let s := s.register execution index
  { s with
    edges := s.edges ++ s.inputEdges execution index ++ s.dependencyEdges execution index
    diagnostics := s.diagnostics ++ s.dependencyDiagnostics ir execution }

/-- The loop over the executions, the first of which has the index. -/
def addExecutions (ir : AionisDocIR) : GraphState → Nat → List ExecuteIR → GraphState
  | s, _, [] => s
  | s, index, execution :: executions =>
    addExecutions ir (s.addExecution ir execution index) (index + 1) executions

end GraphState

def buildExecutionGraph (ir : AionisDocIR) : Option ExecutionGraph × List Diagnostic :=
  match ir.doc with
  | none => (none, [])
  | some doc =>
    let s := GraphState.addExecutions ir {} 0 ir.executions
    (some {
      graphId := s!"graph:{doc.id}"
      docId := doc.id
      nodes := s.nodes
      edges := s.edges
      diagnostics := s.diagnostics }, s.diagnostics)

/-! ## The execution plan -/

structure ExecutionPlanDocMeta where
  id : String
  version : String
  kind : Option String
  title : Option String
  status : Option String
  tags : Option (List String)
  deriving DecidableEq, Repr

structure ExecutionPlanContext where
  merged : AionisObject
  frames : List AionisObject

structure ExecutionPlanStep where
  executionId : String
  module : Option String
  tool : Option String
  agent : Option String
  input : Option AionisObject
  inputRef : Option String
  outputRef : Option String
  dependsOn : List String
  deterministic : Option Bool
  loc : Option SourceRange

structure ExecutionPlanDeterminism where
  executable : Bool
  replayMode : Option ReplayMode
  requiresResumeSupport : Bool
  deriving DecidableEq, Repr

structure ExecutionPlanV1 where
  doc : Option ExecutionPlanDocMeta
  context : ExecutionPlanContext
  executions : List ExecutionPlanStep
  graph : Option ExecutionGraph
  expectedOutputs : List String
  requiredCapabilities : List String
  determinism : ExecutionPlanDeterminism
  diagnostics : List Diagnostic

def mergeContextFrames (frames : List AionisObject) : AionisObject :=
  frames.foldl (fun merged frame => frame.own.foldl (fun m f => m.set f.1 f.2) merged) {}

def buildExecutionId (step : ExecuteIR) (index : Nat) : String :=
  let text (s : Option String) : String := s.getD ""
  if !falsy step.outputRef then text step.outputRef
  else if !falsy step.module then s!"run.{text step.module}.{index + 1}"
  else if !falsy step.tool then s!"run.{text step.tool}.{index + 1}"
  else if !falsy step.agent then s!"run.{text step.agent}.{index + 1}"
  else s!"run.execution_{index + 1}"

def buildExecutionStep (step : ExecuteIR) (index : Nat) : ExecutionPlanStep where
  executionId := buildExecutionId step index
  module := step.module
  tool := step.tool
  agent := step.agent
  input := step.input
  inputRef := step.inputRef
  outputRef := step.outputRef
  dependsOn := step.dependsOn.getD []
  deterministic := step.deterministic
  loc := step.loc

def collectExpectedOutputs (ir : AionisDocIR) : List String :=
  let replayOutputs := ir.replay.flatMap fun entry => entry.expectedOutputs.getD []
  if 0 < replayOutputs.length then replayOutputs
  else (ir.executions.filterMap (·.outputRef)).filter (· ≠ "")

/-- The capabilities in the order in which they are added to the set. -/
def collectRequiredCapabilities (ir : AionisDocIR) : List String :=
  let ofReplay (entry : ReplayIR) : List String :=
    (if entry.mode = some .deterministic then ["deterministic_replay"] else []) ++
    (if entry.mode = some .assisted then ["assisted_replay"] else []) ++
    (if entry.executable = some true then ["state_persistence"] else [])
  ((if 0 < ir.executions.length then ["direct_execution", "module_registry"] else []) ++
    ir.replay.flatMap ofReplay ++
    if ir.memory.any (·.writeback = some true) then ["memory_writeback"] else []).eraseDups

def buildDeterminism (ir : AionisDocIR) : ExecutionPlanDeterminism where
  executable := ir.replay.any (·.executable = some true) || decide (0 < ir.executions.length)
  replayMode := ir.replay.head?.bind (·.mode)
  requiresResumeSupport := ir.replay.any (·.executable = some true)

def buildExecutionPlanV1 (ir : AionisDocIR) (graph : Option ExecutionGraph)
    (diagnostics : List Diagnostic) : ExecutionPlanV1 where
  doc := ir.doc.map fun doc =>
    { id := doc.id, version := doc.version, kind := doc.kind, title := doc.title,
      status := doc.status, tags := doc.tags }
  context := {
    merged := mergeContextFrames (ir.context.map (·.data))
    frames := ir.context.map (·.data) }
  executions := ir.executions.mapIdx fun index step => buildExecutionStep step index
  graph
  expectedOutputs := collectExpectedOutputs ir
  requiredCapabilities := collectRequiredCapabilities ir
  determinism := buildDeterminism ir
  diagnostics

/-! ## The compiler -/

structure CompileResult where
  ast : DocumentNode
  ir : AionisDocIR
  graph : Option ExecutionGraph
  plan : ExecutionPlanV1
  diagnostics : List Diagnostic

def compileAionisDoc (source : String) : CompileResult :=
  let ast := parseAst (scanSource source)
  let ir := normalizeAstToIr ast
  let graphResult := buildExecutionGraph ir
  let diagnostics := ast.diagnostics ++ ir.diagnostics ++ validateIrSchemas ir ++ resolveRefs ir ++
    graphResult.2
  { ast
    ir
    graph := graphResult.1
    plan := buildExecutionPlanV1 ir graphResult.1 diagnostics
    diagnostics }

end AionisCore.AionisDoc
