import AionisCore.AionisDoc.Compile

/-!
# The module runtime

`ModuleRegistryExecutionRuntime.execute` runs the steps of a plan one after another on the
modules of a registry. A step that fails is recorded and the loop goes on; a handler that raises
ends the run. The outcomes of the handlers are open: a handler may answer differently at every
step, and does not change the plan or the outputs it is handed.
-/

namespace AionisCore.AionisDoc

open Lib

/-! ## Value contracts -/

inductive ValueContractKind where
  | any
  | string
  | number
  | boolean
  | null
  | array
  | object
  deriving DecidableEq, Repr

inductive ValueContract where
  | mk (kind : ValueContractKind) (properties : Option (List (String × ValueContract)))
    (required : Option (List String)) (items : Option ValueContract)
    (additionalProperties : Option Bool)

def contractPath (path segment : String) : String :=
  if path = "$" then s!"$.{segment}" else s!"{path}.{segment}"

/-- `if (!ok) errors.push(message)` -/
def requireThat (ok : Bool) (message : String) : List String := if ok then [] else [message]

/-- `key in properties` for a record of property contracts. -/
def inProperties (properties : List (String × ValueContract)) (key : String) : Bool :=
  properties.any (·.1 = key) || key ∈ AionisValue.objectMethods || key = "__proto__"

namespace AionisValue

def isString : AionisValue → Bool
  | .str _ => true
  | _ => false

def isNumber : AionisValue → Bool
  | .num _ => true
  | _ => false

def isBoolean : AionisValue → Bool
  | .bool _ => true
  | _ => false

def isNull : AionisValue → Bool
  | .null => true
  | _ => false

/-- `Object.entries(value)` -/
def enumerable : AionisValue → List (String × AionisValue)
  | .obj own _ => own
  | _ => []

end AionisValue

mutual

def validateValueAgainstContract (value : AionisValue) :
    ValueContract → String → List String
  | .mk kind properties required items additional, path =>
    match kind with
    | .any => []
    | .string => requireThat value.isString s!"Expected string at '{path}'."
    | .number => requireThat value.isNumber s!"Expected number at '{path}'."
    | .boolean => requireThat value.isBoolean s!"Expected boolean at '{path}'."
    | .null => requireThat value.isNull s!"Expected null at '{path}'."
    | .array =>
      match value with
      | .arr values => validateItems values items path
      | _ => [s!"Expected array at '{path}'."]
    | .object =>
      match value.asObject with
      | none => [s!"Expected object at '{path}'."]
      | some o =>
        ((required.getD []).eraseDups.flatMap fun key =>
          requireThat (o.has key) s!"Missing required property '{key}' at '{path}'.") ++
        (match properties with
          | none => []
          | some properties => validateProperties o properties path) ++
        if additional = some false then
          value.enumerable.flatMap fun f => requireThat (inProperties (properties.getD []) f.1)
            s!"Unexpected property '{f.1}' at '{path}'."
        else []

def validateItems (values : List AionisValue) : Option ValueContract → String → List String
  | none, _ => []
  | some contract, path =>
    (values.mapIdx fun index item =>
      validateValueAgainstContract item contract s!"{path}[{index}]").flatten

def validateProperties (o : AionisObject) :
    List (String × ValueContract) → String → List String
  | [], _ => []
  | p :: properties, path => validateProperty o p path ++ validateProperties o properties path

def validateProperty (o : AionisObject) : String × ValueContract → String → List String
  | (key, contract), path =>
    match o.get key with
    | none => []
    | some value => validateValueAgainstContract value contract (contractPath path key)

end

/-! ## Modules -/

inductive ExecutionRuntimeCapability where
  | directExecution
  | deterministicReplay
  | statePersistence
  | memoryPublish
  | handoffRecover
  | moduleRegistry
  | evidenceCapture
  deriving DecidableEq, Repr

def ExecutionRuntimeCapability.text : ExecutionRuntimeCapability → String
  | .directExecution => "direct_execution"
  | .deterministicReplay => "deterministic_replay"
  | .statePersistence => "state_persistence"
  | .memoryPublish => "memory_publish"
  | .handoffRecover => "handoff_recover"
  | .moduleRegistry => "module_registry"
  | .evidenceCapture => "evidence_capture"

structure ExecutionModuleManifest where
  requiredCapabilities : Option (List ExecutionRuntimeCapability) := none
  inputContract : Option ValueContract := none
  outputContract : Option ValueContract := none
  artifactContract : Option ValueContract := none
  evidenceContract : Option ValueContract := none

structure ExecutionModuleContext where
  plan : ExecutionPlanV1
  step : ExecutionPlanStep
  outputs : AionisObject
  runtimeId : String

inductive HandlerResult where
  | value (v : AionisValue)
  | raised (message : String)

/-- `turn` is the place of the step in the plan. -/
structure ExecutionModuleDefinition where
  manifest : ExecutionModuleManifest
  handler : (turn : Nat) → AionisValue → ExecutionModuleContext → HandlerResult

structure ModuleRegistryExecutionRuntime where
  runtimeId : String
  registry : String → Option ExecutionModuleDefinition
  capabilities : ExecutionRuntimeCapability → Bool

/-! ## Inputs -/

namespace Runtime

def getPathValue : Option AionisValue → List String → Option AionisValue
  | v, [] => v
  | v, segment :: path =>
    match v.bind AionisValue.asObject with
    | some o => getPathValue (o.get segment) path
    | none => none

end Runtime

/-- `text.split(".")` -/
def splitDots (text : String) : List String := (splitOn '.' text.toList).map String.ofList

/-- The value that the outputs of earlier steps have under a reference. -/
def outputValue (outputs : AionisObject) (ref : String) : AionisValue :=
  match outputs.get ref with
  | some v => v
  | none =>
    match splitDots ref with
    | rootRef :: name :: segment :: rest =>
      if (rootRef = "run" ∨ rootRef = "out") ∧ outputs.has s!"{rootRef}.{name}" then
        (Runtime.getPathValue (outputs.get s!"{rootRef}.{name}") (segment :: rest)).getD .null
      else .null
    | _ => .null

def resolveExecutionInput (plan : ExecutionPlanV1) (outputs : AionisObject)
    (step : ExecutionPlanStep) : AionisValue :=
  match step.input with
  | some input => .ofObject input
  | none =>
    if falsy step.inputRef then .ofObject {}
    else
      let ref := step.inputRef.getD ""
      if ref = "ctx" then .ofObject plan.context.merged
      else if "ctx.".toList.isPrefixOf ref.toList then
        (Runtime.getPathValue (some (.ofObject plan.context.merged))
          (splitDots (String.ofList (ref.toList.drop 4)))).getD .null
      else outputValue outputs ref

def missingDependency (step : ExecutionPlanStep) (outputs : AionisObject) : Option String :=
  step.dependsOn.find? fun dependency => !outputs.has dependency

/-- An unmet dependency with an empty name blocks nothing. -/
def unmetDependency (step : ExecutionPlanStep) (outputs : AionisObject) : Option String :=
  (missingDependency step outputs).filter (· ≠ "")

def missingModuleCapabilities (manifest : ExecutionModuleManifest)
    (capabilities : ExecutionRuntimeCapability → Bool) : List ExecutionRuntimeCapability :=
  (manifest.requiredCapabilities.getD []).filter fun capability => !capabilities capability

/-! ## Outcomes -/

structure ExecutionModuleOutcome where
  output : AionisValue
  artifacts : Option AionisValue
  evidence : Option AionisValue

/-- A result that is a module outcome, or the outcome that has it for its output. -/
def normalizeOutcome (rawResult : AionisValue) : ExecutionModuleOutcome :=
  match rawResult.asObject with
  | none => ⟨rawResult, some (.arr []), some (.arr [])⟩
  | some o =>
    match o.get "kind", o.get "output" with
    | some (.str "module_result"), some output => ⟨output, o.get "artifacts", o.get "evidence"⟩
    | _, _ => ⟨rawResult, some (.arr []), some (.arr [])⟩

/-- `value ?? []`, which is not an array when a handler returns something else for it. -/
def producedList : Option AionisValue → Option (List AionisValue)
  | none | some .null => some []
  | some (.arr items) => some items
  | some _ => none

/-! ## Results -/

inductive ExecutionNodeStatus where
  | success
  | failed
  deriving DecidableEq, Repr

structure ExecutionNodeResult where
  executionId : String
  module : Option String
  tool : Option String
  agent : Option String
  status : ExecutionNodeStatus
  inputRef : Option String
  outputRef : Option String
  output : Option AionisValue := none
  artifacts : Option (List AionisValue) := none
  evidence : Option (List AionisValue) := none
  error : Option String := none

/-- An artifact or a piece of evidence. -/
structure ProducedRecord where
  executionId : String
  module : Option String
  value : AionisValue

structure ExecutionState where
  outputs : AionisObject := {}
  artifacts : List ProducedRecord := []
  evidence : List ProducedRecord := []
  nodeResults : List ExecutionNodeResult := []
  errors : List String := []

/-- How a step ends. -/
inductive StepEnd where
  | failed (message : String)
  | raised (message : String)
  | success (output : AionisValue) (artifacts evidence : List AionisValue)

def blockedMessage (step : ExecutionPlanStep) (dependency : String) : String :=
  s!"Execution '{step.executionId}' is blocked on missing dependency '{dependency}'."

section Execute

variable (runtime : ModuleRegistryExecutionRuntime) (plan : ExecutionPlanV1)

/-- The errors of what a handler produced against an optional contract; there are none to tell
where a contract meets something that is not a list. -/
def contractErrors (contract : Option ValueContract) (label : String)
    (produced : Option (List AionisValue)) : Option (List String) :=
  match contract with
  | none => some []
  | some contract => produced.map fun values =>
    (values.mapIdx fun index value =>
      validateValueAgainstContract value contract s!"{label}[{index}]").flatten

def notAFunction : String := "is not a function"

/-- The checks of a handler's result. -/
def acceptResult (module : String) (manifest : ExecutionModuleManifest) (rawResult : AionisValue) :
    StepEnd :=
  let normalized := normalizeOutcome rawResult
  let artifacts := producedList normalized.artifacts
  let evidence := producedList normalized.evidence
  let outputErrors := match manifest.outputContract with
    | none => []
    | some contract => validateValueAgainstContract normalized.output contract "$"
  let refused (what : String) (errors : List String) : StepEnd :=
    .failed (s!"{what} contract validation failed for module '{module}': " ++
      " ".intercalate errors)
  if outputErrors ≠ [] then refused "Output" outputErrors
  else match contractErrors manifest.artifactContract "artifacts" artifacts with
    | none => .raised notAFunction
    | some (e :: es) => refused "Artifact" (e :: es)
    | some [] =>
      match contractErrors manifest.evidenceContract "evidence" evidence with
      | none => .raised notAFunction
      | some (e :: es) => refused "Evidence" (e :: es)
      | some [] =>
        match artifacts, evidence with
        | some artifacts, some evidence => .success normalized.output artifacts evidence
        | _, _ => .raised notAFunction

/-- A module on its input. -/
def runModule (turn : Nat) (outputs : AionisObject) (step : ExecutionPlanStep) (module : String)
    (definition : ExecutionModuleDefinition) : StepEnd :=
  let missing := missingModuleCapabilities definition.manifest runtime.capabilities
  if missing ≠ [] then
    .failed (s!"Module '{module}' requires unsupported runtime capabilities: " ++
      ", ".intercalate (missing.map (·.text)) ++ ".")
  else
    let input := resolveExecutionInput plan outputs step
    let inputErrors := match definition.manifest.inputContract with
      | none => []
      | some contract => validateValueAgainstContract input contract "$"
    if inputErrors ≠ [] then
      .failed (s!"Input contract validation failed for module '{module}': " ++
        " ".intercalate inputErrors)
    else match definition.handler turn input ⟨plan, step, outputs, runtime.runtimeId⟩ with
      | .raised message => .raised message
      | .value rawResult => acceptResult module definition.manifest rawResult

/-- One step of the plan. -/
def runStep (turn : Nat) (outputs : AionisObject) (step : ExecutionPlanStep) : StepEnd :=
  match unmetDependency step outputs with
  | some dependency => .failed (blockedMessage step dependency)
  | none =>
    if falsy step.module then
      .failed (s!"Execution '{step.executionId}' has no module and cannot run on runtime " ++
        s!"'{runtime.runtimeId}'.")
    else
      let module := step.module.getD ""
      match runtime.registry module with
      | none => .failed s!"Module '{module}' is not supported by runtime '{runtime.runtimeId}'."
      | some definition => runModule runtime plan turn outputs step module definition

/-- `if (step.output_ref) outputs[step.output_ref] = output` -/
def storeOutput (outputs : AionisObject) (step : ExecutionPlanStep) (output : AionisValue) :
    AionisObject :=
  if falsy step.outputRef then outputs else outputs.set (step.outputRef.getD "") output

def ExecutionState.fail (s : ExecutionState) (step : ExecutionPlanStep) (message : String) :
    ExecutionState :=
  { s with
    nodeResults := s.nodeResults ++ [{
      executionId := step.executionId, module := step.module, tool := step.tool,
      agent := step.agent, status := .failed, inputRef := step.inputRef,
      outputRef := step.outputRef, error := some message }]
    errors := s.errors ++ [message] }

def ExecutionState.succeed (s : ExecutionState) (step : ExecutionPlanStep) (output : AionisValue)
    (artifacts evidence : List AionisValue) : ExecutionState :=
  { s with
    outputs := storeOutput s.outputs step output
    artifacts := s.artifacts ++ artifacts.map fun value =>
      { executionId := step.executionId, module := step.module, value }
    evidence := s.evidence ++ evidence.map fun value =>
      { executionId := step.executionId, module := step.module, value }
    nodeResults := s.nodeResults ++ [{
      executionId := step.executionId, module := step.module, tool := step.tool,
      agent := step.agent, status := .success, inputRef := step.inputRef,
      outputRef := step.outputRef, output := some output, artifacts := some artifacts,
      evidence := some evidence }] }

/-- The loop over the steps, the first of which has the turn; the message of a handler that
raised ends it. -/
def runSteps : ExecutionState → Nat → List ExecutionPlanStep → ExecutionState × Option String
  | s, _, [] => (s, none)
  | s, turn, step :: steps =>
    match runStep runtime plan turn s.outputs step with
    | .failed message => runSteps (s.fail step message) (turn + 1) steps
    | .raised message => (s, some message)
    | .success output artifacts evidence =>
      runSteps (s.succeed step output artifacts evidence) (turn + 1) steps

structure ExecutionResultV1 where
  runtimeId : String
  executedAt : String
  docId : Option String
  status : ExecutionNodeStatus
  outputs : AionisObject
  artifacts : List ProducedRecord
  evidence : List ProducedRecord
  nodeResults : List ExecutionNodeResult
  expectedOutputs : List String
  warnings : List String
  errors : List String
  diagnostics : List Diagnostic

/-- What `execute` resolves to at a time, or the error it rejects with. -/
def execute (executedAt : String) : Except String ExecutionResultV1 :=
  match runSteps runtime plan {} 0 plan.executions with
  | (_, some message) => .error message
  | (s, none) => .ok {
      runtimeId := runtime.runtimeId
      executedAt
      docId := plan.doc.map (·.id)
      status := if 0 < s.errors.length then .failed else .success
      outputs := s.outputs
      artifacts := s.artifacts
      evidence := s.evidence
      nodeResults := s.nodeResults
      expectedOutputs := plan.expectedOutputs
      warnings := []
      errors := s.errors
      diagnostics := plan.diagnostics }

end Execute

end AionisCore.AionisDoc
