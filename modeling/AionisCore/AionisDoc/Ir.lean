import AionisCore.AionisDoc.ParseAst

/-!
# The intermediate representation

`normalizeAstToIr` reads the payloads of the known directives field by field: a field of another
type is left out. `validateIrSchemas` reports what is missing.
-/

namespace AionisCore.AionisDoc

open Lib Lib.JsString

/-! ## Typed fields -/

def asString : Option AionisValue → Option String
  | some (.str s) => some s
  | _ => none

def asBoolean : Option AionisValue → Option Bool
  | some (.bool b) => some b
  | _ => none

def asNumber : Option AionisValue → Option JsNumber
  | some (.num n) => some n
  | _ => none

/-- An array of strings only. -/
def asStringArray : Option AionisValue → Option (List String)
  | some (.arr items) => items.mapM fun item => asString (some item)
  | _ => none

/-- The object at a field. -/
def asObjectField (v : Option AionisValue) : Option AionisObject := v.bind AionisValue.asObject

/-! ## Data -/

structure DocMetaIR where
  id : String
  version : String
  kind : Option String
  title : Option String
  status : Option String
  tags : Option (List String)
  data : AionisObject
  loc : Option SourceRange

structure ContextIR where
  objective : Option String
  audience : Option (List String)
  constraints : Option (List String)
  data : AionisObject
  loc : Option SourceRange

structure PlanIR where
  steps : Option (List String)
  successCriteria : Option (List String)
  checkpoints : Option (List String)
  fallbacks : Option (List String)
  data : AionisObject
  loc : Option SourceRange

structure ExecuteIR where
  module : Option String
  tool : Option String
  agent : Option String
  input : Option AionisObject
  inputRef : Option String
  outputRef : Option String
  deterministic : Option Bool
  dependsOn : Option (List String)
  data : AionisObject
  loc : Option SourceRange

structure DecisionIR where
  decision : Option String
  rationale : Option String
  confidence : Option JsNumber
  data : AionisObject
  loc : Option SourceRange

structure EvidenceIR where
  sources : Option (List AionisValue)
  confidence : Option JsNumber
  claimsSupported : Option (List String)
  data : AionisObject
  loc : Option SourceRange

inductive ReplayMode where
  | deterministic
  | assisted
  | advisory
  deriving DecidableEq, Repr

structure ReplayIR where
  executable : Option Bool
  mode : Option ReplayMode
  workflowId : Option String
  expectedOutputs : Option (List String)
  data : AionisObject
  loc : Option SourceRange

structure MemoryIR where
  topics : Option (List String)
  entities : Option (List String)
  writeback : Option Bool
  summaryLayer : Option String
  data : AionisObject
  loc : Option SourceRange

structure StateIR where
  phase : Option String
  runId : Option String
  owner : Option String
  data : AionisObject
  loc : Option SourceRange

structure AionisDocIR where
  doc : Option DocMetaIR := none
  context : List ContextIR := []
  plans : List PlanIR := []
  executions : List ExecuteIR := []
  decisions : List DecisionIR := []
  evidence : List EvidenceIR := []
  replay : List ReplayIR := []
  memory : List MemoryIR := []
  state : List StateIR := []
  diagnostics : List Diagnostic := []

/-! ## Normalization -/

section Normalize

variable (payload : AionisObject) (loc : SourceRange)

def normalizeDoc : DocMetaIR where
  id := (asString (payload.get "id")).getD ""
  version := (asString (payload.get "version")).getD ""
  kind := asString (payload.get "kind")
  title := asString (payload.get "title")
  status := asString (payload.get "status")
  tags := asStringArray (payload.get "tags")
  data := payload
  loc := some loc

def normalizeContext : ContextIR where
  objective := asString (payload.get "objective")
  audience := asStringArray (payload.get "audience")
  constraints := asStringArray (payload.get "constraints")
  data := payload
  loc := some loc

def normalizePlan : PlanIR where
  steps := asStringArray (payload.get "steps")
  successCriteria := asStringArray (payload.get "success_criteria")
  checkpoints := asStringArray (payload.get "checkpoints")
  fallbacks := asStringArray (payload.get "fallbacks")
  data := payload
  loc := some loc

def normalizeExecute : ExecuteIR where
  module := asString (payload.get "module")
  tool := asString (payload.get "tool")
  agent := asString (payload.get "agent")
  input := asObjectField (payload.get "input")
  inputRef := asString (payload.get "input_ref")
  outputRef := asString (payload.get "output_ref")
  deterministic := asBoolean (payload.get "deterministic")
  dependsOn := asStringArray (payload.get "depends_on")
  data := payload
  loc := some loc

def normalizeDecision : DecisionIR where
  decision := asString (payload.get "decision")
  rationale := asString (payload.get "rationale")
  confidence := asNumber (payload.get "confidence")
  data := payload
  loc := some loc

def normalizeEvidence : EvidenceIR where
  sources := match payload.get "sources" with
    | some (.arr items) => some items
    | _ => none
  confidence := asNumber (payload.get "confidence")
  claimsSupported := asStringArray (payload.get "claims_supported")
  data := payload
  loc := some loc

def normalizeReplay : ReplayIR where
  executable := asBoolean (payload.get "executable")
  mode := match asString (payload.get "mode") with
    | some "deterministic" => some .deterministic
    | some "assisted" => some .assisted
    | some "advisory" => some .advisory
    | _ => none
  workflowId := asString (payload.get "workflow_id")
  expectedOutputs := asStringArray (payload.get "expected_outputs")
  data := payload
  loc := some loc

def normalizeMemory : MemoryIR where
  topics := asStringArray (payload.get "topics")
  entities := asStringArray (payload.get "entities")
  writeback := asBoolean (payload.get "writeback")
  summaryLayer := asString (payload.get "summary_layer")
  data := payload
  loc := some loc

def normalizeState : StateIR where
  phase := asString (payload.get "phase")
  runId := asString (payload.get "run_id")
  owner := asString (payload.get "owner")
  data := payload
  loc := some loc

end Normalize

def noPos : SourcePos := { line := 1, column := 1, offset := 0 }

/-- Where nothing has a place in the source. -/
def noLoc : SourceRange := { start := noPos, stop := noPos }

def makeDiagnostic (loc : SourceRange) (code message : String) : Diagnostic where
  severity := .error
  code
  message
  loc

namespace AionisDocIR

def report (ir : AionisDocIR) (d : Diagnostic) : AionisDocIR :=
  { ir with diagnostics := ir.diagnostics ++ [d] }

/-- The directive is added under its name; other names are left out. -/
def addDirective (ir : AionisDocIR) (name : String) (payload : AionisObject) (loc : SourceRange) :
    AionisDocIR :=
  match name with
  | "doc" =>
    if ir.doc.isSome then
      ir.report (makeDiagnostic loc "DUPLICATE_DOC" "Only one @doc directive is allowed.")
    else { ir with doc := some (normalizeDoc payload loc) }
  | "context" => { ir with context := ir.context ++ [normalizeContext payload loc] }
  | "plan" => { ir with plans := ir.plans ++ [normalizePlan payload loc] }
  | "execute" => { ir with executions := ir.executions ++ [normalizeExecute payload loc] }
  | "decision" => { ir with decisions := ir.decisions ++ [normalizeDecision payload loc] }
  | "evidence" => { ir with evidence := ir.evidence ++ [normalizeEvidence payload loc] }
  | "replay" => { ir with replay := ir.replay ++ [normalizeReplay payload loc] }
  | "memory" => { ir with memory := ir.memory ++ [normalizeMemory payload loc] }
  | "state" => { ir with state := ir.state ++ [normalizeState payload loc] }
  | _ => ir

def addNode (ir : AionisDocIR) : AstNode → AionisDocIR
  | .directive node =>
    match node.payload with
    | none => ir
    | some payload =>
      match payload.asObject with
      | some o => ir.addDirective node.name o node.loc
      | none =>
        ir.report (makeDiagnostic node.loc "INVALID_SCHEMA"
          s!"@{node.name} expects an object payload.")
  | _ => ir

end AionisDocIR

def normalizeAstToIr (ast : DocumentNode) : AionisDocIR :=
  ast.children.foldl AionisDocIR.addNode {}

/-! ## Schemas -/

/-- `!s` for an optional text. -/
def falsy (s : Option String) : Bool := (s.getD "") == ""

/-- A replay mode is one of the three here, so that its check reports nothing. -/
def validateIrSchemas (ir : AionisDocIR) : List Diagnostic :=
  match ir.doc with
  | none =>
    let locs := (ir.executions.head?.bind (·.loc)).or ((ir.context.head?.bind (·.loc)).or
      ((ir.replay.head?.bind (·.loc)).or (ir.diagnostics.head?.map (·.loc))))
    [makeDiagnostic (locs.getD noLoc) "MISSING_DOC" "Document is missing a @doc directive."]
  | some doc =>
    let docLoc := doc.loc.getD noLoc
    (if trim doc.id = "" then
        [makeDiagnostic docLoc "INVALID_SCHEMA" "@doc.id must be a non-empty string."]
      else []) ++
    (if trim doc.version = "" then
        [makeDiagnostic docLoc "INVALID_SCHEMA" "@doc.version must be a non-empty string."]
      else []) ++
    ir.executions.filterMap fun execution =>
      if falsy execution.module && falsy execution.tool && falsy execution.agent then
        some (makeDiagnostic ((execution.loc.or doc.loc).getD noLoc) "INVALID_SCHEMA"
          "@execute requires at least one of module, tool, or agent.")
      else none

end AionisCore.AionisDoc
