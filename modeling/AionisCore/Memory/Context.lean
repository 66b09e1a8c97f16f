import AionisCore.Lib.FoldUntil
import AionisCore.Lib.JsDouble
import AionisCore.Memory.PreparedWrite
import AionisCore.Memory.RecallRanking

/-!
# Context of a recall

`buildContext` lists the best nodes of a recall in four sections and writes them as text. Where
the text is longer than its budget, lines are dropped until it fits.
-/

namespace AionisCore.Memory

open Lib Lib.JsString Store Util

/-- What the context takes from the language: `String(v)`, `Number(v)` and a count as a template
writes them, `JSON.stringify` and `localeCompare`. -/
structure ContextEnv extends ScoringEnv where
  text : Json → String
  numberText : Json → String
  countText : Option ℚ → String
  stringify : Json → String
  localeCompare : String → String → Int

inductive MemoryLayerPolicySource where
  | endpointDefault
  | requestOverride
  deriving DecidableEq, Repr

structure MemoryLayerPolicy where
  preferredLayers : List String
  fallbackLayers : List String
  trustAnchorLayers : List String
  source : MemoryLayerPolicySource
  deriving Repr

inductive ContextCompactionProfile where
  | balanced
  | aggressive
  deriving DecidableEq, Repr

structure ContextBuildOptions where
  tenantId : Option String := none
  scope : Option String := none
  contextTokenBudget : Option Double := none
  contextCharBudget : Option Double := none
  contextCompactionProfile : Option ContextCompactionProfile := none
  layerPolicy : Option MemoryLayerPolicy := none
  internalAllowL4Preview : Bool := false

inductive SectionId where
  | topics
  | entities
  | events
  | rules
  deriving DecidableEq, Repr

structure ContextCompactionPolicy where
  sectionImportanceBias : SectionId → Nat
  maxTopicEvidenceLines : Nat
  maxEventLinesCompact : Nat
  includeRuleJsonLines : Bool

def CONTEXT_COMPACTION_POLICY : ContextCompactionProfile → ContextCompactionPolicy
  | .balanced => {
      sectionImportanceBias := fun
        | .topics => 0
        | .entities => 10
        | .events => 40
        | .rules => 5
      maxTopicEvidenceLines := 2
      maxEventLinesCompact := 5
      includeRuleJsonLines := true }
  | .aggressive => {
      sectionImportanceBias := fun
        | .topics => 0
        | .entities => 20
        | .events => 80
        | .rules => 10
      maxTopicEvidenceLines := 1
      maxEventLinesCompact := 2
      includeRuleJsonLines := false }

/-! ## What a node says -/

/-- A text that is one of a few. -/
def textAmong (words : List String) : Option Json → Option String
  | some (.str s) => if s ∈ words then some s else none
  | _ => none

section Node

variable (n : RecallNodeRow)

def nodeSlots : Json.Fields := n.slots.getD []

def resolveExecutionKind : Option String := resolveNodeExecutionKind (nodeSlots n)

def resolveAnchorKind : Option String := resolveNodeAnchorKind (nodeSlots n)

def resolveSummaryKind : Option String := resolveNodeSummaryKind (nodeSlots n)

def resolveCompressionLayer : Option String := resolveNodeCompressionLayer (nodeSlots n) n.type

def semanticForgettingRecord : Option Json.Fields :=
  Json.asRecord (Json.field n.slots "semantic_forgetting_v1")

def archiveRelocationRecord : Option Json.Fields :=
  Json.asRecord (Json.field n.slots "archive_relocation_v1")

def resolveSemanticForgettingAction : Option String :=
  textAmong ["retain", "demote", "archive", "review"]
    (Json.field (semanticForgettingRecord n) "action")

def resolveArchiveRelocationState : Option String :=
  textAmong ["none", "candidate", "cold_archive"]
    (Json.field (archiveRelocationRecord n) "relocation_state")

def resolveArchiveRelocationTarget : Option String :=
  textAmong ["none", "local_cold_store", "external_object_store"]
    (Json.field (archiveRelocationRecord n) "relocation_target")

def resolveArchivePayloadScope : Option String :=
  textAmong ["none", "anchor_payload", "node"]
    (Json.field (archiveRelocationRecord n) "payload_scope")

/-- `resolveNodeRehydrationDefaultMode` of the slots. -/
def resolveRehydrationDefaultMode : Option String :=
  let anchor := parseNodeAnchor (nodeSlots n)
  (firstString [Json.field (parseNodeExecutionNative (nodeSlots n)) "rehydration_default_mode",
    Json.field (Json.asRecord (Json.field anchor "rehydration")) "default_mode"]).filter
      (· ∈ ["summary_only", "partial", "full", "differential"])

def contextDraft : Bool :=
  n.type == "topic" &&
    match n.topicState with
    | some state => state == "draft"
    | none => Json.same ((Json.field n.slots "topic_state").getD .null) (.str "draft")

def isCompressionConcept : Bool :=
  n.type == "concept" && resolveSummaryKind n == some "compression_rollup"

def isSemanticAbstractionConcept : Bool :=
  n.type == "concept" && resolveSummaryKind n == some "semantic_abstraction"

def isExecutionNativeWorkflowProcedure : Bool :=
  n.type == "procedure" &&
    (resolveExecutionKind n == some "workflow_anchor" || resolveAnchorKind n == some "workflow")

variable (options : ContextBuildOptions)

def isSummaryFirstConcept : Bool :=
  isCompressionConcept n || options.internalAllowL4Preview && isSemanticAbstractionConcept n

def isSummaryFirstNode : Bool :=
  isSummaryFirstConcept n options || isExecutionNativeWorkflowProcedure n

/-- The id in an entry of `slots.citations`. -/
def citedNodeId : Json → Option String
  | .obj c => match Json.get c "node_id" with
    | some (.str id) => some id
    | _ => none
  | .str id => some id
  | _ => none

def nodeCitations : List Json := (Json.asArray (Json.field n.slots "citations")).getD []

end Node

/-! ## Selection -/

structure SelectionCollector where
  retrievedLayers : List String := []
  retrievedUnlayeredCount : Nat := 0
  filteredByLayer : OrderedMap String Nat := OrderedMap.empty
  filteredCount : Nat := 0

/-- The layers that a request lets through, where it names any. -/
def allowedLayers (policy : Option MemoryLayerPolicy) : Option (List String) :=
  policy.bind fun p => match p.source with
    | .requestOverride => some (p.preferredLayers ++ p.fallbackLayers ++ p.trustAnchorLayers)
    | .endpointDefault => none

def layerAllowed (policy : Option MemoryLayerPolicy) (n : RecallNodeRow) : Bool :=
  match allowedLayers policy with
  | none => true
  | some layers => match resolveCompressionLayer n with
    | none => false
    | some layer => layer ∈ layers

def SelectionCollector.observe (policy : Option MemoryLayerPolicy) (c : SelectionCollector)
    (n : RecallNodeRow) : SelectionCollector :=
  let seen := match resolveCompressionLayer n with
    | some layer => { c with
        retrievedLayers := if layer ∈ c.retrievedLayers then c.retrievedLayers
          else c.retrievedLayers ++ [layer] }
    | none => { c with retrievedUnlayeredCount := c.retrievedUnlayeredCount + 1 }
  if layerAllowed policy n then seen
  else
    let key := (resolveCompressionLayer n).getD "unknown"
    { seen with
      filteredCount := c.filteredCount + 1
      filteredByLayer := c.filteredByLayer.set key ((c.filteredByLayer.get key).getD 0 + 1) }

/-- `new Map(layers.map((layer, idx) => [layer, idx])).get(layer)`. -/
def layerPlace (layers : List String) (layer : String) : Option Nat :=
  (layers.zipIdx.reverse.find? (·.1 = layer)).map (·.2)

def layerPreference (p : MemoryLayerPolicy) (n : RecallNodeRow) : Nat :=
  let fallbackOffset := p.preferredLayers.length
  let unknownLayerRank := fallbackOffset + p.fallbackLayers.length + 32
  match resolveCompressionLayer n with
  | none => unknownLayerRank + 16
  | some layer =>
    ((layerPlace p.preferredLayers layer).or
      ((layerPlace p.fallbackLayers layer).map (fallbackOffset + ·))).getD unknownLayerRank

/-- The nodes of some types in the order of their ranks, drafts of topics left out. -/
def rankedOfTypes (ranked : List RankedNode) (nodes : OrderedMap String RecallNodeRow)
    (types : List String) : List RecallNodeRow :=
  ranked.filterMap fun r => (nodes.get r.id).filter fun n => n.type ∈ types && !contextDraft n

/-- The order of a layer policy; nodes that it does not tell apart keep their ranks. -/
def sortByLayer : Option MemoryLayerPolicy → List RecallNodeRow → List RecallNodeRow
  | none, out => out
  | some p, out => out.mergeSort fun a b => layerPreference p a ≤ layerPreference p b

def pickTop (ranked : List RankedNode) (nodes : OrderedMap String RecallNodeRow)
    (types : List String) (limit : Nat) (policy : Option MemoryLayerPolicy) :
    List RecallNodeRow :=
  (sortByLayer policy ((rankedOfTypes ranked nodes types).filter (layerAllowed policy))).take limit

/-- What `pickTop` notes in the collector. -/
def pickTopCollect (ranked : List RankedNode) (nodes : OrderedMap String RecallNodeRow)
    (types : List String) (policy : Option MemoryLayerPolicy) (c : SelectionCollector) :
    SelectionCollector :=
  (rankedOfTypes ranked nodes types).foldl (SelectionCollector.observe policy) c

def sortTopicNodes (options : ContextBuildOptions) (nodes : List RecallNodeRow) :
    List RecallNodeRow :=
  nodes.mergeSort fun a b =>
    if isSummaryFirstNode a options ≠ isSummaryFirstNode b options then
      isSummaryFirstNode a options
    else if isExecutionNativeWorkflowProcedure a ≠ isExecutionNativeWorkflowProcedure b then
      isExecutionNativeWorkflowProcedure a
    else true

/-! ## Budgets -/

/-- Four characters are a token. -/
def estimateTokenCountFromText (text : String) : Nat :=
  if length text = 0 then 0 else max 1 ((length text + 3) / 4)

def resolveContextTokenBudget (options : ContextBuildOptions) : Option Nat :=
  match options.contextTokenBudget with
  | some (.finite x) => if 0 < x then some (max 1 ⌊x⌋.toNat) else none
  | _ => none

def resolveContextCharBudget (options : ContextBuildOptions) : Option Nat :=
  let byTokens := (resolveContextTokenBudget options).map fun tokens => max 160 (tokens * 4)
  match options.contextCharBudget with
  | some (.finite x) => if 0 < x then some (max 160 ⌊x⌋.toNat) else byTokens
  | _ => byTokens

def resolveCompactionProfile (options : ContextBuildOptions) : ContextCompactionProfile :=
  options.contextCompactionProfile.getD .balanced

def compactionPolicy (options : ContextBuildOptions) : ContextCompactionPolicy :=
  CONTEXT_COMPACTION_POLICY (resolveCompactionProfile options)

def compactMode (options : ContextBuildOptions) : Bool :=
  (resolveContextCharBudget options).isSome || resolveCompactionProfile options == .aggressive

/-! ## The nodes of the sections -/

section Sections

variable (ranked : List RankedNode) (nodes : OrderedMap String RecallNodeRow)
  (options : ContextBuildOptions)

def contextTopics : List RecallNodeRow :=
  sortTopicNodes options
    (pickTop ranked nodes ["topic", "concept", "procedure"] 4 options.layerPolicy)

def contextEntities : List RecallNodeRow := pickTop ranked nodes ["entity"] 6 options.layerPolicy

def hasSummaryFirstNode : Bool :=
  (contextTopics ranked nodes options).any (isSummaryFirstNode · options)

/-- What the summaries cite. -/
def compressionCited : List String :=
  ((contextTopics ranked nodes options).filter (isSummaryFirstNode · options)).flatMap fun n =>
    ((nodeCitations n).filterMap citedNodeId).filter (· ≠ "")

def contextEvents : List RecallNodeRow :=
  let summaryFirst := hasSummaryFirstNode ranked nodes options
  let rawEvents := pickTop ranked nodes ["event", "evidence"] (if summaryFirst then 24 else 10)
    options.layerPolicy
  let eventBase :=
    if summaryFirst then
      (rawEvents.filter (·.id ∉ compressionCited ranked nodes options)).take 5
    else rawEvents.take 10
  if compactMode options then eventBase.take (compactionPolicy options).maxEventLinesCompact
  else eventBase

def contextRules : List RecallNodeRow := pickTop ranked nodes ["rule"] 6 options.layerPolicy

def selectionCollected : SelectionCollector :=
  [["topic", "concept", "procedure"], ["entity"], ["event", "evidence"], ["rule"]].foldl
    (fun c types => pickTopCollect ranked nodes types options.layerPolicy c) {}

end Sections

/-! ## Lines -/

structure SectionLine where
  sectionId : SectionId
  text : String
  importance : Nat
  deriving DecidableEq, Repr

/-- A text that is there and not empty. -/
def truthyText (s : Option String) : Option String := s.filter (· ≠ "")

section Lines

variable (env : ContextEnv) (options : ContextBuildOptions)
  (ruleDefs : OrderedMap String RecallRuleDefRow) (n : RecallNodeRow)

def sectionLine (s : SectionId) (text : String) (importance : Nat) : SectionLine where
  sectionId := s
  text := text
  importance := importance + (compactionPolicy options).sectionImportanceBias s

def labelOf : String := n.title.getD n.id

def summaryPart : String := ((truthyText n.textSummary).map (": " ++ ·)).getD ""

/-- `- label: summary (node:id`. -/
def headOf : String := "- " ++ labelOf n ++ summaryPart n ++ " (node:" ++ n.id

def topicLines : List SectionLine :=
  if isSummaryFirstConcept n options then
    let covered := env.numberText
      ((Json.orElse (Json.field n.slots "source_event_count") none).getD (.num 0))
    let refs := (nodeCitations n).take
      (if compactMode options then (compactionPolicy options).maxTopicEvidenceLines else 3)
    sectionLine options .topics (headOf n ++ ", " ++ (resolveSummaryKind n).getD "summary" ++
        ", covers=" ++ covered ++ ")") 10 ::
      ((refs.filterMap citedNodeId).filter (· ≠ "")).map fun id =>
        sectionLine options .topics ("  evidence_node=" ++ id) 90
  else if isExecutionNativeWorkflowProcedure n then
    let task := ((truthyText (resolveNodeTaskSignature (nodeSlots n) env.toScoringEnv)).map
      (", task=" ++ ·)).getD ""
    [sectionLine options .topics (headOf n ++ ", " ++
      (resolveSummaryKind n).getD "workflow_anchor" ++ ", level=" ++
      (resolveCompressionLayer n).getD "unknown" ++ task ++ ")") 5]
  else [sectionLine options .topics (headOf n ++ ")") 10]

def entityLines : List SectionLine := [sectionLine options .entities (headOf n ++ ")") 40]

def eventLines : List SectionLine :=
  let refs := ((truthyText n.rawRef).map ("raw_ref=" ++ ·)).toList ++
    ((truthyText n.evidenceRef).map ("evidence_ref=" ++ ·)).toList
  let part (s : Option String) (p : String) : String :=
    ((truthyText s).map (", " ++ p ++ ·)).getD ""
  [sectionLine options .events ("- " ++ n.textSummary.getD "(no summary)" ++ " (node:" ++ n.id ++
    part (resolveSummaryKind n) "" ++ part (resolveExecutionKind n) "" ++
    part (resolveCompressionLayer n) "level=" ++
    (if refs = [] then "" else ", " ++ ", ".intercalate refs) ++ ")") 70]

def ruleScopeInfo : Option RecallRuleDefRow → String
  | none => ""
  | some d => ((truthyText (some d.ruleScope)).map (" scope=" ++ ·)).getD ""

def ruleTargetInfo : Option RecallRuleDefRow → String
  | none => ""
  | some d =>
    if d.ruleScope = "agent" then
      ((truthyText d.targetAgentId).map (" target_agent=" ++ ·)).getD ""
    else if d.ruleScope = "team" then
      ((truthyText d.targetTeamId).map (" target_team=" ++ ·)).getD ""
    else ""

def ruleStats : Option RecallRuleDefRow → String
  | none => ""
  | some d => " pos=" ++ env.countText d.positiveCount ++ " neg=" ++ env.countText d.negativeCount

def ruleLines : List SectionLine :=
  let d := ruleDefs.get n.id
  let ifj := Json.orElse (d.map (·.ifJson)) (Json.field n.slots "if")
  let thenj := Json.orElse (d.map (·.thenJson)) (Json.field n.slots "then")
  let jsonLine (key : String) (v : Option Json) : List SectionLine :=
    if (compactionPolicy options).includeRuleJsonLines && Json.truthy v then
      [sectionLine options .rules ("  " ++ key ++ "=" ++ env.stringify (v.getD .null)) 80]
    else []
  sectionLine options .rules ("- state=" ++ (d.map (·.state)).getD "unknown" ++ ruleScopeInfo d ++
      ruleTargetInfo d ++ ruleStats env d ++ " summary=" ++ n.textSummary.getD "(none)" ++
      " (node:" ++ n.id ++ ")") 20 ::
    (jsonLine "if" ifj ++ jsonLine "then" thenj)

end Lines

/-- The lines of each item, in the order in which they are added. -/
def contextLines (env : ContextEnv) (ranked : List RankedNode)
    (nodes : OrderedMap String RecallNodeRow) (ruleDefs : OrderedMap String RecallRuleDefRow)
    (options : ContextBuildOptions) : List (List SectionLine) :=
  (contextTopics ranked nodes options).map (topicLines env options) ++
    (contextEntities ranked nodes options).map (entityLines options) ++
    (contextEvents ranked nodes options).map (eventLines options) ++
    (contextRules ranked nodes options).map (ruleLines env options ruleDefs)

/-! ## Text -/

def sectionOrder : List SectionId := [.topics, .entities, .events, .rules]

def sectionTitle : SectionId → String
  | .topics => "Topics / Concepts"
  | .entities => "Entities"
  | .events => "Supporting Events / Evidence"
  | .rules => "Applicable Rules (Shadow/Active)"

/-- The lines under the titles of their sections, a blank line between two sections. -/
def renderText (active : List SectionLine) : String :=
  "\n".intercalate <| sectionOrder.foldl (fun out s =>
    match active.filter (·.sectionId = s) with
    | [] => out
    | lines => out ++ (if out = [] then [] else [""]) ++ ("# " ++ sectionTitle s) ::
        lines.map (·.text)) []

/-- A line with its place among all lines, which tells it from a line with the same text. -/
abbrev PlacedLine := SectionLine × Nat

def activeLines (lines inactive : List PlacedLine) : List SectionLine :=
  (lines.filter (· ∉ inactive)).map (·.1)

structure Compacting where
  inactive : List PlacedLine
  activeCount : Nat
  droppedLines : Nat
  droppedBySection : SectionId → Nat
  text : String

def Compacting.start (lines : List PlacedLine) : Compacting where
  inactive := []
  activeCount := lines.length
  droppedLines := 0
  droppedBySection _ := 0
  text := renderText (lines.map (·.1))

/-- The two ways out of the loop. -/
def Compacting.stop (charBudget : Nat) (c : Compacting) (line : PlacedLine) : Bool :=
  length c.text ≤ charBudget || (line ∉ c.inactive && c.activeCount ≤ 1)

def Compacting.drop (lines : List PlacedLine) (c : Compacting) (line : PlacedLine) : Compacting :=
  if line ∈ c.inactive then c
  else {
    inactive := c.inactive ++ [line]
    activeCount := c.activeCount - 1
    droppedLines := c.droppedLines + 1
    droppedBySection := fun s =>
      if s = line.1.sectionId then c.droppedBySection s + 1 else c.droppedBySection s
    text := renderText (activeLines lines (c.inactive ++ [line])) }

def removable (lines : List PlacedLine) : List PlacedLine :=
  (sectionOrder.flatMap fun s => lines.filter (·.1.sectionId = s)).mergeSort
    fun a b => b.1.importance ≤ a.1.importance

def compactLines (charBudget : Option Nat) (lines : List PlacedLine) : Compacting :=
  let start := Compacting.start lines
  match charBudget with
  | none => start
  | some budget =>
    if budget < length start.text then
      foldUntil (Compacting.stop budget) (Compacting.drop lines) start (removable lines)
    else start

structure ContextCompactionDiagnostics where
  profile : ContextCompactionProfile
  tokenBudget : Option Nat
  charBudget : Option Nat
  applied : Bool
  beforeChars : Nat
  afterChars : Nat
  beforeEstTokens : Nat
  afterEstTokens : Nat
  droppedLines : Nat
  droppedBySection : SectionId → Nat

def compactionDiagnostics (options : ContextBuildOptions) (before : String) (c : Compacting) :
    ContextCompactionDiagnostics where
  profile := resolveCompactionProfile options
  tokenBudget := resolveContextTokenBudget options
  charBudget := resolveContextCharBudget options
  applied := length c.text < length before
  beforeChars := length before
  afterChars := length c.text
  beforeEstTokens := estimateTokenCountFromText before
  afterEstTokens := estimateTokenCountFromText c.text
  droppedLines := c.droppedLines
  droppedBySection := c.droppedBySection

/-! ## Items and citations -/

structure ContextNodeFacts where
  commitId : Option String
  tier : String
  salience : ℚ
  lifecycleState : String
  compressionLayer : Option String
  summaryKind : Option String
  executionKind : Option String
  anchorKind : Option String
  semanticForgettingAction : Option String
  archiveRelocationState : Option String
  archiveRelocationTarget : Option String
  archivePayloadScope : Option String
  rehydrationDefaultMode : Option String

/-- The fields that only the item of a rule has. -/
structure ContextRuleFacts where
  state : Option String
  ruleScope : Option String
  targetAgentId : Option String
  targetTeamId : Option String
  ifJson : Option Json
  thenJson : Option Json
  exceptionsJson : Option Json
  stats : Option (Option ℚ × Option ℚ)

structure ContextItem extends ContextNodeFacts where
  kind : String
  nodeId : String
  uri : Option String
  title : Option String := none
  summary : Option String
  rawRef : Option String := none
  evidenceRef : Option String := none
  rule : Option ContextRuleFacts := none

structure ContextCitation extends ContextNodeFacts where
  nodeId : String
  uri : Option String
  commitUri : Option String
  rawRef : Option String
  evidenceRef : Option String

def AIONIS_URI_NODE_TYPES : List String :=
  ["event", "entity", "topic", "rule", "evidence", "concept", "procedure", "self_model"]

section Items

variable (env : ContextEnv) (options : ContextBuildOptions)

/-- The tenant and the scope of the URIs, where both are given. -/
def uriPlace : Option (String × String) :=
  let tenantId := trim (options.tenantId.getD "")
  let scope := trim (options.scope.getD "")
  if tenantId = "" ∨ scope = "" then none else some (tenantId, scope)

def buildNodeUri (n : RecallNodeRow) : Except RequestError (Option String) :=
  match uriPlace options with
  | none => .ok none
  | some (tenantId, scope) =>
    if n.type ∈ AIONIS_URI_NODE_TYPES then
      (buildAionisUri ⟨tenantId, scope, n.type, n.id⟩).map some
    else .ok none

def buildCommitUri (commitId : Option String) : Except RequestError (Option String) :=
  match uriPlace options with
  | none => .ok none
  | some (tenantId, scope) =>
    let id := trim (commitId.getD "")
    if id = "" then .ok none
    else (buildAionisUri ⟨tenantId, scope, "commit", id⟩).map some

def nodeFacts (n : RecallNodeRow) : ContextNodeFacts where
  commitId := n.commitId
  tier := n.tier
  salience := n.salience
  lifecycleState :=
    ((Json.orElse (Json.field n.slots "lifecycle_state") none).map env.text).getD "active"
  compressionLayer := resolveCompressionLayer n
  summaryKind := resolveSummaryKind n
  executionKind := resolveExecutionKind n
  anchorKind := resolveAnchorKind n
  semanticForgettingAction := resolveSemanticForgettingAction n
  archiveRelocationState := resolveArchiveRelocationState n
  archiveRelocationTarget := resolveArchiveRelocationTarget n
  archivePayloadScope := resolveArchivePayloadScope n
  rehydrationDefaultMode := resolveRehydrationDefaultMode n

def topicItem (n : RecallNodeRow) (uri : Option String) : ContextItem :=
  { nodeFacts env n with
    kind := n.type, nodeId := n.id, uri := uri, title := n.title, summary := n.textSummary }

def entityItem (n : RecallNodeRow) (uri : Option String) : ContextItem :=
  { nodeFacts env n with
    kind := "entity", nodeId := n.id, uri := uri, title := n.title, summary := n.textSummary }

def eventItem (n : RecallNodeRow) (uri : Option String) : ContextItem :=
  { nodeFacts env n with
    kind := n.type, nodeId := n.id, uri := uri, summary := n.textSummary, rawRef := n.rawRef
    evidenceRef := n.evidenceRef }

/-- What a field of a definition says, or else the field of the slots. -/
def definedOr (n : RecallNodeRow) (v : Option Json) (k : String) : Option Json :=
  Json.orElse v (Json.orElse (Json.field n.slots k) none)

def ruleItem (ruleDefs : OrderedMap String RecallRuleDefRow) (n : RecallNodeRow)
    (uri : Option String) : ContextItem :=
  let d := ruleDefs.get n.id
  { nodeFacts env n with
    kind := "rule", nodeId := n.id, uri := uri, summary := n.textSummary
    rule := some {
      state := d.map (·.state)
      ruleScope := d.map (·.ruleScope)
      targetAgentId := d.bind (·.targetAgentId)
      targetTeamId := d.bind (·.targetTeamId)
      ifJson := definedOr n (d.map (·.ifJson)) "if"
      thenJson := definedOr n (d.map (·.thenJson)) "then"
      exceptionsJson := definedOr n (d.map (·.exceptionsJson)) "exceptions"
      stats := d.map fun d => (d.positiveCount, d.negativeCount) } }

/-- A node is cited once. -/
def pushCitation (citations : List ContextCitation) (n : RecallNodeRow) :
    Except RequestError (List ContextCitation) :=
  if n.id ∈ citations.map (·.nodeId) then .ok citations
  else do
    let uri ← buildNodeUri options n
    let commitUri ← buildCommitUri options n.commitId
    return citations ++ [{ nodeFacts env n with
      nodeId := n.id, uri := uri, commitUri := commitUri, rawRef := n.rawRef
      evidenceRef := n.evidenceRef }]

/-- The item of a node, and its citation. -/
def pushItem (item : RecallNodeRow → Option String → ContextItem)
    (out : List ContextItem × List ContextCitation) (n : RecallNodeRow) :
    Except RequestError (List ContextItem × List ContextCitation) := do
  let uri ← buildNodeUri options n
  let citations ← pushCitation env options out.2 n
  return (out.1 ++ [item n uri], citations)

end Items

structure ContextSelectionStats where
  retrievedMemoryLayers : List String
  retrievedUnlayeredCount : Nat
  selectedMemoryLayers : List String
  selectedUnlayeredCount : Nat
  filteredByLayerPolicyCount : Nat
  filteredByLayer : List (String × Nat)

def selectionStats (env : ContextEnv) (collected : SelectionCollector)
    (items : List ContextItem) : ContextSelectionStats where
  retrievedMemoryLayers := sortStrings collected.retrievedLayers
  retrievedUnlayeredCount := collected.retrievedUnlayeredCount
  selectedMemoryLayers := sortStrings (distinctStrings (items.filterMap (·.compressionLayer)))
  selectedUnlayeredCount := items.countP fun item => trim (item.compressionLayer.getD "") = ""
  filteredByLayerPolicyCount := collected.filteredCount
  filteredByLayer := collected.filteredByLayer.entries.mergeSort
    fun a b => env.localeCompare a.1 b.1 ≤ 0

structure BuiltContext where
  text : String
  items : List ContextItem
  citations : List ContextCitation
  compaction : ContextCompactionDiagnostics
  selectionStats : ContextSelectionStats

def buildContext (env : ContextEnv) (ranked : List RankedNode)
    (nodes : OrderedMap String RecallNodeRow) (ruleDefs : OrderedMap String RecallRuleDefRow)
    (options : ContextBuildOptions) : Except RequestError BuiltContext := do
  let out ← (contextTopics ranked nodes options).foldlM
    (pushItem env options (topicItem env)) ([], [])
  let out ← (contextEntities ranked nodes options).foldlM
    (pushItem env options (entityItem env)) out
  let out ← (contextEvents ranked nodes options).foldlM (pushItem env options (eventItem env)) out
  let out ← (contextRules ranked nodes options).foldlM
    (pushItem env options (ruleItem env ruleDefs)) out
  let lines := (contextLines env ranked nodes ruleDefs options).flatten
  let compacted := compactLines (resolveContextCharBudget options) lines.zipIdx
  return {
    text := compacted.text
    items := out.1
    citations := out.2
    compaction := compactionDiagnostics options (renderText lines) compacted
    selectionStats := selectionStats env (selectionCollected ranked nodes options) out.1 }

end AionisCore.Memory
