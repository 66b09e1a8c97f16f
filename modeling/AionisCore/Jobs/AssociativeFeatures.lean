import AionisCore.Memory.NodeExecutionSurface
import AionisCore.Store.AssociationStore

/-!
# What two nodes have in common

`extractAssociativeFeatures` compares the anchors, the validation targets, the rollback
notes, the words and the embeddings of two nodes, and `scoreAssociativeCandidate` turns the
result into a score, a confidence and a kind of relation. Numbers are exact.
-/

namespace AionisCore.Jobs

open Lib Lib.JsString Memory Store

/-- What the linking takes from the language; none stands for what is not finite. -/
structure LinkingHost where
  toLowerCase : String → String
  /-- `Number(s)`. -/
  toNumber : String → Option ℚ
  sqrt : ℚ → ℚ
  /-- `Date.parse`. -/
  dateParse : String → Option ℚ
  localeCompare : String → String → Int

structure RecallAssociativeNodeRow where
  id : String
  scope : String
  type : String
  memoryLane : MemoryLane
  ownerAgentId : Option String
  ownerTeamId : Option String
  title : Option String
  textSummary : Option String
  slots : Json.Fields
  embeddingText : Option String
  createdAt : String
  commitId : Option String

structure AssociativeFeatureSet where
  embeddingSimilarity : ℚ
  textOverlap : ℚ
  fileOverlap : ℚ
  symbolOverlap : ℚ
  validationOverlap : ℚ
  rollbackOverlap : ℚ
  handoffAnchorMatch : ℚ
  recencyBoost : ℚ
  repoRoot : Option String
  filePath : Option String
  symbol : Option String
  sharedValidationTargets : List String
  sharedRollbackNotes : List String

structure AssociativeScoredCandidate where
  relationKind : AssociativeRelationKind
  score : ℚ
  confidence : ℚ

/-- `Math.round(value * 10000) / 10000`. -/
def round4 (value : ℚ) : ℚ := ((value * 10000 + 1 / 2).floor : ℚ) / 10000

def clampScore (value : ℚ) : ℚ := if value < 0 then 0 else if 1 < value then 1 else value

def toNonEmptyString (value : Option Json) : Option String := firstString [value]

/-! ## Anchors -/

structure AnchorShape where
  anchor : Option String
  repoRoot : Option String
  filePath : Option String
  symbol : Option String

def readAnchorFromObject (value : Option Json) : Option AnchorShape :=
  (Json.asRecord value).map fun obj =>
    { anchor := toNonEmptyString (Json.get obj "anchor")
      repoRoot := toNonEmptyString (Json.get obj "repo_root")
      filePath := toNonEmptyString (Json.get obj "file_path")
      symbol := toNonEmptyString (Json.get obj "symbol") }

def resumeAnchorOf (value : Option Json) : Option Json :=
  Json.field (Json.asRecord value) "resume_anchor"

def resolveNodeAnchor (slots : Json.Fields) : AnchorShape :=
  ((((readAnchorFromObject (Json.get slots "resume_anchor")).or
    (readAnchorFromObject (resumeAnchorOf (Json.get slots "execution_state_v1")))).or
    (readAnchorFromObject (resumeAnchorOf (Json.get slots "execution_packet_v1")))).or
    (readAnchorFromObject (Json.get slots "prompt_safe_handoff"))).or
    (readAnchorFromObject (Json.get slots "execution_ready_handoff")) |>.getD
    ⟨none, none, none, none⟩

section Texts

variable (host : LinkingHost)

/-- `uniqueStrings`: the first of each text, up to the case of letters. -/
def uniqueStrings (values : List Json) : List String :=
  ((values.filterMap fun v => toNonEmptyString (some v)).foldl (fun (out : List String) s =>
    if out.any fun t => host.toLowerCase t = host.toLowerCase s then out else s :: out) []).reverse

def entriesOf (value : Option Json) : List Json := (Json.asArray value).getD []

def extractValidationTargets (slots : Json.Fields) : List String :=
  let state := Json.asRecord (Json.get slots "execution_state_v1")
  let reviewer := Json.asRecord (Json.field state "reviewer_contract")
  let executionReady := Json.asRecord (Json.get slots "execution_ready_handoff")
  uniqueStrings host
    (entriesOf (Json.field state "pending_validations") ++
      entriesOf (Json.field state "completed_validations") ++
      entriesOf (Json.field reviewer "acceptance_checks") ++
      entriesOf (Json.field executionReady "acceptance_checks") ++
      entriesOf (Json.get slots "acceptance_checks"))

def extractRollbackNotes (slots : Json.Fields) : List String :=
  let state := Json.asRecord (Json.get slots "execution_state_v1")
  let executionReady := Json.asRecord (Json.get slots "execution_ready_handoff")
  uniqueStrings host
    (entriesOf (Json.field state "rollback_notes") ++
      entriesOf (Json.field executionReady "must_keep") ++
      entriesOf (Json.get slots "rollback_notes"))

def isTokenChar (c : Char) : Bool :=
  ('a' ≤ c && c ≤ 'z') || ('0' ≤ c && c ≤ '9') || c = '_' || c = '.' || c = '/' || c = '-'

/-- The distinct longest runs of token characters, of at least three characters each. -/
def tokenizeText (input : String) : List String :=
  (((host.toLowerCase input).toList.splitOnP (!isTokenChar ·)).filter (3 ≤ ·.length)).map
    String.ofList |>.eraseDups

def jaccard (a b : List String) : ℚ :=
  if a = [] ∨ b = [] then 0
  else
    let intersection := (a.filter (· ∈ b)).length
    let union := a.length + b.length - intersection
    if union = 0 then 0 else (intersection : ℚ) / union

/-- The ratio and the shared texts, in the spelling that `b` has last. -/
def stringArrayOverlap (a b : List String) : ℚ × List String :=
  if a = [] ∨ b = [] then (0, [])
  else
    let right (s : String) : Option String :=
      b.reverse.find? fun t => host.toLowerCase t = host.toLowerCase s
    let shared := a.filterMap right
    let union := ((a ++ b).map host.toLowerCase).eraseDups
    (if union.length = 0 then 0 else (shared.length : ℚ) / union.length, shared)

/-! ## Embeddings and times -/

/-- The numbers between brackets; what is no finite number is left out. -/
def parseEmbedding (text : Option String) : Option (List ℚ) :=
  match text.map fun s => (trim s).toList with
  | some ('[' :: rest) =>
    if rest.getLast? = some ']' then
      let parts := (rest.dropLast.splitOnP (· = ',')).filterMap fun part =>
        host.toNumber (trim (String.ofList part))
      if parts = [] then none else some parts
    else none
  | _ => none

def cosineSimilarity (left right : Option (List ℚ)) : ℚ :=
  match left, right with
  | some left, some right =>
    if left.length ≠ right.length then 0
    else
      let dot := ((left.zip right).map fun p => p.1 * p.2).sum
      let leftNorm := (left.map fun x => x * x).sum
      let rightNorm := (right.map fun x => x * x).sum
      if leftNorm ≤ 0 ∨ rightNorm ≤ 0 then 0
      else clampScore (dot / (host.sqrt leftNorm * host.sqrt rightNorm))
  | _, _ => 0

def computeRecencyBoost (sourceCreatedAt candidateCreatedAt : String) : ℚ :=
  match host.dateParse sourceCreatedAt, host.dateParse candidateCreatedAt with
  | some source, some candidate =>
    let days := |source - candidate| / (24 * 60 * 60 * 1000)
    if days ≤ 1 then 1
    else if days ≤ 7 then 6 / 10
    else if days ≤ 30 then 3 / 10
    else 1 / 10
  | _, _ => 1 / 10

/-! ## Features and scores -/

def sameText (a b : Option String) : Bool := a.isSome && a == b

def extractAssociativeFeatures (source candidate : RecallAssociativeNodeRow) :
    AssociativeFeatureSet :=
  let sourceAnchor := resolveNodeAnchor source.slots
  let candidateAnchor := resolveNodeAnchor candidate.slots
  let validationOverlap := stringArrayOverlap host (extractValidationTargets host source.slots)
    (extractValidationTargets host candidate.slots)
  let rollbackOverlap := stringArrayOverlap host (extractRollbackNotes host source.slots)
    (extractRollbackNotes host candidate.slots)
  let tokens (n : RecallAssociativeNodeRow) :=
    tokenizeText host (n.title.getD "" ++ " " ++ n.textSummary.getD "")
  let fileOverlap : ℚ :=
    if sameText sourceAnchor.filePath candidateAnchor.filePath then 1
    else if sameText sourceAnchor.repoRoot candidateAnchor.repoRoot then 1 / 2
    else 0
  let symbolOverlap : ℚ := if sameText sourceAnchor.symbol candidateAnchor.symbol then 1 else 0
  let handoffAnchorMatch : ℚ :=
    if sameText sourceAnchor.anchor candidateAnchor.anchor then 1 else fileOverlap
  { embeddingSimilarity := round4 (cosineSimilarity host
      (parseEmbedding host source.embeddingText) (parseEmbedding host candidate.embeddingText))
    textOverlap := round4 (jaccard (tokens source) (tokens candidate))
    fileOverlap := round4 fileOverlap
    symbolOverlap := round4 symbolOverlap
    validationOverlap := round4 validationOverlap.1
    rollbackOverlap := round4 rollbackOverlap.1
    handoffAnchorMatch := round4 handoffAnchorMatch
    recencyBoost := round4 (computeRecencyBoost host source.createdAt candidate.createdAt)
    repoRoot := sourceAnchor.repoRoot.or candidateAnchor.repoRoot
    filePath := sourceAnchor.filePath.or candidateAnchor.filePath
    symbol := sourceAnchor.symbol.or candidateAnchor.symbol
    sharedValidationTargets := validationOverlap.2.take 8
    sharedRollbackNotes := rollbackOverlap.2.take 8 }

end Texts

def relationKindOf (f : AssociativeFeatureSet) : AssociativeRelationKind :=
  if 1 ≤ f.fileOverlap ∧
      (85 / 100 ≤ f.embeddingSimilarity ∨ 1 ≤ f.symbolOverlap ∨ 1 ≤ f.handoffAnchorMatch) then
    .sameTask
  else if 4 / 10 ≤ f.validationOverlap ∨ 4 / 10 ≤ f.rollbackOverlap then .supports
  else if 1 / 2 ≤ f.handoffAnchorMatch ∨ 1 / 2 ≤ f.fileOverlap then .extending
  else if 97 / 100 ≤ f.embeddingSimilarity ∧ 75 / 100 ≤ f.textOverlap then .repeats
  else if 1 ≤ f.fileOverlap ∧ 8 / 10 ≤ f.recencyBoost then .supersedes
  else .supports

def scoreAssociativeCandidate (f : AssociativeFeatureSet) : AssociativeScoredCandidate :=
  let validationSignal := max f.validationOverlap (f.rollbackOverlap * (8 / 10))
  let score := clampScore (35 / 100 * f.embeddingSimilarity + 2 / 10 * f.fileOverlap +
    15 / 100 * f.symbolOverlap + 15 / 100 * validationSignal + 1 / 10 * f.handoffAnchorMatch +
    5 / 100 * f.recencyBoost)
  let confidence := clampScore (score * (92 / 100) +
    if 0 < f.fileOverlap ∨ 0 < validationSignal then 6 / 100 else 0)
  { relationKind := relationKindOf f, score := round4 score, confidence := round4 confidence }

end AionisCore.Jobs
