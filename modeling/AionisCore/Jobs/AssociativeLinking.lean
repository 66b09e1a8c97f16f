import AionisCore.Jobs.AssociativeFeatures

/-!
# Associative linking

`runAssociativeLinkingJob` compares the source nodes of a trigger with a pool of nodes and
keeps shadow candidates for the best pairs. `promoteAssociativeCandidates` turns those that
pass its thresholds into edges.
-/

namespace AionisCore.Jobs

open Lib Lib.Table Lib.StableSort Lib.Journal Lib.JsString Util Store

structure AssociativeLinkingResolvedConfig where
  maxCandidatesPerSource : Nat := 24
  promotionScoreThreshold : ℚ := 92 / 100
  promotionConfidenceThreshold : ℚ := 9 / 10

structure AssociativeLinkTriggerPayload where
  scope : String
  sourceNodeIds : List String
  sourceCommitId : String

structure AssociativeLinkingJobResult where
  sourceCount : Nat
  candidatePoolSize : Nat
  evaluatedPairs : Nat
  shadowCreated : Nat
  promoted : Nat
  rejected : Nat

structure AssociativePromotionResult where
  evaluated : Nat
  promoted : Nat
  rejected : Nat

def isValidAssociativeCandidateStatusTransition (source target : AssociativeCandidateStatus) :
    Bool :=
  if source = target then true
  else match source with
    | .shadow => target = .promoted ∨ target = .rejected ∨ target = .expired
    | .rejected => target = .expired
    | .promoted => false
    | .expired => false

/-! ## Visibility -/

structure AssociativeVisibility where
  memoryLane : MemoryLane
  ownerAgentId : Option String
  ownerTeamId : Option String
  deriving DecidableEq

def asAssociativeVisibility (value : Option Json) : Option AssociativeVisibility :=
  (Json.asRecord value).bind fun obj =>
    let visibility (memoryLane : MemoryLane) : AssociativeVisibility :=
      { memoryLane
        ownerAgentId := toNonEmptyString (Json.get obj "owner_agent_id")
        ownerTeamId := toNonEmptyString (Json.get obj "owner_team_id") }
    match Json.get obj "memory_lane" with
    | some (.str "private") => some (visibility .privateLane)
    | some (.str "shared") => some (visibility .sharedLane)
    | _ => none

def RecallAssociativeNodeRow.visibility (n : RecallAssociativeNodeRow) : AssociativeVisibility :=
  ⟨n.memoryLane, n.ownerAgentId, n.ownerTeamId⟩

/-- The JSON record of a visibility. -/
def AssociativeVisibility.json (v : AssociativeVisibility) : Json :=
  .obj [("memory_lane", .str v.memoryLane.name), ("owner_agent_id", Json.orNull v.ownerAgentId),
    ("owner_team_id", Json.orNull v.ownerTeamId)]

def sharesOwner (left right : Option String) : Bool :=
  (given left).isSome && left == right

def isAssociativeVisibilityCompatible : Option AssociativeVisibility →
    Option AssociativeVisibility → Bool
  | some left, some right =>
    if left.memoryLane = .sharedLane ∨ right.memoryLane = .sharedLane then
      left.memoryLane = .sharedLane ∧ right.memoryLane = .sharedLane
    else
      sharesOwner left.ownerAgentId right.ownerAgentId ||
        sharesOwner left.ownerTeamId right.ownerTeamId
  | _, _ => false

/-! ## Nodes -/

/-- `memory_nodes`; a node is known by its scope and its id. -/
structure AssociativeNodes where
  rows : List RecallAssociativeNodeRow
  ids : Unique (fun n => (n.scope, n.id)) rows

namespace AssociativeNodes

variable (nodes : AssociativeNodes)

def newestFirst (rows : List RecallAssociativeNodeRow) : List RecallAssociativeNodeRow :=
  rows.mergeSort fun m n => n.createdAt ≤ m.createdAt

def listAssociativeNodesByIds (scope : String) (nodeIds : List String) :
    List RecallAssociativeNodeRow :=
  newestFirst (nodes.rows.filter fun n => n.scope = scope ∧ n.id ∈ nodeIds)

def listAssociativeCandidatePool (scope : String) (excludeNodeIds : List String) (limit : Nat) :
    List RecallAssociativeNodeRow :=
  (newestFirst (nodes.rows.filter fun n =>
    n.scope = scope ∧ n.type ∈ ["event", "evidence", "concept", "procedure"] ∧
      n.id ∉ excludeNodeIds)).take (max 1 (min 500 limit))

/-- In one scope a node is known by its id. -/
theorem nodup_ids_filter {p : RecallAssociativeNodeRow → Bool} {scope : String}
    (hp : ∀ n, p n → n.scope = scope) : ((nodes.rows.filter p).map (·.id)).Nodup := by
  have hunique : Unique (fun n => (n.scope, n.id)) (nodes.rows.filter p) := nodes.ids.filter
  have hkeys : (nodes.rows.filter p).map (fun n => (n.scope, n.id)) =
      ((nodes.rows.filter p).map (·.id)).map fun id => (scope, id) := by
    rw [List.map_map]
    refine List.map_congr_left fun n hn => ?_
    rw [Function.comp, hp n (List.mem_filter.1 hn).2]
  unfold Table.Unique at hunique
  rw [hkeys] at hunique
  exact hunique.of_map _

end AssociativeNodes

/-! ## The pairs of a source -/

structure ScoredRow where
  candidate : RecallAssociativeNodeRow
  features : AssociativeFeatureSet
  scored : AssociativeScoredCandidate
  visibilityCompatible : Bool

/-- `right.score - left.score || right.confidence - left.confidence` -/
def bestScored : ScoredRow → ScoredRow → Bool :=
  StableSort.lex (fun a b => b.scored.score ≤ a.scored.score) fun a b =>
    b.scored.confidence ≤ a.scored.confidence

def candidateIdentityKey (k : CandidateKey) : String :=
  s!"{k.scope}:{k.srcId}:{k.dstId}:{k.relationKind.name}"

section Pairs

variable (host : LinkingHost) (config : AssociativeLinkingResolvedConfig)
  (payload : AssociativeLinkTriggerPayload) (pool : List RecallAssociativeNodeRow)
  (source : RecallAssociativeNodeRow)

def scoreRow (candidate : RecallAssociativeNodeRow) : ScoredRow :=
  let features := extractAssociativeFeatures host source candidate
  { candidate, features
    scored := scoreAssociativeCandidate features
    visibilityCompatible :=
      isAssociativeVisibilityCompatible (some source.visibility) (some candidate.visibility) }

def comparable (candidate : RecallAssociativeNodeRow) : Bool :=
  candidate.id ≠ source.id ∧ candidate.scope = source.scope ∧ candidate.scope = payload.scope

def scoredRows : List ScoredRow :=
  ((pool.filter (comparable payload source)).map (scoreRow host source)).mergeSort bestScored

def scoredForSource : List ScoredRow :=
  (((scoredRows host payload pool source).filter fun row =>
    row.visibilityCompatible ∧ 1 / 2 ≤ row.scored.score).mergeSort bestScored).take
    config.maxCandidatesPerSource

/-- The compatible pairs with too low a score. -/
def rejectedForSource : List ScoredRow :=
  (scoredRows host payload pool source).filter fun row =>
    row.visibilityCompatible ∧ ¬ 1 / 2 ≤ row.scored.score

def ScoredRow.key (row : ScoredRow) : CandidateKey where
  scope := payload.scope
  srcId := source.id
  dstId := row.candidate.id
  relationKind := row.scored.relationKind

def featureSummaryJson (f : AssociativeFeatureSet) : Json.Fields := [
  ("embedding_similarity", .num f.embeddingSimilarity), ("file_overlap", .num f.fileOverlap),
  ("symbol_overlap", .num f.symbolOverlap), ("validation_overlap", .num f.validationOverlap),
  ("rollback_overlap", .num f.rollbackOverlap),
  ("handoff_anchor_match", .num f.handoffAnchorMatch), ("recency_boost", .num f.recencyBoost),
  ("repo_root", Json.orNull f.repoRoot), ("file_path", Json.orNull f.filePath),
  ("symbol", Json.orNull f.symbol)]

def evidenceJson (row : ScoredRow) : Json.Fields := [
  ("shared_validation_targets", .arr (row.features.sharedValidationTargets.map .str)),
  ("shared_rollback_notes", .arr (row.features.sharedRollbackNotes.map .str)),
  ("source_commit_id", .str payload.sourceCommitId),
  ("candidate_commit_id", Json.orNull row.candidate.commitId),
  ("source_visibility", source.visibility.json),
  ("candidate_visibility", row.candidate.visibility.json)]

def buildCandidateUpsert (status : AssociativeCandidateStatus) (row : ScoredRow) :
    UpsertAssociationCandidateArgs where
  toCandidateKey := row.key payload source
  status := status
  score := row.scored.score
  confidence := row.scored.confidence
  featureSummary := featureSummaryJson row.features
  evidence := evidenceJson payload source row
  sourceCommitId := some payload.sourceCommitId
  workerRunId := none
  promotedEdgeId := none

/-- The upserts that a source adds, as they are pushed. -/
def sourceUpserts : List UpsertAssociationCandidateArgs :=
  (scoredForSource host config payload pool source).map
      (buildCandidateUpsert payload source .shadow) ++
    (rejectedForSource host payload pool source).map
      (buildCandidateUpsert payload source .rejected)

/-- The pairs that are passed over, for whichever reason. -/
def rejectedCount : Nat :=
  (pool.filter (!comparable payload source ·)).length +
    ((scoredRows host payload pool source).filter (!·.visibilityCompatible)).length +
    (rejectedForSource host payload pool source).length

/-- A listed shadow candidate that the job selects no longer. -/
def isStale (existing : AssociationCandidateRecord) : Bool :=
  candidateIdentityKey existing.key ∉ (scoredForSource host config payload pool source).map
      (fun row => candidateIdentityKey (row.key payload source)) ∧
    isValidAssociativeCandidateStatusTransition existing.status .expired

end Pairs

/-! ## The linking job -/

structure LinkingProgress where
  upserts : List UpsertAssociationCandidateArgs := []
  evaluatedPairs : Nat := 0
  rejected : Nat := 0

section Job

variable (env : AssociationEnv) (host : LinkingHost) (config : AssociativeLinkingResolvedConfig)
  (payload : AssociativeLinkTriggerPayload) (pool : List RecallAssociativeNodeRow)

/-- One source of the loop. The upserts wait for its end. -/
def linkSource (progress : LinkingProgress) (source : RecallAssociativeNodeRow) :
    Program AssociationStore LinkingProgress := do
  let existingShadowCandidates ←
    listAssociationCandidatesForSource payload.scope source.id 200
  (existingShadowCandidates.filter (isStale host config payload pool source)).forM fun existing =>
    updateAssociationCandidateStatus env existing.key .expired
  return {
    upserts := progress.upserts ++ sourceUpserts host config payload pool source
    evaluatedPairs := progress.evaluatedPairs + (pool.filter (comparable payload source)).length
    rejected := progress.rejected + rejectedCount host payload pool source }

def materializeShadowAssociationCandidates (sourceNodes : List RecallAssociativeNodeRow) :
    Program AssociationStore AssociativeLinkingJobResult := do
  let progress ← sourceNodes.foldlM (linkSource env host config payload pool) {}
  upsertAssociationCandidates env progress.upserts
  return {
    sourceCount := sourceNodes.length
    candidatePoolSize := pool.length
    evaluatedPairs := progress.evaluatedPairs
    shadowCreated := (progress.upserts.filter (·.status = .shadow)).length
    promoted := 0
    rejected := progress.rejected }

end Job

/-- The source nodes and the pool. -/
def fetchAssociativeCandidatesForSources (config : AssociativeLinkingResolvedConfig)
    (payload : AssociativeLinkTriggerPayload) (nodes : AssociativeNodes) :
    List RecallAssociativeNodeRow × List RecallAssociativeNodeRow :=
  let sourceNodes := nodes.listAssociativeNodesByIds payload.scope payload.sourceNodeIds
  (sourceNodes, nodes.listAssociativeCandidatePool payload.scope payload.sourceNodeIds
    (max (config.maxCandidatesPerSource * max 1 sourceNodes.length) config.maxCandidatesPerSource))

def runAssociativeLinkingJob (env : AssociationEnv) (host : LinkingHost)
    (config : AssociativeLinkingResolvedConfig) (payload : AssociativeLinkTriggerPayload)
    (nodes : AssociativeNodes) : Program AssociationStore AssociativeLinkingJobResult :=
  let fetched := fetchAssociativeCandidatesForSources config payload nodes
  materializeShadowAssociationCandidates env host config payload fetched.2 fetched.1

/-! ## Promotion -/

/-- The checks that a shadow candidate passes to be promoted. -/
def isPromotable (config : AssociativeLinkingResolvedConfig) (c : AssociationCandidateRecord) :
    Bool :=
  c.status = .shadow &&
    isAssociativeVisibilityCompatible
      (asAssociativeVisibility (Json.get c.evidence "source_visibility"))
      (asAssociativeVisibility (Json.get c.evidence "candidate_visibility")) &&
    isValidAssociativeCandidateStatusTransition c.status .promoted &&
    c.srcId ≠ c.dstId && c.sourceCommitId.isSome &&
    config.promotionConfidenceThreshold ≤ c.confidence &&
    config.promotionScoreThreshold ≤ c.score

/-- The ends of the edge of a candidate. -/
def orderedEnds (host : LinkingHost) (c : AssociationCandidateRecord) : String × String :=
  if host.localeCompare c.srcId c.dstId ≤ 0 then (c.srcId, c.dstId) else (c.dstId, c.srcId)

def associativeEdgeId (crypto : Crypto) (scope : String) (ends : String × String) : String :=
  crypto.stableUuid s!"{scope}:edge:associative:related_to:{ends.1}:{ends.2}"

def associativeEdge (env : AssociationEnv) (scope : String) (ends : String × String)
    (commitId : String) (c : AssociationCandidateRecord) : WriteEdgeUpsertArgs where
  scope := scope
  type := "related_to"
  srcId := ends.1
  dstId := ends.2
  id := associativeEdgeId env.crypto scope ends
  weight := c.score
  confidence := c.confidence
  decayRate := 0
  commitId := commitId

structure PromotionProgress where
  seenEdges : List String := []
  evaluated : Nat := 0
  promoted : Nat := 0
  rejected : Nat := 0

section Promotion

variable (env : AssociationEnv) (host : LinkingHost) (config : AssociativeLinkingResolvedConfig)
  (scope : String)

def rejectCandidate (c : AssociationCandidateRecord) : Program AssociationStore Unit :=
  if isValidAssociativeCandidateStatusTransition c.status .rejected then
    updateAssociationCandidateStatus env c.key .rejected
  else return ()

def edgeKeyText (ends : String × String) : String := s!"{scope}:{ends.1}:{ends.2}"

/-- The edge of a candidate, unless this promotion has upserted it. -/
def upsertAssociativeEdge (seenEdges : List String) (c : AssociationCandidateRecord) :
    Program AssociationStore Unit :=
  if edgeKeyText scope (orderedEnds host c) ∈ seenEdges then return ()
  else upsertEdge env (associativeEdge env scope (orderedEnds host c) (c.sourceCommitId.getD "") c)

def promoteCandidate (progress : PromotionProgress) (c : AssociationCandidateRecord) :
    Program AssociationStore PromotionProgress :=
  if isPromotable config c then do
    upsertAssociativeEdge env host scope progress.seenEdges c
    markAssociationCandidatePromoted env c.key
      (associativeEdgeId env.crypto scope (orderedEnds host c))
    return { progress with
      seenEdges := edgeKeyText scope (orderedEnds host c) :: progress.seenEdges
      evaluated := progress.evaluated + 1
      promoted := progress.promoted + 1 }
  else do
    rejectCandidate env c
    return { progress with
      evaluated := progress.evaluated + 1
      rejected := progress.rejected + 1 }

def promoteSource (progress : PromotionProgress) (sourceNodeId : String) :
    Program AssociationStore PromotionProgress := do
  let candidates ←
    listAssociationCandidatesForSource scope sourceNodeId config.maxCandidatesPerSource
  candidates.foldlM (promoteCandidate env host config scope) progress

def promoteAssociativeCandidates (sourceNodeIds : List String) :
    Program AssociationStore AssociativePromotionResult := do
  let progress ← sourceNodeIds.eraseDups.foldlM (promoteSource env host config scope) {}
  return ⟨progress.evaluated, progress.promoted, progress.rejected⟩

end Promotion

end AionisCore.Jobs
