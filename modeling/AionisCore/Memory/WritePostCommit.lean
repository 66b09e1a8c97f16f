import AionisCore.Lib.Dedup
import AionisCore.Memory.PreparedWrite

/-!
# What follows the commit of a write

`enqueuePostCommitWriteArtifacts` puts the jobs of a write in the outbox, and
`applyShadowDualWrite` reports that the Lite store has no mirror. The rows of the
write stay as they are, and so do the ids of the result.
-/

namespace AionisCore.Memory

open Lib Util Store

inductive AssociativeLinkTriggerOrigin where
  | memoryWrite
  | handoffStore
  | replayWrite
  | sessionCreate
  | sessionEvent
  deriving DecidableEq, Repr

def AssociativeLinkTriggerOrigin.name : AssociativeLinkTriggerOrigin → String
  | .memoryWrite => "memory_write"
  | .handoffStore => "handoff_store"
  | .replayWrite => "replay_write"
  | .sessionCreate => "session_create"
  | .sessionEvent => "session_event"

structure ApplyWriteOptions where
  crypto : Crypto
  /-- `nowIso()` as the row of an id, of a commit hash or of a job key is inserted. -/
  now : String → String
  piiRedaction : Bool := false
  allowCrossScopeEdges : Bool := false
  shadowDualWriteEnabled : Bool := false
  shadowDualWriteStrict : Bool := false
  associativeLinkOrigin : Option AssociativeLinkTriggerOrigin := none

/-! ## Payloads -/

def ASSOCIATIVE_LINKING_SOURCE_NODE_TYPES : List String :=
  ["event", "evidence", "concept", "procedure"]

/-- `max_source_node_ids`. -/
def MAX_SOURCE_NODE_IDS : Nat := 64

def selectAssociativeLinkSourceNodeIds (nodes : List PreparedNode) : List String :=
  ((nodes.filter (·.type ∈ ASSOCIATIVE_LINKING_SOURCE_NODE_TYPES)).map (·.id)).take
    MAX_SOURCE_NODE_IDS

/-- The bounds that both link schemas set on the ids of a payload. -/
def linkIdsValid (sourceIds : List String) (commitId : String) : Bool :=
  !sourceIds.isEmpty && decide (sourceIds.length ≤ MAX_SOURCE_NODE_IDS) &&
    sourceIds.all isUuid && isUuid commitId

variable (opts : ApplyWriteOptions)

def ApplyWriteOptions.origin : Json :=
  .str (opts.associativeLinkOrigin.getD .memoryWrite).name

/-- `DeferredAssociativeLinkFollowupSchema.parse`, where a link has to wait. -/
def deferredFollowup (sourceIds : List String) (commitId : String) :
    Except WriteError (Option Json) :=
  if sourceIds.isEmpty then .ok none
  else if linkIdsValid sourceIds commitId then
    .ok (some (.obj [("origin", opts.origin), ("source_node_ids", .arr (sourceIds.map .str)),
      ("source_commit_id", .str commitId)]))
  else .error .schema

/-- `AssociativeLinkTriggerPayloadSchema.parse`. -/
def triggerPayload (scope : String) (sourceIds : List String) (commitId : String) :
    Except WriteError Json.Fields :=
  if scope ≠ "" ∧ linkIdsValid sourceIds commitId then
    .ok [("origin", opts.origin), ("scope", .str scope),
      ("source_node_ids", .arr (sourceIds.map .str)), ("source_commit_id", .str commitId)]
  else .error .schema

/-- An event for a worker, under a key made of its content. -/
def outboxEvent (scope commitId eventType : String) (payload : Json.Fields) : LiteOutboxRow :=
  let payloadSha := opts.crypto.sha256Hex (opts.crypto.stableStringify (.obj payload))
  let jobKey := opts.crypto.sha256Hex (opts.crypto.stableStringify (.obj [
    ("v", .num 1), ("scope", .str scope), ("commit_id", .str commitId),
    ("event_type", .str eventType), ("payloadSha", .str payloadSha)]))
  { scope, commitId, eventType, jobKey, payloadSha256 := payloadSha, payload,
    createdAt := opts.now jobKey }

/-! ## The jobs of a write -/

/-- The text a worker is to embed: a node with an embedding needs none. -/
def PreparedNode.plannedText (node : PreparedNode) : Option String :=
  if node.embedding.isSome then none else given node.embedText

/-- The nodes of the `embed_nodes` event. -/
def embedNodes (t : LiteTables) (prepared : PreparedWrite) : List (String × String) :=
  if prepared.autoEmbedEffective then
    (prepared.nodes.filterMap fun node => node.plannedText.map (node.id, ·)).filter fun planned =>
      prepared.forceReembed || !t.readyEmbedding prepared.scope planned.1
  else []

def enqueueEmbedNodes (t : LiteTables) (prepared : PreparedWrite) (commitId : String)
    (nodes : List (String × String)) (deferred : List String) (result : WriteResult) :
    Except WriteError (WriteResult × LiteTables) :=
  if nodes.isEmpty then .ok (result, t)
  else do
    let followup ← deferredFollowup opts deferred commitId
    let payload : Json.Fields :=
      [("nodes", .arr (nodes.map fun node =>
        .obj [("id", .str node.1), ("text", .str node.2)]))] ++
      Json.optional "force_reembed" (if prepared.forceReembed then some (.bool true) else none) ++
      Json.optional "after_associative_link" followup
    return ({ result with embeddingBackfill := some nodes.length },
      t.insertOutboxEvent (outboxEvent opts prepared.scope commitId "embed_nodes" payload))

def enqueueAssociativeLink (t : LiteTables) (prepared : PreparedWrite) (commitId : String)
    (sourceIds : List String) : Except WriteError LiteTables :=
  if sourceIds.isEmpty then .ok t
  else do
    let payload ← triggerPayload opts prepared.scope sourceIds commitId
    return t.insertOutboxEvent
      (outboxEvent opts prepared.scope commitId "associative_link" payload)

def enqueueTopicCluster (t : LiteTables) (prepared : PreparedWrite) (commitId : String)
    (enqueuedEmbedNodes : Bool) (result : WriteResult) : WriteResult × LiteTables :=
  if !prepared.triggerTopicCluster || !prepared.topicClusterAsync then (result, t)
  else
    let events := prepared.nodes.filter (·.type = "event")
    let embeddable (id : String) : Bool := events.any fun node =>
      node.id = id ∧ prepared.autoEmbedEffective ∧ (given node.embedText).isSome
    let mustWait (id : String) : Bool := prepared.forceReembed && embeddable id
    let ready (id : String) : Bool := t.readyEmbedding prepared.scope id
    let eventIds := events.map (·.id)
    let waitForEmbed := eventIds.filter fun id => mustWait id || !ready id && embeddable id
    let runNow := eventIds.filter fun id => !mustWait id && ready id
    let waits := !waitForEmbed.isEmpty && enqueuedEmbedNodes
    let t := if waits then
      t.appendAfterTopicClusterEventIds prepared.scope commitId waitForEmbed else t
    let t := if runNow.isEmpty then t else
      t.insertOutboxEvent (outboxEvent opts prepared.scope commitId "topic_cluster"
        [("event_ids", .arr (runNow.map .str))])
    ({ result with topicClusterEnqueued :=
      result.topicClusterEnqueued || waits || !runNow.isEmpty }, t)

def enqueuePostCommitWriteArtifacts (t : LiteTables) (prepared : PreparedWrite)
    (commitId : String) (result : WriteResult) : Except WriteError (WriteResult × LiteTables) := do
  let sourceIds := selectAssociativeLinkSourceNodeIds prepared.nodes
  let nodes := embedNodes t prepared
  -- A link waits for the embedding of its source.
  let deferred := firstBy id (sourceIds.filter (· ∈ nodes.map (·.1)))
  let (result, t) ← enqueueEmbedNodes opts t prepared commitId nodes deferred result
  let t ← enqueueAssociativeLink opts t prepared commitId (sourceIds.filter (· ∉ deferred))
  return enqueueTopicCluster opts t prepared commitId (!nodes.isEmpty) result

/-- The Lite store has no capability `shadow_mirror_v2`. -/
def applyShadowDualWrite (result : WriteResult) : Except WriteError WriteResult :=
  let msg := "shadow dual-write unsupported by backend capability: shadow_mirror_v2"
  if !opts.shadowDualWriteEnabled then .ok result
  else if opts.shadowDualWriteStrict then
    .error (.request {
      statusCode := 500
      code := "shadow_dual_write_strict_failure"
      message := msg
      details := some [("capability", .str "shadow_mirror_v2"),
        ("failure_mode", .str "soft_degrade"), ("degraded_mode", .str "capability_unsupported"),
        ("fallback_applied", .bool false), ("strict", .bool true), ("mirrored", .bool false)] })
  else .ok { result with shadowDualWrite := some { strict := false, error := msg } }

/-! ## What they leave alone -/

/-- No table but the outbox differs. -/
structure SameRows (t t' : LiteTables) : Prop where
  nodes : t'.nodes = t.nodes
  commits : t'.commits = t.commits
  edges : t'.edges = t.edges
  ruleDefs : t'.ruleDefs = t.ruleDefs

theorem SameRows.refl (t : LiteTables) : SameRows t t := ⟨rfl, rfl, rfl, rfl⟩

theorem SameRows.trans {t t' t'' : LiteTables} (h : SameRows t t') (h' : SameRows t' t'') :
    SameRows t t'' where
  nodes := h'.nodes.trans h.nodes
  commits := h'.commits.trans h.commits
  edges := h'.edges.trans h.edges
  ruleDefs := h'.ruleDefs.trans h.ruleDefs

theorem SameRows.ite {c : Prop} [Decidable c] {t a b : LiteTables} (ha : SameRows t a)
    (hb : SameRows t b) : SameRows t (if c then a else b) := by
  split
  · exact ha
  · exact hb

theorem insertOutboxEvent_sameRows (t : LiteTables) (row : LiteOutboxRow) :
    SameRows t (t.insertOutboxEvent row) := ⟨rfl, rfl, rfl, rfl⟩

theorem appendAfterTopicClusterEventIds_sameRows (t : LiteTables) (scope commitId : String)
    (ids : List String) : SameRows t (t.appendAfterTopicClusterEventIds scope commitId ids) :=
  ⟨rfl, rfl, rfl, rfl⟩

/-- What a result names. -/
structure SameObjects (r r' : WriteResult) : Prop where
  commitId : r'.commitId = r.commitId
  commitHash : r'.commitHash = r.commitHash
  nodes : r'.nodes = r.nodes
  edges : r'.edges = r.edges

theorem SameObjects.refl (r : WriteResult) : SameObjects r r := ⟨rfl, rfl, rfl, rfl⟩

theorem SameObjects.trans {r r' r'' : WriteResult} (h : SameObjects r r')
    (h' : SameObjects r' r'') : SameObjects r r'' where
  commitId := h'.commitId.trans h.commitId
  commitHash := h'.commitHash.trans h.commitHash
  nodes := h'.nodes.trans h.nodes
  edges := h'.edges.trans h.edges

variable {opts} {t t' : LiteTables} {prepared : PreparedWrite} {commitId : String}
  {result result' : WriteResult}

theorem enqueueEmbedNodes_frame {nodes : List (String × String)} {deferred : List String}
    (h : enqueueEmbedNodes opts t prepared commitId nodes deferred result = .ok (result', t')) :
    SameRows t t' ∧ SameObjects result result' := by
  unfold enqueueEmbedNodes at h
  split at h
  · cases h
    exact ⟨.refl t, .refl result⟩
  · obtain ⟨followup, -, h⟩ := bind_eq_ok.1 h
    cases h
    exact ⟨insertOutboxEvent_sameRows t _, ⟨rfl, rfl, rfl, rfl⟩⟩

theorem enqueueAssociativeLink_frame {sourceIds : List String}
    (h : enqueueAssociativeLink opts t prepared commitId sourceIds = .ok t') : SameRows t t' := by
  unfold enqueueAssociativeLink at h
  split at h
  · cases h
    exact .refl t
  · obtain ⟨payload, -, h⟩ := bind_eq_ok.1 h
    cases h
    exact insertOutboxEvent_sameRows t _

theorem enqueueTopicCluster_frame {enqueued : Bool}
    (h : enqueueTopicCluster opts t prepared commitId enqueued result = (result', t')) :
    SameRows t t' ∧ SameObjects result result' := by
  unfold enqueueTopicCluster at h
  split at h
  · cases h
    exact ⟨.refl t, .refl result⟩
  · cases h
    refine ⟨?_, ⟨rfl, rfl, rfl, rfl⟩⟩
    have hwait {waits : Bool} (ids : List String) : SameRows t
        (if waits then t.appendAfterTopicClusterEventIds prepared.scope commitId ids else t) :=
      .ite (appendAfterTopicClusterEventIds_sameRows t _ _ ids) (.refl t)
    exact .ite (hwait _) ((hwait _).trans (insertOutboxEvent_sameRows _ _))

theorem enqueuePostCommitWriteArtifacts_frame
    (h : enqueuePostCommitWriteArtifacts opts t prepared commitId result = .ok (result', t')) :
    SameRows t t' ∧ SameObjects result result' := by
  obtain ⟨⟨r₁, t₁⟩, h₁, h⟩ := bind_eq_ok.1 h
  obtain ⟨t₂, h₂, h⟩ := bind_eq_ok.1 h
  obtain ⟨hrows₁, hobj₁⟩ := enqueueEmbedNodes_frame h₁
  have hrows₂ := enqueueAssociativeLink_frame h₂
  obtain ⟨hrows₃, hobj₃⟩ := enqueueTopicCluster_frame (Except.ok.inj h)
  exact ⟨(hrows₁.trans hrows₂).trans hrows₃, hobj₁.trans hobj₃⟩

theorem applyShadowDualWrite_frame (h : applyShadowDualWrite opts result = .ok result') :
    SameObjects result result' := by
  unfold applyShadowDualWrite at h
  dsimp only at h
  split at h
  · cases h
    exact .refl result
  · split at h
    · cases h
    · cases h
      exact ⟨rfl, rfl, rfl, rfl⟩

end AionisCore.Memory
