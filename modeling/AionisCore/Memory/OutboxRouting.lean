import AionisCore.Lib.Run
import AionisCore.Lib.Schema
import AionisCore.Memory.WriteRows

/-!
# Where the jobs of a write go

A write hands its jobs to the outbox: the nodes that have no embedding yet, the nodes that
may be linked, at once or after their embedding, and the events that are to be clustered.
The events of the outbox are looked at by the commit they follow.
-/

namespace AionisCore.Memory

open Lib Lib.Table Util Store

/-! ## The events of a commit -/

/-- The unique key of the outbox. -/
def outboxKey (row : LiteOutboxRow) : String × String × String :=
  (row.scope, row.eventType, row.jobKey)

def commitEvents (t : LiteTables) (scope commitId eventType : String) : List LiteOutboxRow :=
  t.outbox.filter fun row =>
    row.scope = scope ∧ row.commitId = commitId ∧ row.eventType = eventType

def linkIds (row : LiteOutboxRow) : List String :=
  Json.textsOf (Json.get row.payload "source_node_ids")

def followupIds (row : LiteOutboxRow) : List String :=
  Json.textsOf (Json.field (Json.asRecord (Json.get row.payload "after_associative_link"))
    "source_node_ids")

def embedIds (row : LiteOutboxRow) : List String :=
  ((Json.asArray (Json.get row.payload "nodes")).getD []).filterMap fun node =>
    Json.textOf (Json.field (Json.asRecord (some node)) "id")

def clusterIds (row : LiteOutboxRow) : List String :=
  Json.textsOf (Json.get row.payload "event_ids")

def waitingIds (row : LiteOutboxRow) : List String :=
  Json.textsOf (Json.get row.payload "after_topic_cluster_event_ids")

section Events

variable (t : LiteTables) (scope commitId : String)

/-- The nodes that are linked at once. -/
def linkedNow : List String := (commitEvents t scope commitId "associative_link").flatMap linkIds

/-- The nodes that are linked after their embedding. -/
def linkedLater : List String := (commitEvents t scope commitId "embed_nodes").flatMap followupIds

def toEmbed : List String := (commitEvents t scope commitId "embed_nodes").flatMap embedIds

/-- The event nodes that are clustered, at once or after their embedding. -/
def clustered : List String :=
  (commitEvents t scope commitId "topic_cluster").flatMap clusterIds ++
    (commitEvents t scope commitId "embed_nodes").flatMap waitingIds

end Events

/-- Clustering is requested, and not within the write. -/
def PreparedWrite.clustersAsync (prepared : PreparedWrite) : Bool :=
  prepared.triggerTopicCluster && prepared.topicClusterAsync

/-- Every node that may be linked is in one place, and so is every event node to be clustered
that has an embedding or will have one. -/
structure Routed (t : LiteTables) (prepared : PreparedWrite) (commitId : String) : Prop where
  links : ∀ id ∈ selectAssociativeLinkSourceNodeIds prepared.nodes,
    (id ∈ linkedNow t prepared.scope commitId ↔ id ∉ linkedLater t prepared.scope commitId) ∧
      (id ∈ linkedLater t prepared.scope commitId ↔ id ∈ toEmbed t prepared.scope commitId)
  clusters : prepared.clustersAsync = true → ∀ node ∈ prepared.nodes, node.type = "event" →
    t.readyEmbedding prepared.scope node.id = true ∨
      node.id ∈ toEmbed t prepared.scope commitId →
    (clustered t prepared.scope commitId).count node.id = 1

/-- The hash of an event is that of its payload. -/
def Hashed (crypto : Crypto) (row : LiteOutboxRow) : Prop :=
  row.payloadSha256 = crypto.sha256Hex (crypto.stableStringify (.obj row.payload))

/-! ## The events of a call -/

section Call

variable (opts : ApplyWriteOptions) (t : LiteTables) (prepared : PreparedWrite) (commitId : String)

def eventIds : List String := (prepared.nodes.filter (·.type = "event")).map (·.id)

def embeddable (id : String) : Bool := (prepared.nodes.filter (·.type = "event")).any fun node =>
  node.id = id ∧ prepared.autoEmbedEffective ∧ (given node.embedText).isSome

def waitIds : List String := (eventIds prepared).filter fun id =>
  prepared.forceReembed && embeddable prepared id ||
    !t.readyEmbedding prepared.scope id && embeddable prepared id

def runNowIds : List String := (eventIds prepared).filter fun id =>
  !(prepared.forceReembed && embeddable prepared id) && t.readyEmbedding prepared.scope id

def deferredIds : List String :=
  firstBy id ((selectAssociativeLinkSourceNodeIds prepared.nodes).filter
    (· ∈ (embedNodes t prepared).map (·.1)))

def immediateIds : List String :=
  (selectAssociativeLinkSourceNodeIds prepared.nodes).filter (· ∉ deferredIds t prepared)

def embedPayload : Json.Fields :=
  [("nodes", .arr ((embedNodes t prepared).map fun node =>
    .obj [("id", .str node.1), ("text", .str node.2)]))] ++
  Json.optional "force_reembed" (if prepared.forceReembed then some (.bool true) else none) ++
  Json.optional "after_associative_link"
    (if (deferredIds t prepared).isEmpty then none
    else some (.obj [("origin", opts.origin),
      ("source_node_ids", .arr ((deferredIds t prepared).map .str)),
      ("source_commit_id", .str commitId)]))

def linkPayload : Json.Fields :=
  [("origin", opts.origin), ("scope", .str prepared.scope),
    ("source_node_ids", .arr ((immediateIds t prepared).map .str)),
    ("source_commit_id", .str commitId)]

def clusterPayload : Json.Fields := [("event_ids", .arr ((runNowIds t prepared).map .str))]

def embedEvents : List LiteOutboxRow :=
  if (embedNodes t prepared).isEmpty then []
  else [outboxEvent opts prepared.scope commitId "embed_nodes"
    (embedPayload opts t prepared commitId)]

def linkEvents : List LiteOutboxRow :=
  if (immediateIds t prepared).isEmpty then []
  else [outboxEvent opts prepared.scope commitId "associative_link"
    (linkPayload opts t prepared commitId)]

def clusterEvents : List LiteOutboxRow :=
  if !prepared.clustersAsync || (runNowIds t prepared).isEmpty then []
  else [outboxEvent opts prepared.scope commitId "topic_cluster" (clusterPayload t prepared)]

/-- The events that the call puts in the outbox. -/
def callEvents : List LiteOutboxRow :=
  embedEvents opts t prepared commitId ++ linkEvents opts t prepared commitId ++
    clusterEvents opts t prepared commitId

/-- No event node waits for an embedding, and the events that the outbox has of the commit put
no node in another place than this call does. -/
structure KeepsRoutes : Prop where
  links : ∀ id ∈ selectAssociativeLinkSourceNodeIds prepared.nodes,
    if id ∈ (embedNodes t prepared).map (·.1) then id ∉ linkedNow t prepared.scope commitId
    else id ∉ linkedLater t prepared.scope commitId ∧ id ∉ toEmbed t prepared.scope commitId
  quiet : prepared.clustersAsync = true → waitIds t prepared = [] ∨ embedNodes t prepared = []
  listed : prepared.clustersAsync = true → ∀ id ∈ eventIds prepared, id ∉ runNowIds t prepared →
    t.readyEmbedding prepared.scope id = true ∨ id ∈ toEmbed t prepared.scope commitId →
    (clustered t prepared.scope commitId).count id = 1
  once : prepared.clustersAsync = true → ∀ id ∈ runNowIds t prepared,
    ∀ row ∈ commitEvents t prepared.scope commitId "topic_cluster", id ∈ clusterIds row →
      ∃ e ∈ clusterEvents opts t prepared commitId, outboxKey e = outboxKey row
  /-- Equal keys, which are hashes of the content, stand for equal events. -/
  keys : ∀ e ∈ callEvents opts t prepared commitId, ∀ row ∈ t.outbox, outboxKey row = outboxKey e →
    row.commitId = e.commitId ∧ row.payload = e.payload

end Call

/-! ## What the call does to the outbox -/

variable {opts : ApplyWriteOptions} {t t₁ t' : LiteTables} {prepared : PreparedWrite}
  {commitId : String} {r r' : WriteResult}

theorem deferredFollowup_eq {ids : List String} {followup : Option Json}
    (h : deferredFollowup opts ids commitId = .ok followup) :
    followup = if ids.isEmpty then none
      else some (.obj [("origin", opts.origin), ("source_node_ids", .arr (ids.map .str)),
        ("source_commit_id", .str commitId)]) := by
  unfold deferredFollowup at h
  split at h
  · next hempty =>
    cases h
    rw [if_pos hempty]
  · next hne =>
    split at h
    · cases h
      rw [if_neg hne]
    · cases h

theorem triggerPayload_eq {scope : String} {ids : List String} {payload : Json.Fields}
    (h : triggerPayload opts scope ids commitId = .ok payload) :
    payload = [("origin", opts.origin), ("scope", .str scope),
      ("source_node_ids", .arr (ids.map .str)), ("source_commit_id", .str commitId)] := by
  unfold triggerPayload at h
  split at h
  · exact (Except.ok.inj h).symm
  · cases h

theorem enqueueEmbedNodes_outbox
    (h : enqueueEmbedNodes opts t prepared commitId (embedNodes t prepared)
      (deferredIds t prepared) r = .ok (r', t')) :
    t'.outbox = (embedEvents opts t prepared commitId).foldl (insertOrIgnore outboxKey) t.outbox ∧
      t'.nodes = t.nodes := by
  unfold enqueueEmbedNodes at h
  unfold embedEvents
  split at h
  · next hempty =>
    cases h
    rw [if_pos hempty]
    exact ⟨rfl, rfl⟩
  · next hne =>
    obtain ⟨followup, hfollowup, h⟩ := bind_eq_ok.1 h
    obtain rfl := deferredFollowup_eq hfollowup
    obtain ⟨-, rfl⟩ := Prod.mk.inj (Except.ok.inj h)
    rw [if_neg hne]
    exact ⟨rfl, rfl⟩

theorem enqueueAssociativeLink_outbox
    (h : enqueueAssociativeLink opts t₁ prepared commitId (immediateIds t prepared) = .ok t') :
    t'.outbox = (linkEvents opts t prepared commitId).foldl (insertOrIgnore outboxKey) t₁.outbox ∧
      t'.nodes = t₁.nodes := by
  unfold enqueueAssociativeLink at h
  unfold linkEvents
  split at h
  · next hempty =>
    cases h
    rw [if_pos hempty]
    exact ⟨rfl, rfl⟩
  · next hne =>
    obtain ⟨payload, hpayload, h⟩ := bind_eq_ok.1 h
    obtain rfl := triggerPayload_eq hpayload
    cases h
    rw [if_neg hne]
    exact ⟨rfl, rfl⟩

theorem readyEmbedding_congr (h : t'.nodes = t.nodes) (scope id : String) :
    t'.readyEmbedding scope id = t.readyEmbedding scope id := by
  unfold LiteTables.readyEmbedding
  rw [h]

theorem waitIds_congr (h : t'.nodes = t.nodes) : waitIds t' prepared = waitIds t prepared := by
  unfold waitIds
  simp only [readyEmbedding_congr h]

theorem runNowIds_congr (h : t'.nodes = t.nodes) :
    runNowIds t' prepared = runNowIds t prepared := by
  unfold runNowIds
  simp only [readyEmbedding_congr h]

theorem enqueueTopicCluster_tables (hasync : prepared.clustersAsync = true) (enqueued : Bool) :
    (enqueueTopicCluster opts t prepared commitId enqueued r).2 =
      let t₁ := if !(waitIds t prepared).isEmpty && enqueued then
        t.appendAfterTopicClusterEventIds prepared.scope commitId (waitIds t prepared) else t
      if (runNowIds t prepared).isEmpty then t₁ else
        t₁.insertOutboxEvent (outboxEvent opts prepared.scope commitId "topic_cluster"
          (clusterPayload t prepared)) := by
  have hrequested : (!prepared.triggerTopicCluster || !prepared.topicClusterAsync) = false := by
    rw [← Bool.not_and]
    exact congrArg _ hasync
  rw [enqueueTopicCluster, hrequested, if_neg Bool.false_ne_true]
  rfl

theorem enqueueTopicCluster_outbox (hnodes : t₁.nodes = t.nodes)
    (hquiet : prepared.clustersAsync = true → waitIds t prepared = [] ∨ embedNodes t prepared = [])
    (h : enqueueTopicCluster opts t₁ prepared commitId (!(embedNodes t prepared).isEmpty) r =
      (r', t')) :
    t'.outbox =
        (clusterEvents opts t prepared commitId).foldl (insertOrIgnore outboxKey) t₁.outbox ∧
      t'.nodes = t₁.nodes := by
  unfold clusterEvents
  by_cases hasync : prepared.clustersAsync = true
  · have hwaits : (!(waitIds t prepared).isEmpty && !(embedNodes t prepared).isEmpty) = false := by
      rcases hquiet hasync with hwait | hembed
      · rw [hwait]
        rfl
      · rw [hembed, List.isEmpty_nil, Bool.not_true, Bool.and_false]
    have htables := @enqueueTopicCluster_tables opts t₁ prepared commitId r hasync
      (!(embedNodes t prepared).isEmpty)
    rw [h, waitIds_congr hnodes, hwaits, if_neg Bool.false_ne_true, clusterPayload,
      runNowIds_congr hnodes] at htables
    obtain rfl : t' = _ := htables
    rw [hasync, Bool.not_true, Bool.false_or, clusterPayload]
    by_cases hempty : (runNowIds t prepared).isEmpty = true
    · rw [if_pos hempty, if_pos hempty]
      exact ⟨rfl, rfl⟩
    · rw [if_neg hempty, if_neg hempty]
      exact ⟨rfl, rfl⟩
  · have hnot : (!prepared.triggerTopicCluster || !prepared.topicClusterAsync) = true := by
      rw [← Bool.not_and]
      exact congrArg _ (Bool.eq_false_iff.2 hasync)
    rw [enqueueTopicCluster, hnot, if_pos rfl] at h
    obtain ⟨-, rfl⟩ := Prod.mk.inj h
    rw [Bool.eq_false_iff.2 hasync, Bool.not_false, Bool.true_or, if_pos rfl]
    exact ⟨rfl, rfl⟩

/-- A call in which nothing waits puts its events in the outbox, and changes no other table. -/
theorem enqueuePostCommitWriteArtifacts_outbox
    (hquiet : prepared.clustersAsync = true → waitIds t prepared = [] ∨ embedNodes t prepared = [])
    (h : enqueuePostCommitWriteArtifacts opts t prepared commitId r = .ok (r', t')) :
    t'.outbox = (callEvents opts t prepared commitId).foldl (insertOrIgnore outboxKey) t.outbox ∧
      t'.nodes = t.nodes := by
  obtain ⟨⟨r₁, t₁⟩, h₁, h⟩ := bind_eq_ok.1 h
  obtain ⟨t₂, h₂, h⟩ := bind_eq_ok.1 h
  obtain ⟨hembed, hnodes₁⟩ := enqueueEmbedNodes_outbox h₁
  obtain ⟨hlink, hnodes₂⟩ := enqueueAssociativeLink_outbox (t := t) h₂
  have hnodes := hnodes₂.trans hnodes₁
  obtain ⟨hcluster, hnodes₃⟩ := enqueueTopicCluster_outbox hnodes hquiet (Except.ok.inj h)
  refine ⟨?_, hnodes₃.trans hnodes⟩
  rw [hcluster, hlink, hembed, callEvents, List.foldl_append, List.foldl_append]

/-! ## The events that a commit has afterwards -/

variable {e : LiteOutboxRow}

theorem get_embedPayload {k : String} (hnodes : k ≠ "nodes") (hforce : k ≠ "force_reembed")
    (hlink : k ≠ "after_associative_link") :
    Json.get (embedPayload opts t prepared commitId) k = none := by
  unfold embedPayload
  rw [Json.get_append, Json.get_append, Schema.get_optional, Schema.get_optional, if_neg hforce,
    if_neg hlink, Json.get_cons, if_neg hnodes]
  rfl

theorem followupIds_embed (he : e.payload = embedPayload opts t prepared commitId) :
    followupIds e = deferredIds t prepared := by
  unfold followupIds embedPayload at *
  rw [he, Json.get_append, Json.get_append, Schema.get_optional, Schema.get_optional,
    if_neg (by decide), if_pos rfl, Json.get_cons, if_neg (by decide)]
  by_cases hempty : (deferredIds t prepared).isEmpty = true
  · rw [if_pos hempty, List.isEmpty_iff.1 hempty]
    rfl
  · rw [if_neg hempty]
    exact Json.textsOf_strings _

theorem embedIds_embed (he : e.payload = embedPayload opts t prepared commitId) :
    embedIds e = (embedNodes t prepared).map (·.1) := by
  have hget : Json.get e.payload "nodes" = some (.arr ((embedNodes t prepared).map fun node =>
      .obj [("id", .str node.1), ("text", .str node.2)])) := by
    rw [he]
    rfl
  unfold embedIds
  rw [hget]
  show ((embedNodes t prepared).map _).filterMap _ = _
  rw [List.filterMap_map, ← List.filterMap_eq_map]
  exact List.filterMap_congr fun node _ => rfl

theorem callEvents_eq (he : e ∈ callEvents opts t prepared commitId) :
    e.scope = prepared.scope ∧ e.commitId = commitId ∧ Hashed opts.crypto e ∧ waitingIds e = [] ∧
      (e.eventType = "embed_nodes" ∧ e ∈ embedEvents opts t prepared commitId ∨
        e.eventType = "associative_link" ∧ e ∈ linkEvents opts t prepared commitId ∨
        e.eventType = "topic_cluster" ∧ e ∈ clusterEvents opts t prepared commitId) := by
  rw [callEvents, List.mem_append, List.mem_append] at he
  rcases he with (he | he) | he
  · have hmem := he
    unfold embedEvents at he
    split at he
    · cases he
    · obtain rfl := List.mem_singleton.1 he
      refine ⟨rfl, rfl, rfl, ?_, Or.inl ⟨rfl, hmem⟩⟩
      show Json.textsOf (Json.get (embedPayload opts t prepared commitId) _) = []
      rw [get_embedPayload (by decide) (by decide) (by decide)]
      rfl
  · have hmem := he
    unfold linkEvents at he
    split at he
    · cases he
    · obtain rfl := List.mem_singleton.1 he
      exact ⟨rfl, rfl, rfl, rfl, Or.inr (Or.inl ⟨rfl, hmem⟩)⟩
  · have hmem := he
    unfold clusterEvents at he
    split at he
    · cases he
    · obtain rfl := List.mem_singleton.1 he
      exact ⟨rfl, rfl, rfl, rfl, Or.inr (Or.inr ⟨rfl, hmem⟩)⟩

theorem mem_commitEvents {scope eventType : String} {row : LiteOutboxRow} :
    row ∈ commitEvents t scope commitId eventType ↔
      row ∈ t.outbox ∧ row.scope = scope ∧ row.commitId = commitId ∧ row.eventType = eventType := by
  rw [commitEvents, List.mem_filter, decide_eq_true_iff]

theorem payload_of_embed (he : e ∈ callEvents opts t prepared commitId)
    (htype : e.eventType = "embed_nodes") : e.payload = embedPayload opts t prepared commitId := by
  obtain ⟨-, -, -, -, h⟩ := callEvents_eq he
  rw [htype] at h
  obtain ⟨-, h⟩ | ⟨h, -⟩ | ⟨h, -⟩ := h
  · unfold embedEvents at h
    split at h
    · cases h
    · rw [List.mem_singleton.1 h]
      rfl
  · exact absurd h (by decide)
  · exact absurd h (by decide)

theorem payload_of_link (he : e ∈ callEvents opts t prepared commitId)
    (htype : e.eventType = "associative_link") :
    e.payload = linkPayload opts t prepared commitId := by
  obtain ⟨-, -, -, -, h⟩ := callEvents_eq he
  rw [htype] at h
  obtain ⟨h, -⟩ | ⟨-, h⟩ | ⟨h, -⟩ := h
  · exact absurd h (by decide)
  · unfold linkEvents at h
    split at h
    · cases h
    · rw [List.mem_singleton.1 h]
      rfl
  · exact absurd h (by decide)

theorem payload_of_cluster (he : e ∈ clusterEvents opts t prepared commitId) :
    e.payload = clusterPayload t prepared := by
  unfold clusterEvents at he
  split at he
  · cases he
  · rw [List.mem_singleton.1 he]
    rfl

variable (opts commitId) in
theorem exists_embedEvent (h : embedNodes t prepared ≠ []) :
    ∃ e ∈ callEvents opts t prepared commitId, e.eventType = "embed_nodes" := by
  have hevents : embedEvents opts t prepared commitId =
      [outboxEvent opts prepared.scope commitId "embed_nodes"
        (embedPayload opts t prepared commitId)] := if_neg (by simpa using h)
  exact ⟨_, List.mem_append_left _ (List.mem_append_left _ (hevents ▸ List.mem_singleton_self _)),
    rfl⟩

variable (opts commitId) in
theorem exists_linkEvent (h : immediateIds t prepared ≠ []) :
    ∃ e ∈ callEvents opts t prepared commitId, e.eventType = "associative_link" := by
  have hevents : linkEvents opts t prepared commitId =
      [outboxEvent opts prepared.scope commitId "associative_link"
        (linkPayload opts t prepared commitId)] := if_neg (by simpa using h)
  exact ⟨_, List.mem_append_left _ (List.mem_append_right _ (hevents ▸ List.mem_singleton_self _)),
    rfl⟩

variable (opts commitId) in
theorem exists_clusterEvent (hasync : prepared.clustersAsync = true)
    (h : runNowIds t prepared ≠ []) : ∃ e ∈ clusterEvents opts t prepared commitId,
      e.eventType = "topic_cluster" := by
  have hevents : clusterEvents opts t prepared commitId =
      [outboxEvent opts prepared.scope commitId "topic_cluster" (clusterPayload t prepared)] := by
    rw [clusterEvents, hasync, Bool.not_true, Bool.false_or, if_neg (by simpa using h)]
  exact ⟨_, hevents ▸ List.mem_singleton_self _, rfl⟩

theorem callEvents_inj {e' : LiteOutboxRow} (he : e ∈ callEvents opts t prepared commitId)
    (he' : e' ∈ callEvents opts t prepared commitId) (htype : e.eventType = e'.eventType) :
    e = e' := by
  have hsingle : ∀ (c : Bool) (row : LiteOutboxRow), e ∈ (if c then [] else [row]) →
      e' ∈ (if c then [] else [row]) → e = e' := by
    intro c row h h'
    cases c
    · rw [List.mem_singleton.1 h, List.mem_singleton.1 h']
    · cases h
  obtain ⟨-, -, -, -, h⟩ := callEvents_eq he
  obtain ⟨-, -, -, -, h'⟩ := callEvents_eq he'
  rcases h with ⟨ht, h⟩ | ⟨ht, h⟩ | ⟨ht, h⟩ <;> rcases h' with ⟨ht', h'⟩ | ⟨ht', h'⟩ | ⟨ht', h'⟩
  case inl.inl => exact hsingle _ _ h h'
  case inr.inl.inr.inl => exact hsingle _ _ h h'
  case inr.inr.inr.inr => exact hsingle _ _ h h'
  all_goals
    rw [ht, ht'] at htype
    exact absurd htype (by decide)

section After

variable (hk : KeepsRoutes opts t prepared commitId)
  (hout : t'.outbox =
    (callEvents opts t prepared commitId).foldl (insertOrIgnore outboxKey) t.outbox)

include hout

theorem mem_commitEvents_after {eventType : String} {row : LiteOutboxRow}
    (h : row ∈ commitEvents t' prepared.scope commitId eventType) :
    row ∈ commitEvents t prepared.scope commitId eventType ∨
      row ∈ callEvents opts t prepared commitId ∧ row.eventType = eventType := by
  obtain ⟨hrow, hscope, hcommit, htype⟩ := mem_commitEvents.1 h
  rw [hout] at hrow
  rcases mem_foldl_insertOrIgnore hrow with hold | hnew
  · exact Or.inl (mem_commitEvents.2 ⟨hold, hscope, hcommit, htype⟩)
  · exact Or.inr ⟨hnew, htype⟩

theorem commitEvents_mono {eventType : String} {row : LiteOutboxRow}
    (h : row ∈ commitEvents t prepared.scope commitId eventType) :
    row ∈ commitEvents t' prepared.scope commitId eventType := by
  obtain ⟨hrow, hkey⟩ := mem_commitEvents.1 h
  refine mem_commitEvents.2 ⟨?_, hkey⟩
  rw [hout]
  exact subset_foldl_insertOrIgnore _ hrow

include hk

theorem exists_commitEvent {e : LiteOutboxRow} (he : e ∈ callEvents opts t prepared commitId) :
    ∃ row ∈ commitEvents t' prepared.scope commitId e.eventType,
      outboxKey row = outboxKey e ∧ row.payload = e.payload := by
  obtain ⟨row, hrow, hkey⟩ : ∃ row ∈ t'.outbox, outboxKey row = outboxKey e := by
    rw [hout]
    exact exists_foldl_insertOrIgnore he
  obtain ⟨hscope, hcommit, -⟩ := callEvents_eq he
  obtain ⟨hkscope, hktype, -⟩ := by simpa [outboxKey] using hkey
  have hsame : row.commitId = e.commitId ∧ row.payload = e.payload := by
    rcases mem_foldl_insertOrIgnore (hout ▸ hrow) with hold | hnew
    · exact hk.keys e he row hold hkey
    · rw [callEvents_inj hnew he hktype]
      exact ⟨rfl, rfl⟩
  exact ⟨row, mem_commitEvents.2 ⟨hrow, hkscope.trans hscope, hsame.1.trans hcommit, hktype⟩,
    hkey, hsame.2⟩

end After

/-! ## Every node in its place -/

variable {id : String}

theorem mem_deferredIds : id ∈ deferredIds t prepared ↔
    id ∈ selectAssociativeLinkSourceNodeIds prepared.nodes ∧
      id ∈ (embedNodes t prepared).map (·.1) := by
  rw [deferredIds, mem_firstBy_id, List.mem_filter, decide_eq_true_iff]

theorem mem_immediateIds : id ∈ immediateIds t prepared ↔
    id ∈ selectAssociativeLinkSourceNodeIds prepared.nodes ∧
      id ∉ (embedNodes t prepared).map (·.1) := by
  rw [immediateIds, List.mem_filter, decide_eq_true_iff, mem_deferredIds]
  exact ⟨fun ⟨hsource, hnot⟩ => ⟨hsource, fun hid => hnot ⟨hsource, hid⟩⟩,
    fun ⟨hsource, hnot⟩ => ⟨hsource, fun hid => hnot hid.2⟩⟩

theorem mem_eventIds :
    id ∈ eventIds prepared ↔ ∃ node ∈ prepared.nodes, node.type = "event" ∧ node.id = id := by
  simp only [eventIds, List.mem_map, List.mem_filter, decide_eq_true_iff, and_assoc]

theorem mem_waitIds {node : PreparedNode} (hids : (prepared.nodes.map (·.id)).Nodup)
    (hnode : node ∈ prepared.nodes) (htype : node.type = "event")
    (hembed : node.id ∈ (embedNodes t prepared).map (·.1)) : node.id ∈ waitIds t prepared := by
  obtain ⟨planned, hplanned, hid⟩ := List.mem_map.1 hembed
  unfold embedNodes at hplanned
  split at hplanned
  · next hauto =>
    obtain ⟨hplanned, hneeds⟩ := List.mem_filter.1 hplanned
    obtain ⟨m, hm, hentry⟩ := List.mem_filterMap.1 hplanned
    obtain ⟨text, htext, rfl⟩ := Option.map_eq_some_iff.1 hentry
    obtain rfl := List.inj_on_of_nodup_map hids hm hnode hid
    have htext : given m.embedText = some text := by
      unfold PreparedNode.plannedText at htext
      split at htext
      · cases htext
      · exact htext
    have hembeddable : embeddable prepared m.id = true := by
      refine List.any_eq_true.2 ⟨m, List.mem_filter.2 ⟨hm, decide_eq_true htype⟩, ?_⟩
      rw [decide_eq_true_iff, htext]
      exact ⟨rfl, hauto, rfl⟩
    refine List.mem_filter.2 ⟨mem_eventIds.2 ⟨m, hm, htype, rfl⟩, ?_⟩
    dsimp only at hneeds
    rw [hembeddable, Bool.and_true, Bool.and_true]
    exact hneeds
  · cases hplanned

section Routing

variable (hk : KeepsRoutes opts t prepared commitId)
  (hout : t'.outbox =
    (callEvents opts t prepared commitId).foldl (insertOrIgnore outboxKey) t.outbox)

include hk hout

variable {id : String}

theorem linkedNow_after (hsource : id ∈ selectAssociativeLinkSourceNodeIds prepared.nodes) :
    id ∈ linkedNow t' prepared.scope commitId ↔ id ∉ (embedNodes t prepared).map (·.1) := by
  have hlink := hk.links id hsource
  constructor
  · intro hnow hembed
    rw [if_pos hembed] at hlink
    obtain ⟨row, hrow, hid⟩ := List.mem_flatMap.1 hnow
    rcases mem_commitEvents_after hout hrow with hold | ⟨hnew, htype⟩
    · exact hlink (List.mem_flatMap.2 ⟨row, hold, hid⟩)
    · rw [linkIds, payload_of_link hnew htype] at hid
      exact (mem_immediateIds.1 ((Json.textsOf_strings (immediateIds t prepared)) ▸ hid)).2 hembed
  · intro hembed
    have himmediate := mem_immediateIds.2 ⟨hsource, hembed⟩
    obtain ⟨e, he, htype⟩ := exists_linkEvent opts commitId
      (List.ne_nil_of_mem himmediate)
    obtain ⟨row, hrow, -, hpayload⟩ := exists_commitEvent hk hout he
    rw [htype] at hrow
    refine List.mem_flatMap.2 ⟨row, hrow, ?_⟩
    rw [linkIds, hpayload, payload_of_link he htype]
    exact (Json.textsOf_strings (immediateIds t prepared)).symm ▸ himmediate

theorem exists_embedRow (hembed : id ∈ (embedNodes t prepared).map (·.1)) :
    ∃ row ∈ commitEvents t' prepared.scope commitId "embed_nodes",
      row.payload = embedPayload opts t prepared commitId := by
  obtain ⟨planned, hplanned, -⟩ := List.mem_map.1 hembed
  obtain ⟨e, he, htype⟩ := exists_embedEvent opts commitId (List.ne_nil_of_mem hplanned)
  obtain ⟨row, hrow, -, hpayload⟩ := exists_commitEvent hk hout he
  exact ⟨row, htype ▸ hrow, hpayload.trans (payload_of_embed he htype)⟩

theorem linkedLater_after (hsource : id ∈ selectAssociativeLinkSourceNodeIds prepared.nodes) :
    id ∈ linkedLater t' prepared.scope commitId ↔ id ∈ (embedNodes t prepared).map (·.1) := by
  have hlink := hk.links id hsource
  constructor
  · intro hlater
    by_contra hembed
    rw [if_neg hembed] at hlink
    obtain ⟨row, hrow, hid⟩ := List.mem_flatMap.1 hlater
    rcases mem_commitEvents_after hout hrow with hold | ⟨hnew, htype⟩
    · exact hlink.1 (List.mem_flatMap.2 ⟨row, hold, hid⟩)
    · rw [followupIds_embed (payload_of_embed hnew htype)] at hid
      exact hembed (mem_deferredIds.1 hid).2
  · intro hembed
    obtain ⟨row, hrow, hpayload⟩ := exists_embedRow hk hout hembed
    refine List.mem_flatMap.2 ⟨row, hrow, ?_⟩
    rw [followupIds_embed hpayload]
    exact mem_deferredIds.2 ⟨hsource, hembed⟩

theorem toEmbed_after : id ∈ toEmbed t' prepared.scope commitId ↔
    id ∈ toEmbed t prepared.scope commitId ∨ id ∈ (embedNodes t prepared).map (·.1) := by
  constructor
  · intro hid
    obtain ⟨row, hrow, hid⟩ := List.mem_flatMap.1 hid
    rcases mem_commitEvents_after hout hrow with hold | ⟨hnew, htype⟩
    · exact Or.inl (List.mem_flatMap.2 ⟨row, hold, hid⟩)
    · exact Or.inr (embedIds_embed (payload_of_embed hnew htype) ▸ hid)
  · rintro (hold | hembed)
    · obtain ⟨row, hrow, hid⟩ := List.mem_flatMap.1 hold
      exact List.mem_flatMap.2 ⟨row, commitEvents_mono hout hrow, hid⟩
    · obtain ⟨row, hrow, hpayload⟩ := exists_embedRow hk hout hembed
      refine List.mem_flatMap.2 ⟨row, hrow, ?_⟩
      rw [embedIds_embed hpayload]
      exact hembed

/-- A node that the call clusters at once is listed by this event alone. -/
theorem count_clustered_runNow (hkeys : Unique outboxKey t.outbox)
    (hwaiting : ∀ row ∈ t.outbox, row.eventType = "embed_nodes" → waitingIds row = [])
    (hasync : prepared.clustersAsync = true) (hids : (prepared.nodes.map (·.id)).Nodup)
    (hid : id ∈ runNowIds t prepared) : (clustered t' prepared.scope commitId).count id = 1 := by
  obtain ⟨e, hcluster, htype⟩ := exists_clusterEvent opts commitId hasync (List.ne_nil_of_mem hid)
  have he : e ∈ callEvents opts t prepared commitId := List.mem_append_right _ hcluster
  obtain ⟨row, hrow, hkey, hpayload⟩ := exists_commitEvent hk hout he
  rw [htype] at hrow
  have hnone : id ∉ (commitEvents t' prepared.scope commitId "embed_nodes").flatMap waitingIds := by
    rw [List.mem_flatMap]
    rintro ⟨embed, hembed, hwaits⟩
    rcases mem_commitEvents_after hout hembed with hold | ⟨hnew, -⟩
    · obtain ⟨hembed, -, -, htype⟩ := mem_commitEvents.1 hold
      rw [hwaiting embed hembed htype] at hwaits
      cases hwaits
    · rw [(callEvents_eq hnew).2.2.2.1] at hwaits
      cases hwaits
  have hunique : Unique outboxKey (commitEvents t' prepared.scope commitId "topic_cluster") := by
    refine List.Nodup.sublist (List.Sublist.map _ List.filter_sublist) ?_
    rw [hout]
    exact hkeys.foldl_insertOrIgnore _
  rw [clustered, List.count_append, List.count_eq_zero_of_not_mem hnone, Nat.add_zero,
    hunique.count_flatMap hrow]
  · have hnodup : (runNowIds t prepared).Nodup :=
      (List.Nodup.sublist (List.Sublist.map _ List.filter_sublist) hids).filter _
    rw [clusterIds, hpayload, payload_of_cluster hcluster]
    exact (congrArg (List.count id) (Json.textsOf_strings (runNowIds t prepared))).trans
      (List.count_eq_one_of_mem hnodup hid)
  · intro other hother hne hlists
    rcases mem_commitEvents_after hout hother with hold | ⟨hnew, hnewType⟩
    · obtain ⟨e', he', hkey'⟩ := hk.once hasync id hid other hold hlists
      have heq : e = e' := callEvents_inj he (List.mem_append_right _ he')
        (htype.trans (mem_commitEvents.1 hold).2.2.2.symm |>.trans (congrArg (·.2.1) hkey').symm)
      exact hne (hkey'.symm.trans (heq ▸ hkey.symm))
    · have heq := callEvents_inj hnew he (hnewType.trans htype.symm)
      exact hne (hkey.symm ▸ congrArg outboxKey heq)

omit hk in
/-- A node that the call does not cluster is listed as often as before. -/
theorem count_clustered_of_not_mem (hid : id ∉ runNowIds t prepared) :
    (clustered t' prepared.scope commitId).count id =
      (clustered t prepared.scope commitId).count id := by
  obtain ⟨added, hadded, hcall⟩ := foldl_insertOrIgnore_eq_append outboxKey
    (callEvents opts t prepared commitId) t.outbox
  rw [hadded] at hout
  have hzero : ∀ (eventType : String) (g : LiteOutboxRow → List String),
      (∀ e ∈ callEvents opts t prepared commitId, e.eventType = eventType → id ∉ g e) →
      ((commitEvents t' prepared.scope commitId eventType).flatMap g).count id =
        ((commitEvents t prepared.scope commitId eventType).flatMap g).count id := by
    intro eventType g hg
    rw [commitEvents, hout, List.filter_append, List.flatMap_append, List.count_append]
    refine (congrArg _ (List.count_eq_zero_of_not_mem ?_)).trans (Nat.add_zero _)
    rw [List.mem_flatMap]
    rintro ⟨e, he, hlists⟩
    obtain ⟨he, hevent⟩ := List.mem_filter.1 he
    exact hg e (hcall e he) (of_decide_eq_true hevent).2.2 hlists
  rw [clustered, clustered, List.count_append, List.count_append, hzero, hzero]
  · intro e he _
    rw [(callEvents_eq he).2.2.2.1]
    exact List.not_mem_nil
  · intro e he htype
    obtain ⟨-, -, -, -, h⟩ := callEvents_eq he
    rw [htype] at h
    obtain ⟨h, -⟩ | ⟨h, -⟩ | ⟨-, h⟩ := h
    · exact absurd h (by decide)
    · exact absurd h (by decide)
    · rw [clusterIds, payload_of_cluster h]
      exact fun hlists => hid (Json.textsOf_strings (runNowIds t prepared) ▸ hlists)

end Routing

theorem routed_of_keepsRoutes (hk : KeepsRoutes opts t prepared commitId)
    (hout : t'.outbox = (callEvents opts t prepared commitId).foldl (insertOrIgnore outboxKey)
      t.outbox) (hnodes : t'.nodes = t.nodes) (hkeys : Unique outboxKey t.outbox)
    (hwaiting : ∀ row ∈ t.outbox, row.eventType = "embed_nodes" → waitingIds row = [])
    (hids : (prepared.nodes.map (·.id)).Nodup) : Routed t' prepared commitId where
  links id hsource := by
    have hlink := hk.links id hsource
    rw [linkedNow_after hk hout hsource, linkedLater_after hk hout hsource, toEmbed_after hk hout]
    refine ⟨Iff.rfl, Or.inr, fun h => ?_⟩
    by_contra hembed
    rw [if_neg hembed] at hlink
    exact hlink.2 (h.resolve_right hembed)
  clusters hasync node hnode htype hready := by
    by_cases hnow : node.id ∈ runNowIds t prepared
    · exact count_clustered_runNow hk hout hkeys hwaiting hasync hids hnow
    · rw [count_clustered_of_not_mem hout hnow]
      refine hk.listed hasync node.id (mem_eventIds.2 ⟨node, hnode, htype, rfl⟩) hnow ?_
      rw [readyEmbedding_congr hnodes, toEmbed_after hk hout] at hready
      rcases hready with hready | hold | hembed
      · exact Or.inl hready
      · exact Or.inr hold
      · have hwaits := mem_waitIds hids hnode htype hembed
        rcases hk.quiet hasync with hquiet | hquiet
        · rw [hquiet] at hwaits
          cases hwaits
        · rw [hquiet] at hembed
          cases hembed

/-! ## Runs -/

/-- The rows of the batch are in, and its jobs are not yet in the outbox. -/
def batchStored (opts : ApplyWriteOptions) (t : LiteTables) (prepared : PreparedWrite) :
    LiteTables :=
  prepared.nodes.foldl (fun stored node => stored.insertNode (opts.now node.id)
    (plannedInsert prepared node) (writeCommit opts t prepared).1) t

theorem embedNodes_congr (h : t'.nodes = t.nodes) :
    embedNodes t' prepared = embedNodes t prepared := by
  unfold embedNodes
  simp only [readyEmbedding_congr h]

theorem callEvents_congr (h : t'.nodes = t.nodes) :
    callEvents opts t' prepared commitId = callEvents opts t prepared commitId := by
  unfold callEvents embedEvents linkEvents clusterEvents embedPayload linkPayload clusterPayload
    immediateIds deferredIds
  simp only [embedNodes_congr h, runNowIds_congr h]

theorem insertCommit_outbox (t : LiteTables) (crypto : Crypto) (now : String)
    (a : WriteCommitInsertArgs) : (t.insertCommit crypto now a).2.outbox = t.outbox := by
  unfold LiteTables.insertCommit
  split
  · rfl
  · rfl

theorem insertPlanned_outbox {planned : PreparedNode × WriteNodeInsert}
    (h : insertPlanned opts commitId t planned = .ok t') : t'.outbox = t.outbox := by
  unfold insertPlanned at h
  dsimp only at h
  split at h
  · obtain ⟨draft, -, h⟩ := bind_eq_ok.1 h
    cases h
    rfl
  · cases h
    rfl

theorem upsertPrepared_outbox {edge : PreparedEdge}
    (h : upsertPrepared opts commitId t edge = .ok t') : t'.outbox = t.outbox := by
  have h := orThrow_eq_ok.1 h
  unfold LiteTables.upsertEdge at h
  split at h
  · cases h
    rfl
  · split at h
    · cases h
      rfl
    · cases h

theorem batchStored_eq (opts : ApplyWriteOptions) (t : LiteTables) (prepared : PreparedWrite) :
    (batchStored opts t prepared).outbox = t.outbox ∧
      (batchStored opts t prepared).nodes =
        (prepared.nodes.map (plannedRow opts prepared (writeCommit opts t prepared).1)).foldl
          (insertOrIgnore (·.id)) t.nodes := by
  unfold batchStored
  generalize (writeCommit opts t prepared).1 = commitId
  generalize prepared.nodes = nodes
  induction nodes generalizing t with
  | nil => exact ⟨rfl, rfl⟩
  | cons node nodes ih =>
    obtain ⟨houtbox, hnodes⟩ := ih (t.insertNode (opts.now node.id) (plannedInsert prepared node)
      commitId)
    exact ⟨houtbox, hnodes⟩

/-- An accepted write in which nothing waits: its rows are those of the batch, and the outbox has
got its events. -/
theorem applyMemoryWrite_outbox {result : WriteResult}
    (hk : KeepsRoutes opts (batchStored opts t prepared) prepared (writeCommit opts t prepared).1)
    (h : applyMemoryWrite opts t prepared = .ok (result, t')) :
    t'.outbox = (callEvents opts (batchStored opts t prepared) prepared
        (writeCommit opts t prepared).1).foldl (insertOrIgnore outboxKey)
        (batchStored opts t prepared).outbox ∧
      t'.nodes = (batchStored opts t prepared).nodes := by
  obtain ⟨t₁, t₂, r, w⟩ := applyMemoryWrite_steps h
  obtain ⟨r', hpost⟩ := w.post
  obtain ⟨hstoredOutbox, hstoredNodes⟩ := batchStored_eq opts t prepared
  have hnodes : t₂.nodes = (batchStored opts t prepared).nodes := by
    rw [hstoredNodes, (upsertPrepared_foldlM w.edges).1, (insertPlanned_foldlM w.nodes).1,
      show (writeCommit opts t prepared).2.nodes = t.nodes from (t.insertCommit_frame _ _ _).1]
  have houtbox : t₂.outbox = (batchStored opts t prepared).outbox := by
    rw [hstoredOutbox, foldlM_ok_frame (·.outbox) (fun _ _ _ => upsertPrepared_outbox) w.edges,
      foldlM_ok_frame (·.outbox) (fun _ _ _ => insertPlanned_outbox) w.nodes]
    exact insertCommit_outbox _ _ _ _
  obtain ⟨hout, hnodes'⟩ := enqueuePostCommitWriteArtifacts_outbox (fun hasync => by
    rw [waitIds_congr hnodes, embedNodes_congr hnodes]
    exact hk.quiet hasync) hpost
  rw [callEvents_congr hnodes, houtbox] at hout
  exact ⟨hout, hnodes'.trans hnodes⟩

/-- The tables, and the batch that was accepted by the last operation, with its commit. -/
structure OutboxState where
  tables : LiteTables
  last : Option (PreparedWrite × String) := none

/-- The event of `enqueueReplayLearningProjectionOutbox`. -/
def replayLearningEvent (crypto : Crypto) (now : String → String) (scope commitId : String)
    (payload : Json.Fields) : LiteOutboxRow :=
  let payloadSha := crypto.sha256Hex (crypto.stableStringify (.obj payload))
  let jobKey := crypto.sha256Hex (crypto.stableStringify (.obj [
    ("v", .num 1), ("scope", .str scope), ("event_type", .str "replay_learning_projection"),
    ("playbook_id", (Json.get payload "playbook_id").getD .null),
    ("playbook_version", (Json.get payload "playbook_version").getD .null),
    ("source_commit_id", .str ((Json.textOf (Json.get payload "source_commit_id")).getD "")),
    ("payload_sha256", .str payloadSha)]))
  { scope, commitId, eventType := "replay_learning_projection", jobKey,
    payloadSha256 := payloadSha, payload, createdAt := now jobKey }

/-- `prepareWriteBatch` lets no two nodes of a batch have one id. -/
inductive OutboxOperation where
  | write (opts : ApplyWriteOptions) (prepared : PreparedWrite)
      (ids : (prepared.nodes.map (·.id)).Nodup)
  | learn (now : String → String) (scope commitId : String) (payload : Json.Fields)
  | elsewhere (f : LiteTables → LiteTables) (outbox : ∀ t, (f t).outbox = t.outbox)

section Runs

variable (crypto : Crypto)

def OutboxState.step (s : OutboxState) : OutboxOperation → Option OutboxState
  | .write opts prepared _ =>
    match applyMemoryWrite { opts with crypto } s.tables prepared with
    | .ok (result, tables) => some { tables, last := some (prepared, result.commitId) }
    | .error _ => some { tables := s.tables }
  | .learn now scope commitId payload =>
    let event := replayLearningEvent crypto now scope commitId payload
    some { tables := s.tables.insertOutboxEvent event }
  | .elsewhere f _ => some { tables := f s.tables }

/-- An accepted write keeps the routes of its nodes. -/
def RoutesAllowed (s : OutboxState) : OutboxOperation → Prop
  | .write opts prepared _ =>
    (applyMemoryWrite { opts with crypto } s.tables prepared).isOk = true →
      KeepsRoutes { opts with crypto } (batchStored { opts with crypto } s.tables prepared) prepared
        (writeCommit { opts with crypto } s.tables prepared).1
  | .learn .. => True
  | .elsewhere _ _ => True

/-- Every event has the hash of its payload, and the nodes of an accepted batch are in their
places. -/
structure OutboxSound (s : OutboxState) : Prop where
  hashed : ∀ row ∈ s.tables.outbox, Hashed crypto row
  routed : ∀ w ∈ s.last, Routed s.tables w.1 w.2

variable {crypto}

/-- The invariant of the runs: the keys are unique, and no event has been amended. -/
structure OutboxInvariant (crypto : Crypto) (s : OutboxState) : Prop
    extends OutboxSound crypto s where
  keys : Unique outboxKey s.tables.outbox
  waiting : ∀ row ∈ s.tables.outbox, row.eventType = "embed_nodes" → waitingIds row = []

theorem OutboxInvariant.step {s s' : OutboxState} {op : OutboxOperation}
    (h : OutboxInvariant crypto s) (hallowed : RoutesAllowed crypto s op)
    (hstep : s.step crypto op = some s') : OutboxInvariant crypto s' := by
  cases op with
  | elsewhere f houtbox =>
    obtain rfl := Option.some.inj hstep
    exact {
      hashed := fun row hrow => h.hashed row (houtbox s.tables ▸ hrow)
      routed := nofun
      keys := by
        show Unique outboxKey (f s.tables).outbox
        rw [houtbox]
        exact h.keys
      waiting := fun row hrow => h.waiting row (houtbox s.tables ▸ hrow) }
  | write opts prepared hids =>
    simp only [OutboxState.step] at hstep
    split at hstep
    · next result tables happly =>
      obtain rfl := Option.some.inj hstep
      have hk := hallowed (by rw [happly]; rfl)
      obtain ⟨hout, hnodes⟩ := applyMemoryWrite_outbox hk happly
      have hbefore := (batchStored_eq { opts with crypto } s.tables prepared).1
      have hkeys : Unique outboxKey
          (batchStored { opts with crypto } s.tables prepared).outbox := hbefore ▸ h.keys
      have hwaiting : ∀ row ∈ (batchStored { opts with crypto } s.tables prepared).outbox,
          row.eventType = "embed_nodes" → waitingIds row = [] := hbefore ▸ h.waiting
      have hrouted := routed_of_keepsRoutes hk hout hnodes hkeys hwaiting hids
      have hmem : ∀ row ∈ tables.outbox, row ∈ s.tables.outbox ∨
          row ∈ callEvents { opts with crypto } (batchStored { opts with crypto } s.tables prepared)
            prepared (writeCommit { opts with crypto } s.tables prepared).1 := by
        intro row hrow
        rw [hout] at hrow
        rcases mem_foldl_insertOrIgnore hrow with hold | hnew
        · exact Or.inl (hbefore ▸ hold)
        · exact Or.inr hnew
      exact {
        hashed := fun row hrow => (hmem row hrow).elim (h.hashed row)
          fun hnew => (callEvents_eq hnew).2.2.1
        routed := by
          rintro w hw
          obtain rfl := Option.some.inj hw
          rw [(applyMemoryWrite_ok happly).commitId]
          exact hrouted
        keys := by
          show Unique outboxKey tables.outbox
          rw [hout]
          exact hkeys.foldl_insertOrIgnore _
        waiting := fun row hrow => (hmem row hrow).elim (h.waiting row)
          fun hnew _ => (callEvents_eq hnew).2.2.2.1 }
    · obtain rfl := Option.some.inj hstep
      exact { h with routed := nofun }
  | learn now scope commitId payload =>
    obtain rfl := Option.some.inj hstep
    have hmem : ∀ row ∈ (s.tables.insertOutboxEvent
        (replayLearningEvent crypto now scope commitId payload)).outbox,
        row ∈ s.tables.outbox ∨ row = replayLearningEvent crypto now scope commitId payload :=
      fun row hrow => (mem_insertOrIgnore.1 hrow).imp_right And.left
    exact {
      hashed := by
        intro row hrow
        rcases hmem row hrow with hold | rfl
        · exact h.hashed row hold
        · rfl
      routed := nofun
      keys := Unique.insertOrIgnore h.keys
      waiting := by
        intro row hrow htype
        rcases hmem row hrow with hold | rfl
        · exact h.waiting row hold htype
        · exact absurd htype (show "replay_learning_projection" ≠ "embed_nodes" by decide) }

/-- The outbox of a fresh store is sound throughout a run whose writes keep the routes. -/
theorem outbox_sound (crypto : Crypto) {s : OutboxState} (ops : List OutboxOperation)
    (hallowed : Along (OutboxState.step crypto) (RoutesAllowed crypto) { tables := .empty } ops)
    (hrun : run (OutboxState.step crypto) { tables := .empty } ops = some s) :
    OutboxSound crypto s := by
  have hstart : OutboxInvariant crypto { tables := .empty } :=
    { hashed := fun _ hrow => nomatch hrow
      routed := nofun
      keys := .nil
      waiting := fun _ hrow => nomatch hrow }
  exact (run_invariant_along (fun _ _ _ h hop hstep => h.step hop hstep) hstart hallowed
    hrun).toOutboxSound

end Runs

/-! ## A batch in its places, and two that are not -/

theorem keepsRoutes_of_fresh (hout : t.outbox = []) (hquiet : waitIds t prepared = [])
    (hready : ∀ id ∈ eventIds prepared, t.readyEmbedding prepared.scope id = true →
      id ∈ runNowIds t prepared) : KeepsRoutes opts t prepared commitId := by
  have hevents : ∀ eventType, commitEvents t prepared.scope commitId eventType = [] := by
    intro eventType
    rw [commitEvents, hout]
    rfl
  have hembed : toEmbed t prepared.scope commitId = [] := by rw [toEmbed, hevents]; rfl
  refine ⟨?_, fun _ => Or.inl hquiet, ?_, ?_, ?_⟩
  · intro id _
    rw [linkedNow, linkedLater, hembed, hevents, hevents]
    split
    · exact List.not_mem_nil
    · exact ⟨List.not_mem_nil, List.not_mem_nil⟩
  · intro _ id hid hnow h
    rw [hembed] at h
    exact absurd (hready id hid (h.resolve_right List.not_mem_nil)) hnow
  · intro _ id _ row hrow
    rw [hevents] at hrow
    cases hrow
  · intro e _ row hrow
    rw [hout] at hrow
    cases hrow

def eventId : String := "00000000-0000-5000-8000-00000000000e"

def textId : String := "00000000-0000-5000-8000-00000000000f"

/-- An event that is clustered at once, and a text that is linked after its embedding. -/
def routedWrite : PreparedWrite where
  tenantId := "default"
  scopePublic := "default"
  scope := "default"
  actor := "a"
  inputSha256 := "i"
  autoEmbedEffective := true
  nodes := [
    { id := eventId, scope := "default", type := "event", memoryLane := .sharedLane,
      embedding := some (List.replicate 1536 0) },
    { id := textId, scope := "default", type := "evidence", memoryLane := .sharedLane,
      embedText := some "text" }]
  edges := []
  triggerTopicCluster := true
  topicClusterAsync := true

def routedOptions : ApplyWriteOptions where
  crypto := sampleCrypto
  now := fun _ => "t"
  associativeLinkOrigin := some .memoryWrite

def routedRun : List OutboxOperation := [.write routedOptions routedWrite (by decide)]

theorem routedRun_allowed :
    Along (OutboxState.step sampleCrypto) (RoutesAllowed sampleCrypto) { tables := .empty }
      routedRun := by
  refine ⟨fun _ => keepsRoutes_of_fresh ?_ ?_ ?_, ?_⟩
  · rw [(batchStored_eq _ _ _).1]
    rfl
  · decide +kernel
  · decide +kernel
  · intro _ _
    trivial

theorem routedRun_last : (run (OutboxState.step sampleCrypto) { tables := .empty } routedRun).any
    (·.last.isSome) := by decide +kernel

theorem outbox_sound_routedRun : ∃ s,
    run (OutboxState.step sampleCrypto) { tables := .empty } routedRun = some s ∧
      s.last.isSome ∧ OutboxSound sampleCrypto s := by
  obtain ⟨s, hrun, hlast⟩ := (Option.any_eq_true _ _).1 routedRun_last
  exact ⟨s, hrun, hlast, outbox_sound sampleCrypto routedRun routedRun_allowed hrun⟩

/-- The event waits for its embedding. -/
def waitingWrite : PreparedWrite :=
  { routedWrite with
    nodes := [
      { id := eventId, scope := "default", type := "event", memoryLane := .sharedLane,
        embedText := some "text" }] }

def waitingRun : List OutboxOperation := [.write routedOptions waitingWrite (by decide)]

/-- The event has its embedding, and is embedded again. -/
def forcedWrite : PreparedWrite :=
  { routedWrite with
    forceReembed := true
    nodes := [
      { id := eventId, scope := "default", type := "event", memoryLane := .sharedLane,
        embedText := some "text", embedding := some (List.replicate 1536 0) }] }

def forcedRun : List OutboxOperation := [.write routedOptions forcedWrite (by decide)]

def unhashed (s : OutboxState) : Bool :=
  s.tables.outbox.any fun row =>
    row.payloadSha256 != sampleCrypto.sha256Hex (sampleCrypto.stableStringify (.obj row.payload))

/-- An event node that is ready is not listed. -/
def unlisted (s : OutboxState) : Bool :=
  s.last.any fun w => w.1.clustersAsync && (clustered s.tables w.1.scope w.2).isEmpty &&
    w.1.nodes.any fun node =>
      node.type == "event" && s.tables.readyEmbedding w.1.scope node.id

theorem not_sound_of_unhashed {s : OutboxState} (h : unhashed s = true) :
    ¬ OutboxSound sampleCrypto s := by
  intro hs
  obtain ⟨row, hrow, hne⟩ := List.any_eq_true.1 h
  exact bne_iff_ne.1 hne (hs.hashed row hrow)

theorem not_sound_of_unlisted {s : OutboxState} (h : unlisted s = true) :
    ¬ OutboxSound sampleCrypto s := by
  intro hs
  obtain ⟨w, hw, h⟩ := (Option.any_eq_true _ _).1 h
  obtain ⟨h, hnodes⟩ := Bool.and_eq_true_iff.1 h
  obtain ⟨hasync, hnone⟩ := Bool.and_eq_true_iff.1 h
  obtain ⟨node, hnode, h⟩ := List.any_eq_true.1 hnodes
  obtain ⟨htype, hready⟩ := Bool.and_eq_true_iff.1 h
  have hcount := (hs.routed w hw).clusters hasync node hnode (beq_iff_eq.1 htype) (Or.inl hready)
  rw [List.isEmpty_iff.1 hnone, List.count_nil] at hcount
  exact absurd hcount Nat.zero_ne_one

theorem waitingRun_unhashed :
    (run (OutboxState.step sampleCrypto) { tables := .empty } waitingRun).any unhashed := by
  decide +kernel

theorem forcedRun_unlisted :
    (run (OutboxState.step sampleCrypto) { tables := .empty } forcedRun).any unlisted := by
  decide +kernel

/-- The amended event has the hash of its former payload, and the event that is embedded again
is listed nowhere. -/
theorem waiting_and_forced_unsound :
    (∃ s, run (OutboxState.step sampleCrypto) { tables := .empty } waitingRun = some s ∧
      ¬ OutboxSound sampleCrypto s) ∧
    ∃ s, run (OutboxState.step sampleCrypto) { tables := .empty } forcedRun = some s ∧
      ¬ OutboxSound sampleCrypto s := by
  obtain ⟨s, hrun, h⟩ := (Option.any_eq_true _ _).1 waitingRun_unhashed
  obtain ⟨s', hrun', h'⟩ := (Option.any_eq_true _ _).1 forcedRun_unlisted
  exact ⟨⟨s, hrun, not_sound_of_unhashed h⟩, s', hrun', not_sound_of_unlisted h'⟩

end AionisCore.Memory
