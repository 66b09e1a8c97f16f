import AionisCore.Memory.Tenant
import AionisCore.Store.WriteTables

/-!
# Prepared writes

A prepared write is a batch of nodes and edges with their ids, and a write result
names what the batch wrote. The diff of the commit lists the same nodes and edges.
-/

namespace AionisCore.Memory

open Lib Lib.JsString Util Store

structure PreparedNode where
  id : String
  clientId : Option String := none
  scope : String
  type : String
  tier : Option String := none
  memoryLane : MemoryLane
  producerAgentId : Option String := none
  ownerAgentId : Option String := none
  ownerTeamId : Option String := none
  title : Option String := none
  textSummary : Option String := none
  slots : Json.Fields := []
  rawRef : Option String := none
  evidenceRef : Option String := none
  embedding : Option (List ℚ) := none
  embeddingModel : Option String := none
  embedText : Option String := none
  salience : Option ℚ := none
  importance : Option ℚ := none
  confidence : Option ℚ := none

structure PreparedEdge extends EdgeKey where
  id : String
  weight : Option ℚ := none
  confidence : Option ℚ := none
  decayRate : Option ℚ := none
  deriving DecidableEq

/-- The fields that `applyMemoryWrite` reads. -/
structure PreparedWrite where
  tenantId : String
  scopePublic : String
  scope : String
  actor : String
  parentCommitId : Option String := none
  inputSha256 : String
  modelVersion : Option String := none
  promptVersion : Option String := none
  redactionMeta : List (String × Nat) := []
  autoEmbedEffective : Bool := false
  forceReembed : Bool := false
  nodes : List PreparedNode
  edges : List PreparedEdge
  triggerTopicCluster : Bool := false
  topicClusterAsync : Bool := false
  distillation : Option Json := none

/-- A request error, an `Error`, a schema error, or a violated constraint of the database. -/
inductive WriteError where
  | request (error : RequestError)
  | thrown (message : String)
  | schema
  | constraint (message : String)

/-! ## URIs -/

structure AionisUriParts where
  tenantId : String
  scope : String
  type : String
  id : String

def AIONIS_URI_OBJECT_TYPES : List String :=
  ["event", "entity", "topic", "rule", "evidence", "concept", "procedure", "self_model", "edge",
    "commit", "decision"]

def isHexDigit (c : Char) : Bool :=
  c.isDigit || ('a' ≤ c && c ≤ 'f') || ('A' ≤ c && c ≤ 'F')

/-- `^[0-9a-f]{8}-[0-9a-f]{4}-[0-9a-f]{4}-[0-9a-f]{4}-[0-9a-f]{12}$`, in either case. -/
def isUuid (s : String) : Bool :=
  s.toList.length == 36 &&
    s.toList.zipIdx.all fun (c, i) => if i ∈ [8, 13, 18, 23] then c == '-' else isHexDigit c

def hexDigit (n : Nat) : Char := "0123456789ABCDEF".toList.getD n '0'

/-- `encodeURIComponent`: the bytes of all but a few ASCII characters are escaped. -/
def encodeURIComponent (s : String) : String :=
  String.join (s.toUTF8.toList.map fun b =>
    let c := Char.ofNat b.toNat
    if b.toNat < 128 ∧ (c.isAlphanum ∨ c ∈ "-_.!~*'()".toList) then String.singleton c
    else String.ofList ['%', hexDigit (b.toNat / 16), hexDigit (b.toNat % 16)])

def buildAionisUri (input : AionisUriParts) : Except RequestError String :=
  let tenantId := trim input.tenantId
  let scope := trim input.scope
  let type := trim input.type
  let id := trim input.id
  if tenantId = "" ∨ scope = "" ∨ type = "" ∨ id = "" then
    .error (badRequest "invalid_aionis_uri_parts"
      "tenant_id, scope, type, id are required for URI generation" none)
  else if type ∉ AIONIS_URI_OBJECT_TYPES then
    .error (badRequest "invalid_aionis_uri_parts" "type is not supported for URI generation"
      (some [("type", .str type)]))
  else if !isUuid id then
    .error (badRequest "invalid_aionis_uri_parts" "id must be a UUID for URI generation"
      (some [("id", .str id)]))
  else
    .ok ("aionis://" ++ "/".intercalate ([tenantId, scope, type, id].map encodeURIComponent))

/-! ## Diff and result -/

def diffNode (node : PreparedNode) : Json :=
  .obj ([("id", .str node.id)] ++ Json.optional "client_id" (node.clientId.map .str) ++
    [("type", .str node.type)] ++ Json.optional "title" (node.title.map .str) ++
    [("memory_lane", .str node.memoryLane.name),
      ("producer_agent_id", Json.orNull node.producerAgentId),
      ("owner_agent_id", Json.orNull node.ownerAgentId),
      ("owner_team_id", Json.orNull node.ownerTeamId)])

def diffEdge (edge : PreparedEdge) : Json :=
  .obj [("id", .str edge.id), ("type", .str edge.type), ("src_id", .str edge.srcId),
    ("dst_id", .str edge.dstId)]

def buildWriteDiff (prepared : PreparedWrite) (piiRedaction : Bool) : Json :=
  .obj [("redaction", .obj (if piiRedaction then
      prepared.redactionMeta.map fun count => (count.1, .num count.2) else [])),
    ("nodes", .arr (prepared.nodes.map diffNode)),
    ("edges", .arr (prepared.edges.map diffEdge))]

structure WriteResultNode where
  id : String
  uri : String
  clientId : Option String
  type : String
  deriving DecidableEq, Repr

structure WriteResultEdge where
  id : String
  uri : String
  type : String
  srcId : String
  dstId : String
  deriving DecidableEq, Repr

/-- `shadow_dual_write` for a store that cannot mirror. -/
structure ShadowDualWrite where
  strict : Bool
  error : String
  deriving DecidableEq, Repr

structure WriteResult where
  tenantId : String
  scope : String
  commitId : String
  commitUri : String
  commitHash : String
  nodes : List WriteResultNode
  edges : List WriteResultEdge
  distillation : Option Json := none
  /-- `embedding_backfill.pending_nodes`. -/
  embeddingBackfill : Option Nat := none
  /-- `topic_cluster` is `{ enqueued: true }`. -/
  topicClusterEnqueued : Bool := false
  shadowDualWrite : Option ShadowDualWrite := none

/-- `buildAionisUri` within the tenant and the scope of a write. -/
def PreparedWrite.uri (prepared : PreparedWrite) (type id : String) :
    Except RequestError String :=
  buildAionisUri { tenantId := prepared.tenantId, scope := prepared.scopePublic, type, id }

def resultNode (prepared : PreparedWrite) (node : PreparedNode) :
    Except RequestError WriteResultNode := do
  let uri ← prepared.uri node.type node.id
  return { id := node.id, uri, clientId := node.clientId, type := node.type }

def resultEdge (prepared : PreparedWrite) (edge : PreparedEdge) :
    Except RequestError WriteResultEdge := do
  let uri ← prepared.uri "edge" edge.id
  return { id := edge.id, uri, type := edge.type, srcId := edge.srcId, dstId := edge.dstId }

def buildWriteResult (prepared : PreparedWrite) (commitId commitHash : String) :
    Except RequestError WriteResult := do
  let commitUri ← prepared.uri "commit" commitId
  let nodes ← prepared.nodes.mapM (resultNode prepared)
  let edges ← prepared.edges.mapM (resultEdge prepared)
  return {
    tenantId := prepared.tenantId
    scope := prepared.scopePublic
    commitId
    commitUri
    commitHash
    nodes
    edges
    distillation := prepared.distillation }

/-! ## Ids in keys -/

theorem isWhite_of_isHexDigit {c : Char} (h : isHexDigit c = true) : isWhite c = false := by
  have hrange : 0x30 ≤ c.toNat ∧ c.toNat ≤ 0x66 := by
    simp only [isHexDigit, Char.isDigit, Bool.or_eq_true, Bool.and_eq_true, decide_eq_true_iff,
      Char.le_def, UInt32.le_iff_toNat_le, ge_iff_le] at h
    have hval : c.toNat = c.val.toNat := rfl
    rcases h with (⟨hlo, hhi⟩ | ⟨hlo, hhi⟩) | ⟨hlo, hhi⟩
    all_goals
      simp at hlo hhi
      omega
  exact isWhite_of_printable (by omega) (by omega)

theorem plain_of_isUuid {id : String} (h : isUuid id = true) : Plain id := by
  obtain ⟨hlen, hall⟩ := Bool.and_eq_true_iff.1 h
  refine ⟨trimmed_of_visible fun c hc => ?_, ?_⟩
  · obtain ⟨i, hi, rfl⟩ := List.mem_iff_getElem.1 hc
    have hmem : (id.toList[i], i) ∈ id.toList.zipIdx := by
      rw [List.mem_zipIdx_iff_getElem?, List.getElem?_eq_getElem hi]
    have hchar := List.all_eq_true.1 hall _ hmem
    dsimp only at hchar
    split at hchar
    · rw [eq_of_beq hchar]
      decide
    · exact isWhite_of_isHexDigit hchar
  · rintro rfl
    cases hlen

theorem buildAionisUri_ok {input : AionisUriParts} (htenant : Plain input.tenantId)
    (hscope : Plain input.scope) (htype : Plain input.type)
    (hknown : input.type ∈ AIONIS_URI_OBJECT_TYPES) (huuid : isUuid input.id = true) :
    ∃ uri, buildAionisUri input = .ok uri := by
  have hid := plain_of_isUuid huuid
  unfold buildAionisUri
  rw [htenant.1, hscope.1, htype.1, hid.1]
  simp [htenant.2, hscope.2, htype.2, hid.2, hknown, huuid]

/-- A part of a key that holds no separator. -/
def Colonless (s : String) : Prop := ':' ∉ s.toList

/-- Behind a separator a key has one reading. -/
theorem append_colons_inj {s s' i i' : String} (hi : Colonless i) (hi' : Colonless i') :
    s ++ "::" ++ i = s' ++ "::" ++ i' ↔ s = s' ∧ i = i' := by
  refine ⟨fun h => ?_, fun ⟨hs, hi⟩ => by rw [hs, hi]⟩
  have hlists : ∀ a b : String, (a ++ "::" ++ b).toList.reverse =
      b.toList.reverse ++ ':' :: ':' :: a.toList.reverse := by
    intro a b
    simp
  have hrev := congrArg (fun k => k.toList.reverse) h
  simp only [hlists] at hrev
  obtain ⟨hids, hrest⟩ := append_sep_inj (fun hm => hi (List.mem_reverse.1 hm))
    (fun hm => hi' (List.mem_reverse.1 hm)) hrev
  exact ⟨String.toList_injective (List.reverse_injective (List.cons_eq_cons.1 hrest).2),
    String.toList_injective (List.reverse_injective hids)⟩

theorem colonless_of_isUuid {id : String} (h : isUuid (trim id) = true) : Colonless id := by
  intro hc
  obtain ⟨i, hi, hget⟩ := List.mem_iff_getElem.1 (mem_trim hc (by decide))
  have hall := (Bool.and_eq_true_iff.1 h).2
  have hmem : (':', i) ∈ (trim id).toList.zipIdx := by
    rw [List.mem_zipIdx_iff_getElem?, List.getElem?_eq_getElem hi, hget]
  have hcolon := List.all_eq_true.1 hall _ hmem
  dsimp only at hcolon
  split at hcolon
  · cases hcolon
  · cases hcolon

end AionisCore.Memory
