import AionisCore.Memory.Write

/-!
# What a memory write leaves in the tables

`Written` says what a successful `applyMemoryWrite` did, in terms of the tables before
it. An id of the result names a row exactly when what the store held agreed with the
batch beforehand.
-/

namespace AionisCore.Memory

open Lib Lib.Table Lib.JsString Util Store

variable {opts : ApplyWriteOptions} {t t' : LiteTables} {prepared : PreparedWrite}
  {result : WriteResult}

/-! ## One step of each loop -/

variable {commitId : String} {planned : PreparedNode × WriteNodeInsert}

theorem insertPlanned_ok (h : insertPlanned opts commitId t planned = .ok t') :
    t'.nodes = insertOrIgnore (·.id) t.nodes (planned.2.row commitId (opts.now planned.2.id)) ∧
      t'.commits = t.commits ∧ t'.edges = t.edges := by
  unfold insertPlanned at h
  dsimp only at h
  split at h
  · obtain ⟨draft, -, h⟩ := bind_eq_ok.1 h
    cases h
    exact ⟨rfl, rfl, rfl⟩
  · cases h
    exact ⟨rfl, rfl, rfl⟩

/-- The id of the row of an edge. -/
def edgeId? (t : LiteTables) (k : EdgeKey) : Option String :=
  (row? (·.toEdgeKey) t.edges k).map (·.id)

theorem edgeId?_upsertEdge {now : String} {a : WriteEdgeUpsertArgs}
    (h : t.upsertEdge now a = some t') (k : EdgeKey) :
    edgeId? t' k = (edgeId? t k).or (if a.toEdgeKey = k then some a.id else none) := by
  unfold LiteTables.upsertEdge at h
  split at h
  · next row hrow =>
    cases h
    unfold edgeId?
    rw [row?_map (LiteTables.mergeEdge_key a), Option.map_map]
    have hid : (fun row : LiteEdgeRow => row.id) ∘ LiteTables.mergeEdge a = fun row => row.id :=
      funext (LiteTables.mergeEdge_id a)
    rw [hid]
    by_cases hk : a.toEdgeKey = k
    · rw [← hk, hrow, Option.map_some, Option.some_or]
    · rw [if_neg hk, Option.or_none]
  · split at h
    · cases h
      unfold edgeId?
      rw [row?_concat]
      dsimp only
      by_cases hk : a.toEdgeKey = k
      · rw [if_pos hk, if_pos hk]
        cases row? (·.toEdgeKey) t.edges k <;> rfl
      · rw [if_neg hk, if_neg hk, Option.or_none, Option.or_none]
    · cases h

theorem upsertEdge_frame {now : String} {a : WriteEdgeUpsertArgs}
    (h : t.upsertEdge now a = some t') : t'.nodes = t.nodes ∧ t'.commits = t.commits := by
  unfold LiteTables.upsertEdge at h
  split at h
  · cases h
    exact ⟨rfl, rfl⟩
  · split at h
    · cases h
      exact ⟨rfl, rfl⟩
    · cases h

theorem upsertPrepared_ok {edge : PreparedEdge} (h : upsertPrepared opts commitId t edge = .ok t') :
    t'.nodes = t.nodes ∧ t'.commits = t.commits ∧
      ∀ k, edgeId? t' k = (edgeId? t k).or (if edge.toEdgeKey = k then some edge.id else none) := by
  have h := orThrow_eq_ok.1 h
  obtain ⟨hnodes, hcommits⟩ := upsertEdge_frame h
  exact ⟨hnodes, hcommits, edgeId?_upsertEdge h⟩

theorem edgeId?_upserts {edges : List PreparedEdge}
    (h : edges.foldlM (upsertPrepared opts commitId) t = .ok t') (k : EdgeKey) :
    edgeId? t' k = (edgeId? t k).or ((row? (·.toEdgeKey) edges k).map (·.id)) := by
  induction edges generalizing t with
  | nil =>
    cases h
    exact Option.or_none.symm
  | cons edge edges ih =>
    rw [List.foldlM_cons] at h
    obtain ⟨t₁, h₁, h⟩ := bind_eq_ok.1 h
    obtain ⟨-, -, hid⟩ := upsertPrepared_ok h₁
    rw [ih h, hid k, Option.or_assoc]
    congr 1
    by_cases hk : edge.toEdgeKey = k
    · simp [row?, hk]
    · simp [row?, hk]

/-! ## The whole call -/

/-- The hash under which the write is committed. -/
def writeHash (opts : ApplyWriteOptions) (t : LiteTables) (prepared : PreparedWrite) : String :=
  commitHash opts prepared ((parentHash t prepared).toOption.getD "")
    (buildWriteDiff prepared opts.piiRedaction)

/-- The commit of the write: its id and the tables with its row. -/
def writeCommit (opts : ApplyWriteOptions) (t : LiteTables) (prepared : PreparedWrite) :
    String × LiteTables :=
  t.insertCommit opts.crypto (opts.now (writeHash opts t prepared))
    (commitArgs prepared (buildWriteDiff prepared opts.piiRedaction) (writeHash opts t prepared))

/-- The row that a node of the batch asks for. -/
def plannedRow (opts : ApplyWriteOptions) (prepared : PreparedWrite) (commitId : String)
    (node : PreparedNode) : LiteNodeRow :=
  (plannedInsert prepared node).row commitId (opts.now node.id)

/-- What a successful write did. -/
structure Written (opts : ApplyWriteOptions) (t : LiteTables) (prepared : PreparedWrite)
    (result : WriteResult) (t' : LiteTables) : Prop where
  nodesInScope : ∀ node ∈ prepared.nodes, node.scope = prepared.scope
  edgesInScope : ∀ edge ∈ prepared.edges, edge.scope = prepared.scope
  storedScopes : ∀ node ∈ prepared.nodes, ∀ row ∈ t.nodes, row.id = node.id →
    row.scope = node.scope
  fingerprints : ∀ node ∈ prepared.nodes, ∀ row ∈ t.nodes, row.id = node.id →
    node.allowsExistingNodeContentReuse = false →
    writeNodeFingerprint opts.crypto row.insertArgs =
      writeNodeFingerprint opts.crypto (plannedInsert prepared node)
  commitId : result.commitId = (writeCommit opts t prepared).1
  commitHash : result.commitHash = writeHash opts t prepared
  commits : t'.commits = (writeCommit opts t prepared).2.commits
  nodes : t'.nodes = (prepared.nodes.map (plannedRow opts prepared result.commitId)).foldl
    (insertOrIgnore (·.id)) t.nodes
  edges : ∀ k, edgeId? t' k = (edgeId? t k).or ((row? (·.toEdgeKey) prepared.edges k).map (·.id))
  resultNodes : result.nodes.map (fun n => (n.id, n.type, n.clientId)) =
    prepared.nodes.map fun n => (n.id, n.type, n.clientId)
  resultEdges : result.edges.map (fun e => (e.id, e.type, e.srcId, e.dstId)) =
    prepared.edges.map fun e => (e.id, e.type, e.srcId, e.dstId)

theorem assertSingleScopeWrite_ok (h : assertSingleScopeWrite prepared = .ok ()) :
    (∀ node ∈ prepared.nodes, node.scope = prepared.scope) ∧
      ∀ edge ∈ prepared.edges, edge.scope = prepared.scope := by
  unfold assertSingleScopeWrite at h
  split at h
  · cases h
  · next hnodes =>
    split at h
    · cases h
    · next hedges =>
      simp only [List.find?_eq_none, decide_not, Bool.not_eq_true', decide_eq_false_iff_not,
        Decidable.not_not] at hnodes hedges
      exact ⟨hnodes, hedges⟩

variable {row : LiteNodeRow}

theorem nodeFingerprint?_of_mem (hrow : row ∈ t.nodes) (crypto : Crypto) :
    t.nodeFingerprint? crypto row.id =
      some (row.scope, writeNodeFingerprint crypto row.insertArgs) := by
  rw [LiteTables.nodeFingerprint?, t.nodeIds.row? hrow, Option.map_some]

variable {node : PreparedNode}

theorem checkNodeScope_ok (h : checkNodeScope opts t node = .ok ()) (hrow : row ∈ t.nodes)
    (hid : row.id = node.id) : row.scope = node.scope := by
  unfold checkNodeScope at h
  rw [← hid, nodeFingerprint?_of_mem hrow] at h
  dsimp only at h
  by_contra hne
  rw [if_pos hne] at h
  cases h

theorem checkFingerprint_ok (h : checkFingerprint opts t prepared planned = .ok ())
    (hrow : row ∈ t.nodes) (hid : row.id = planned.1.id) (hscope : row.scope = planned.1.scope)
    (hreuse : planned.1.allowsExistingNodeContentReuse = false) :
    writeNodeFingerprint opts.crypto row.insertArgs =
      writeNodeFingerprint opts.crypto planned.2 := by
  unfold checkFingerprint at h
  dsimp only at h
  rw [← hid, nodeFingerprint?_of_mem hrow] at h
  dsimp only at h
  by_contra hne
  rw [if_pos ⟨hscope, hreuse, hne⟩] at h
  cases h

theorem planNode_ok (h : planNode prepared node = .ok planned) :
    planned = (node, plannedInsert prepared node) := by
  obtain ⟨-, -, h⟩ := bind_eq_ok.1 h
  exact (Except.ok.inj h).symm

theorem resultNode_ok {n : WriteResultNode} (h : resultNode prepared node = .ok n) :
    (n.id, n.type, n.clientId) = (node.id, node.type, node.clientId) := by
  obtain ⟨uri, -, h⟩ := bind_eq_ok.1 h
  cases h
  rfl

theorem resultEdge_ok {edge : PreparedEdge} {e : WriteResultEdge}
    (h : resultEdge prepared edge = .ok e) :
    (e.id, e.type, e.srcId, e.dstId) = (edge.id, edge.type, edge.srcId, edge.dstId) := by
  obtain ⟨uri, -, h⟩ := bind_eq_ok.1 h
  cases h
  rfl

theorem buildWriteResult_ok {commitHash : String}
    (h : buildWriteResult prepared commitId commitHash = .ok result) :
    result.commitId = commitId ∧ result.commitHash = commitHash ∧
      result.nodes.map (fun n => (n.id, n.type, n.clientId)) =
        prepared.nodes.map (fun n => (n.id, n.type, n.clientId)) ∧
      result.edges.map (fun e => (e.id, e.type, e.srcId, e.dstId)) =
        prepared.edges.map fun e => (e.id, e.type, e.srcId, e.dstId) := by
  obtain ⟨uri, -, h⟩ := bind_eq_ok.1 h
  obtain ⟨nodes, hnodes, h⟩ := bind_eq_ok.1 h
  obtain ⟨edges, hedges, h⟩ := bind_eq_ok.1 h
  cases h
  exact ⟨rfl, rfl, map_mapM_ok (fun _ _ => resultNode_ok) hnodes,
    map_mapM_ok (fun _ _ => resultEdge_ok) hedges⟩

theorem buildAionisUri_uuid {input : AionisUriParts} {uri : String}
    (h : buildAionisUri input = .ok uri) : isUuid (trim input.id) = true := by
  unfold buildAionisUri at h
  dsimp only at h
  split at h
  · cases h
  · split at h
    · cases h
    · split at h
      · cases h
      · next huuid =>
        simpa using huuid

/-- The result of a write names every node of it by a URI. -/
theorem buildWriteResult_uuids {commitHash : String}
    (h : buildWriteResult prepared commitId commitHash = .ok result) :
    ∀ n ∈ prepared.nodes, isUuid (trim n.id) = true := by
  obtain ⟨_, -, h⟩ := bind_eq_ok.1 h
  obtain ⟨_, hnodes, -⟩ := bind_eq_ok.1 h
  intro n hn
  obtain ⟨_, hresult⟩ := forall_of_mapM_ok hnodes n hn
  obtain ⟨uri, huri, -⟩ := bind_eq_ok.1 hresult
  have huuid := @buildAionisUri_uuid ⟨prepared.tenantId, prepared.scopePublic, n.type, n.id⟩
    uri huri
  exact huuid

/-- The rows after the loop over the nodes of the batch. -/
theorem insertPlanned_foldlM
    (h : (prepared.nodes.map fun node => (node, plannedInsert prepared node)).foldlM
      (insertPlanned opts commitId) t = .ok t') :
    t'.nodes = (prepared.nodes.map (plannedRow opts prepared commitId)).foldl
        (insertOrIgnore (·.id)) t.nodes ∧
      t'.commits = t.commits ∧ t'.edges = t.edges := by
  refine ⟨?_, foldlM_ok_frame (·.commits) (fun _ _ _ hstep => (insertPlanned_ok hstep).2.1) h,
    foldlM_ok_frame (·.edges) (fun _ _ _ hstep => (insertPlanned_ok hstep).2.2) h⟩
  have hrows := foldlM_ok (·.nodes)
    (fun rows planned =>
      insertOrIgnore (·.id) rows (planned.2.row commitId (opts.now planned.2.id)))
    (fun _ _ _ hstep => (insertPlanned_ok hstep).1) h
  rw [hrows, List.foldl_map, List.foldl_map]
  rfl

theorem upsertPrepared_foldlM
    (h : prepared.edges.foldlM (upsertPrepared opts commitId) t = .ok t') :
    t'.nodes = t.nodes ∧ t'.commits = t.commits :=
  ⟨foldlM_ok_frame (·.nodes) (fun _ _ _ hstep => (upsertPrepared_ok hstep).1) h,
    foldlM_ok_frame (·.commits) (fun _ _ _ hstep => (upsertPrepared_ok hstep).2.1) h⟩

theorem edgeId?_congr (h : t'.edges = t.edges) (k : EdgeKey) : edgeId? t' k = edgeId? t k := by
  rw [edgeId?, h, edgeId?]

/-- The calls of a successful write: `t₁` has its nodes, `t₂` its edges too, and `r` is the
result before what follows the commit. -/
structure WriteSteps (opts : ApplyWriteOptions) (t : LiteTables) (prepared : PreparedWrite)
    (result : WriteResult) (t' t₁ t₂ : LiteTables) (r : WriteResult) : Prop where
  singleScope : assertSingleScopeWrite prepared = .ok ()
  storedScopes : ∀ node ∈ prepared.nodes, checkNodeScope opts t node = .ok ()
  ends : ∀ edge ∈ prepared.edges, checkEdge opts t prepared edge = .ok ()
  fingerprints : ∀ node ∈ prepared.nodes,
    checkFingerprint opts t prepared (node, plannedInsert prepared node) = .ok ()
  nodes : (prepared.nodes.map fun node => (node, plannedInsert prepared node)).foldlM
    (insertPlanned opts (writeCommit opts t prepared).1) (writeCommit opts t prepared).2 = .ok t₁
  edges : prepared.edges.foldlM (upsertPrepared opts (writeCommit opts t prepared).1) t₁ = .ok t₂
  built : buildWriteResult prepared (writeCommit opts t prepared).1 (writeHash opts t prepared) =
    .ok r
  post : ∃ r', enqueuePostCommitWriteArtifacts opts t₂ prepared (writeCommit opts t prepared).1 r =
    .ok (r', t')
  rows : SameRows t₂ t'
  objects : SameObjects r result

theorem applyMemoryWrite_steps (h : applyMemoryWrite opts t prepared = .ok (result, t')) :
    ∃ t₁ t₂ r, WriteSteps opts t prepared result t' t₁ t₂ r := by
  obtain ⟨⟨⟩, hscope, h⟩ := bind_eq_ok.1 h
  obtain ⟨⟨⟩, hstored, h⟩ := bind_eq_ok.1 h
  obtain ⟨⟨⟩, hends, h⟩ := bind_eq_ok.1 h
  obtain ⟨planned, hplanned, h⟩ := bind_eq_ok.1 h
  obtain ⟨⟨⟩, hfingerprints, h⟩ := bind_eq_ok.1 h
  obtain ⟨parent, hparent, h⟩ := bind_eq_ok.1 h
  obtain ⟨t₁, hnodes, h⟩ := bind_eq_ok.1 h
  obtain ⟨t₂, hedges, h⟩ := bind_eq_ok.1 h
  obtain ⟨r, hresult, h⟩ := bind_eq_ok.1 h
  obtain ⟨⟨r', t₃⟩, hpost, h⟩ := bind_eq_ok.1 h
  obtain ⟨r'', hshadow, h⟩ := bind_eq_ok.1 h
  obtain ⟨rfl, rfl⟩ := Prod.mk.inj (Except.ok.inj h)
  have hhash : commitHash opts prepared parent (buildWriteDiff prepared opts.piiRedaction) =
      writeHash opts t prepared := by
    unfold writeHash
    rw [hparent]
    rfl
  rw [hhash] at hnodes hedges hresult hpost
  have hcommit : t.insertCommit opts.crypto (opts.now (writeHash opts t prepared))
      (commitArgs prepared (buildWriteDiff prepared opts.piiRedaction)
        (writeHash opts t prepared)) = writeCommit opts t prepared := rfl
  rw [hcommit] at hnodes hedges hresult hpost
  obtain rfl := mapM_ok (fun _ _ => planNode_ok) hplanned
  have hfingerprints := forM_eq_ok.1 hfingerprints
  obtain ⟨hrows, hobjects⟩ := enqueuePostCommitWriteArtifacts_frame hpost
  exact ⟨t₁, t₂, r, {
    singleScope := mapError_eq_ok.1 hscope
    storedScopes := forM_eq_ok.1 hstored
    ends := forM_eq_ok.1 hends
    fingerprints := fun node hnode => hfingerprints _ (List.mem_map_of_mem hnode)
    nodes := hnodes
    edges := hedges
    built := mapError_eq_ok.1 hresult
    post := ⟨r', hpost⟩
    rows := hrows
    objects := hobjects.trans (applyShadowDualWrite_frame hshadow) }⟩

theorem applyMemoryWrite_ok (h : applyMemoryWrite opts t prepared = .ok (result, t')) :
    Written opts t prepared result t' := by
  obtain ⟨t₁, t₂, r, w⟩ := applyMemoryWrite_steps h
  obtain ⟨hnodeScope, hedgeScope⟩ := assertSingleScopeWrite_ok w.singleScope
  obtain ⟨hid, hcommitHash, hresultNodes, hresultEdges⟩ := buildWriteResult_ok w.built
  obtain ⟨hrows₁, hcommits₁, hedges₁⟩ := insertPlanned_foldlM w.nodes
  obtain ⟨hrows₂, hcommits₂⟩ := upsertPrepared_foldlM w.edges
  obtain ⟨hcommitNodes, hcommitEdges⟩ :
      (writeCommit opts t prepared).2.nodes = t.nodes ∧
        (writeCommit opts t prepared).2.edges = t.edges := t.insertCommit_frame _ _ _
  have hcommitId : result.commitId = (writeCommit opts t prepared).1 :=
    w.objects.commitId.trans hid
  have hscopes : ∀ node ∈ prepared.nodes, ∀ row ∈ t.nodes, row.id = node.id →
      row.scope = node.scope :=
    fun node hnode row hrow => checkNodeScope_ok (w.storedScopes node hnode) hrow
  exact {
    nodesInScope := hnodeScope
    edgesInScope := hedgeScope
    storedScopes := hscopes
    fingerprints := fun node hnode row hrow hrid =>
      checkFingerprint_ok (w.fingerprints node hnode) hrow hrid
        (hscopes node hnode row hrow hrid)
    commitId := hcommitId
    commitHash := w.objects.commitHash.trans hcommitHash
    commits := w.rows.commits.trans (hcommits₂.trans hcommits₁)
    nodes := by
      rw [w.rows.nodes, hrows₂, hrows₁, hcommitId, hcommitNodes]
    edges := fun k => by
      rw [edgeId?_congr w.rows.edges, edgeId?_upserts w.edges, edgeId?_congr hedges₁,
        edgeId?_congr hcommitEdges]
    resultNodes := w.objects.nodes ▸ hresultNodes
    resultEdges := w.objects.edges ▸ hresultEdges }

end AionisCore.Memory
