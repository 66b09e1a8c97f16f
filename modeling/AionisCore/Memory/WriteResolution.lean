import AionisCore.Memory.WriteRows

/-!
# The ids of a write result

`Resolves` says that every id of a result, and of the diff of its commit, names in the
tables the object it was given for. The result is built from the request, while the
tables keep a stored node and the id of a stored edge: the two agree when the batch
agrees with what was stored, which `Agrees` says in terms of the tables before the call.
-/

namespace AionisCore.Memory

open Lib Lib.Table Util Store

/-- Every id of the result names its object in the scope. -/
structure Resolves (t : LiteTables) (scope : String) (diff : Json) (result : WriteResult) :
    Prop where
  commit : ∃ row ∈ t.commits, row.id = result.commitId ∧ row.scope = scope ∧
    row.commitHash = result.commitHash ∧ row.diff = diff
  nodes : ∀ n ∈ result.nodes, ∃ row ∈ t.nodes, row.id = n.id ∧ row.scope = scope ∧
    row.type = n.type ∧ row.clientId = n.clientId
  edges : ∀ e ∈ result.edges, ∃ row ∈ t.edges, row.id = e.id ∧ row.scope = scope ∧
    row.type = e.type ∧ row.srcId = e.srcId ∧ row.dstId = e.dstId

/-- The id that the store derives for a new commit. -/
def derivedCommitId (opts : ApplyWriteOptions) (t : LiteTables) (prepared : PreparedWrite) :
    String :=
  opts.crypto.stableUuid s!"lite:commit:{writeHash opts t prepared}"

/-- The batch says of its commit, its nodes and its edges what the store already holds of
them, and what it says of them elsewhere. -/
structure Agrees (opts : ApplyWriteOptions) (t : LiteTables) (prepared : PreparedWrite) :
    Prop where
  knownCommit : ∀ row ∈ t.commits, row.commitHash = writeHash opts t prepared →
    row.scope = prepared.scope ∧ row.diff = buildWriteDiff prepared opts.piiRedaction
  newCommit : (∀ row ∈ t.commits, row.commitHash ≠ writeHash opts t prepared) →
    ∀ row ∈ t.commits, row.id ≠ derivedCommitId opts t prepared
  nodes : ∀ node ∈ prepared.nodes,
    (∀ row ∈ t.nodes, row.id = node.id → row.type = node.type ∧ row.clientId = node.clientId) ∧
      ∀ other ∈ prepared.nodes, other.id = node.id →
        other.type = node.type ∧ other.clientId = node.clientId
  edges : ∀ edge ∈ prepared.edges,
    (∀ row ∈ t.edges, row.toEdgeKey = edge.toEdgeKey → row.id = edge.id) ∧
      ∀ other ∈ prepared.edges, other.toEdgeKey = edge.toEdgeKey → other.id = edge.id

variable {opts : ApplyWriteOptions} {t t' : LiteTables} {prepared : PreparedWrite}
  {result : WriteResult}

/-! ## The commit -/

theorem Written.commit_of_known (w : Written opts t prepared result t') {known : LiteCommitRow}
    (hknown : row? (·.commitHash) t.commits (writeHash opts t prepared) = some known) :
    result.commitId = known.id ∧ t'.commits = t.commits := by
  have hcommit : writeCommit opts t prepared = (known.id, t) :=
    LiteTables.insertCommit_of_known hknown
  rw [w.commitId, w.commits, hcommit]
  exact ⟨rfl, rfl⟩

/-- The row of a new commit. -/
def newCommitRow (opts : ApplyWriteOptions) (t : LiteTables) (prepared : PreparedWrite) :
    LiteCommitRow :=
  (commitArgs prepared (buildWriteDiff prepared opts.piiRedaction)
    (writeHash opts t prepared)).row (derivedCommitId opts t prepared)
      (opts.now (writeHash opts t prepared))

theorem Written.commit_of_new (w : Written opts t prepared result t')
    (hnew : row? (·.commitHash) t.commits (writeHash opts t prepared) = none) :
    result.commitId = derivedCommitId opts t prepared ∧
      t'.commits = insertOrIgnore (·.id) t.commits (newCommitRow opts t prepared) := by
  rw [w.commitId, w.commits]
  exact LiteTables.insertCommit_of_new hnew

theorem Written.commit_iff (w : Written opts t prepared result t') :
    (∃ row ∈ t'.commits, row.id = result.commitId ∧ row.scope = prepared.scope ∧
      row.commitHash = result.commitHash ∧
      row.diff = buildWriteDiff prepared opts.piiRedaction) ↔
    (∀ row ∈ t.commits, row.commitHash = writeHash opts t prepared →
      row.scope = prepared.scope ∧ row.diff = buildWriteDiff prepared opts.piiRedaction) ∧
    ((∀ row ∈ t.commits, row.commitHash ≠ writeHash opts t prepared) →
      ∀ row ∈ t.commits, row.id ≠ derivedCommitId opts t prepared) := by
  rw [w.commitHash]
  cases hrow : row? (·.commitHash) t.commits (writeHash opts t prepared) with
  | some known =>
    obtain ⟨hid, hcommits⟩ := w.commit_of_known hrow
    obtain ⟨hmem, hhash⟩ := mem_of_row? hrow
    rw [hid, hcommits]
    constructor
    · rintro ⟨row, hrow, hid, hscope, -, hdiff⟩
      obtain rfl := t.commitIds.eq hrow hmem hid
      refine ⟨fun other hother hsame => ?_, fun hfresh => absurd hhash (hfresh row hmem)⟩
      obtain rfl := t.commitHashes.eq hother hmem (hsame.trans hhash.symm)
      exact ⟨hscope, hdiff⟩
    · rintro ⟨hagrees, -⟩
      obtain ⟨hscope, hdiff⟩ := hagrees known hmem hhash
      exact ⟨known, hmem, rfl, hscope, hhash, hdiff⟩
  | none =>
    obtain ⟨hid, hcommits⟩ := w.commit_of_new hrow
    have hfresh := row?_eq_none.1 hrow
    rw [hid, hcommits]
    constructor
    · rintro ⟨row, hrow, -, -, hhash, -⟩
      refine ⟨fun other hother hsame => absurd hsame (hfresh other hother), fun _ => ?_⟩
      -- The row with the new hash is not an old one, so its id was free.
      rcases mem_insertOrIgnore.1 hrow with hold | ⟨-, hfree⟩
      · exact absurd hhash (hfresh row hold)
      · exact hfree
    · rintro ⟨-, hfree⟩
      exact ⟨newCommitRow opts t prepared, mem_insertOrIgnore.2 (.inr ⟨rfl, hfree hfresh⟩),
        rfl, rfl, rfl, rfl⟩

/-! ## The nodes and the edges -/

/-- What a result says of a node, of its row. -/
def LiteNodeRow.object (row : LiteNodeRow) : String × String × Option String :=
  (row.scope, row.type, row.clientId)

def PreparedNode.object (node : PreparedNode) : String × String × Option String :=
  (node.scope, node.type, node.clientId)

theorem Written.object (w : Written opts t prepared result t') (id : String) :
    (row? (·.id) t'.nodes id).map LiteNodeRow.object =
      ((row? (·.id) t.nodes id).map LiteNodeRow.object).or
        ((row? (·.id) prepared.nodes id).map PreparedNode.object) := by
  rw [w.nodes, row?_foldl_insertOrIgnore, row?_of_map, Option.map_or, Option.map_map]
  rfl

theorem forall_mem_of_map_eq {α β γ : Type} {f : α → γ} {g : β → γ} {xs : List α} {ys : List β}
    (h : xs.map f = ys.map g) (p : γ → Prop) : (∀ x ∈ xs, p (f x)) ↔ ∀ y ∈ ys, p (g y) := by
  rw [← List.forall_mem_map, h, List.forall_mem_map]

theorem Written.nodes_iff (w : Written opts t prepared result t') :
    (∀ n ∈ result.nodes, ∃ row ∈ t'.nodes, row.id = n.id ∧ row.scope = prepared.scope ∧
      row.type = n.type ∧ row.clientId = n.clientId) ↔
    ∀ node ∈ prepared.nodes,
      (∀ row ∈ t.nodes, row.id = node.id → row.type = node.type ∧ row.clientId = node.clientId) ∧
        ∀ other ∈ prepared.nodes, other.id = node.id →
          other.type = node.type ∧ other.clientId = node.clientId := by
  rw [forall_mem_of_map_eq w.resultNodes fun n => ∃ row ∈ t'.nodes, row.id = n.1 ∧
    row.scope = prepared.scope ∧ row.type = n.2.1 ∧ row.clientId = n.2.2]
  have hrow : ∀ node ∈ prepared.nodes,
      ((∃ row ∈ t'.nodes, row.id = node.id ∧ row.scope = prepared.scope ∧
        row.type = node.type ∧ row.clientId = node.clientId) ↔
      ((row? (·.id) t.nodes node.id).map LiteNodeRow.object).or
        ((row? (·.id) prepared.nodes node.id).map PreparedNode.object) = some node.object) := by
    intro node hnode
    rw [← w.object, t'.nodeIds.exists_iff, Option.map_eq_some_iff]
    simp only [LiteNodeRow.object, PreparedNode.object, Prod.mk.injEq, w.nodesInScope node hnode]
  rw [forall₂_congr hrow, or_row?_eq_self_iff (fun node : PreparedNode => node.id)
    (fun id => (row? (·.id) t.nodes id).map LiteNodeRow.object) PreparedNode.object]
  refine forall₂_congr fun node hnode => and_congr ?_ ?_
  · rw [t.nodeIds.forall_row?_map_iff]
    refine forall₂_congr fun row hrow => forall_congr' fun hid => ?_
    simp only [LiteNodeRow.object, PreparedNode.object, Prod.mk.injEq,
      w.storedScopes node hnode row hrow hid, true_and]
  · refine forall₂_congr fun other hother => forall_congr' fun _ => ?_
    simp only [PreparedNode.object, Prod.mk.injEq, w.nodesInScope node hnode,
      w.nodesInScope other hother, true_and]

theorem Written.edges_iff (w : Written opts t prepared result t') :
    (∀ e ∈ result.edges, ∃ row ∈ t'.edges, row.id = e.id ∧ row.scope = prepared.scope ∧
      row.type = e.type ∧ row.srcId = e.srcId ∧ row.dstId = e.dstId) ↔
    ∀ edge ∈ prepared.edges,
      (∀ row ∈ t.edges, row.toEdgeKey = edge.toEdgeKey → row.id = edge.id) ∧
        ∀ other ∈ prepared.edges, other.toEdgeKey = edge.toEdgeKey → other.id = edge.id := by
  rw [forall_mem_of_map_eq w.resultEdges fun e => ∃ row ∈ t'.edges, row.id = e.1 ∧
    row.scope = prepared.scope ∧ row.type = e.2.1 ∧ row.srcId = e.2.2.1 ∧ row.dstId = e.2.2.2]
  have hrow : ∀ edge ∈ prepared.edges,
      ((∃ row ∈ t'.edges, row.id = edge.id ∧ row.scope = prepared.scope ∧
        row.type = edge.type ∧ row.srcId = edge.srcId ∧ row.dstId = edge.dstId) ↔
      (edgeId? t edge.toEdgeKey).or
        ((row? (·.toEdgeKey) prepared.edges edge.toEdgeKey).map (·.id)) = some edge.id) := by
    intro edge hedge
    have hkey : ∀ row : LiteEdgeRow, (row.id = edge.id ∧ row.scope = prepared.scope ∧
        row.type = edge.type ∧ row.srcId = edge.srcId ∧ row.dstId = edge.dstId) ↔
        row.toEdgeKey = edge.toEdgeKey ∧ row.id = edge.id := by
      intro row
      rw [← w.edgesInScope edge hedge]
      constructor
      · rintro ⟨hid, hs, ht, hsrc, hdst⟩
        exact ⟨EdgeKey.ext hs ht hsrc hdst, hid⟩
      · rintro ⟨hk, hid⟩
        exact ⟨hid, congrArg (·.scope) hk, congrArg (·.type) hk, congrArg (·.srcId) hk,
          congrArg (·.dstId) hk⟩
    simp only [hkey]
    rw [← w.edges, t'.edgeKeys.exists_iff, edgeId?, Option.map_eq_some_iff]
  rw [forall₂_congr hrow, or_row?_eq_self_iff (fun edge : PreparedEdge => edge.toEdgeKey)
    (edgeId? t) (fun edge => edge.id)]
  refine forall₂_congr fun edge hedge => and_congr_left fun _ => ?_
  exact t.edgeKeys.forall_row?_map_iff

/-- A write result resolves exactly when the batch agreed with the store. -/
theorem applyMemoryWrite_resolves_iff
    (h : applyMemoryWrite opts t prepared = .ok (result, t')) :
    Resolves t' prepared.scope (buildWriteDiff prepared opts.piiRedaction) result ↔
      Agrees opts t prepared := by
  have w := applyMemoryWrite_ok h
  constructor
  · intro r
    obtain ⟨hknown, hnew⟩ := w.commit_iff.1 r.commit
    exact {
      knownCommit := hknown
      newCommit := hnew
      nodes := w.nodes_iff.1 r.nodes
      edges := w.edges_iff.1 r.edges }
  · intro a
    exact {
      commit := w.commit_iff.2 ⟨a.knownCommit, a.newCommit⟩
      nodes := w.nodes_iff.2 a.nodes
      edges := w.edges_iff.2 a.edges }

/-! ## Two writes of one edge -/

def sampleOptions : ApplyWriteOptions where
  crypto := sampleCrypto
  now := fun _ => "2026-01-01T00:00:00.000Z"

def sampleNode : PreparedNode where
  id := sampleCrypto.stableUuid "default:node:a"
  clientId := some "a"
  scope := "default"
  type := "entity"
  memoryLane := .sharedLane

/-- A write with an edge that brings no id of its own. -/
def sampleWrite (inputText : String) : Except WriteError PreparedWrite := do
  let edge ← prepareEdge sampleCrypto ⟨"default", "default", "default"⟩ "default"
    (some inputText) none [("a", sampleNode.id)]
    { type := "related_to", src := { clientId := some "a" }, dst := { clientId := some "a" } }
  return {
    tenantId := "default"
    scopePublic := "default"
    scope := "default"
    actor := "system"
    inputSha256 := sampleCrypto.sha256Hex inputText
    nodes := [sampleNode]
    edges := [edge] }

/-- The result of the second of two writes into an empty store, and the tables after it. -/
def sampleWrites (first second : String) : Except WriteError (WriteResult × LiteTables) := do
  let (_, t) ← applyMemoryWrite sampleOptions .empty (← sampleWrite first)
  applyMemoryWrite sampleOptions t (← sampleWrite second)

/-- No edge row has an id of the result. -/
def dangling (r : WriteResult × LiteTables) : Bool :=
  r.1.edges.any fun e => r.2.edges.all fun row => row.id != e.id

theorem not_resolves_of_dangling {r : WriteResult × LiteTables} (h : dangling r = true)
    (scope : String) (diff : Json) : ¬ Resolves r.2 scope diff r.1 := by
  intro hr
  obtain ⟨e, he, hall⟩ := List.any_eq_true.1 h
  obtain ⟨row, hrow, hid, -⟩ := hr.edges e he
  have hne := List.all_eq_true.1 hall row hrow
  rw [hid] at hne
  simp at hne

theorem sampleWrites_dangling :
    (sampleWrites "one" "two").toOption.any dangling = true := by decide +kernel

/-- The two writes, and what each of them left. -/
theorem sampleWrites_ok : ∃ first second r₁ t₁ r₂ t₂,
    sampleWrite "one" = .ok first ∧ sampleWrite "two" = .ok second ∧
      applyMemoryWrite sampleOptions .empty first = .ok (r₁, t₁) ∧
      applyMemoryWrite sampleOptions t₁ second = .ok (r₂, t₂) ∧ dangling (r₂, t₂) = true := by
  obtain ⟨⟨r₂, t₂⟩, hr, hdangling⟩ :=
    (Option.any_eq_true _ _).1 sampleWrites_dangling
  obtain ⟨first, hfirst, h⟩ := bind_eq_ok.1 (toOption_eq_some.1 hr)
  obtain ⟨⟨r₁, t₁⟩, h₁, h⟩ := bind_eq_ok.1 h
  obtain ⟨second, hsecond, h₂⟩ := bind_eq_ok.1 h
  exact ⟨first, second, r₁, t₁, r₂, t₂, hfirst, hsecond, h₁, h₂, hdangling⟩

/-- The second write of an edge returns, and commits, an id that no row has. -/
theorem secondWrite_not_resolves : ∃ first second r₁ t₁ r₂ t₂,
    sampleWrite "one" = .ok first ∧ sampleWrite "two" = .ok second ∧
      applyMemoryWrite sampleOptions .empty first = .ok (r₁, t₁) ∧
      applyMemoryWrite sampleOptions t₁ second = .ok (r₂, t₂) ∧
      ¬ Resolves t₂ second.scope (buildWriteDiff second sampleOptions.piiRedaction) r₂ := by
  obtain ⟨first, second, r₁, t₁, r₂, t₂, hfirst, hsecond, h₁, h₂, hdangling⟩ := sampleWrites_ok
  exact ⟨first, second, r₁, t₁, r₂, t₂, hfirst, hsecond, h₁, h₂,
    not_resolves_of_dangling hdangling _ _⟩

theorem firstWrite_resolves_iff : ∃ first r₁ t₁,
    sampleWrite "one" = .ok first ∧ applyMemoryWrite sampleOptions .empty first = .ok (r₁, t₁) ∧
      (Resolves t₁ first.scope (buildWriteDiff first sampleOptions.piiRedaction) r₁ ↔
        Agrees sampleOptions .empty first) := by
  obtain ⟨first, -, r₁, t₁, -, -, hfirst, -, h₁, -, -⟩ := sampleWrites_ok
  exact ⟨first, r₁, t₁, hfirst, h₁, applyMemoryWrite_resolves_iff h₁⟩

end AionisCore.Memory
