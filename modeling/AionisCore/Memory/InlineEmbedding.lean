import AionisCore.Lib.Zod
import AionisCore.Memory.WriteResolution

/-!
# Embedding after the commit

`commitLitePreparedWriteWithProjection` commits a prepared write together with its workflow
projection, and then has the nodes that wait for a vector embedded. That second half opens a
transaction of its own, so what it throws reaches a caller whose write is stored.
-/

namespace AionisCore.Memory

open Lib Lib.JsString Lib.Table Util Store

/-- A vector as an embedder returns it: `none` is a number that is not finite. -/
abbrev RawVector := List (Option ℚ)

structure EmbeddingProvider where
  name : String
  embed : List String → Except String (List RawVector)

/-! ## The columns of an embedding -/

/-- `UPDATE lite_memory_nodes … WHERE scope = ? AND id = ?`, for columns other than the id. -/
def setNodeColumns (t : LiteTables) (scope id : String) (f : LiteNodeRow → LiteNodeRow)
    (hf : ∀ row, (f row).id = row.id) : LiteTables :=
  { t with
    nodes := update (·.id) id (fun row => decide (row.scope = scope)) f t.nodes
    nodeIds := t.nodeIds.map fun row => by
      split
      · exact hf row
      · rfl }

def readyRow (embedding : List ℚ) (embeddingModel : String) (row : LiteNodeRow) : LiteNodeRow :=
  { row with
    embeddingVector := some embedding
    embeddingModel := some embeddingModel
    embeddingStatus := .ready
    embeddingLastError := none }

def failedRow (error : String) (row : LiteNodeRow) : LiteNodeRow :=
  { row with embeddingStatus := .failed, embeddingLastError := some error }

/-- `assertDim` on numbers that need not be finite. -/
def assertFiniteDim (vec : RawVector) (dim : Nat) : Except WriteError (List ℚ) :=
  if vec.length ≠ dim then
    .error (.thrown s!"embedding must be length {dim}; got {vec.length}")
  else orThrow (vec.mapM id) (.thrown "embedding must contain only finite numbers")

def setNodeEmbeddingReady (t : LiteTables) (scope id : String) (embedding : RawVector)
    (embeddingModel : String) : Except WriteError LiteTables := do
  let embedding ← assertFiniteDim embedding 1536
  return setNodeColumns t scope id (readyRow embedding embeddingModel) fun _ => rfl

def setNodeEmbeddingFailed (t : LiteTables) (scope id error : String) : LiteTables :=
  setNodeColumns t scope id (failedRow error) fun _ => rfl

/-- `withTx` of a call that runs alone: what it throws undoes what it wrote. -/
def withTx {α : Type} (t : LiteTables) (body : LiteTables → Except WriteError (α × LiteTables)) :
    Except WriteError α × LiteTables :=
  match body t with
  | .ok (out, t') => (.ok out, t')
  | .error e => (.error e, t)

/-! ## The embeddings -/

structure LiteInlineEmbedding where
  attempted : Nat
  updated : Nat
  failed : Nat
  error : Option String := none

section Complete

variable (prepared : PreparedWrite) (t : LiteTables)

/-- The ids and the texts of the nodes to embed. -/
def plannedEmbeddings : List (String × String) :=
  if prepared.autoEmbedEffective then
    (prepared.nodes.filter (·.embedding.isNone)).filterMap fun node =>
      (node.embedText.filter fun text => trim text ≠ "").map (node.id, ·)
  else []

/-- Those without a vector so far. -/
def pendingEmbeddings : List (String × String) :=
  (plannedEmbeddings prepared).filter fun node => !t.readyEmbedding prepared.scope node.1

def failPending (pending : List (String × String)) (message : String) :
    Except WriteError (Option LiteInlineEmbedding) × LiteTables :=
  let t := pending.foldl (fun t node => setNodeEmbeddingFailed t prepared.scope node.1 message) t
  (.ok (some ⟨pending.length, 0, pending.length, some message⟩), t)

def readyPending (name : String) (pairs : List ((String × String) × RawVector)) :
    Except WriteError LiteTables :=
  pairs.foldlM (fun t pair => setNodeEmbeddingReady t prepared.scope pair.1.1 pair.2 name) t

def completeLiteInlineEmbeddings (embedder : Option EmbeddingProvider) :
    Except WriteError (Option LiteInlineEmbedding) × LiteTables :=
  let planned := plannedEmbeddings prepared
  let pending := pendingEmbeddings prepared t
  match embedder with
  | none => (.ok none, t)
  | some embedder =>
    if planned = [] then (.ok none, t)
    else if pending = [] then (.ok (some ⟨planned.length, 0, 0, none⟩), t)
    else
      match embedder.embed (pending.map (·.2)) with
      | .error message => failPending prepared t pending message
      | .ok vectors =>
        if vectors.length ≠ pending.length then
          failPending prepared t pending
            s!"unexpected embedding count: expected {pending.length}, got {vectors.length}"
        else
          withTx t fun t => (readyPending prepared t embedder.name (pending.zip vectors)).map
            fun t => (some ⟨pending.length, pending.length, 0, none⟩, t)

end Complete

/-! ## The commit -/

/-- The prepared write once its projection is appended. -/
def PreparedWrite.append (prepared : PreparedWrite)
    (projection : List PreparedNode × List PreparedEdge) : PreparedWrite :=
  { prepared with
    nodes := prepared.nodes ++ projection.1
    edges := prepared.edges ++ projection.2 }

/-- `project` is `projectWorkflowCandidatesFromPreparedWrite`, which reads the store and may
ask the reviewers. -/
def commitLitePreparedWriteWithProjection (opts : ApplyWriteOptions)
    (project : PreparedWrite → LiteTables →
      Except WriteError (List PreparedNode × List PreparedEdge))
    (embedder : Option EmbeddingProvider) (prepared : PreparedWrite) (t : LiteTables) :
    Except WriteError (WriteResult × Option LiteInlineEmbedding) × LiteTables :=
  match project prepared t with
  | .error e => (.error e, t)
  | .ok projection =>
    let prepared := prepared.append projection
    match withTx t fun t => applyMemoryWrite opts t prepared with
    | (.error e, t) => (.error e, t)
    | (.ok out, t) =>
      let (report, t) := completeLiteInlineEmbeddings prepared t embedder
      (report.map (out, ·), t)

/-! ## What the embeddings leave behind -/

/-- The row of the node is one of these, under the scope. -/
def RowAt (t : LiteTables) (scope id : String) (P : LiteNodeRow → Prop) : Prop :=
  ∃ row, row? (·.id) t.nodes id = some row ∧ row.scope = scope ∧ P row

/-- The embedding of every planned node has come to an end, for an embedder that answers so: a
node with a vector keeps it, and any other has failed or has the vector of its own text. -/
structure EmbeddingsEnd (prepared : PreparedWrite) (answer : Except String (List RawVector))
    (t t' : LiteTables) (report : Option LiteInlineEmbedding) : Prop where
  kept : ∀ node ∈ plannedEmbeddings prepared, t.readyEmbedding prepared.scope node.1 = true →
    row? (·.id) t'.nodes node.1 = row? (·.id) t.nodes node.1
  ended : ∀ (i : Nat) (node : String × String),
    (pendingEmbeddings prepared t)[i]? = some node →
      RowAt t' prepared.scope node.1 fun row => row.embeddingStatus = .failed ∨
        row.embeddingStatus = .ready ∧ ∃ vectors v, answer = .ok vectors ∧
          vectors[i]? = some (v.map some) ∧ row.embeddingVector = some v
  counted : report.elim 0 (fun r => r.updated + r.failed) = (pendingEmbeddings prepared t).length

/-- A vector that `setNodeEmbeddingReady` takes. -/
def Storable (vec : RawVector) : Prop := vec.length = 1536 ∧ ∀ x ∈ vec, x.isSome

/-- An answer with a vector for each text has vectors that can be stored, and one vector for
texts of one node. -/
def AnswerFits (pending : List (String × String)) (answer : Except String (List RawVector)) :
    Prop :=
  ∀ vectors, answer = .ok vectors → vectors.length = pending.length →
    (∀ vec ∈ vectors, Storable vec) ∧
    ∀ i j : Nat, (pending[i]?).map (·.1) = (pending[j]?).map (·.1) → vectors[i]? = vectors[j]?

theorem assertFiniteDim_eq_ok {vec : RawVector} {dim : Nat} {v : List ℚ} :
    assertFiniteDim vec dim = .ok v ↔ vec.length = dim ∧ vec = v.map some := by
  have hmapM : vec.mapM id = some v ↔ vec = v.map some := by
    rw [Zod.mapM_eq_some, ← List.forall₂_eq_eq_eq, List.forall₂_map_right_iff]
    rfl
  unfold assertFiniteDim
  split
  · next h => exact iff_of_false nofun fun hv => h hv.1
  · next h => rw [orThrow_eq_ok, hmapM, and_iff_right (Decidable.not_not.1 h)]

theorem exists_assertFiniteDim_iff {vec : RawVector} :
    (∃ v, assertFiniteDim vec 1536 = .ok v) ↔ Storable vec := by
  refine ⟨?_, fun ⟨hlength, hall⟩ => ⟨vec.map (·.getD 0), assertFiniteDim_eq_ok.2 ⟨hlength, ?_⟩⟩⟩
  · rintro ⟨v, hv⟩
    obtain ⟨hlength, rfl⟩ := assertFiniteDim_eq_ok.1 hv
    refine ⟨hlength, fun x hx => ?_⟩
    obtain ⟨q, -, rfl⟩ := List.mem_map.1 hx
    rfl
  · rw [List.map_map]
    have hself : vec.map (some ∘ (·.getD 0)) = vec.map id := by
      refine List.map_congr_left fun x hx => ?_
      obtain ⟨q, rfl⟩ := Option.isSome_iff_exists.1 (hall x hx)
      rfl
    rw [hself, List.map_id]

section Rows

variable {prepared : PreparedWrite} {t t' : LiteTables} {name message : String}
  {pending : List (String × String)} {pairs : List ((String × String) × RawVector)}

theorem failPending_nodes : (failPending prepared t pending message).2.nodes =
    updates (·.id) (fun row => decide (row.scope = prepared.scope))
      (pending.map fun node => (node.1, failedRow message)) t.nodes := by
  rw [updates, List.foldl_map]
  exact (List.foldl_hom LiteTables.nodes fun _ _ => rfl).symm

theorem readyPending_nodes (h : readyPending prepared t name pairs = .ok t') :
    t'.nodes = updates (·.id) (fun row => decide (row.scope = prepared.scope))
      (pairs.map fun pair => (pair.1.1, readyRow (pair.2.filterMap id) name)) t.nodes := by
  rw [updates, List.foldl_map]
  refine foldlM_ok (·.nodes) _ (fun t pair t' hstep => ?_) h
  obtain ⟨v, hv, hset⟩ := bind_eq_ok.1 hstep
  obtain ⟨-, hvec⟩ := assertFiniteDim_eq_ok.1 hv
  obtain rfl := Except.ok.inj hset
  rw [hvec, List.filterMap_map]
  simp [setNodeColumns]

theorem exists_readyPending_iff :
    (∃ t', readyPending prepared t name pairs = .ok t') ↔ ∀ pair ∈ pairs, Storable pair.2 := by
  induction pairs generalizing t with
  | nil => exact iff_of_true ⟨t, rfl⟩ nofun
  | cons pair pairs ih =>
    rw [List.forall_mem_cons, ← exists_assertFiniteDim_iff]
    refine ⟨fun ⟨t', h⟩ => ?_, fun ⟨⟨v, hv⟩, hpairs⟩ => ?_⟩
    · obtain ⟨t₁, hstep, h⟩ := bind_eq_ok.1 h
      obtain ⟨v, hv, -⟩ := bind_eq_ok.1 hstep
      exact ⟨⟨v, hv⟩, ih.1 ⟨t', h⟩⟩
    · obtain ⟨t', h⟩ := ih.2 hpairs
      exact ⟨t', bind_eq_ok.2 ⟨_, bind_eq_ok.2 ⟨v, hv, rfl⟩, h⟩⟩

section

variable {us : List (String × (LiteNodeRow → LiteNodeRow))} {scope id : String}
  (hnodes : t'.nodes = updates (·.id) (fun row => decide (row.scope = scope)) us t.nodes)
  (hkey : ∀ u ∈ us, ∀ row, (u.2 row).id = row.id ∧ (u.2 row).scope = row.scope)

include hnodes hkey

theorem rowAt_updates {P : LiteNodeRow → Prop}
    (hP : ∀ u ∈ us, u.1 = id → ∀ row, P (u.2 row)) (hmem : ∃ u ∈ us, u.1 = id)
    (h : RowAt t scope id fun _ => True) : RowAt t' scope id P := by
  obtain ⟨row, hrow, hscope, -⟩ := h
  have hupdated :=
    @updated_of_mem _ _ _ (fun row : LiteNodeRow => decide (row.scope = scope)) us id P
    (fun u hu row => by rw [(hkey u hu row).2]) hP row (decide_eq_true hscope) (.inr hmem)
  refine ⟨_, ?_, of_decide_eq_true hupdated.1, hupdated.2⟩
  rw [hnodes, row?_updates fun u hu row => (hkey u hu row).1, hrow]
  rfl

theorem row?_of_updates
    (hid : ∀ u ∈ us, u.1 ≠ id) : row? (·.id) t'.nodes id = row? (·.id) t.nodes id := by
  rw [hnodes, row?_updates fun u hu row => (hkey u hu row).1]
  refine (Option.map_congr fun row _ => updated_of_not_mem hid row).trans Option.map_id'

/-- Updates of pending nodes leave those with a vector alone. -/
theorem kept_of_updates {prepared : PreparedWrite}
    (hus : ∀ u ∈ us, ∃ node ∈ pendingEmbeddings prepared t, node.1 = u.1)
    (hready : t.readyEmbedding prepared.scope id = true) :
    row? (·.id) t'.nodes id = row? (·.id) t.nodes id := by
  refine row?_of_updates hnodes hkey fun u hu huid => ?_
  obtain ⟨node, hnode, hid⟩ := hus u hu
  have hpending := (List.mem_filter.1 hnode).2
  rw [hid, huid, hready] at hpending
  cases hpending

end

end Rows

section End

variable {prepared : PreparedWrite} {t t' : LiteTables} {embedder : EmbeddingProvider}
  {message : String} {vectors : List RawVector}

theorem mem_planned_of_pending {node : String × String}
    (h : node ∈ pendingEmbeddings prepared t) : node ∈ plannedEmbeddings prepared :=
  (List.mem_filter.1 h).1

theorem failPending_end (answer : Except String (List RawVector))
    (hstored : ∀ node ∈ plannedEmbeddings prepared,
      RowAt t prepared.scope node.1 fun _ => True) :
    EmbeddingsEnd prepared answer t
      (failPending prepared t (pendingEmbeddings prepared t) message).2
      (some ⟨(pendingEmbeddings prepared t).length, 0, (pendingEmbeddings prepared t).length,
        some message⟩) := by
  have hkey : ∀ u ∈ (pendingEmbeddings prepared t).map fun node => (node.1, failedRow message),
      ∀ row, (u.2 row).id = row.id ∧ (u.2 row).scope = row.scope := by
    intro u hu row
    obtain ⟨node, -, rfl⟩ := List.mem_map.1 hu
    exact ⟨rfl, rfl⟩
  refine ⟨fun node _ hready => kept_of_updates failPending_nodes hkey (fun u hu => ?_) hready,
    fun i node hi => ?_, Nat.zero_add _⟩
  · obtain ⟨node, hnode, rfl⟩ := List.mem_map.1 hu
    exact ⟨node, hnode, rfl⟩
  · have hnode := List.mem_of_getElem? hi
    refine rowAt_updates failPending_nodes hkey (fun u hu _ row => .inl ?_)
      ⟨_, List.mem_map_of_mem hnode, rfl⟩ (hstored node (mem_planned_of_pending hnode))
    obtain ⟨_, -, rfl⟩ := List.mem_map.1 hu
    rfl

/-- The updates of a successful answer. -/
def readyUpdates (pending : List (String × String)) (name : String) (vectors : List RawVector) :
    List (String × (LiteNodeRow → LiteNodeRow)) :=
  (pending.zip vectors).map fun pair => (pair.1.1, readyRow (pair.2.filterMap id) name)

theorem mem_readyUpdates {pending : List (String × String)} {name : String}
    {u : String × (LiteNodeRow → LiteNodeRow)} : u ∈ readyUpdates pending name vectors ↔
      ∃ (i : Nat) (node : String × String) (vec : RawVector), pending[i]? = some node ∧
        vectors[i]? = some vec ∧ u = (node.1, readyRow (vec.filterMap id) name) := by
  rw [readyUpdates, List.mem_map]
  refine ⟨?_, ?_⟩
  · rintro ⟨⟨node, vec⟩, hpair, rfl⟩
    obtain ⟨i, hi⟩ := List.mem_iff_getElem?.1 hpair
    obtain ⟨hnode, hvec⟩ := List.getElem?_zip_eq_some.1 hi
    exact ⟨i, node, vec, hnode, hvec, rfl⟩
  · rintro ⟨i, node, vec, hnode, hvec, rfl⟩
    exact ⟨(node, vec), List.mem_of_getElem? (List.getElem?_zip_eq_some.2 ⟨hnode, hvec⟩), rfl⟩

theorem readyUpdates_key {pending : List (String × String)} {name : String} :
    ∀ u ∈ readyUpdates pending name vectors, ∀ row,
      (u.2 row).id = row.id ∧ (u.2 row).scope = row.scope := by
  intro u hu row
  obtain ⟨i, node, vec, -, -, rfl⟩ := mem_readyUpdates.1 hu
  exact ⟨rfl, rfl⟩

section Ready

variable (hlength : vectors.length = (pendingEmbeddings prepared t).length)
  (hstored : ∀ node ∈ plannedEmbeddings prepared, RowAt t prepared.scope node.1 fun _ => True)
  (hready : readyPending prepared t embedder.name
    ((pendingEmbeddings prepared t).zip vectors) = .ok t')

include hlength hready

omit hstored in
theorem storable_of_ready : ∀ vec ∈ vectors, Storable vec := by
  intro vec hvec
  obtain ⟨i, hi⟩ := List.mem_iff_getElem?.1 hvec
  obtain ⟨hlt, -⟩ := List.getElem?_eq_some_iff.1 hi
  refine exists_readyPending_iff.1 ⟨t', hready⟩
    ((pendingEmbeddings prepared t)[i], vec) (List.mem_iff_getElem?.2 ⟨i, ?_⟩)
  rw [List.getElem?_zip_eq_some]
  exact ⟨List.getElem?_eq_getElem _, hi⟩

include hstored

theorem readyPending_end
    (hsame : ∀ i j : Nat, ((pendingEmbeddings prepared t)[i]?).map (·.1) =
      ((pendingEmbeddings prepared t)[j]?).map (·.1) → vectors[i]? = vectors[j]?) :
    EmbeddingsEnd prepared (.ok vectors) t t'
      (some ⟨(pendingEmbeddings prepared t).length, (pendingEmbeddings prepared t).length, 0,
        none⟩) := by
  have hnodes := readyPending_nodes hready
  refine ⟨fun node _ => kept_of_updates hnodes readyUpdates_key fun u hu => ?_,
    fun i node hi => ?_, Nat.add_zero _⟩
  · obtain ⟨i, node, vec, hi, -, rfl⟩ := mem_readyUpdates.1 hu
    exact ⟨node, List.mem_of_getElem? hi, rfl⟩
  · have hlt := (List.getElem?_eq_some_iff.1 hi).1
    obtain ⟨vec, hvec⟩ : ∃ vec, vectors[i]? = some vec :=
      ⟨_, List.getElem?_eq_getElem (hlength ▸ hlt)⟩
    obtain ⟨v, hv⟩ := exists_assertFiniteDim_iff.2
      (storable_of_ready hlength hready vec (List.mem_of_getElem? hvec))
    obtain ⟨-, rfl⟩ := assertFiniteDim_eq_ok.1 hv
    refine rowAt_updates hnodes readyUpdates_key (fun u hu huid row => .inr ?_)
      ⟨_, mem_readyUpdates.2 ⟨i, node, _, hi, hvec, rfl⟩, rfl⟩
      (hstored node (mem_planned_of_pending (List.mem_of_getElem? hi)))
    obtain ⟨j, node', vec', hj, hvec', rfl⟩ := mem_readyUpdates.1 hu
    have hid : node'.1 = node.1 := huid
    have hvecs := hsame i j (by rw [hi, hj, Option.map_some, Option.map_some, hid])
    rw [hvec, hvec', Option.some.injEq] at hvecs
    subst hvecs
    refine ⟨rfl, vectors, v, rfl, hvec, ?_⟩
    simp [readyRow, List.filterMap_map]

/-- And where each node has the vector of its own text, texts of one node have one vector. -/
theorem same_of_end {report : Option LiteInlineEmbedding}
    (hend : EmbeddingsEnd prepared (.ok vectors) t t' report) (i j : Nat)
    (hij : ((pendingEmbeddings prepared t)[i]?).map (·.1) =
      ((pendingEmbeddings prepared t)[j]?).map (·.1)) : vectors[i]? = vectors[j]? := by
  have hown : ∀ (k : Nat) (node : String × String),
      (pendingEmbeddings prepared t)[k]? = some node → ∃ v, vectors[k]? = some (List.map some v) ∧
        (row? (·.id) t'.nodes node.1).bind (·.embeddingVector) = some v := by
    intro k node hk
    obtain ⟨row, hrow, -, hfailed | ⟨-, _, v, hanswer, hv, hvector⟩⟩ := hend.ended k node hk
    · obtain ⟨vec, hvec⟩ : ∃ vec, vectors[k]? = some vec :=
        ⟨_, List.getElem?_eq_getElem (hlength ▸ (List.getElem?_eq_some_iff.1 hk).1)⟩
      obtain ⟨row', hrow', -, hstatus⟩ := rowAt_updates (readyPending_nodes hready)
        readyUpdates_key (P := fun row => row.embeddingStatus = .ready)
        (fun u hu _ row => by
          obtain ⟨_, _, _, -, -, rfl⟩ := mem_readyUpdates.1 hu
          rfl) ⟨_, mem_readyUpdates.2 ⟨k, node, vec, hk, hvec, rfl⟩, rfl⟩
        (hstored node (mem_planned_of_pending (List.mem_of_getElem? hk)))
      rw [Option.some.inj (hrow.symm.trans hrow'), hstatus] at hfailed
      cases hfailed
    · cases hanswer
      exact ⟨v, hv, by rw [hrow, Option.bind_some, hvector]⟩
  cases hi : (pendingEmbeddings prepared t)[i]? with
  | none =>
    rw [hi, Option.map_none, eq_comm, Option.map_eq_none_iff, List.getElem?_eq_none_iff,
      ← hlength, ← List.getElem?_eq_none_iff] at hij
    rw [hij, List.getElem?_eq_none_iff, hlength]
    exact List.getElem?_eq_none_iff.1 hi
  | some node =>
    rw [hi, Option.map_some, eq_comm, Option.map_eq_some_iff] at hij
    obtain ⟨node', hj, hid⟩ := hij
    obtain ⟨v, hv, hrow⟩ := hown i node hi
    obtain ⟨v', hv', hrow'⟩ := hown j node' hj
    rw [hid, hrow, Option.some.injEq] at hrow'
    rw [hv, hv', hrow']

end Ready

end End

/-! ## The answers that let the embeddings end -/

section Complete

variable {prepared : PreparedWrite} {t : LiteTables} {embedder : EmbeddingProvider}

/-- For every embedder: the embeddings end if and only if its answer fits. -/
theorem completeLiteInlineEmbeddings_end_iff
    (hstored : ∀ node ∈ plannedEmbeddings prepared,
      RowAt t prepared.scope node.1 fun _ => True) :
    (∃ report t', completeLiteInlineEmbeddings prepared t (some embedder) = (.ok report, t') ∧
      EmbeddingsEnd prepared (embedder.embed ((pendingEmbeddings prepared t).map (·.2)))
        t t' report) ↔
    AnswerFits (pendingEmbeddings prepared t)
      (embedder.embed ((pendingEmbeddings prepared t).map (·.2))) := by
  have hnothing : pendingEmbeddings prepared t = [] → ∀ answer,
      (∀ report, report.elim 0 (fun r : LiteInlineEmbedding => r.updated + r.failed) = 0 →
        EmbeddingsEnd prepared answer t t report) ∧
      AnswerFits (pendingEmbeddings prepared t) answer := by
    intro hpending answer
    refine ⟨fun report hcounted => ⟨fun _ _ _ => rfl, fun i node hi => ?_, ?_⟩,
      fun vectors _ hlength => ?_⟩
    · rw [hpending] at hi
      cases hi
    · rw [hcounted, hpending]
      rfl
    · rw [hpending] at hlength
      obtain rfl := List.eq_nil_of_length_eq_zero hlength
      exact ⟨nofun, fun _ _ _ => rfl⟩
  unfold completeLiteInlineEmbeddings
  dsimp only
  split
  · next hplanned =>
    have hpending : pendingEmbeddings prepared t = [] := by
      rw [pendingEmbeddings, hplanned]
      rfl
    obtain ⟨hend, hfits⟩ := hnothing hpending _
    exact iff_of_true ⟨none, t, rfl, hend none rfl⟩ hfits
  split
  · next hpending =>
    obtain ⟨hend, hfits⟩ := hnothing hpending _
    exact iff_of_true ⟨_, t, rfl, hend _ rfl⟩ hfits
  cases hanswer : embedder.embed ((pendingEmbeddings prepared t).map (·.2)) with
  | error message => exact iff_of_true ⟨_, _, rfl, failPending_end _ hstored⟩ nofun
  | ok vectors =>
    dsimp only
    split
    · next hcount =>
      refine iff_of_true ⟨_, _, rfl, failPending_end _ hstored⟩ fun vectors' h hlength => ?_
      cases h
      exact absurd hlength hcount
    · next hcount =>
      have hlength := Decidable.not_not.1 hcount
      cases hready : readyPending prepared t embedder.name
          ((pendingEmbeddings prepared t).zip vectors) with
      | error e =>
        rw [withTx, hready]
        refine iff_of_false (fun ⟨_, _, h, _⟩ => nomatch h) fun hfits => ?_
        obtain ⟨t', ht'⟩ := exists_readyPending_iff.2 fun pair hpair =>
          (hfits vectors rfl hlength).1 pair.2 (List.of_mem_zip hpair).2
        rw [hready] at ht'
        cases ht'
      | ok t' =>
        rw [withTx, hready]
        refine ⟨fun ⟨report, t'', h, hend⟩ vectors' h' _ => ?_, fun hfits => ⟨_, t', rfl, ?_⟩⟩
        · cases h
          cases h'
          exact ⟨storable_of_ready hlength hready, same_of_end hlength hstored hready hend⟩
        · exact readyPending_end hlength hstored hready (hfits vectors rfl hlength).2

/-- The report counts as attempted what it counts as updated or failed, unless all that was
planned had a vector already. -/
theorem attempted_iff {report : Option LiteInlineEmbedding} {t' : LiteTables}
    (h : completeLiteInlineEmbeddings prepared t (some embedder) = (.ok report, t')) :
    (∀ r ∈ report, r.updated + r.failed = r.attempted) ↔
      plannedEmbeddings prepared = [] ∨ pendingEmbeddings prepared t ≠ [] := by
  unfold completeLiteInlineEmbeddings at h
  dsimp only at h
  split at h
  · next hplanned =>
    cases h
    exact iff_of_true nofun (.inl hplanned)
  next hplanned =>
  split at h
  · next hpending =>
    cases h
    refine iff_of_false (fun hcounts => hplanned ?_)
      (not_or.2 ⟨hplanned, not_not_intro hpending⟩)
    exact List.eq_nil_of_length_eq_zero (hcounts _ rfl).symm
  next hpending =>
  refine iff_of_true (fun r hr => ?_) (.inr hpending)
  split at h
  · cases h
    cases hr
    exact Nat.zero_add _
  · split at h
    · cases h
      cases hr
      exact Nat.zero_add _
    · unfold withTx at h
      split at h
      · next hready =>
        obtain ⟨_, -, hout⟩ := map_eq_ok.1 hready
        cases hout
        cases h
        cases hr
        rfl
      · cases h

end Complete

/-! ## The call after its commit -/

section Commit

variable {opts : ApplyWriteOptions} {prepared : PreparedWrite} {t t₁ : LiteTables}
  {out : WriteResult}

/-- A node of a write that was committed has a row under the scope of the write. -/
theorem rowAt_of_written (h : applyMemoryWrite opts t prepared = .ok (out, t₁))
    {node : PreparedNode} (hnode : node ∈ prepared.nodes) :
    RowAt t₁ prepared.scope node.id fun _ => True := by
  have hwritten := applyMemoryWrite_ok h
  have hplanned := List.mem_map_of_mem (f := plannedRow opts prepared out.commitId) hnode
  obtain ⟨row, hrow, hid⟩ : ∃ row ∈ (prepared.nodes.map (plannedRow opts prepared
      out.commitId)).foldl (insertOrIgnore (·.id)) t.nodes, row.id = node.id :=
    exists_foldl_insertOrIgnore hplanned
  refine ⟨row, ?_, ?_, trivial⟩
  · rw [← hid]
    exact t₁.nodeIds.row? (hwritten.nodes ▸ hrow)
  · rcases mem_foldl_insertOrIgnore hrow with hold | hnew
    · exact (hwritten.storedScopes node hnode row hold hid).trans
        (hwritten.nodesInScope node hnode)
    · obtain ⟨node', hnode', rfl⟩ := List.mem_map.1 hnew
      exact hwritten.nodesInScope node' hnode'

theorem rowAt_of_planned (h : applyMemoryWrite opts t prepared = .ok (out, t₁)) :
    ∀ node ∈ plannedEmbeddings prepared, RowAt t₁ prepared.scope node.1 fun _ => True := by
  intro planned hplanned
  unfold plannedEmbeddings at hplanned
  split at hplanned
  · obtain ⟨node, hnode, htext⟩ := List.mem_filterMap.1 hplanned
    obtain ⟨text, -, rfl⟩ := Option.map_eq_some_iff.1 htext
    exact rowAt_of_written h (List.mem_filter.1 hnode).1
  · cases hplanned

variable {embedder : EmbeddingProvider} {projection : List PreparedNode × List PreparedEdge}
  {project : PreparedWrite → LiteTables →
    Except WriteError (List PreparedNode × List PreparedEdge)}

/-- What the embedder answers for the nodes of a write. -/
def embedderAnswer (embedder : EmbeddingProvider) (prepared : PreparedWrite) (t : LiteTables) :
    Except String (List RawVector) :=
  embedder.embed ((pendingEmbeddings prepared t).map (·.2))

/-- The call returns the result of the write that it committed, with the tables `t₁`, and the
embeddings have come to an end. -/
def WriteEnds (opts : ApplyWriteOptions)
    (project : PreparedWrite → LiteTables →
      Except WriteError (List PreparedNode × List PreparedEdge))
    (embedder : EmbeddingProvider) (prepared projected : PreparedWrite) (t t₁ : LiteTables)
    (out : WriteResult) (counts : LiteInlineEmbedding → Prop) : Prop :=
  ∃ report t', commitLitePreparedWriteWithProjection opts project (some embedder) prepared t =
      (.ok (out, report), t') ∧
    EmbeddingsEnd projected (embedderAnswer embedder projected t₁) t₁ t' report ∧
    ∀ r ∈ report, counts r

/-- For every write that commits: the call ends as it should if and only if the answer of the
embedder fits. Its report then counts every attempt, unless all planned nodes had a vector. -/
theorem commitLitePreparedWriteWithProjection_ends_iff
    (hproject : project prepared t = .ok projection)
    (hcommitted : applyMemoryWrite opts t (prepared.append projection) = .ok (out, t₁)) :
    (WriteEnds opts project embedder prepared (prepared.append projection) t t₁ out
        (fun _ => True) ↔
      AnswerFits (pendingEmbeddings (prepared.append projection) t₁)
        (embedderAnswer embedder (prepared.append projection) t₁)) ∧
    (WriteEnds opts project embedder prepared (prepared.append projection) t t₁ out
        (fun r => r.updated + r.failed = r.attempted) ↔
      AnswerFits (pendingEmbeddings (prepared.append projection) t₁)
          (embedderAnswer embedder (prepared.append projection) t₁) ∧
        (plannedEmbeddings (prepared.append projection) = [] ∨
          pendingEmbeddings (prepared.append projection) t₁ ≠ [])) := by
  have hends : ∀ counts : LiteInlineEmbedding → Prop,
      WriteEnds opts project embedder prepared (prepared.append projection) t t₁ out counts ↔
        ∃ report t', completeLiteInlineEmbeddings (prepared.append projection) t₁
            (some embedder) = (.ok report, t') ∧
          EmbeddingsEnd (prepared.append projection)
            (embedderAnswer embedder (prepared.append projection) t₁) t₁ t' report ∧
          ∀ r ∈ report, counts r := by
    intro counts
    have hcommit : commitLitePreparedWriteWithProjection opts project (some embedder) prepared t =
        let answer := completeLiteInlineEmbeddings (prepared.append projection) t₁ (some embedder)
        (answer.1.map (out, ·), answer.2) := by
      unfold commitLitePreparedWriteWithProjection
      rw [hproject]
      dsimp only
      rw [withTx, hcommitted]
    unfold WriteEnds
    rw [hcommit]
    refine exists_congr fun report => exists_congr fun t' => and_congr_left fun _ => ?_
    dsimp only
    rw [Prod.mk.injEq, map_eq_ok, Prod.ext_iff]
    refine and_congr_left fun _ => ⟨?_, fun h => ⟨report, h, rfl⟩⟩
    rintro ⟨report', h, hreport⟩
    cases hreport
    exact h
  have hcomplete := @completeLiteInlineEmbeddings_end_iff _ _ embedder
    (rowAt_of_planned hcommitted)
  rw [hends, hends]
  refine ⟨?_, ?_⟩
  · rw [embedderAnswer, ← hcomplete]
    simp
  · rw [embedderAnswer, ← hcomplete]
    refine ⟨fun ⟨report, t', h, hend, hcounts⟩ => ⟨⟨report, t', h, hend⟩, ?_⟩,
      fun ⟨⟨report, t', h, hend⟩, hsome⟩ => ⟨report, t', h, hend, ?_⟩⟩
    · exact (attempted_iff h).1 hcounts
    · exact (attempted_iff h).2 hsome

end Commit

/-! ## An embedder with vectors of another length -/

/-- Two nodes that wait for their vectors. -/
def embeddedWrite : PreparedWrite where
  tenantId := "default"
  scopePublic := "default"
  scope := "default"
  actor := "system"
  inputSha256 := sampleCrypto.sha256Hex "text"
  autoEmbedEffective := true
  nodes := [{ sampleNode with embedText := some "first" },
    { sampleNode with
      id := sampleCrypto.stableUuid "default:node:b"
      clientId := some "b"
      embedText := some "second" }]
  edges := []

def noProjection (_ : PreparedWrite) (_ : LiteTables) :
    Except WriteError (List PreparedNode × List PreparedEdge) := .ok ([], [])

def rejectingEmbedder : EmbeddingProvider := ⟨"fake", fun _ => .error "timeout"⟩

/-- Two numbers for each text. -/
def shortEmbedder : EmbeddingProvider :=
  ⟨"fake", fun texts => .ok (texts.map fun _ => [some 1, some 0])⟩

theorem commitLitePreparedWriteWithProjection_ends_iff_rejected :
    ∃ out t₁, applyMemoryWrite sampleOptions .empty (embeddedWrite.append ([], [])) =
        .ok (out, t₁) ∧
      (WriteEnds sampleOptions noProjection rejectingEmbedder embeddedWrite
          (embeddedWrite.append ([], [])) .empty t₁ out (fun _ => True) ↔
        AnswerFits (pendingEmbeddings (embeddedWrite.append ([], [])) t₁) (.error "timeout")) := by
  have hok : (applyMemoryWrite sampleOptions .empty
      (embeddedWrite.append ([], []))).toOption.isSome := by decide +kernel
  obtain ⟨⟨out, t₁⟩, h⟩ := Option.isSome_iff_exists.1 hok
  have h := toOption_eq_some.1 h
  exact ⟨out, t₁, h, (@commitLitePreparedWriteWithProjection_ends_iff sampleOptions embeddedWrite
    .empty t₁ out rejectingEmbedder ([], []) noProjection rfl h).1⟩

/-- The write is stored, the call rejects, and both nodes go on waiting. -/
theorem short_vectors_leave_pending :
    ∃ out t₁, applyMemoryWrite sampleOptions .empty (embeddedWrite.append ([], [])) =
        .ok (out, t₁) ∧
      ¬ WriteEnds sampleOptions noProjection shortEmbedder embeddedWrite
          (embeddedWrite.append ([], [])) .empty t₁ out (fun _ => True) ∧
      (commitLitePreparedWriteWithProjection sampleOptions noProjection (some shortEmbedder)
        embeddedWrite .empty).2.nodes.map (·.embeddingStatus) = [.pending, .pending] := by
  have hok : (applyMemoryWrite sampleOptions .empty
      (embeddedWrite.append ([], []))).toOption.isSome := by decide +kernel
  have herror : (commitLitePreparedWriteWithProjection sampleOptions noProjection
      (some shortEmbedder) embeddedWrite .empty).1.toOption.isNone := by decide +kernel
  obtain ⟨⟨out, t₁⟩, h⟩ := Option.isSome_iff_exists.1 hok
  refine ⟨out, t₁, toOption_eq_some.1 h, ?_, by decide +kernel⟩
  rintro ⟨report, t', hends, -⟩
  rw [hends] at herror
  cases herror

end AionisCore.Memory
