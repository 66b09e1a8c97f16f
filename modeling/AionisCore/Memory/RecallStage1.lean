import AionisCore.Memory.Recall

/-!
# Seeds of a recall

The Lite store cuts the visible nodes to the nearest ones before it asks which of them are
eligible. What it answers with is the first of the eligible ones if no eligible node beyond the
cut is better than those that are found.
-/

namespace AionisCore.Memory

open Lib Lib.StableSort Store

/-- `localeCompare` ranks all texts. -/
def Collates (host : RecallHost) : Prop := Ranks fun a b : String => host.localeCompare a b ≤ 0

section Orders

variable {host : RecallHost}

theorem ranks_le {α : Type} (f : α → ℚ) : Ranks fun a b => decide (f a ≤ f b) :=
  ⟨fun a b c hab hbc => decide_eq_true ((of_decide_eq_true hab).trans (of_decide_eq_true hbc)),
    fun a b => by
      rw [Bool.or_eq_true, decide_eq_true_eq, decide_eq_true_eq]
      exact le_total (f a) (f b)⟩

theorem Collates.idOrder (h : Collates host) : Ranks (RankedRow.idOrder host) :=
  Ranks.comap h fun item : RankedRow => item.row.id

theorem Collates.nearer (h : Collates host) : Ranks (RankedRow.nearer host) :=
  (ranks_le RankedRow.distance).lex h.idOrder

theorem Collates.better (h : Collates host) : Ranks (RankedRow.better host) :=
  (ranks_le RankedRow.similarity).flip.lex <|
    (ranks_le RankedRow.distance).lex <|
      (ranks_le fun item : RankedRow => item.row.confidence).flip.lex h.idOrder

/-- Rows that tie as candidates are equally near. -/
theorem tie_nearer_of_tie_better {a b : RankedRow} (h : tie (RankedRow.better host) a b = true) :
    tie (RankedRow.nearer host) a b = true := by
  unfold RankedRow.better at h
  rw [(ranks_le RankedRow.similarity).flip.tie_lex, (ranks_le RankedRow.distance).tie_lex,
    (ranks_le fun item : RankedRow => item.row.confidence).flip.tie_lex] at h
  simp only [Bool.and_eq_true] at h
  unfold RankedRow.nearer
  rw [(ranks_le RankedRow.distance).tie_lex, Bool.and_eq_true]
  exact ⟨h.2.1, h.2.2.2⟩

end Orders

/-! ## The rows of a query -/

section Rows

variable {host : RecallHost} {t : LiteTables} {params : RecallStage1Params}

theorem row_of_mem_stage1Rows {item : RankedRow} (h : item ∈ t.stage1Rows host params) :
    item.row ∈ t.nodes ∧ ∃ e, item = ⟨item.row, cosineDistance host e params.queryEmbedding⟩ ∧
      parseEmbedding item.row = some e := by
  obtain ⟨n, hn, h⟩ := List.mem_filterMap.1 h
  split at h
  · obtain ⟨e, he, rfl⟩ := Option.map_eq_some_iff.1 h
    exact ⟨hn, e, rfl, he⟩
  · cases h

theorem eq_of_id {a b : RankedRow} (ha : a ∈ t.stage1Rows host params)
    (hb : b ∈ t.stage1Rows host params) (h : a.row.id = b.row.id) : a = b := by
  obtain ⟨hna, e, hae, hea⟩ := row_of_mem_stage1Rows ha
  obtain ⟨hnb, e', hbe, heb⟩ := row_of_mem_stage1Rows hb
  have hrow : a.row = b.row := List.inj_on_of_nodup_map t.nodeIds hna hnb h
  rw [hrow, heb] at hea
  obtain rfl := Option.some.inj hea
  rw [hae, hbe, hrow]

theorem nodup_stage1Rows : (t.stage1Rows host params).Nodup := by
  have hnodes : t.nodes.Nodup := List.Nodup.of_map _ t.nodeIds
  unfold LiteTables.stage1Rows
  refine List.Nodup.filterMap ?_ hnodes
  intro n m item hn hm
  have hrow : ∀ k : LiteNodeRow, item ∈ (if k.scope = params.scope ∧
      (k.tier = "hot" ∨ k.tier = "warm") ∧ k.embeddingStatus = .ready ∧
        candidateVisible k params.consumerAgentId params.consumerTeamId then
      (parseEmbedding k).map fun e => (⟨k, cosineDistance host e params.queryEmbedding⟩ :
        RankedRow) else none) → item.row = k := by
    intro k hk
    split at hk
    · obtain ⟨e, -, rfl⟩ := Option.map_eq_some_iff.1 hk
      rfl
    · cases hk
  exact (hrow n hn).symm.trans (hrow m hm)

theorem stage1Seeds_lite (exact : Bool) :
    stage1Seeds (liteRecallAccess host t) exact params = t.stage1Candidates host params := by
  exact ite_self _

theorem stage1Candidates_single {item : RankedRow} (hrows : t.stage1Rows host params = [item])
    (hok : t.eligible host params.scope item.row = true) (hoversample : 0 < params.oversample)
    (hlimit : 0 < params.limit) : t.stage1Candidates host params = [item.candidate] := by
  unfold LiteTables.stage1Candidates LiteTables.nearestRows
  have htake : ∀ {n : Int} {α : Type} (x : α), 0 < n → [x].take n.toNat = [x] := by
    intro n α x hn
    obtain ⟨m, hm⟩ : ∃ m, n.toNat = m + 1 := ⟨n.toNat - 1, by omega⟩
    rw [hm, List.take_succ_cons, List.take_nil]
  rw [hrows, List.mergeSort_singleton, htake _ hoversample, List.filter_cons_of_pos (by exact hok),
    List.filter_nil, List.mergeSort_singleton, sliceTo, if_pos hlimit.le, htake _ hlimit]
  rfl

end Rows

/-! ## What the cut leaves -/

section Cut

variable {host : RecallHost} {t : LiteTables}

/-- The seeds are the best of the nearest rows that are eligible. They are the best of all
eligible rows if and only if none beyond the nearest comes in among them. -/
theorem stage1Seeds_nearest (hlocale : Collates host) {parsed : MemoryRecallInput}
    (hlimit : 0 < parsed.limit) (scope : String) (exact : Bool) :
    let params := stage1Params parsed scope
    let visible := (t.stage1Rows host params).mergeSort (RankedRow.nearer host)
    let near := visible.take params.oversample.toNat
    let beyond := visible.drop params.oversample.toNat
    let ok := fun item : RankedRow => t.eligible host scope item.row
    let seeds := stage1Seeds (liteRecallAccess host t) exact params
    seeds = (((near.filter ok).mergeSort (RankedRow.better host)).take parsed.limit).map
        RankedRow.candidate ∧
      (seeds ≠ [] ↔ ∃ item ∈ near, ok item = true) ∧
      (seeds = ((((t.stage1Rows host params).filter ok).mergeSort
          (RankedRow.better host)).take parsed.limit).map RankedRow.candidate ↔
        ∀ before item after, beyond.filter ok = before ++ item :: after →
          parsed.limit ≤ place (RankedRow.better host) (near.filter ok ++ before) item after) := by
  intro params visible near beyond ok seeds
  have hseeds : seeds = (((near.filter ok).mergeSort (RankedRow.better host)).take
      parsed.limit).map RankedRow.candidate := by
    have hslice : ∀ rows : List RankedRow, sliceTo params.limit rows = rows.take parsed.limit :=
      fun rows => if_pos (Int.natCast_nonneg _)
    change stage1Seeds (liteRecallAccess host t) exact params = _
    rw [stage1Seeds_lite]
    unfold LiteTables.stage1Candidates
    rw [hslice]
    rfl
  have hsplit : near.filter ok ++ beyond.filter ok = visible.filter ok := by
    rw [← List.filter_append, List.take_append_drop]
  have hvisible : visible.Nodup :=
    (List.mergeSort_perm _ _).nodup_iff.2 nodup_stage1Rows
  have hnodup : (near.filter ok ++ beyond.filter ok).Nodup := hsplit ▸ hvisible.filter ok
  have hall : ((t.stage1Rows host params).filter ok).mergeSort (RankedRow.better host) =
      (near.filter ok ++ beyond.filter ok).mergeSort (RankedRow.better host) := by
    rw [hsplit, hlocale.nearer.filter_mergeSort_comm,
      hlocale.better.mergeSort_mergeSort hlocale.nearer fun _ _ => tie_nearer_of_tie_better]
  refine ⟨hseeds, ?_, ?_⟩
  · rw [hseeds, ne_eq, List.map_eq_nil_iff, List.take_eq_nil_iff, not_or]
    have hne : (near.filter ok).mergeSort (RankedRow.better host) = [] ↔ near.filter ok = [] := by
      rw [← List.length_eq_zero_iff, List.length_mergeSort, List.length_eq_zero_iff]
    rw [hne, List.filter_eq_nil_iff]
    refine ⟨fun h => ?_, fun ⟨item, hitem, hok⟩ => ⟨hlimit.ne', fun h => h item hitem hok⟩⟩
    by_contra hnone
    exact h.2 fun item hitem hok => hnone ⟨item, hitem, hok⟩
  · rw [hall, hseeds]
    refine ⟨fun h before item after hbeyond => ?_, fun hfar => ?_⟩
    · by_contra hle
      have hmem : item ∈ ((near.filter ok ++ beyond.filter ok).mergeSort
          (RankedRow.better host)).take parsed.limit := by
        rw [hbeyond, ← List.append_assoc] at hnodup ⊢
        exact (hlocale.better.mem_take_mergeSort hnodup).2 (Nat.not_le.1 hle)
      have hcandidate := List.mem_map_of_mem (f := RankedRow.candidate) hmem
      rw [← h] at hcandidate
      obtain ⟨found, hfound, heq⟩ := List.mem_map.1 hcandidate
      have hfound := List.mem_mergeSort.1 (List.mem_of_mem_take hfound)
      have hitem : item ∈ beyond.filter ok := by rw [hbeyond]; simp
      have hrow : ∀ row ∈ near.filter ok ++ beyond.filter ok, row ∈ t.stage1Rows host params := by
        intro row hrow
        rw [hsplit] at hrow
        exact List.mem_mergeSort.1 (List.mem_filter.1 hrow).1
      have hsame := eq_of_id (hrow found (List.mem_append_left _ hfound))
        (hrow item (List.mem_append_right _ hitem)) (congrArg RecallCandidate.id heq)
      exact (List.nodup_append.1 hnodup).2.2 found hfound item hitem hsame
    · rw [hlocale.better.take_mergeSort_append hnodup hfar]

end Cut

/-! ## A crowded neighbourhood -/

def sampleRecallHost : RecallHost where
  sqrt _ := 1
  localeCompare s t := if s ≤ t then if t ≤ s then 0 else -1 else 1
  text
    | .str s => s
    | _ => ""
  number _ := none

theorem collates_sample : Collates sampleRecallHost := by
  have hle : ∀ s t : String, sampleRecallHost.localeCompare s t ≤ 0 ↔ s ≤ t := by
    intro s t
    simp only [sampleRecallHost]
    split
    · next h =>
      refine iff_of_true ?_ h
      split <;> decide
    · next h => exact iff_of_false (by decide) h
  refine ⟨fun a b c hab hbc => ?_, fun a b => ?_⟩
  · simp only [decide_eq_true_eq, hle] at hab hbc ⊢
    exact String.le_trans hab hbc
  · simp only [Bool.or_eq_true, decide_eq_true_eq, hle]
    exact String.le_total a b

def crowdedQuery : List ℚ := List.replicate 1536 1

def crowdedNode (digit type : String) : LiteNodeRow where
  id := "00000000-0000-4000-8000-00000000000" ++ digit
  scope := "default"
  type := type
  createdAt := "2026-01-01T00:00:00.000Z"
  slots := []
  salience := 1 / 2
  importance := 1 / 2
  confidence := 1 / 2
  commitId := "c"
  embeddingVector := some crowdedQuery
  embeddingStatus := .ready

/-- An event behind five pieces of evidence, which are no candidates. -/
def crowdedNodes : List LiteNodeRow :=
  [crowdedNode "1" "evidence", crowdedNode "2" "evidence", crowdedNode "3" "evidence",
    crowdedNode "4" "evidence", crowdedNode "5" "evidence", crowdedNode "6" "event"]

def crowdedTables : LiteTables :=
  { LiteTables.empty with
    nodes := crowdedNodes
    nodeIds := by unfold Table.Unique; decide }

def crowdedRequest : MemoryRecallInput where
  queryEmbedding := crowdedQuery
  limit := 1

theorem stage1Rows_crowded :
    crowdedTables.stage1Rows sampleRecallHost (stage1Params crowdedRequest "default") =
      crowdedNodes.map fun n =>
        ⟨n, cosineDistance sampleRecallHost crowdedQuery crowdedQuery⟩ := by
  rfl

theorem crowded_out :
    let params := stage1Params crowdedRequest "default"
    stage1Seeds (liteRecallAccess sampleRecallHost crowdedTables) true params = [] ∧
      ∃ item ∈ crowdedTables.stage1Rows sampleRecallHost params,
        crowdedTables.eligible sampleRecallHost "default" item.row = true := by
  intro params
  have hsorted : (crowdedTables.stage1Rows sampleRecallHost params).mergeSort
      (RankedRow.nearer sampleRecallHost) =
        crowdedTables.stage1Rows sampleRecallHost params := by
    refine List.mergeSort_of_pairwise ?_
    rw [stage1Rows_crowded, List.pairwise_map]
    have hids : crowdedNodes.Pairwise fun a b =>
        sampleRecallHost.localeCompare a.id b.id ≤ 0 := by decide
    refine hids.imp fun h => ?_
    unfold RankedRow.nearer
    rw [(ranks_le RankedRow.distance).lex_iff]
    exact ⟨decide_eq_true le_rfl, fun _ => decide_eq_true h⟩
  have hnone : (crowdedTables.nearestRows sampleRecallHost params).filter (fun item =>
      crowdedTables.eligible sampleRecallHost "default" item.row) = [] := by
    unfold LiteTables.nearestRows
    rw [hsorted, stage1Rows_crowded]
    rfl
  refine ⟨?_, ⟨crowdedNode "6" "event",
    cosineDistance sampleRecallHost crowdedQuery crowdedQuery⟩, ?_, rfl⟩
  · rw [stage1Seeds_lite]
    unfold LiteTables.stage1Candidates
    rw [show params.scope = "default" from rfl, hnone, List.mergeSort_nil]
    rfl
  · rw [stage1Rows_crowded]
    exact List.mem_map_of_mem (by simp [crowdedNodes])

theorem stage1Seeds_nearest_crowded :
    let params := stage1Params crowdedRequest "default"
    let visible := (crowdedTables.stage1Rows sampleRecallHost params).mergeSort
      (RankedRow.nearer sampleRecallHost)
    let near := visible.take params.oversample.toNat
    let ok := fun item : RankedRow => crowdedTables.eligible sampleRecallHost "default" item.row
    stage1Seeds (liteRecallAccess sampleRecallHost crowdedTables) true params ≠ [] ↔
      ∃ item ∈ near, ok item = true :=
  (@stage1Seeds_nearest sampleRecallHost crowdedTables collates_sample crowdedRequest
    (by decide) "default" true).2.1

end AionisCore.Memory
