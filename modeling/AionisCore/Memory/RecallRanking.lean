import AionisCore.Lib.BestWalk
import AionisCore.Store.RecallAccess
import Mathlib.Tactic.Linarith
import Mathlib.Tactic.Ring

/-!
# Recall ranking

How activation spreads from the seeds of a recall along the edges around them. After as many
passes as there are hops, a node has the best that a walk from a seed brings to it.
-/

namespace AionisCore.Memory

open Lib Lib.BestWalk Store

def edgeTypeWeight (type : String) : ℚ :=
  if type = "derived_from" then 1
  else if type = "part_of" then 9 / 10
  else 6 / 10

structure RankedNode where
  id : String
  activation : ℚ
  score : ℚ
  deriving DecidableEq, Repr

def seedActivation (seed : RecallCandidate) : ℚ :=
  max 0 (min 1 (3 / 4 * seed.similarity + 1 / 4 * seed.salience))

/-- `activationById` at first: the last seed of an id counts. -/
def seedActivations (seeds : List RecallCandidate) : OrderedMap String ℚ :=
  seeds.foldl (fun m seed => m.set seed.id (seedActivation seed)) OrderedMap.empty

/-- `adjacency.get(nodeId) ?? []`: an edge from a node to itself is there twice. -/
def nodeEdges (edges : List RecallEdgeRow) (nodeId : String) : List RecallEdgeRow :=
  edges.flatMap fun edge =>
    (if edge.srcId = nodeId then [edge] else []) ++ (if edge.dstId = nodeId then [edge] else [])

def otherId (nodeId : String) (edge : RecallEdgeRow) : String :=
  if edge.srcId = nodeId then edge.dstId else edge.srcId

def edgeWeight (edge : RecallEdgeRow) : ℚ :=
  edgeTypeWeight edge.type * edge.weight * edge.confidence

def propagated (activation : ℚ) (edge : RecallEdgeRow) : ℚ :=
  activation * edgeWeight edge * (1 / 2)

/-- One iteration over the nodes and their edges. -/
def spreadOnce (edges : List RecallEdgeRow) (activationById : OrderedMap String ℚ) :
    OrderedMap String ℚ :=
  let next := activationById.entries.foldl
    (fun next entry => (nodeEdges edges entry.1).foldl
      (fun next edge => raise next (otherId entry.1 edge, propagated entry.2 edge)) next)
    activationById
  next.entries.foldl raise activationById

def activations (seeds : List RecallCandidate) (edges : List RecallEdgeRow) (hops : Nat) :
    OrderedMap String ℚ :=
  (spreadOnce edges)^[hops] (seedActivations seeds)

def rankedNode (nodes : OrderedMap String RecallNodeRow) (entry : String × ℚ) : RankedNode where
  id := entry.1
  activation := entry.2
  score :=
    let node := nodes.get entry.1
    7 / 10 * entry.2 + 15 / 100 * ((node.map (·.confidence)).getD (1 / 2)) +
      15 / 100 * ((node.map (·.salience)).getD (1 / 2))

def spreadActivation (seeds : List RecallCandidate) (nodes : OrderedMap String RecallNodeRow)
    (edges : List RecallEdgeRow) (hops : Nat) : List RankedNode :=
  ((activations seeds edges hops).entries.map (rankedNode nodes)).mergeSort
    fun a b => b.score ≤ a.score

/-! ## Links -/

/-- What a walk loses along an edge, in either direction. -/
def transfer (edge : RecallEdgeRow) : ℚ :=
  1 / 2 * edgeTypeWeight edge.type * edge.weight * edge.confidence

def Joins (edge : RecallEdgeRow) (y z : String) : Prop :=
  edge.srcId = y ∧ edge.dstId = z ∨ edge.srcId = z ∧ edge.dstId = y

def Link (edges : List RecallEdgeRow) (y : String) (w : ℚ) (z : String) : Prop :=
  ∃ edge ∈ edges, Joins edge y z ∧ w = transfer edge

/-- The seed of an id that counts. -/
def lastSeed (seeds : List RecallCandidate) (id : String) : Option RecallCandidate :=
  seeds.reverse.find? (·.id = id)

def Start (seeds : List RecallCandidate) (id : String) (a : ℚ) : Prop :=
  ∃ seed, lastSeed seeds id = some seed ∧ a = seedActivation seed

/-- What the walks of at most `hops` edges from a seed bring to a node. -/
def Brought (seeds : List RecallCandidate) (edges : List RecallEdgeRow) (hops : Nat)
    (id : String) : Set ℚ :=
  Carried (Link edges) (Start seeds) hops id

/-- Weight and confidence are between 0 and 1. -/
def Weighted (edge : RecallEdgeRow) : Prop :=
  (0 ≤ edge.weight ∧ edge.weight ≤ 1) ∧ 0 ≤ edge.confidence ∧ edge.confidence ≤ 1

theorem edgeTypeWeight_nonneg (type : String) : 0 ≤ edgeTypeWeight type := by
  unfold edgeTypeWeight
  split
  · norm_num
  · split <;> norm_num

theorem edgeTypeWeight_le_one (type : String) : edgeTypeWeight type ≤ 1 := by
  unfold edgeTypeWeight
  split
  · norm_num
  · split <;> norm_num

theorem Weighted.transfer {edge : RecallEdgeRow} (h : Weighted edge) :
    0 ≤ transfer edge ∧ transfer edge ≤ 1 := by
  obtain ⟨⟨hw0, hw1⟩, hc0, hc1⟩ := h
  have ht0 := edgeTypeWeight_nonneg edge.type
  have ht1 := edgeTypeWeight_le_one edge.type
  have htype : 1 / 2 * edgeTypeWeight edge.type ≤ 1 := by linarith
  have htype0 : 0 ≤ 1 / 2 * edgeTypeWeight edge.type := by linarith
  have hweight := mul_nonneg htype0 hw0
  exact ⟨mul_nonneg hweight hc0,
    mul_le_one₀ (mul_le_one₀ htype hw0 hw1) hc0 hc1⟩

theorem propagated_eq (activation : ℚ) (edge : RecallEdgeRow) :
    propagated activation edge = activation * transfer edge := by
  unfold propagated transfer edgeWeight
  ring

theorem seedActivation_nonneg (seed : RecallCandidate) : 0 ≤ seedActivation seed :=
  le_max_left _ _

theorem seedActivation_le_one (seed : RecallCandidate) : seedActivation seed ≤ 1 :=
  max_le zero_le_one (min_le_left _ _)

variable {edges edges' : List RecallEdgeRow}

theorem link_bounds (h : ∀ edge ∈ edges, Weighted edge) (y : String) (w : ℚ) (z : String)
    (hlink : Link edges y w z) : 0 ≤ w ∧ w ≤ 1 := by
  obtain ⟨edge, hedge, -, rfl⟩ := hlink
  exact (h edge hedge).transfer

variable {seeds seeds' : List RecallCandidate}

theorem start_bounds (id : String) (a : ℚ) (h : Start seeds id a) : 0 ≤ a ∧ a ≤ 1 := by
  obtain ⟨seed, -, rfl⟩ := h
  exact ⟨seedActivation_nonneg seed, seedActivation_le_one seed⟩

theorem mem_nodeEdges {edge : RecallEdgeRow} {y z : String} :
    (edge ∈ nodeEdges edges y ∧ otherId y edge = z) ↔ edge ∈ edges ∧ Joins edge y z := by
  have hmem : edge ∈ nodeEdges edges y ↔ edge ∈ edges ∧ (edge.srcId = y ∨ edge.dstId = y) := by
    unfold nodeEdges
    rw [List.mem_flatMap]
    refine ⟨?_, fun ⟨hedge, hends⟩ => ⟨edge, hedge, ?_⟩⟩
    · rintro ⟨e, he, hin⟩
      rcases List.mem_append.1 hin with hin | hin
      · split at hin
        · next hsrc =>
          obtain rfl := List.mem_singleton.1 hin
          exact ⟨he, .inl hsrc⟩
        · cases hin
      · split at hin
        · next hdst =>
          obtain rfl := List.mem_singleton.1 hin
          exact ⟨he, .inr hdst⟩
        · cases hin
    · rcases hends with hsrc | hdst
      · exact List.mem_append_left _ (by rw [if_pos hsrc]; exact List.mem_singleton_self edge)
      · exact List.mem_append_right _ (by rw [if_pos hdst]; exact List.mem_singleton_self edge)
  rw [hmem, and_assoc]
  refine and_congr_right fun _ => ?_
  unfold otherId Joins
  by_cases hsrc : edge.srcId = y
  · rw [if_pos hsrc]
    refine ⟨fun h => .inl ⟨hsrc, h.2⟩, ?_⟩
    rintro (⟨-, hz⟩ | ⟨hz, hy⟩)
    · exact ⟨.inl hsrc, hz⟩
    · exact ⟨.inl hsrc, by rw [hy, ← hz, hsrc]⟩
  · rw [if_neg hsrc]
    refine ⟨fun ⟨hends, hz⟩ => .inr ⟨hz, hends.resolve_left hsrc⟩, ?_⟩
    rintro (⟨hy, -⟩ | ⟨hz, hy⟩)
    · exact absurd hy hsrc
    · exact ⟨.inr hy, hz⟩

/-! ## Passes -/

/-- What an iteration raises the copy of the map to. -/
def spread (edges : List RecallEdgeRow) (m : OrderedMap String ℚ) : List (String × ℚ) :=
  m.entries.flatMap fun entry =>
    (nodeEdges edges entry.1).map fun edge => (otherId entry.1 edge, propagated entry.2 edge)

theorem spreadOnce_eq (edges : List RecallEdgeRow) : spreadOnce edges = sweep (spread edges) := by
  funext m
  unfold spreadOnce sweep spread
  rw [List.foldl_flatMap]
  simp only [List.foldl_map]

theorem mem_spread (m : OrderedMap String ℚ) (k : String) (x : ℚ) :
    (k, x) ∈ spread edges m ↔ ∃ y b w, m.get y = some b ∧ Link edges y w k ∧ x = b * w := by
  unfold spread
  rw [List.mem_flatMap]
  refine ⟨?_, ?_⟩
  · rintro ⟨⟨y, b⟩, hentry, hin⟩
    obtain ⟨edge, hedge, heq⟩ := List.mem_map.1 hin
    obtain ⟨hk, rfl⟩ := Prod.mk.inj heq
    obtain ⟨hedge, hjoins⟩ := mem_nodeEdges.1 ⟨hedge, hk⟩
    exact ⟨y, b, transfer edge, OrderedMap.get_eq_some.2 hentry, ⟨edge, hedge, hjoins, rfl⟩,
      propagated_eq b edge⟩
  · rintro ⟨y, b, w, hb, ⟨edge, hedge, hjoins, rfl⟩, rfl⟩
    obtain ⟨hedge, hk⟩ := mem_nodeEdges.2 ⟨hedge, hjoins⟩
    exact ⟨(y, b), OrderedMap.get_eq_some.1 hb,
      List.mem_map.2 ⟨edge, hedge, Prod.ext hk (propagated_eq b edge)⟩⟩

theorem get_seedActivations (seeds : List RecallCandidate) (id : String) :
    (seedActivations seeds).get id = (lastSeed seeds id).map seedActivation := by
  unfold seedActivations lastSeed
  induction seeds using List.reverseRecOn with
  | nil => rfl
  | append_singleton seeds seed ih =>
    rw [List.foldl_append, List.foldl_cons, List.foldl_nil, OrderedMap.get_set, ih,
      List.reverse_append, List.reverse_singleton, List.singleton_append, List.find?_cons]
    by_cases hid : seed.id = id
    · rw [if_pos hid.symm, decide_eq_true hid]
      rfl
    · rw [if_neg (Ne.symm hid), decide_eq_false hid]

theorem best_activations (hedges : ∀ edge ∈ edges, Weighted edge) (seeds : List RecallCandidate)
    (hops : Nat) (id : String) :
    Best (Brought seeds edges hops id) ((activations seeds edges hops).get id) := by
  unfold activations
  rw [spreadOnce_eq]
  refine best_passes (fun y w z h => (link_bounds hedges y w z h).1)
    (fun s a h => (start_bounds s a h).1) (fun k a => ?_) mem_spread hops id
  rw [get_seedActivations, Option.map_eq_some_iff]
  refine exists_congr fun seed => and_congr_right fun _ => ?_
  exact eq_comm

/-! ## The ranked list -/

variable {nodes : OrderedMap String RecallNodeRow} {hops : Nat} {r : RankedNode}

theorem mem_spreadActivation : r ∈ spreadActivation seeds nodes edges hops ↔
      ∃ a, (activations seeds edges hops).get r.id = some a ∧ r = rankedNode nodes (r.id, a) := by
  unfold spreadActivation
  rw [List.mem_mergeSort, List.mem_map]
  refine ⟨?_, ?_⟩
  · rintro ⟨⟨id, a⟩, hentry, rfl⟩
    exact ⟨a, OrderedMap.get_eq_some.2 hentry, rfl⟩
  · rintro ⟨a, ha, hr⟩
    exact ⟨(r.id, a), OrderedMap.get_eq_some.1 ha, hr.symm⟩

theorem mem_spreadActivation_iff (hedges : ∀ edge ∈ edges, Weighted edge) :
    r ∈ spreadActivation seeds nodes edges hops ↔
      IsGreatest (Brought seeds edges hops r.id) r.activation ∧
        r = rankedNode nodes (r.id, r.activation) := by
  rw [mem_spreadActivation]
  have hbest := best_activations hedges seeds hops r.id
  refine ⟨?_, fun ⟨ha, hr⟩ => ⟨r.activation, hbest.eq_some_iff.2 ha, hr⟩⟩
  rintro ⟨a, ha, hr⟩
  have hact : r.activation = a := congrArg RankedNode.activation hr
  rw [hact]
  exact ⟨hbest.eq_some_iff.1 ha, hr⟩

theorem nodup_spreadActivation (seeds : List RecallCandidate)
    (nodes : OrderedMap String RecallNodeRow) (edges : List RecallEdgeRow) (hops : Nat) :
    ((spreadActivation seeds nodes edges hops).map (·.id)).Nodup := by
  have hperm := (List.mergeSort_perm
    ((activations seeds edges hops).entries.map (rankedNode nodes))
    fun a b => b.score ≤ a.score).map (·.id)
  refine hperm.nodup_iff.2 ?_
  rw [List.map_map]
  exact (activations seeds edges hops).nodup

theorem spreadActivation_nil (nodes : OrderedMap String RecallNodeRow)
    (edges : List RecallEdgeRow) (hops : Nat) : spreadActivation [] nodes edges hops = [] := by
  have hnone : activations [] edges hops = OrderedMap.empty :=
    Function.iterate_fixed (f := spreadOnce edges) rfl hops
  unfold spreadActivation
  rw [hnone]
  exact List.mergeSort_nil

/-! ## Order and direction -/

/-- An edge the other way round. -/
def turned (edge : RecallEdgeRow) : RecallEdgeRow :=
  { edge with srcId := edge.dstId, dstId := edge.srcId }

/-- The edges of a list in another order, some of them turned. -/
def Rearranged (edges edges' : List RecallEdgeRow) : Prop :=
  ∃ between, List.Forall₂ (fun e e' => e' = e ∨ e' = turned e) edges between ∧
    between.Perm edges'

theorem link_of_rearranged (h : Rearranged edges edges') : Link edges' = Link edges := by
  obtain ⟨between, hturned, hperm⟩ := h
  funext y w z
  refine propext ?_
  have hjoins : ∀ e, (Joins (turned e) y z ∧ w = transfer (turned e)) ↔
      Joins e y z ∧ w = transfer e :=
    fun e => and_congr_left fun _ => (or_congr and_comm and_comm).trans or_comm
  have hmem : Link edges' y w z ↔ Link between y w z :=
    exists_congr fun e => and_congr_left fun _ => hperm.symm.mem_iff
  rw [hmem]
  clear hmem hperm
  unfold Link
  induction hturned with
  | nil => exact Iff.rfl
  | cons he _ ih =>
    rw [List.exists_mem_cons_iff, List.exists_mem_cons_iff]
    refine or_congr ?_ ih
    rcases he with rfl | rfl
    · exact Iff.rfl
    · exact hjoins _

theorem weighted_of_rearranged (h : Rearranged edges edges')
    (hedges : ∀ edge ∈ edges, Weighted edge) : ∀ edge ∈ edges', Weighted edge := by
  obtain ⟨between, hturned, hperm⟩ := h
  intro edge hedge
  have hedge := hperm.mem_iff.2 hedge
  clear hperm
  induction hturned with
  | nil => cases hedge
  | cons he _ ih =>
    obtain ⟨hhead, htail⟩ := List.forall_mem_cons.1 hedges
    rcases List.mem_cons.1 hedge with rfl | hedge
    · rcases he with rfl | rfl <;> exact hhead
    · exact ih htail hedge

variable {seed : RecallCandidate}

theorem mem_of_lastSeed {id : String} (h : lastSeed seeds id = some seed) :
    seed ∈ seeds ∧ seed.id = id := by
  have hid := List.find?_some (p := fun s : RecallCandidate => decide (s.id = id)) h
  exact ⟨List.mem_reverse.1 (List.mem_of_find?_eq_some h), of_decide_eq_true hid⟩

theorem lastSeed_of_nodup (h : (seeds.map (·.id)).Nodup) {id : String} :
    lastSeed seeds id = some seed ↔ seed ∈ seeds ∧ seed.id = id := by
  refine ⟨mem_of_lastSeed, fun ⟨hseed, hid⟩ => ?_⟩
  cases hfind : lastSeed seeds id with
  | none =>
    have hnone := List.find?_eq_none.1 hfind seed (List.mem_reverse.2 hseed)
    exact absurd (decide_eq_true hid) hnone
  | some other =>
    obtain ⟨hother, hid'⟩ := mem_of_lastSeed hfind
    rw [List.inj_on_of_nodup_map h hother hseed (hid'.trans hid.symm)]

theorem start_mono (h : (seeds.map (·.id)).Nodup) (h' : (seeds'.map (·.id)).Nodup)
    (hsub : seeds ⊆ seeds') (id : String) (a : ℚ) (hstart : Start seeds id a) :
    Start seeds' id a := by
  obtain ⟨seed, hseed, rfl⟩ := hstart
  obtain ⟨hmem, hid⟩ := (lastSeed_of_nodup h).1 hseed
  exact ⟨seed, (lastSeed_of_nodup h').2 ⟨hsub hmem, hid⟩, rfl⟩

theorem start_of_perm (h : (seeds.map (·.id)).Nodup) (hperm : seeds.Perm seeds') :
    Start seeds' = Start seeds := by
  have h' : (seeds'.map (·.id)).Nodup := (hperm.map _).nodup_iff.1 h
  funext id a
  exact propext ⟨start_mono h' h hperm.symm.subset id a, start_mono h h' hperm.subset id a⟩

/-- Without walks of new weight or seeds of new activation, a list of the same entries. -/
theorem spreadActivation_perm (hedges : ∀ edge ∈ edges, Weighted edge)
    (hrearranged : Rearranged edges edges') (hseeds : (seeds.map (·.id)).Nodup)
    (hperm : seeds.Perm seeds') (nodes : OrderedMap String RecallNodeRow) (hops : Nat) :
    (spreadActivation seeds nodes edges hops).Perm
      (spreadActivation seeds' nodes edges' hops) := by
  refine (List.perm_ext_iff_of_nodup (nodup_spreadActivation seeds nodes edges hops).of_map
    (nodup_spreadActivation seeds' nodes edges' hops).of_map).2 fun r => ?_
  rw [mem_spreadActivation_iff hedges,
    mem_spreadActivation_iff (weighted_of_rearranged hrearranged hedges)]
  unfold Brought
  rw [link_of_rearranged hrearranged, start_of_perm hseeds hperm]

/-- More edges and more seeds bring a node no less. -/
theorem spreadActivation_mono (hedges : ∀ edge ∈ edges', Weighted edge) (hsub : edges ⊆ edges')
    (hseeds' : (seeds'.map (·.id)).Nodup) (hseeds : (seeds.map (·.id)).Nodup)
    (hsubseeds : seeds ⊆ seeds') (nodes : OrderedMap String RecallNodeRow) (hops : Nat)
    (hr : r ∈ spreadActivation seeds nodes edges hops) :
    ∃ r' ∈ spreadActivation seeds' nodes edges' hops,
      r'.id = r.id ∧ r.activation ≤ r'.activation := by
  have hbrought : Brought seeds edges hops r.id ⊆ Brought seeds' edges' hops r.id :=
    carried_mono (fun y w z ⟨edge, hedge, hlink⟩ => ⟨edge, hsub hedge, hlink⟩)
      (start_mono hseeds hseeds' hsubseeds) r.id
  have hr := ((mem_spreadActivation_iff fun edge he => hedges edge (hsub he)).1 hr).1
  have hbest := best_activations hedges seeds' hops r.id
  obtain ⟨a, ha⟩ := hbest.exists_of_nonempty (hbrought hr.1)
  refine ⟨rankedNode nodes (r.id, a), mem_spreadActivation.2 ⟨a, ha, rfl⟩, rfl, ?_⟩
  exact (hbest.eq_some_iff.1 ha).2 (hbrought hr.1)

/-- A node is activated if it is a seed or an edge reaches it. -/
theorem activated_cases (hedges : ∀ edge ∈ edges, Weighted edge)
    (hr : r ∈ spreadActivation seeds nodes edges hops) :
    r.id ∈ seeds.map (·.id) ∨ ∃ e ∈ edges, r.id = e.srcId ∨ r.id = e.dstId := by
  obtain ⟨s, a, n, p, ⟨seed, hseed, -⟩, -, hwalk, -⟩ :=
    ((mem_spreadActivation_iff hedges).1 hr).1.1
  cases hwalk with
  | nil =>
    obtain ⟨hmem, hid⟩ := mem_of_lastSeed hseed
    exact .inl (List.mem_map.2 ⟨seed, hmem, hid⟩)
  | snoc _ hlink =>
    obtain ⟨e, he, ⟨-, hdst⟩ | ⟨hsrc, -⟩, -⟩ := hlink
    · exact .inr ⟨e, he, .inr hdst.symm⟩
    · exact .inr ⟨e, he, .inl hsrc.symm⟩

theorem activated_of_edge (hedges : ∀ edge ∈ edges, Weighted edge) (hhops : 1 ≤ hops)
    {e : RecallEdgeRow} (hseed : lastSeed seeds e.srcId = some seed) (he : e ∈ edges) :
    ∃ r ∈ spreadActivation seeds nodes edges hops, r.id = e.dstId := by
  have hbrought : seedActivation seed * (1 * transfer e) ∈ Brought seeds edges hops e.dstId :=
    ⟨e.srcId, _, 1, _, ⟨seed, hseed, rfl⟩, hhops, .snoc .nil ⟨e, he, .inl ⟨rfl, rfl⟩, rfl⟩, rfl⟩
  obtain ⟨a, ha⟩ := (best_activations hedges seeds hops e.dstId).exists_of_nonempty hbrought
  exact ⟨rankedNode nodes (e.dstId, a), mem_spreadActivation.2 ⟨a, ha, rfl⟩, rfl⟩

/-- Over edges with weights between 0 and 1, a node has the greatest that a walk of at most
`hops` edges brings it from the last seed of an id. -/
theorem spreadActivation_walks (seeds : List RecallCandidate) (edges : List RecallEdgeRow)
    (hedges : ∀ edge ∈ edges, Weighted edge) (nodes : OrderedMap String RecallNodeRow)
    (hops : Nat) :
    (∀ id a, (∃ r ∈ spreadActivation seeds nodes edges hops, r.id = id ∧ r.activation = a) ↔
        IsGreatest (Brought seeds edges hops id) a) ∧
      (∀ id, (∃ r ∈ spreadActivation seeds nodes edges hops, r.id = id) ↔
        (Brought seeds edges hops id).Nonempty) ∧
      ((spreadActivation seeds nodes edges hops).map (·.id)).Nodup ∧
      (∀ r ∈ spreadActivation seeds nodes edges hops, 0 ≤ r.activation ∧ r.activation ≤ 1) ∧
      (∀ seeds' edges', (seeds.map (·.id)).Nodup → seeds.Perm seeds' → Rearranged edges edges' →
        (spreadActivation seeds nodes edges hops).Perm
          (spreadActivation seeds' nodes edges' hops)) ∧
      (∀ seeds₀ edges₀, (seeds.map (·.id)).Nodup → seeds₀.Sublist seeds → edges₀ ⊆ edges →
        ∀ r ∈ spreadActivation seeds₀ nodes edges₀ hops,
          ∃ r' ∈ spreadActivation seeds nodes edges hops,
            r'.id = r.id ∧ r.activation ≤ r'.activation) := by
  refine ⟨fun id a => ⟨?_, fun ha => ?_⟩, fun id => ⟨?_, ?_⟩, nodup_spreadActivation _ _ _ _,
    fun r hr => ?_, fun seeds' edges' hseeds hperm hrearranged => ?_,
    fun seeds₀ edges₀ hseeds hsubseeds hsub r hr => ?_⟩
  · rintro ⟨r, hr, rfl, rfl⟩
    exact ((mem_spreadActivation_iff hedges).1 hr).1
  · exact ⟨rankedNode nodes (id, a), (mem_spreadActivation_iff hedges).2 ⟨ha, rfl⟩, rfl, rfl⟩
  · rintro ⟨r, hr, rfl⟩
    exact ⟨_, ((mem_spreadActivation_iff hedges).1 hr).1.1⟩
  · rintro ⟨x, hx⟩
    obtain ⟨a, ha⟩ := (best_activations hedges seeds hops id).exists_of_nonempty hx
    exact ⟨rankedNode nodes (id, a), mem_spreadActivation.2 ⟨a, ha, rfl⟩, rfl⟩
  · have hmem := ((mem_spreadActivation_iff hedges).1 hr).1.1
    exact ⟨nonneg_of_carried (fun y w z h => (link_bounds hedges y w z h).1)
      (fun s a h => (start_bounds s a h).1) hmem,
      le_one_of_carried (link_bounds hedges) start_bounds hmem⟩
  · exact spreadActivation_perm hedges hrearranged hseeds hperm nodes hops
  · exact spreadActivation_mono hedges hsub hseeds (hseeds.sublist (hsubseeds.map _))
      hsubseeds.subset nodes hops hr

section Samples

private def seedOf (id : String) (similarity : ℚ) : RecallCandidate where
  id := id
  type := "event"
  title := none
  textSummary := none
  tier := "hot"
  salience := 0
  confidence := 1
  similarity := similarity

private def partOf (srcId dstId : String) : RecallEdgeRow where
  scope := "s"
  type := "part_of"
  srcId := srcId
  dstId := dstId
  id := srcId ++ dstId
  weight := 1 / 2
  confidence := 1
  decayRate := 0
  createdAt := ""
  commitId := none

theorem spreadActivation_walks_partOf :
    (spreadActivation [seedOf "a" 1] OrderedMap.empty [partOf "b" "a"] 1).length = 2 ∧
      ((∃ r ∈ spreadActivation [seedOf "a" 1] OrderedMap.empty [partOf "b" "a"] 1,
          r.id = "b") ↔
        (Brought [seedOf "a" 1] [partOf "b" "a"] 1 "b").Nonempty) := by
  refine ⟨?_, (spreadActivation_walks [seedOf "a" 1] [partOf "b" "a"] ?_ OrderedMap.empty 1).2.1
    "b"⟩
  · unfold spreadActivation
    rw [List.length_mergeSort]
    decide +kernel
  · intro edge hedge
    obtain rfl := List.mem_singleton.1 hedge
    exact ⟨by decide +kernel, by decide +kernel⟩

/-- Of two seeds with one id the last one counts, and nodes with one score stay as they come. -/
theorem spreadActivation_last_seed :
    (¬ ∃ r ∈ spreadActivation [seedOf "a" 1, seedOf "a" 0] OrderedMap.empty [] 0,
      r.id = "a" ∧ ∀ seed ∈ [seedOf "a" 1, seedOf "a" 0],
        seed.id = "a" → seedActivation seed ≤ r.activation) ∧
      spreadActivation [seedOf "a" 1, seedOf "a" 0] OrderedMap.empty [] 0 ≠
        spreadActivation [seedOf "a" 0, seedOf "a" 1] OrderedMap.empty [] 0 ∧
      spreadActivation [seedOf "a" 1, seedOf "b" 1] OrderedMap.empty [] 0 ≠
        spreadActivation [seedOf "b" 1, seedOf "a" 1] OrderedMap.empty [] 0 := by
  have hsorted : ∀ seeds : List RecallCandidate,
      (((activations seeds [] 0).entries.map (rankedNode OrderedMap.empty)).Pairwise
        fun a b => decide (b.score ≤ a.score) = true) →
      spreadActivation seeds OrderedMap.empty [] 0 =
        (activations seeds [] 0).entries.map (rankedNode OrderedMap.empty) :=
    fun _ h => List.mergeSort_of_pairwise h
  rw [hsorted [seedOf "a" 1, seedOf "a" 0] (by decide +kernel),
    hsorted [seedOf "a" 0, seedOf "a" 1] (by decide +kernel),
    hsorted [seedOf "a" 1, seedOf "b" 1] (by decide +kernel),
    hsorted [seedOf "b" 1, seedOf "a" 1] (by decide +kernel)]
  decide +kernel

end Samples

end AionisCore.Memory
