import Mathlib.Data.List.Count
import Mathlib.Data.List.Perm.Subperm
import Mathlib.Data.List.Nodup
import Mathlib.Data.Set.Finite.List
import Mathlib.Logic.Function.Basic
import Mathlib.Logic.Relation
import Mathlib.Order.WellFounded

/-!
# Kahn's algorithm

`order` takes the nodes of a graph one after the other from a queue, and puts a node into the
queue when the last edge into it is gone. Whatever the graph, no node comes twice and each
comes after the sources of all its edges; every node comes if and only if there is no cycle.
-/

namespace Lib.Kahn

variable {α : Type} [DecidableEq α]

/-- Takes away one edge into each of the nodes. -/
def release : List α → List α → (α → Int) → List α × (α → Int)
  | [], queue, indegree => (queue, indegree)
  | next :: rest, queue, indegree =>
    let remaining := indegree next - 1
    release rest (if remaining = 0 then queue ++ [next] else queue)
      (Function.update indegree next remaining)

/-- The loop over the queue, for at most as many rounds as there are nodes. -/
def loop (outgoing : α → List α) : Nat → List α → (α → Int) → List α → List α
  | 0, _, _, order => order
  | _ + 1, [], _, order => order
  | fuel + 1, node :: queue, indegree, order =>
    let released := release (outgoing node) queue indegree
    loop outgoing fuel released.1 released.2 (order ++ [node])

/-- The edges into a node whose source is not among `order`. -/
def pending (edges : List (α × α)) (order : List α) (v : α) : Nat :=
  edges.countP fun e => e.2 = v ∧ e.1 ∉ order

/-- Every node of the list comes after the sources of its edges. -/
def Ordered (edges : List (α × α)) (order : List α) : Prop :=
  ∀ pre v post, order = pre ++ v :: post → ∀ u, (u, v) ∈ edges → u ∈ pre

/-- Holds within a round; `rest` are the edges that the round has still to take away. -/
structure Inv (nodes : List α) (edges : List (α × α)) (rest queue : List α)
    (indegree : α → Int) (order : List α) : Prop where
  nodup : (order ++ queue).Nodup
  counted : ∀ v, indegree v = pending edges order v + rest.count v
  listed : ∀ v, v ∈ order ++ queue ↔ v ∈ nodes ∧ indegree v = 0
  ordered : Ordered edges order

variable {nodes : List α} {edges : List (α × α)} {rest queue order : List α}
  {indegree : α → Int} {node : α}

theorem pending_concat (hfree : node ∉ order) (v : α) : pending edges order v =
    pending edges (order ++ [node]) v + edges.countP fun e => e.1 = node ∧ e.2 = v := by
  unfold pending
  induction edges with
  | nil => rfl
  | cons e edges ih =>
    rw [List.countP_cons, List.countP_cons, List.countP_cons, ih]
    by_cases hv : e.2 = v
    · by_cases hnode : e.1 = node
      · simp [hv, hnode, hfree]
        omega
      · by_cases hmem : e.1 ∈ order
        · simp [hnode, hmem]
        · simp [hv, hnode, hmem]
          omega
    · simp [hv]

theorem Inv.release (h : Inv nodes edges rest queue indegree order)
    (hrest : ∀ v ∈ rest, v ∈ nodes) :
    Inv nodes edges [] (release rest queue indegree).1 (release rest queue indegree).2 order := by
  induction rest generalizing queue indegree with
  | nil => exact h
  | cons next rest ih =>
    refine ih ?_ fun v hv => hrest v (List.mem_cons_of_mem _ hv)
    have hnext := h.counted next
    rw [List.count_cons_self] at hnext
    have hne : indegree next ≠ 0 := by push_cast at hnext; omega
    -- a node with an edge left is not in the queue yet
    have hfree : next ∉ order ++ queue := fun hmem => hne ((h.listed next).1 hmem).2
    refine ⟨?_, fun v => ?_, fun v => ?_, h.ordered⟩
    · split
      · rw [← List.append_assoc, ← List.concat_eq_append]
        exact h.nodup.concat hfree
      · exact h.nodup
    · by_cases hv : v = next
      · subst hv
        rw [Function.update_self]
        push_cast at hnext
        omega
      · rw [Function.update_of_ne hv, h.counted, List.count_cons_of_ne (Ne.symm hv)]
    · by_cases hv : v = next
      · subst hv
        rw [Function.update_self]
        split
        · next hzero => simp [hrest v List.mem_cons_self, hzero]
        · next hzero => simp only [hfree, hzero, and_false]
      · rw [Function.update_of_ne hv, ← h.listed v]
        split
        · simp [hv]
        · rfl

section Loop

variable {outgoing : α → List α}
  (hout : ∀ u v, (outgoing u).count v = edges.countP fun e => e.1 = u ∧ e.2 = v)
  (hends : ∀ e ∈ edges, e.2 ∈ nodes)

include hout hends

theorem Inv.round (h : Inv nodes edges [] (node :: queue) indegree order) :
    Inv nodes edges [] (Kahn.release (outgoing node) queue indegree).1
      (Kahn.release (outgoing node) queue indegree).2 (order ++ [node]) := by
  have hmid := List.nodup_middle.1 h.nodup
  have hfree : node ∉ order := fun hmem =>
    (List.nodup_cons.1 hmid).1 (List.mem_append_left _ hmem)
  have hsame : order ++ [node] ++ queue = order ++ node :: queue := by
    rw [List.append_assoc, List.singleton_append]
  -- the node has no edge left, so all its sources are listed
  have hzero := ((h.listed node).1 (List.mem_append_right _ List.mem_cons_self)).2
  have hsources : ∀ u, (u, node) ∈ edges → u ∈ order := by
    intro u hu
    have hcount := h.counted node
    rw [hzero, List.count_nil] at hcount
    have hnone : pending edges order node = 0 := by omega
    have hnot := List.countP_eq_zero.1 hnone (u, node) hu
    by_contra hmem
    exact hnot (decide_eq_true ⟨rfl, hmem⟩)
  refine Inv.release ⟨?_, fun v => ?_, fun v => ?_, ?_⟩ fun v hv => ?_
  · rw [hsame]
    exact h.nodup
  · rw [h.counted, pending_concat hfree, hout, List.count_nil]
    push_cast
    omega
  · rw [hsame]
    exact h.listed v
  · intro pre v post hsplit u hu
    rcases List.eq_nil_or_concat post with rfl | ⟨post, w, rfl⟩
    · obtain ⟨rfl, hv⟩ := List.append_inj' hsplit rfl
      obtain rfl := List.singleton_inj.1 hv
      exact hsources u hu
    · rw [List.concat_eq_append, ← List.cons_append, ← List.append_assoc] at hsplit
      exact h.ordered pre v post (List.append_inj' hsplit rfl).1 u hu
  · have hpos := List.count_pos_iff.2 hv
    rw [hout] at hpos
    obtain ⟨e, he, hev⟩ := List.countP_pos_iff.1 hpos
    rw [decide_eq_true_iff] at hev
    exact hev.2 ▸ hends e he

/-- With a round for each node the loop ends on an empty queue. -/
theorem Inv.loop {fuel : Nat} (h : Inv nodes edges [] queue indegree order)
    (hfuel : nodes.length ≤ order.length + fuel) :
    ∃ indegree', Inv nodes edges [] [] indegree' (loop outgoing fuel queue indegree order) := by
  induction fuel generalizing queue indegree order with
  | zero =>
    have hlength := (List.Nodup.subperm h.nodup fun v hv => ((h.listed v).1 hv).1).length_le
    rw [List.length_append] at hlength
    obtain rfl := List.length_eq_zero_iff.1 (show queue.length = 0 by omega)
    exact ⟨indegree, h⟩
  | succ fuel ih =>
    cases queue with
    | nil => exact ⟨indegree, h⟩
    | cons node queue =>
      refine ih (h.round hout hends) ?_
      rw [List.length_append, List.length_singleton]
      omega

end Loop

/-- The nodes and the edges of a graph as the loop starts on it. -/
structure Starts (nodes : List α) (edges : List (α × α)) (outgoing : α → List α)
    (start : List α) (indegree : α → Int) : Prop where
  out : ∀ u v, (outgoing u).count v = edges.countP fun e => e.1 = u ∧ e.2 = v
  ends : ∀ e ∈ edges, e.2 ∈ nodes
  nodup : start.Nodup
  start : ∀ v, v ∈ start ↔ v ∈ nodes ∧ indegree v = 0
  indegree : ∀ v, indegree v = edges.countP fun e => e.2 = v

section Starts

variable {outgoing : α → List α} {start : List α}
  (h : Starts nodes edges outgoing start indegree)

include h

theorem Starts.inv_loop : ∃ indegree', Inv nodes edges [] [] indegree'
    (loop outgoing nodes.length start indegree []) := by
  have hinv : Inv nodes edges [] start indegree [] := by
    refine ⟨h.nodup, fun v => ?_, h.start, fun pre v post hsplit => ?_⟩
    · rw [h.indegree, List.count_nil]
      simp [pending]
    · exact absurd hsplit (by simp)
  exact hinv.loop h.out h.ends (Nat.le_add_left ..)

/-- What the loop lists of a graph, from the nodes that no edge goes into. -/
theorem Starts.ordered_loop : (loop outgoing nodes.length start indegree []).Nodup ∧
    (∀ v ∈ loop outgoing nodes.length start indegree [], v ∈ nodes) ∧
    Ordered edges (loop outgoing nodes.length start indegree []) := by
  obtain ⟨indegree', hinv⟩ := h.inv_loop
  have hnodup := hinv.nodup
  rw [List.append_nil] at hnodup
  exact ⟨hnodup, fun v hv => ((hinv.listed v).1 (List.mem_append_left _ hv)).1, hinv.ordered⟩

/-- A node that is not listed has a source that is not. -/
theorem Starts.exists_source {v : α} (hv : v ∈ nodes)
    (hnot : v ∉ loop outgoing nodes.length start indegree []) :
    ∃ u, (u, v) ∈ edges ∧ u ∉ loop outgoing nodes.length start indegree [] := by
  obtain ⟨indegree', hinv⟩ := h.inv_loop
  have hlisted := hinv.listed v
  rw [List.append_nil] at hlisted
  have hne : indegree' v ≠ 0 := fun hzero => hnot (hlisted.2 ⟨hv, hzero⟩)
  rw [hinv.counted, List.count_nil] at hne
  have hpos : 0 < pending edges (loop outgoing nodes.length start indegree []) v := by omega
  obtain ⟨⟨u, w⟩, he, hsource⟩ := List.countP_pos_iff.1 hpos
  obtain ⟨rfl, hu⟩ := of_decide_eq_true hsource
  exact ⟨u, he, hu⟩

/-- Without a cycle every node is listed. -/
theorem Starts.mem_loop_of_acyclic (hsources : ∀ e ∈ edges, e.1 ∈ nodes)
    (hacyclic : ∀ v, ¬ Relation.TransGen (fun u v => (u, v) ∈ edges) v v) {v : α}
    (hv : v ∈ nodes) : v ∈ loop outgoing nodes.length start indegree [] := by
  let Before (u v : {v // v ∈ nodes}) := Relation.TransGen (fun u v => (u, v) ∈ edges) u.1 v.1
  have : Finite {v // v ∈ nodes} := List.finite_toSet nodes
  have : IsTrans {v // v ∈ nodes} Before := ⟨fun _ _ _ => .trans⟩
  have : Std.Irrefl Before := ⟨fun u => hacyclic u.1⟩
  have hwf : WellFounded Before := Finite.wellFounded_of_trans_of_irrefl Before
  suffices hall : ∀ u : {v // v ∈ nodes}, u.1 ∈ loop outgoing nodes.length start indegree [] from
    hall ⟨v, hv⟩
  intro u
  induction u using hwf.induction with
  | _ u ih =>
    by_contra hnot
    obtain ⟨source, hedge, hsource⟩ := h.exists_source u.2 hnot
    exact hsource (ih ⟨source, hsources _ hedge⟩ (.single hedge))

end Starts

/-- An edge leads forward in an order of all nodes. -/
theorem Ordered.idxOf_lt (h : Ordered edges order) (hnodup : order.Nodup)
    (hends : ∀ e ∈ edges, e.2 ∈ order) {u v : α} (hedge : (u, v) ∈ edges) :
    order.idxOf u < order.idxOf v := by
  obtain ⟨pre, post, rfl⟩ := List.append_of_mem (hends _ hedge)
  have hu := h pre v post rfl u hedge
  have hv : v ∉ pre := fun hmem =>
    (List.nodup_append.1 hnodup).2.2 v hmem v List.mem_cons_self rfl
  rw [List.idxOf_append_of_mem hu, List.idxOf_append_of_notMem hv]
  exact (List.idxOf_lt_length_of_mem hu).trans_le (Nat.le_add_right ..)

/-- In an order of all nodes the edges lead forward, so they form no cycle. -/
theorem Ordered.acyclic (h : Ordered edges order) (hnodup : order.Nodup)
    (hends : ∀ e ∈ edges, e.2 ∈ order) (v : α) :
    ¬ Relation.TransGen (fun u v => (u, v) ∈ edges) v v := by
  have hbefore : ∀ u v, Relation.TransGen (fun u v => (u, v) ∈ edges) u v →
      order.idxOf u < order.idxOf v := by
    intro u v huv
    induction huv with
    | single hedge => exact h.idxOf_lt hnodup hends hedge
    | tail _ hedge ih => exact ih.trans (h.idxOf_lt hnodup hends hedge)
  exact fun hcycle => lt_irrefl _ (hbefore v v hcycle)

end Lib.Kahn
