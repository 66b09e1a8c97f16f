import Mathlib.Data.List.Count
import Mathlib.Logic.Relation

/-!
# Breadth-first search

`search` takes the nodes of a queue one after the other until it meets the target, and queues
what a new node leads to. With a round for every edge it finds the target if and only if a path
leads there.
-/

namespace Lib.Search

open Relation

variable {α : Type} [DecidableEq α]

/-- The search from `queue`, for at most as many rounds as `fuel` says. -/
def search (outgoing : α → List α) (target : α) : Nat → List α → List α → Bool
  | 0, _, _ => false
  | _ + 1, _, [] => false
  | fuel + 1, seen, node :: queue =>
    if node = target then true
    else if node ∈ seen then search outgoing target fuel seen queue
    else search outgoing target fuel (node :: seen)
      (queue ++ (outgoing node).filter (· ∉ node :: seen))

/-- A path along the outgoing edges. -/
def Path (outgoing : α → List α) : α → α → Prop := ReflTransGen fun u v => v ∈ outgoing u

/-- Holds between two rounds: what a seen node leads to is seen or queued. -/
structure Closed (outgoing : α → List α) (target : α) (seen queue : List α) : Prop where
  unmet : target ∉ seen
  closed : ∀ u ∈ seen, ∀ v ∈ outgoing u, v ∈ seen ∨ v ∈ queue

variable {outgoing : α → List α} {target node : α} {fuel : Nat} {seen queue : List α}

omit [DecidableEq α] in
/-- A path from a seen node to the target passes the queue. -/
theorem Closed.exists_queued (h : Closed outgoing target seen queue) {u : α} (hu : u ∈ seen)
    (hpath : Path outgoing u target) : ∃ v ∈ queue, Path outgoing v target := by
  induction hpath using ReflTransGen.head_induction_on with
  | refl => exact absurd hu h.unmet
  | @head u v hlink hrest ih =>
    rcases h.closed u hu v hlink with hv | hv
    · exact ih hv
    · exact ⟨v, hv, hrest⟩

omit [DecidableEq α] in
theorem Closed.skip (h : Closed outgoing target seen (node :: queue)) (hnode : node ∈ seen) :
    Closed outgoing target seen queue := by
  refine ⟨h.unmet, fun u hu v hv => ?_⟩
  rcases h.closed u hu v hv with hseen | hqueue
  · exact .inl hseen
  · rcases List.mem_cons.1 hqueue with rfl | hqueue
    · exact .inl hnode
    · exact .inr hqueue

/-- A new node is seen, and what it leads to is queued. -/
theorem Closed.expand (h : Closed outgoing target seen (node :: queue)) (hne : node ≠ target) :
    Closed outgoing target (node :: seen)
      (queue ++ (outgoing node).filter (· ∉ node :: seen)) := by
  refine ⟨fun hmem => ?_, fun u hu v hv => ?_⟩
  · rcases List.mem_cons.1 hmem with htarget | hmem
    · exact hne htarget.symm
    · exact h.unmet hmem
  · by_cases hvseen : v ∈ node :: seen
    · exact .inl hvseen
    · refine .inr (List.mem_append.2 ?_)
      rcases List.mem_cons.1 hu with rfl | hu
      · exact .inr (List.mem_filter.2 ⟨hv, decide_eq_true hvseen⟩)
      · rcases h.closed u hu v hv with hseen | hqueue
        · exact absurd (List.mem_cons_of_mem node hseen) hvseen
        · exact .inl ((List.mem_cons.1 hqueue).resolve_left
            fun hnode => hvseen (hnode ▸ List.mem_cons_self))

theorem exists_path_of_search (h : search outgoing target fuel seen queue = true) :
    ∃ u ∈ queue, Path outgoing u target := by
  induction fuel generalizing seen queue with
  | zero => cases h
  | succ fuel ih =>
    cases queue with
    | nil => cases h
    | cons node queue =>
      rw [search] at h
      split at h
      · next htarget => exact ⟨node, List.mem_cons_self, htarget ▸ .refl⟩
      · split at h
        · obtain ⟨u, hu, hpath⟩ := ih h
          exact ⟨u, List.mem_cons_of_mem node hu, hpath⟩
        · obtain ⟨u, hu, hpath⟩ := ih h
          rcases List.mem_append.1 hu with hu | hu
          · exact ⟨u, List.mem_cons_of_mem node hu, hpath⟩
          · exact ⟨node, List.mem_cons_self, .head (List.mem_filter.1 hu).1 hpath⟩

section Edges

variable {edges : List (α × α)}

/-- The edges out of nodes that are not seen yet. -/
def unseen (edges : List (α × α)) (seen : List α) : Nat := edges.countP fun e => e.1 ∉ seen

theorem unseen_expand (hnode : node ∉ seen) :
    unseen edges (node :: seen) + edges.countP (fun e => e.1 = node) = unseen edges seen := by
  unfold unseen
  induction edges with
  | nil => rfl
  | cons e edges ih =>
    simp only [List.countP_cons, List.mem_cons, not_or, decide_eq_true_eq] at ih ⊢
    by_cases hsource : e.1 = node
    · simp only [hsource, not_true_eq_false, false_and, if_false, if_true, hnode,
        not_false_eq_true]
      omega
    · simp only [hsource, not_false_eq_true, true_and, if_false]
      omega

/-- The search meets the target if and only if a path leads there from the queue. -/
theorem search_iff (hout : ∀ u, (outgoing u).length = edges.countP fun e => e.1 = u)
    (h : Closed outgoing target seen queue) (hfuel : queue.length + unseen edges seen < fuel) :
    search outgoing target fuel seen queue = true ↔ ∃ u ∈ queue, Path outgoing u target := by
  refine ⟨exists_path_of_search, ?_⟩
  induction fuel generalizing seen queue with
  | zero => omega
  | succ fuel ih =>
    rintro ⟨u, hu, hpath⟩
    cases queue with
    | nil => cases hu
    | cons node queue =>
      rw [List.length_cons] at hfuel
      rw [search]
      split
      · rfl
      next hne =>
      split
      · next hnode =>
        refine ih (h.skip hnode) (by omega) ?_
        rcases List.mem_cons.1 hu with rfl | hu
        · exact (h.skip hnode).exists_queued hnode hpath
        · exact ⟨u, hu, hpath⟩
      · next hnode =>
        refine ih (h.expand hne) ?_ ?_
        · have hlength := List.length_filter_le (· ∉ node :: seen) (outgoing node)
          have hunseen : unseen edges (node :: seen) + _ = unseen edges seen :=
            unseen_expand hnode
          rw [List.length_append]
          rw [hout] at hlength
          omega
        · rcases List.mem_cons.1 hu with rfl | hu
          · exact (h.expand hne).exists_queued List.mem_cons_self hpath
          · exact ⟨u, List.mem_append_left _ hu, hpath⟩

end Edges

end Lib.Search
