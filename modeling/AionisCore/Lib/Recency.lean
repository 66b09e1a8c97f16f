import Mathlib.Data.List.Dedup
import Mathlib.Data.List.Perm.Subperm

/-!
# Recency

A list says which elements were touched, one after the other. What counts for an element is
how many others were touched since its own last touch.
-/

namespace Lib

namespace Recency

variable {κ : Type} [DecidableEq κ] {touched xs ys : List κ} {k x : κ}

/-- What was touched since `k` was, the newest first. -/
def since (k : κ) (touched : List κ) : List κ := touched.reverse.takeWhile fun x => x ≠ k

/-- The number of distinct elements touched since `k` was. -/
def others (k : κ) (touched : List κ) : Nat := (since k touched).dedup.length

/-- Each element was last touched before those behind it. -/
def Ordered (touched xs : List κ) : Prop := xs.Pairwise fun a b => b ∈ since a touched

theorem since_concat (h : x ≠ k) : since k (touched ++ [x]) = x :: since k touched := by
  unfold since
  rw [List.reverse_concat, List.takeWhile_cons_of_pos (by simpa using h)]

theorem others_le_concat (h : x ≠ k) : others k touched ≤ others k (touched ++ [x]) := by
  unfold others
  rw [since_concat h]
  refine (List.subperm_of_subset (List.nodup_dedup _) fun y hy => ?_).length_le
  exact List.mem_dedup.2 (List.mem_cons_of_mem _ (List.mem_dedup.1 hy))

theorem length_le_others (hnodup : xs.Nodup) (hsub : ∀ x ∈ xs, x ∈ since k touched) :
    xs.length ≤ others k touched :=
  (List.subperm_of_subset hnodup fun x hx => List.mem_dedup.2 (hsub x hx)).length_le

theorem Ordered.sublist (h : Ordered touched xs) (hsub : ys.Sublist xs) : Ordered touched ys :=
  List.Pairwise.sublist hsub h

/-- A touched element goes behind all others. -/
theorem Ordered.concat (h : Ordered touched xs) (hx : x ∉ xs) :
    Ordered (touched ++ [x]) (xs ++ [x]) := by
  refine List.pairwise_append.2 ⟨h.imp_of_mem fun {a b} ha _ hab => ?_,
    List.pairwise_singleton _ _, fun a ha b hb => ?_⟩
  · have hne : x ≠ a := fun heq => hx (heq ▸ ha)
    rw [since_concat hne]
    exact List.mem_cons_of_mem _ hab
  · have hne : x ≠ a := fun heq => hx (heq ▸ ha)
    rw [since_concat hne, List.mem_singleton.1 hb]
    exact List.mem_cons_self

/-- Behind an element stand others that were touched since. -/
theorem Ordered.length_le_others {pre : List κ} (h : Ordered touched (pre ++ xs))
    (hnodup : xs.Nodup) (hk : k ∈ pre) : xs.length ≤ others k touched :=
  Recency.length_le_others hnodup fun x hx => (List.pairwise_append.1 h).2.2 k hk x hx

end Recency

end Lib
