import Mathlib.Data.List.Basic

/-!
# First occurrences

`firstBy key xs` keeps the first element for each key, in order, and `firstUpTo key n xs` at
most `n` of them.
-/

namespace Lib

variable {α κ : Type} [DecidableEq κ] {key : α → κ}

def firstBy (key : α → κ) : List α → List α
  | [] => []
  | x :: xs => x :: (firstBy key xs).filter (key · ≠ key x)

@[simp] theorem firstBy_nil : firstBy key ([] : List α) = [] := rfl

variable {xs : List α}

theorem mem_of_mem_firstBy {x : α} (h : x ∈ firstBy key xs) : x ∈ xs := by
  induction xs with
  | nil => exact h
  | cons y ys ih =>
    rw [firstBy, List.mem_cons] at h
    rcases h with rfl | h
    · exact List.mem_cons_self
    · exact List.mem_cons_of_mem _ (ih (List.mem_filter.1 h).1)

/-- The kept element for a key is the first one with it. -/
theorem mem_firstBy {x : α} : x ∈ firstBy key xs ↔ xs.find? (key · = key x) = some x := by
  induction xs with
  | nil => simp
  | cons y ys ih =>
    rw [firstBy, List.mem_cons, List.mem_filter, ih, decide_eq_true_eq]
    by_cases hy : key y = key x
    · rw [List.find?_cons_of_pos (by simpa using hy)]
      constructor
      · rintro (rfl | ⟨-, hne⟩)
        · rfl
        · exact absurd hy.symm hne
      · intro h
        exact .inl (Option.some.inj h).symm
    · rw [List.find?_cons_of_neg (by simpa using hy)]
      constructor
      · rintro (rfl | ⟨h, -⟩)
        · exact absurd rfl hy
        · exact h
      · intro h
        exact .inr ⟨h, Ne.symm hy⟩

theorem map_firstBy (xs : List α) : (firstBy key xs).map key = firstBy id (xs.map key) := by
  induction xs with
  | nil => rfl
  | cons x xs ih =>
    rw [firstBy, List.map_cons, List.map_cons, firstBy, ← ih, List.filter_map]
    rfl

theorem mem_firstBy_id {k : κ} {ks : List κ} : k ∈ firstBy id ks ↔ k ∈ ks := by
  rw [mem_firstBy]
  constructor
  · intro h
    exact List.mem_of_find?_eq_some h
  · intro h
    induction ks with
    | nil => simp at h
    | cons x xs ih =>
      by_cases hx : x = k
      · subst hx; simp
      · rw [List.find?_cons_of_neg (by simpa using hx)]
        exact ih ((List.mem_cons.1 h).resolve_left (Ne.symm hx))

theorem firstBy_eq_nil : firstBy key xs = [] ↔ xs = [] := by
  cases xs <;> simp [firstBy]

theorem nodup_firstBy (xs : List α) : ((firstBy key xs).map key).Nodup := by
  induction xs with
  | nil => exact List.nodup_nil
  | cons x xs ih =>
    rw [firstBy, List.map_cons, List.nodup_cons]
    refine ⟨fun h => ?_, ih.sublist (List.filter_sublist.map key)⟩
    obtain ⟨y, hy, heq⟩ := List.mem_map.1 h
    simpa [heq] using (List.mem_filter.1 hy).2

theorem firstBy_of_nodup (h : (xs.map key).Nodup) : firstBy key xs = xs := by
  induction xs with
  | nil => rfl
  | cons x xs ih =>
    rw [List.map_cons, List.nodup_cons] at h
    rw [firstBy, ih h.2, List.filter_eq_self.2]
    intro y hy
    simp only [ne_eq, decide_eq_true_eq]
    exact fun heq => h.1 (heq ▸ List.mem_map_of_mem hy)

theorem firstBy_append (xs ys : List α) :
    firstBy key (xs ++ ys) =
      firstBy key xs ++ (firstBy key ys).filter (key · ∉ xs.map key) := by
  induction xs with
  | nil => simp
  | cons x xs ih =>
    rw [List.cons_append, firstBy, firstBy, ih, List.filter_append, List.filter_filter,
      List.cons_append]
    congr 2
    refine List.filter_congr fun y _ => ?_
    simp

/-! ## At most so many -/

def firstUpTo (key : α → κ) (n : Nat) (xs : List α) : List α := (firstBy key xs).take n

variable {n : Nat}

theorem length_firstUpTo_le : (firstUpTo key n xs).length ≤ n :=
  List.length_take_le _ _

theorem firstUpTo_eq_nil (hn : 0 < n) : firstUpTo key n xs = [] ↔ xs = [] := by
  rw [firstUpTo, List.take_eq_nil_iff, firstBy_eq_nil]
  exact or_iff_right (Nat.ne_of_gt hn)

theorem nodup_firstUpTo (xs : List α) : ((firstUpTo key n xs).map key).Nodup :=
  (nodup_firstBy xs).sublist ((List.take_sublist _ _).map key)

/-- What is not kept was dropped at the cap. -/
theorem mem_firstUpTo_or_full {x : α} (h : x ∈ xs) :
    key x ∈ (firstUpTo key n xs).map key ∨ (firstUpTo key n xs).length = n := by
  have hmem : key x ∈ (firstBy key xs).map key := by
    rw [map_firstBy, mem_firstBy_id]
    exact List.mem_map_of_mem h
  by_cases hlen : (firstBy key xs).length ≤ n
  · rw [firstUpTo, List.take_of_length_le hlen]
    exact .inl hmem
  · rw [firstUpTo, List.length_take]
    omega

theorem firstUpTo_append {kept ys : List α} (hkept : (kept.map key).Nodup) (hlen : kept.length ≤ n)
    (h : (∀ y ∈ ys, key y ∈ kept.map key) ∨ kept.length = n) :
    firstUpTo key n (kept ++ ys) = kept := by
  rw [firstUpTo, firstBy_append, firstBy_of_nodup hkept]
  rcases h with h | h
  · rw [List.filter_eq_nil_iff.2, List.append_nil, List.take_of_length_le hlen]
    intro y hy
    simpa using h y (mem_of_mem_firstBy hy)
  · rw [← h, List.take_left]

end Lib
