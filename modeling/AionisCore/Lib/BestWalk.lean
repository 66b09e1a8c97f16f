import AionisCore.Lib.OrderedMap
import Mathlib.Algebra.Order.Ring.Defs
import Mathlib.Data.Set.Insert
import Mathlib.Order.Bounds.Basic

/-!
# Best walks

A map that is raised along weighted links, pass after pass, holds after `h` passes the
greatest value that a walk of at most `h` links carries to each key: the value the walk
starts from times the weights it goes along.
-/

namespace Lib.BestWalk

section Best

variable {V : Type} [LinearOrder V] {S T : Set V} {o : Option V} {a x : V}

/-- The greatest value of a set, or none of the empty one. -/
def Best (S : Set V) : Option V → Prop
  | none => S = ∅
  | some a => IsGreatest S a

theorem Best.eq_some_iff (h : Best S o) : o = some a ↔ IsGreatest S a := by
  refine ⟨fun ho => ?_, fun ha => ?_⟩
  · rwa [ho] at h
  · cases o with
    | none =>
      have hS : S = ∅ := h
      rw [hS] at ha
      exact absurd ha.1 (Set.notMem_empty a)
    | some b =>
      have hb : IsGreatest S b := h
      rw [hb.unique ha]

theorem Best.exists_of_nonempty (h : Best S o) (hx : x ∈ S) : ∃ a, o = some a := by
  cases o with
  | none =>
    have hS : S = ∅ := h
    rw [hS] at hx
    exact absurd hx (Set.notMem_empty x)
  | some a => exact ⟨a, rfl⟩

theorem Best.of_cofinal (h : Best S o) (hsub : S ⊆ T) (hle : ∀ t ∈ T, ∃ s ∈ S, t ≤ s) :
    Best T o := by
  cases o with
  | none =>
    have hS : S = ∅ := h
    refine Set.eq_empty_iff_forall_notMem.2 fun t ht => ?_
    obtain ⟨s, hs, -⟩ := hle t ht
    rw [hS] at hs
    exact Set.notMem_empty s hs
  | some a =>
    obtain ⟨hmem, hub⟩ := (h : IsGreatest S a)
    refine ⟨hsub hmem, fun t ht => ?_⟩
    obtain ⟨s, hs, hts⟩ := hle t ht
    exact hts.trans (hub hs)

end Best

/-! ## Raising -/

section Raise

variable {K V : Type} [DecidableEq K] [LinearOrder V] [Zero V]
variable {m : OrderedMap K V} {S : K → Set V} {us : List (K × V)} {k : K} {x : V}

/-- The value of a key, which counts as zero when it is missing, is raised to `u.2`. -/
def raise (m : OrderedMap K V) (u : K × V) : OrderedMap K V :=
  m.set u.1 (max ((m.get u.1).getD 0) u.2)

theorem best_raise {u : K × V} (h : Best (S k) (m.get k)) (hu : 0 ≤ u.2) :
    Best (S k ∪ {x | (k, x) = u}) ((raise m u).get k) := by
  obtain ⟨j, y⟩ := u
  unfold raise
  rw [OrderedMap.get_set]
  by_cases hk : k = j
  · subst hk
    have hset : {x | (k, x) = (k, y)} = {y} := by
      ext x
      simp
    rw [if_pos rfl, hset]
    cases hm : m.get k with
    | none =>
      rw [hm] at h
      have hS : S k = ∅ := h
      rw [hS, Set.empty_union, Option.getD_none, max_eq_right hu]
      exact isGreatest_singleton
    | some a =>
      rw [hm] at h
      exact (h : IsGreatest (S k) a).union isGreatest_singleton
  · have hset : {x | (k, x) = (j, y)} = ∅ := by
      ext x
      simp [hk]
    rw [if_neg hk, hset, Set.union_empty]
    exact h

theorem best_foldl_raise (h : ∀ k, Best (S k) (m.get k)) (hus : ∀ u ∈ us, 0 ≤ u.2) (k : K) :
    Best (S k ∪ {x | (k, x) ∈ us}) ((us.foldl raise m).get k) := by
  induction us generalizing m S with
  | nil =>
    have hset : {x : V | (k, x) ∈ ([] : List (K × V))} = ∅ := by simp
    rw [hset, Set.union_empty]
    exact h k
  | cons u us ih =>
    obtain ⟨hu, hus⟩ := List.forall_mem_cons.1 hus
    have hstep := ih (m := raise m u) (S := fun k => S k ∪ {x | (k, x) = u})
      (fun k => best_raise (h k) hu) hus
    have hset : {x | (k, x) ∈ u :: us} = {x | (k, x) = u} ∪ {x | (k, x) ∈ us} := by
      ext x
      simp
    rw [hset, ← Set.union_assoc]
    exact hstep

/-- A map raised to all that one holds which was raised from it. -/
theorem best_merge {next : OrderedMap K V} {T : K → Set V} (h : ∀ k, Best (S k) (m.get k))
    (hnext : ∀ k, Best (T k) (next.get k)) (hsub : S k ⊆ T k) (hT : ∀ k, ∀ x ∈ T k, 0 ≤ x) :
    Best (T k) ((next.entries.foldl raise m).get k) := by
  have hus : ∀ u ∈ next.entries, 0 ≤ u.2 := by
    intro u hu
    have hu := (hnext u.1).eq_some_iff.1 (OrderedMap.get_eq_some.2 hu)
    exact hT u.1 u.2 hu.1
  refine (best_foldl_raise h hus k).of_cofinal ?_ fun t ht => ?_
  · rintro x (hx | hx)
    · exact hsub hx
    · exact ((hnext k).eq_some_iff.1 (OrderedMap.get_eq_some.2 hx)).1
  · obtain ⟨a, ha⟩ := (hnext k).exists_of_nonempty ht
    exact ⟨a, .inr (OrderedMap.get_eq_some.1 ha), ((hnext k).eq_some_iff.1 ha).2 ht⟩

end Raise

/-! ## Walks -/

section Walk

variable {K V : Type} [Semiring V] {link link' : K → V → K → Prop} {start start' : K → V → Prop}
variable {s y z : K} {n h : Nat} {p w a x : V}

/-- A walk of `n` links, with the product of their weights. -/
inductive Walk (link : K → V → K → Prop) (s : K) : Nat → V → K → Prop
  | nil : Walk link s 0 1 s
  | snoc {n : Nat} {p w : V} {y z : K} :
      Walk link s n p y → link y w z → Walk link s (n + 1) (p * w) z

/-- What walks of at most `h` links carry to a key. -/
def Carried (link : K → V → K → Prop) (start : K → V → Prop) (h : Nat) (k : K) : Set V :=
  {x | ∃ s a n p, start s a ∧ n ≤ h ∧ Walk link s n p k ∧ x = a * p}

theorem Walk.mono (h : Walk link s n p z) (hlink : ∀ y w z, link y w z → link' y w z) :
    Walk link' s n p z := by
  induction h with
  | nil => exact .nil
  | snoc _ hw ih => exact ih.snoc (hlink _ _ _ hw)

theorem carried_mono (hlink : ∀ y w z, link y w z → link' y w z)
    (hstart : ∀ s a, start s a → start' s a) (k : K) :
    Carried link start h k ⊆ Carried link' start' h k := by
  rintro _ ⟨s, a, n, p, ha, hn, hwalk, rfl⟩
  exact ⟨s, a, n, p, hstart s a ha, hn, hwalk.mono hlink, rfl⟩

theorem carried_zero (k : K) : Carried link start 0 k = {x | start k x} := by
  ext x
  refine ⟨?_, fun hx => ⟨k, x, 0, 1, hx, le_rfl, .nil, (mul_one x).symm⟩⟩
  rintro ⟨s, a, n, p, ha, hn, hwalk, rfl⟩
  obtain rfl := Nat.le_zero.1 hn
  cases hwalk
  rwa [mul_one]

theorem carried_succ (k : K) : Carried link start (h + 1) k =
    Carried link start h k ∪
      {x | ∃ y b w, b ∈ Carried link start h y ∧ link y w k ∧ x = b * w} := by
  ext x
  refine ⟨?_, ?_⟩
  · rintro ⟨s, a, n, p, ha, hn, hwalk, rfl⟩
    by_cases hle : n ≤ h
    · exact .inl ⟨s, a, n, p, ha, hle, hwalk, rfl⟩
    · obtain rfl : n = h + 1 := by omega
      cases hwalk with
      | snoc hwalk hw =>
        exact .inr ⟨_, _, _, ⟨s, a, h, _, ha, le_rfl, hwalk, rfl⟩, hw, (mul_assoc _ _ _).symm⟩
  · rintro (⟨s, a, n, p, ha, hn, hwalk, rfl⟩ | ⟨y, _, w, ⟨s, a, n, p, ha, hn, hwalk, rfl⟩, hw, rfl⟩)
    · exact ⟨s, a, n, p, ha, Nat.le_succ_of_le hn, hwalk, rfl⟩
    · exact ⟨s, a, n + 1, p * w, ha, Nat.succ_le_succ hn, hwalk.snoc hw, mul_assoc _ _ _⟩

end Walk

/-! ## Passes -/

section Pass

variable {K V : Type} [Semiring V] [LinearOrder V] [IsOrderedRing V]
variable {link : K → V → K → Prop} {start : K → V → Prop} {h : Nat}

theorem nonneg_of_carried (hlink : ∀ y w z, link y w z → 0 ≤ w) (hstart : ∀ s a, start s a → 0 ≤ a)
    {k : K} {x : V} (hx : x ∈ Carried link start h k) : 0 ≤ x := by
  obtain ⟨s, a, n, p, ha, -, hwalk, rfl⟩ := hx
  refine mul_nonneg (hstart s a ha) ?_
  clear ha
  induction hwalk with
  | nil => exact zero_le_one
  | snoc _ hw ih => exact mul_nonneg ih (hlink _ _ _ hw)

theorem le_one_of_carried (hlink : ∀ y w z, link y w z → 0 ≤ w ∧ w ≤ 1)
    (hstart : ∀ s a, start s a → 0 ≤ a ∧ a ≤ 1) {k : K} {x : V}
    (hx : x ∈ Carried link start h k) : x ≤ 1 := by
  obtain ⟨s, a, n, p, ha, -, hwalk, rfl⟩ := hx
  have hp : 0 ≤ p ∧ p ≤ 1 := by
    clear ha
    induction hwalk with
    | nil => exact ⟨zero_le_one, le_rfl⟩
    | snoc _ hw ih =>
      have hw := hlink _ _ _ hw
      exact ⟨mul_nonneg ih.1 hw.1, mul_le_one₀ ih.2 hw.1 hw.2⟩
  exact mul_le_one₀ (hstart s a ha).2 hp.1 hp.2

variable [DecidableEq K] {m : OrderedMap K V}

/-- One pass: what the map holds goes along each link, and the map is raised to all of it. -/
theorem best_pass {us : List (K × V)} (hlink : ∀ y w z, link y w z → 0 ≤ w)
    (hstart : ∀ s a, start s a → 0 ≤ a)
    (hbest : ∀ k, Best (Carried link start h k) (m.get k))
    (hus : ∀ k x, (k, x) ∈ us ↔ ∃ y b w, m.get y = some b ∧ link y w k ∧ x = b * w) (k : K) :
    Best (Carried link start (h + 1) k)
      (((us.foldl raise m).entries.foldl raise m).get k) := by
  have hnonneg : ∀ u ∈ us, 0 ≤ u.2 := by
    rintro ⟨j, x⟩ hu
    obtain ⟨y, b, w, hb, hw, rfl⟩ := (hus j x).1 hu
    exact mul_nonneg (nonneg_of_carried hlink hstart ((hbest y).eq_some_iff.1 hb).1)
      (hlink y w j hw)
  have hraised : ∀ k, Best (Carried link start (h + 1) k) ((us.foldl raise m).get k) := by
    intro k
    refine (best_foldl_raise hbest hnonneg k).of_cofinal ?_ fun t ht => ?_
    · rw [carried_succ]
      refine Set.union_subset_union_right _ fun x hx => ?_
      obtain ⟨y, b, w, hb, hw, rfl⟩ := (hus k x).1 hx
      exact ⟨y, b, w, ((hbest y).eq_some_iff.1 hb).1, hw, rfl⟩
    · rw [carried_succ] at ht
      rcases ht with ht | ⟨y, b, w, hb, hw, rfl⟩
      · exact ⟨t, .inl ht, le_rfl⟩
      · obtain ⟨c, hc⟩ := (hbest y).exists_of_nonempty hb
        have hle := ((hbest y).eq_some_iff.1 hc).2 hb
        exact ⟨c * w, .inr ((hus k _).2 ⟨y, c, w, hc, hw, rfl⟩),
          mul_le_mul_of_nonneg_right hle (hlink y w k hw)⟩
  refine best_merge hbest hraised ?_ fun k x hx => nonneg_of_carried hlink hstart hx
  rw [carried_succ]
  exact Set.subset_union_left

/-- A sweep raises the map to what `spread` finds in it, by way of a copy. -/
def sweep (spread : OrderedMap K V → List (K × V)) (m : OrderedMap K V) : OrderedMap K V :=
  ((spread m).foldl raise m).entries.foldl raise m

theorem best_passes {spread : OrderedMap K V → List (K × V)}
    (hlink : ∀ y w z, link y w z → 0 ≤ w) (hstart : ∀ s a, start s a → 0 ≤ a)
    (hm : ∀ k a, m.get k = some a ↔ start k a)
    (hspread : ∀ m k x,
      (k, x) ∈ spread m ↔ ∃ y b w, m.get y = some b ∧ link y w k ∧ x = b * w)
    (h : Nat) (k : K) : Best (Carried link start h k) (((sweep spread)^[h] m).get k) := by
  induction h generalizing k with
  | zero =>
    rw [carried_zero, Function.iterate_zero_apply]
    cases hk : m.get k with
    | none =>
      refine Set.eq_empty_iff_forall_notMem.2 fun a ha => ?_
      rw [(hm k a).2 ha] at hk
      cases hk
    | some a =>
      refine ⟨(hm k a).1 hk, fun b hb => ?_⟩
      rw [(hm k b).2 hb] at hk
      exact (Option.some.inj hk).le
  | succ h ih =>
    rw [Function.iterate_succ_apply']
    exact best_pass hlink hstart ih (hspread _) k

end Pass

end Lib.BestWalk
