import AionisCore.Lib.Table
import Mathlib.Data.List.Perm.Subperm
import Mathlib.Data.List.Sort
import Mathlib.Order.MinMax

/-!
# Ordered selections

`orderByDesc key rows` is `ORDER BY key DESC`, and `page` cuts a page out of ordered
rows. Where no two rows share a key, ordered rows are known by their members.
-/

namespace Lib.Query

open Lib.Table

variable {α κ : Type} [LinearOrder κ] {key : α → κ} {rows rows' : List α}

def orderByDesc (key : α → κ) (rows : List α) : List α :=
  rows.insertionSort fun a b => key b ≤ key a

/-- The rows from `offset` on, at most `limit`, and whether there are more. -/
def page (offset limit : Nat) (rows : List α) : List α × Bool :=
  let slice := (rows.drop offset).take (limit + 1)
  let hasMore := decide (limit < slice.length)
  (if hasMore then slice.take limit else slice, hasMore)

theorem orderByDesc_perm (key : α → κ) (rows : List α) : (orderByDesc key rows).Perm rows :=
  List.perm_insertionSort _ _

@[simp] theorem mem_orderByDesc {a : α} : a ∈ orderByDesc key rows ↔ a ∈ rows :=
  (orderByDesc_perm key rows).mem_iff

theorem orderByDesc_pairwise (key : α → κ) (rows : List α) :
    (orderByDesc key rows).Pairwise fun a b => key b ≤ key a := by
  have : Std.Total fun a b : α => key b ≤ key a := ⟨fun a b => le_total (key b) (key a)⟩
  have : IsTrans α fun a b => key b ≤ key a := ⟨fun a b c hab hbc => hbc.trans hab⟩
  exact List.pairwise_insertionSort _ rows

theorem orderByDesc_pairwise_lt (hu : Unique key rows) :
    (orderByDesc key rows).Pairwise fun a b => key b < key a := by
  have hnodup : ((orderByDesc key rows).map key).Nodup :=
    ((orderByDesc_perm key rows).map key).nodup_iff.2 hu
  refine ((orderByDesc_pairwise key rows).and (List.pairwise_map.1 hnodup)).imp ?_
  rintro a b ⟨hle, hne⟩
  exact lt_of_le_of_ne hle (Ne.symm hne)

/-- Ordered selections of the same rows are the same. -/
theorem filter_orderByDesc {p : α → Bool} (hu : Unique key (rows.filter p))
    (hp : (rows.filter p).Perm (rows'.filter p)) :
    (orderByDesc key rows).filter p = (orderByDesc key rows').filter p := by
  have hperm := (orderByDesc_perm key rows).filter p
  have hperm' := (orderByDesc_perm key rows').filter p
  refine List.Perm.eq_of_pairwise (fun a b ha hb hab hba => ?_)
    ((orderByDesc_pairwise key rows).filter p) ((orderByDesc_pairwise key rows').filter p)
    (hperm.trans (hp.trans hperm'.symm))
  exact hu.eq (hperm.mem_iff.1 ha) (hp.mem_iff.2 (hperm'.mem_iff.1 hb)) (le_antisymm hba hab)

theorem orderByDesc_congr (hu : Unique key rows) (hp : rows.Perm rows') :
    orderByDesc key rows = orderByDesc key rows' := by
  have h := @filter_orderByDesc α κ _ key rows rows' (fun _ => true)
    (by rwa [List.filter_true]) (by rwa [List.filter_true, List.filter_true])
  rwa [List.filter_true, List.filter_true] at h

theorem head?_orderByDesc {a : α} (h : (orderByDesc key rows).head? = some a) :
    a ∈ rows ∧ ∀ b ∈ rows, key b ≤ key a := by
  refine ⟨mem_orderByDesc.1 (List.mem_of_head? h), fun b hb => ?_⟩
  obtain ⟨rest, hrest⟩ := List.head?_eq_some_iff.1 h
  have hpw := orderByDesc_pairwise key rows
  rw [hrest, List.pairwise_cons] at hpw
  have hb := (@mem_orderByDesc α κ _ key rows b).2 hb
  rw [hrest] at hb
  rcases List.mem_cons.1 hb with rfl | hb
  · exact le_rfl
  · exact hpw.1 b hb

theorem head?_orderByDesc_eq_none : (orderByDesc key rows).head? = none ↔ rows = [] := by
  rw [List.head?_eq_none_iff, ← List.length_eq_zero_iff, (orderByDesc_perm key rows).length_eq,
    List.length_eq_zero_iff]

instance lawfulOrderMax : Std.LawfulOrderMax κ where
  max_eq_or := max_choice
  max_le_iff := fun _ _ _ => max_le_iff

theorem max?_eq_max?_iff {ks js : List κ} :
    ks.max? = js.max? ↔ (∀ k ∈ ks, ∃ j ∈ js, k ≤ j) ∧ ∀ j ∈ js, ∃ k ∈ ks, j ≤ k := by
  have hdom : ∀ {ks js : List κ}, ks.max? = js.max? → ∀ k ∈ ks, ∃ j ∈ js, k ≤ j := by
    intro ks js h k hk
    cases hm : js.max? with
    | none =>
      rw [hm, List.max?_eq_none_iff] at h
      rw [h] at hk
      cases hk
    | some j => exact ⟨j, List.max?_mem hm, (List.max?_eq_some_iff.1 (h.trans hm)).2 k hk⟩
  constructor
  · intro h
    exact ⟨hdom h, hdom h.symm⟩
  · rintro ⟨hkj, hjk⟩
    cases hm : js.max? with
    | none =>
      rw [List.max?_eq_none_iff] at hm
      refine List.max?_eq_none_iff.2 (List.eq_nil_iff_forall_not_mem.2 fun k hk => ?_)
      obtain ⟨j, hj, -⟩ := hkj k hk
      rw [hm] at hj
      cases hj
    | some j =>
      obtain ⟨hj, hmax⟩ := List.max?_eq_some_iff.1 hm
      obtain ⟨k, hk, hle⟩ := hjk j hj
      have hks : ∀ k' ∈ ks, k' ≤ j := by
        intro k' hk'
        obtain ⟨j', hj', hle'⟩ := hkj k' hk'
        exact hle'.trans (hmax j' hj')
      obtain rfl := le_antisymm (hks k hk) hle
      exact List.max?_eq_some_iff.2 ⟨hk, hks⟩

theorem max?_map_eq_iff {f : α → κ} : (rows.map f).max? = (rows'.map f).max? ↔
    (∀ a ∈ rows, ∃ b ∈ rows', f a ≤ f b) ∧ ∀ b ∈ rows', ∃ a ∈ rows, f b ≤ f a := by
  have hdom : ∀ {rows rows' : List α}, (∀ k ∈ rows.map f, ∃ j ∈ rows'.map f, k ≤ j) ↔
      ∀ a ∈ rows, ∃ b ∈ rows', f a ≤ f b := by
    intro rows rows'
    rw [List.forall_mem_map]
    simp
  rw [max?_eq_max?_iff, hdom, hdom]

/-- A page without an offset and as long as the rows has all of them. -/
theorem page_all {rows : List α} {limit : Nat} (h : rows.length ≤ limit) :
    page 0 limit rows = (rows, false) := by
  have hslice : (rows.drop 0).take (limit + 1) = rows := by
    rw [List.drop_zero]
    exact List.take_of_length_le (by omega)
  unfold page
  rw [hslice]
  simp [h]

/-! ## Selecting, ordering and cutting -/

theorem filter_orderedInsert {p : α → Bool} {a : α} {l : List α}
    (hl : l.Pairwise fun a b => key b ≤ key a) :
    (l.orderedInsert (fun a b => key b ≤ key a) a).filter p =
      if p a then (l.filter p).orderedInsert (fun a b => key b ≤ key a) a else l.filter p := by
  induction l with
  | nil => cases h : p a <;> simp [h]
  | cons b l ih =>
    obtain ⟨hb, hl⟩ := List.pairwise_cons.1 hl
    rw [List.orderedInsert]
    split
    · next hab =>
      have hfirst : ∀ c ∈ ((b :: l).filter p).head?, key c ≤ key a := by
        intro c hc
        rcases List.mem_cons.1 (List.mem_filter.1 (List.mem_of_mem_head? hc)).1 with rfl | hc
        · exact hab
        · exact (hb c hc).trans hab
      cases hp : p a with
      | false => rw [List.filter_cons_of_neg (by simp [hp])]; rfl
      | true =>
        rw [List.filter_cons_of_pos hp, if_pos rfl]
        cases hs : (b :: l).filter p with
        | nil => rfl
        | cons c s => rw [List.orderedInsert, if_pos (hfirst c (by rw [hs]; rfl))]
    · next hab =>
      cases hq : p b with
      | false =>
        rw [List.filter_cons_of_neg (by simp [hq]), List.filter_cons_of_neg (by simp [hq]), ih hl]
      | true =>
        rw [List.filter_cons_of_pos hq, List.filter_cons_of_pos hq, ih hl]
        split
        · rw [List.orderedInsert, if_neg hab]
        · rfl

theorem orderByDesc_filter (p : α → Bool) (rows : List α) :
    orderByDesc key (rows.filter p) = (orderByDesc key rows).filter p := by
  induction rows with
  | nil => rfl
  | cons a rows ih =>
    have hcons : orderByDesc key (a :: rows) =
        (orderByDesc key rows).orderedInsert (fun a b => key b ≤ key a) a := rfl
    rw [hcons, filter_orderedInsert (orderByDesc_pairwise key rows), ← ih]
    cases h : p a with
    | false => rw [List.filter_cons_of_neg (by simp [h])]; rfl
    | true => rw [List.filter_cons_of_pos h]; rfl

/-- In a strict order a row is among the first `n` just if fewer than `n` rows come before it. -/
theorem mem_take_iff_filter_length {l : List α} (hl : l.Pairwise fun a b => key b < key a) {a : α}
    (ha : a ∈ l) {n : Nat} :
    a ∈ l.take n ↔ (l.filter fun b => decide (key a < key b)).length < n := by
  induction l generalizing n with
  | nil => cases ha
  | cons b l ih =>
    obtain ⟨hb, hl⟩ := List.pairwise_cons.1 hl
    cases n with
    | zero => simp
    | succ n =>
      rw [List.take_succ_cons, List.mem_cons]
      rcases List.mem_cons.1 ha with rfl | ha
      · have hnone : (a :: l).filter (fun b => decide (key a < key b)) = [] := by
          refine List.filter_eq_nil_iff.2 fun c hc => ?_
          rcases List.mem_cons.1 hc with rfl | hc
          · simp
          · simpa using (hb c hc).le
        rw [hnone]
        exact iff_of_true (Or.inl rfl) (Nat.succ_pos n)
      · have hab := hb a ha
        have hne : a ≠ b := by
          rintro rfl
          exact lt_irrefl _ hab
        rw [List.filter_cons_of_pos (by simpa using hab), List.length_cons,
          or_iff_right hne, ih hl ha]
        omega

theorem page_eq (offset limit : Nat) (rows : List α) :
    page offset limit rows =
      ((rows.drop offset).take limit, decide (offset + limit < rows.length)) := by
  have hmore : limit < ((rows.drop offset).take (limit + 1)).length ↔
      offset + limit < rows.length := by
    rw [List.length_take, List.length_drop]
    omega
  unfold page
  simp only [hmore, Prod.mk.injEq, and_true]
  split
  · rw [List.take_take, Nat.min_eq_left (by omega)]
  · next h =>
    have hlength : (rows.drop offset).length ≤ limit := by
      rw [List.length_drop]
      simp only [decide_eq_true_eq] at h
      omega
    rw [List.take_of_length_le (by omega), List.take_of_length_le hlength]

/-- The pages of one length follow each other without a gap. -/
theorem flatMap_page (limit n : Nat) (rows : List α) :
    ((List.range n).flatMap fun k => (page (k * limit) limit rows).1) = rows.take (n * limit) := by
  induction n with
  | zero => simp
  | succ n ih =>
    rw [List.range_succ, List.flatMap_append, ih, List.flatMap_singleton, page_eq,
      Nat.succ_mul, List.take_add]

/-- A page of the first `k` rows is the page of all rows just if `k` reaches to the row behind the
page, or to the last one. -/
theorem page_take_eq_iff {offset limit k : Nat} {rows : List α} :
    page offset limit (rows.take k) = page offset limit rows ↔
      rows.length ≤ offset ∨ min rows.length (offset + limit + 1) ≤ k := by
  rw [page_eq, page_eq, Prod.mk.injEq, decide_eq_decide, List.length_take]
  constructor
  · rintro ⟨hrows, hmore⟩
    have hlength := congrArg List.length hrows
    simp only [List.length_take, List.length_drop] at hlength
    omega
  · intro h
    have hcut : ((rows.take k).drop offset).take limit = (rows.drop offset).take limit := by
      rw [List.drop_take, List.take_take]
      rcases h with h | h
      · rw [List.drop_eq_nil_of_le h, List.take_nil, List.take_nil]
      · rcases Nat.lt_or_ge k rows.length with hk | hk
        · rw [Nat.min_eq_left (by omega)]
        · rw [List.take_eq_take_iff, List.length_drop]
          omega
    exact ⟨hcut, by omega⟩


section Window

variable {α β : Type} {l : List α} {f : α → Option β} {source : β → α} {n m : Nat}

theorem filterMap_take (l : List α) (f : α → Option β) (n : Nat) :
    (l.take n).filterMap f = (l.filterMap f).take ((l.take n).filterMap f).length := by
  have hsplit : l.filterMap f = (l.take n).filterMap f ++ (l.drop n).filterMap f := by
    rw [← List.filterMap_append, List.take_append_drop]
  rw [hsplit, List.take_left']
  rfl

/-- The first `n` rows yield the first `m` results just if each of these comes from one of
them. -/
theorem min_length_le_iff (hsource : ∀ a b, f a = some b → source b = a) (hl : l.Nodup) :
    min (l.filterMap f).length m ≤ ((l.take n).filterMap f).length ↔
      ∀ b ∈ (l.filterMap f).take m, source b ∈ l.take n := by
  have hsplit : l.filterMap f = (l.take n).filterMap f ++ (l.drop n).filterMap f := by
    rw [← List.filterMap_append, List.take_append_drop]
  have hmem : ∀ {b : β} {rows : List α}, b ∈ rows.filterMap f → source b ∈ rows := by
    intro b rows hb
    obtain ⟨a, ha, hab⟩ := List.mem_filterMap.1 hb
    rwa [hsource a b hab]
  have hdisjoint : ∀ {b : β}, b ∈ (l.drop n).filterMap f → source b ∉ l.take n := by
    intro b hb hin
    rw [← List.take_append_drop n l, List.nodup_append] at hl
    exact hl.2.2 _ hin _ (hmem hb) rfl
  rw [hsplit, List.length_append]
  constructor
  · intro hle b hb
    rcases Nat.lt_or_ge ((l.take n).filterMap f).length m with hm | hm
    · have hnil : (l.drop n).filterMap f = [] := by
        rw [← List.length_eq_zero_iff]
        omega
      rw [hnil, List.append_nil] at hb
      exact hmem (List.mem_of_mem_take hb)
    · rw [List.take_append_of_le_length hm] at hb
      exact hmem (List.mem_of_mem_take hb)
  · intro hall
    by_contra hlt
    obtain ⟨b, rest, hrest⟩ := List.exists_cons_of_length_pos
      (show 0 < ((l.drop n).filterMap f).length by omega)
    obtain ⟨k, hk⟩ : ∃ k, m - ((l.take n).filterMap f).length = k + 1 :=
      ⟨m - ((l.take n).filterMap f).length - 1, by omega⟩
    have hb : b ∈ ((l.take n).filterMap f ++ (l.drop n).filterMap f).take m := by
      rw [List.take_append, hk, hrest, List.take_succ_cons]
      exact List.mem_append_right _ List.mem_cons_self
    exact hdisjoint (hrest ▸ List.mem_cons_self) (hall b hb)

end Window
/-! ## The first rows of a strict order -/

section Take

variable {α : Type} {R : α → α → Prop} {l chosen : List α}

/-- As many rows as were chosen are the chosen ones exactly when each of these comes before
every other row. -/
theorem subset_take_length_iff (hasymm : ∀ a b, R a b → ¬ R b a) (hl : l.Pairwise R)
    (hchosen : chosen.Nodup) (hsub : chosen ⊆ l) :
    chosen ⊆ l.take chosen.length ↔ ∀ a ∈ chosen, ∀ b ∈ l, b ∉ chosen → R a b := by
  have hsplit := List.take_append_drop chosen.length l
  constructor
  · intro h a ha b hb hnot
    have hperm : chosen.Perm (l.take chosen.length) :=
      (hchosen.subperm h).perm_of_length_le (by rw [List.length_take]; omega)
    rw [← hsplit, List.mem_append] at hb
    rw [← hsplit, List.pairwise_append] at hl
    rcases hb with hb | hb
    · exact absurd (hperm.mem_iff.2 hb) hnot
    · exact hl.2.2 a (h ha) b hb
  · intro h a ha
    by_contra hnot
    have hdrop : a ∈ l.drop chosen.length := by
      have hmem := hsub ha
      rw [← hsplit, List.mem_append] at hmem
      exact hmem.resolve_left hnot
    -- All rows before `a` are chosen, so with `a` there are too many of them.
    have htake : l.take chosen.length ⊆ chosen := by
      intro b hb
      by_contra hb'
      rw [← hsplit, List.pairwise_append] at hl
      exact hasymm b a (hl.2.2 b hb a hdrop) (h a ha b (List.mem_of_mem_take hb) hb')
    have hnodup : (l.take chosen.length).Nodup := by
      refine (hl.sublist (List.take_sublist _ _)).imp fun {b c} hbc heq => ?_
      subst heq
      exact hasymm b b hbc hbc
    have hlen : (l.take chosen.length).length = chosen.length := by
      rw [List.length_take]
      have hpos := List.length_pos_of_mem hdrop
      rw [List.length_drop] at hpos
      omega
    have hperm := (hnodup.subperm htake).perm_of_length_le (by omega)
    exact hnot (hperm.mem_iff.2 ha)

end Take

end Lib.Query
