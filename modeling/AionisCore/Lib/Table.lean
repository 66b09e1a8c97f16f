import Mathlib.Data.List.Forall2
import Mathlib.Data.List.Nodup

/-!
# Tables with a unique key

A table is the list of its rows. `row? key rows k` is the row of a key, `insertOrIgnore`
adds a row whose key is free, and an update that keeps the keys is a map.
-/

namespace Lib.Table

variable {α κ : Type} {key : α → κ} {rows : List α} {a b : α}

/-- No two rows have the same key. -/
def Unique (key : α → κ) (rows : List α) : Prop := (rows.map key).Nodup

theorem Unique.nil : Unique key [] := List.nodup_nil

theorem Unique.eq (h : Unique key rows) (ha : a ∈ rows) (hb : b ∈ rows) (hk : key a = key b) :
    a = b :=
  List.inj_on_of_nodup_map h ha hb hk

theorem Unique.concat (h : Unique key rows) (ha : ∀ b ∈ rows, key b ≠ key a) :
    Unique key (rows ++ [a]) := by
  unfold Unique
  rw [List.map_append, List.map_singleton]
  refine List.nodup_append.2 ⟨h, List.nodup_singleton _, ?_⟩
  intro k hk j hj heq
  obtain ⟨b, hb, rfl⟩ := List.mem_map.1 hk
  exact ha b hb (heq.trans (List.mem_singleton.1 hj))

theorem Unique.of_concat (h : Unique key (rows ++ [a])) :
    Unique key rows ∧ ∀ b ∈ rows, key b ≠ key a := by
  unfold Unique at h
  rw [List.map_append, List.map_singleton] at h
  obtain ⟨hrows, -, hne⟩ := List.nodup_append.1 h
  exact ⟨hrows, fun b hb => hne _ (List.mem_map_of_mem hb) _ (List.mem_singleton_self _)⟩

theorem Unique.filter {p : α → Bool} (h : Unique key rows) : Unique key (rows.filter p) :=
  List.Nodup.sublist (List.filter_sublist.map key) h

theorem Unique.map {f : α → α} (h : Unique key rows) (hf : ∀ a, key (f a) = key a) :
    Unique key (rows.map f) := by
  have hkeys : (rows.map f).map key = rows.map key := by
    rw [List.map_map]
    exact List.map_congr_left fun a _ => hf a
  unfold Unique
  rw [hkeys]
  exact h

variable [DecidableEq κ]

/-- `SELECT … WHERE key = ?`. -/
def row? (key : α → κ) (rows : List α) (k : κ) : Option α := rows.find? (key · = k)

/-- `INSERT OR IGNORE`. -/
def insertOrIgnore (key : α → κ) (rows : List α) (a : α) : List α :=
  if (row? key rows (key a)).isSome then rows else rows ++ [a]

theorem row?_eq_none {k : κ} : row? key rows k = none ↔ ∀ a ∈ rows, key a ≠ k := by
  simp [row?]

theorem mem_of_row? {k : κ} (h : row? key rows k = some a) : a ∈ rows ∧ key a = k :=
  ⟨List.mem_of_find?_eq_some h, by simpa using List.find?_some h⟩

theorem Unique.row? (h : Unique key rows) (ha : a ∈ rows) : row? key rows (key a) = some a := by
  cases hr : Table.row? key rows (key a) with
  | none => exact absurd rfl (row?_eq_none.1 hr a ha)
  | some b =>
    obtain ⟨hb, hk⟩ := mem_of_row? hr
    rw [h.eq hb ha hk]

/-- What holds of a row with a unique key holds of the row of the key. -/
theorem Unique.exists_iff (h : Unique key rows) {k : κ} {p : α → Prop} :
    (∃ a ∈ rows, key a = k ∧ p a) ↔ ∃ a, Table.row? key rows k = some a ∧ p a := by
  constructor
  · rintro ⟨a, ha, rfl, hp⟩
    exact ⟨a, h.row? ha, hp⟩
  · rintro ⟨a, ha, hp⟩
    obtain ⟨hmem, hk⟩ := mem_of_row? ha
    exact ⟨a, hmem, hk, hp⟩

theorem Unique.forall_row?_map_iff {β : Type} (h : Unique key rows) {k : κ} {f : α → β}
    {p : β → Prop} :
    (∀ b ∈ (Table.row? key rows k).map f, p b) ↔ ∀ a ∈ rows, key a = k → p (f a) := by
  constructor
  · rintro hp a ha rfl
    refine hp (f a) ?_
    rw [h.row? ha]
    rfl
  · intro hp b hb
    obtain ⟨a, ha, rfl⟩ := Option.map_eq_some_iff.1 hb
    obtain ⟨hmem, hk⟩ := mem_of_row? ha
    exact hp a hmem hk

theorem row?_concat (k : κ) : row? key (rows ++ [a]) k =
    (row? key rows k).or (if key a = k then some a else none) := by
  unfold row?
  rw [List.find?_append]
  congr 1
  by_cases hk : key a = k <;> simp [hk]

theorem row?_insertOrIgnore (k : κ) : row? key (insertOrIgnore key rows a) k =
    (row? key rows k).or (if key a = k then some a else none) := by
  unfold insertOrIgnore
  split
  · next hs =>
    by_cases hk : key a = k
    · obtain ⟨b, hb⟩ := Option.isSome_iff_exists.1 (hk ▸ hs)
      rw [hb, Option.some_or]
    · rw [if_neg hk, Option.or_none]
  · exact row?_concat k

theorem Unique.insertOrIgnore (h : Unique key rows) :
    Unique key (Table.insertOrIgnore key rows a) := by
  unfold Table.insertOrIgnore
  split
  · exact h
  · next hs =>
    refine h.concat fun b hb hk => hs ?_
    rw [← hk, h.row? hb]
    rfl

/-- A second key stays unique if the new row's is free. -/
theorem Unique.insertOrIgnore_of_fresh {ι : Type} {key' : α → ι} (h : Unique key' rows)
    (ha : ∀ b ∈ rows, key' b ≠ key' a) : Unique key' (Table.insertOrIgnore key rows a) := by
  unfold Table.insertOrIgnore
  split
  · exact h
  · exact h.concat ha

theorem insertOrIgnore_of_known (h : ∃ b ∈ rows, key b = key a) :
    Table.insertOrIgnore key rows a = rows := by
  obtain ⟨b, hb, hk⟩ := h
  refine if_pos (Option.isSome_iff_ne_none.2 fun hnone => ?_)
  exact row?_eq_none.1 hnone b hb hk

theorem insertOrIgnore_of_new (h : ∀ b ∈ rows, key b ≠ key a) :
    Table.insertOrIgnore key rows a = rows ++ [a] := by
  refine if_neg ?_
  rw [row?_eq_none.2 h]
  exact Bool.false_ne_true

theorem mem_insertOrIgnore {b : α} :
    b ∈ insertOrIgnore key rows a ↔ b ∈ rows ∨ (b = a ∧ ∀ c ∈ rows, key c ≠ key a) := by
  unfold insertOrIgnore
  split
  · next hs =>
    obtain ⟨c, hc⟩ := Option.isSome_iff_exists.1 hs
    obtain ⟨hc, hk⟩ := mem_of_row? hc
    constructor
    · intro hb
      exact .inl hb
    · rintro (hb | ⟨-, hfree⟩)
      · exact hb
      · exact absurd hk (hfree c hc)
  · next hs =>
    have hfree := row?_eq_none.1 (Option.not_isSome_iff_eq_none.1 hs)
    rw [List.mem_append, List.mem_singleton]
    exact or_congr_right (and_iff_left hfree).symm

theorem row?_of_map {β : Type} {f : β → α} {xs : List β} (k : κ) :
    row? key (xs.map f) k = (row? (fun x => key (f x)) xs k).map f := List.find?_map ..

theorem row?_map {f : α → α} (hf : ∀ a, key (f a) = key a) (k : κ) :
    row? key (rows.map f) k = (row? key rows k).map f := by
  unfold row?
  rw [List.find?_map]
  have hp : ((fun a => decide (key a = k)) ∘ f) = fun a => decide (key a = k) :=
    funext fun a => by rw [Function.comp, hf a]
  rw [hp]

/-- `UPDATE … WHERE key = ? AND p`, for an assignment that keeps the keys. -/
def update (key : α → κ) (k : κ) (p : α → Bool) (f : α → α) (rows : List α) : List α :=
  rows.map fun a => if key a = k ∧ p a then f a else a

section Update

variable {f : α → α} {p : α → Bool} {k : κ}

theorem row?_update_of_key (hf : ∀ a, key a = k → key (f a) = k) (j : κ) :
    row? key (update key k p f rows) j =
      (row? key rows j).map fun a => if j = k ∧ p a then f a else a := by
  have hkeys : ∀ a, key (if key a = k ∧ p a then f a else a) = key a := by
    intro a
    split
    · next h => rw [hf a h.1, h.1]
    · rfl
  unfold update
  rw [row?_map hkeys]
  refine Option.map_congr fun a ha => ?_
  rw [(mem_of_row? ha).2]

theorem row?_update (hf : ∀ a, key (f a) = key a) (j : κ) :
    row? key (update key k p f rows) j =
      (row? key rows j).map fun a => if j = k ∧ p a then f a else a :=
  row?_update_of_key (fun a ha => (hf a).trans ha) j

theorem row?_update_of_ne {j : κ} (hf : ∀ a, key (f a) = key a) (hne : j ≠ k) :
    row? key (update key k p f rows) j = row? key rows j := by
  rw [row?_update hf]
  simp only [hne, false_and, if_false, Option.map_id']

/-- Updates of one row each, one after another. -/
def updates (key : α → κ) (p : α → Bool) (us : List (κ × (α → α))) (rows : List α) : List α :=
  us.foldl (fun rows u => update key u.1 p u.2 rows) rows

/-- What they make of the row of a key. -/
def updated (p : α → Bool) (us : List (κ × (α → α))) (j : κ) (a : α) : α :=
  us.foldl (fun a u => if j = u.1 ∧ p a then u.2 a else a) a

theorem row?_updates {us : List (κ × (α → α))} (hf : ∀ u ∈ us, ∀ a, key (u.2 a) = key a) (j : κ) :
    row? key (updates key p us rows) j = (row? key rows j).map (updated p us j) := by
  induction us generalizing rows with
  | nil => exact Option.map_id'.symm
  | cons u us ih =>
    rw [updates, List.foldl_cons, ← updates, ih fun v hv => hf v (List.mem_cons_of_mem u hv),
      row?_update (hf u List.mem_cons_self), Option.map_map]
    rfl

theorem updated_of_not_mem {us : List (κ × (α → α))} {j : κ} (h : ∀ u ∈ us, u.1 ≠ j) (a : α) :
    updated p us j a = a := by
  induction us generalizing a with
  | nil => rfl
  | cons u us ih =>
    rw [updated, List.foldl_cons, if_neg fun hu => h u List.mem_cons_self hu.1.symm]
    exact ih (fun v hv => h v (List.mem_cons_of_mem u hv)) a

/-- The row of a key is as its last update left it. -/
theorem updated_of_mem {us : List (κ × (α → α))} {j : κ} {P : α → Prop}
    (hp : ∀ u ∈ us, ∀ a, p (u.2 a) = p a) (hP : ∀ u ∈ us, u.1 = j → ∀ a, P (u.2 a)) {a : α}
    (ha : p a = true) (h : P a ∨ ∃ u ∈ us, u.1 = j) :
    p (updated p us j a) = true ∧ P (updated p us j a) := by
  induction us generalizing a with
  | nil => exact ⟨ha, h.resolve_right fun ⟨_, hu, _⟩ => nomatch hu⟩
  | cons u us ih =>
    have hp' := fun v hv => hp v (List.mem_cons_of_mem u hv)
    have hP' := fun v hv => hP v (List.mem_cons_of_mem u hv)
    rw [updated, List.foldl_cons, ← updated]
    by_cases hj : u.1 = j
    · rw [if_pos ⟨hj.symm, ha⟩]
      exact ih hp' hP' ((hp u List.mem_cons_self a).trans ha)
        (.inl (hP u List.mem_cons_self hj a))
    · rw [if_neg fun hu => hj hu.1.symm]
      refine ih hp' hP' ha (h.imp_right ?_)
      rintro ⟨v, hv, hvj⟩
      rcases List.mem_cons.1 hv with rfl | hv
      · exact absurd hvj hj
      · exact ⟨v, hv, hvj⟩

end Update

theorem row?_foldl_insertOrIgnore (xs : List α) (k : κ) :
    row? key (xs.foldl (insertOrIgnore key) rows) k = (row? key rows k).or (row? key xs k) := by
  induction xs generalizing rows with
  | nil => exact Option.or_none.symm
  | cons x xs ih =>
    rw [List.foldl_cons, ih, row?_insertOrIgnore, Option.or_assoc]
    congr 1
    by_cases hk : key x = k
    · simp [row?, hk]
    · simp [row?, hk]

theorem mem_foldl_insertOrIgnore {xs : List α} (h : b ∈ xs.foldl (insertOrIgnore key) rows) :
    b ∈ rows ∨ b ∈ xs := by
  induction xs generalizing rows with
  | nil => exact .inl h
  | cons x xs ih =>
    rcases ih h with h | h
    · rcases mem_insertOrIgnore.1 h with h | ⟨rfl, -⟩
      · exact .inl h
      · exact .inr List.mem_cons_self
    · exact .inr (List.mem_cons_of_mem _ h)

theorem subset_foldl_insertOrIgnore (xs : List α) : rows ⊆ xs.foldl (insertOrIgnore key) rows := by
  induction xs generalizing rows with
  | nil => exact List.Subset.refl rows
  | cons x xs ih => exact fun b hb => ih (mem_insertOrIgnore.2 (.inl hb))

/-- Inserts add rows of the batch at the end. -/
theorem foldl_insertOrIgnore_eq_append (key : α → κ) (xs rows : List α) :
    ∃ added, xs.foldl (insertOrIgnore key) rows = rows ++ added ∧ ∀ a ∈ added, a ∈ xs := by
  induction xs generalizing rows with
  | nil => exact ⟨[], (List.append_nil rows).symm, fun _ ha => nomatch ha⟩
  | cons x xs ih =>
    obtain ⟨added, hadded, hmem⟩ := ih (insertOrIgnore key rows x)
    rw [List.foldl_cons, hadded]
    unfold insertOrIgnore
    split
    · exact ⟨added, rfl, fun a ha => List.mem_cons_of_mem _ (hmem a ha)⟩
    · refine ⟨x :: added, List.append_assoc _ _ _, fun a ha => ?_⟩
      rcases List.mem_cons.1 ha with rfl | ha
      · exact List.mem_cons_self
      · exact List.mem_cons_of_mem _ (hmem a ha)

theorem Unique.foldl_insertOrIgnore (h : Unique key rows) (xs : List α) :
    Unique key (xs.foldl (Table.insertOrIgnore key) rows) := by
  induction xs generalizing rows with
  | nil => exact h
  | cons x xs ih => exact ih h.insertOrIgnore

theorem exists_foldl_insertOrIgnore {xs : List α} (h : a ∈ xs) :
    ∃ b ∈ xs.foldl (insertOrIgnore key) rows, key b = key a := by
  induction xs generalizing rows with
  | nil => cases h
  | cons x xs ih =>
    rw [List.foldl_cons]
    rcases List.mem_cons.1 h with rfl | h
    · by_cases hknown : ∃ b ∈ rows, key b = key a
      · obtain ⟨b, hb, hkey⟩ := hknown
        exact ⟨b, subset_foldl_insertOrIgnore xs (mem_insertOrIgnore.2 (.inl hb)), hkey⟩
      · have hnew : ∀ b ∈ rows, key b ≠ key a := fun b hb hkey => hknown ⟨b, hb, hkey⟩
        refine ⟨a, subset_foldl_insertOrIgnore xs ?_, rfl⟩
        rw [insertOrIgnore_of_new hnew]
        exact List.mem_append_right _ (List.mem_singleton_self a)
    · exact ih h

omit [DecidableEq κ] in
theorem Unique.count_flatMap {β : Type} [DecidableEq β] (h : Unique key rows) (ha : a ∈ rows)
    {g : α → List β} {x : β} (hother : ∀ b ∈ rows, key b ≠ key a → x ∉ g b) :
    (rows.flatMap g).count x = (g a).count x := by
  induction rows with
  | nil => cases ha
  | cons b rows ih =>
    obtain ⟨hb, hrows⟩ := List.nodup_cons.1 h
    rw [List.flatMap_cons, List.count_append]
    rcases List.mem_cons.1 ha with rfl | ha
    · have hrest : x ∉ rows.flatMap g := by
        rw [List.mem_flatMap]
        rintro ⟨c, hc, hx⟩
        exact hother c (List.mem_cons_of_mem _ hc)
          (fun hkey => hb (hkey ▸ List.mem_map_of_mem hc)) hx
      rw [List.count_eq_zero_of_not_mem hrest, Nat.add_zero]
    · have hne : key b ≠ key a := fun hkey => hb (hkey ▸ List.mem_map_of_mem ha)
      rw [List.count_eq_zero_of_not_mem (hother b List.mem_cons_self hne), Nat.zero_add]
      exact ih hrows ha fun c hc => hother c (List.mem_cons_of_mem _ hc)

/-- Each entry of a batch finds its own value under its key, if the stored values of the
keys come first, exactly when these and the other entries of the key agree with it. -/
theorem or_row?_eq_self_iff {β : Type} (key : α → κ) (stored : κ → Option β) (val : α → β)
    (xs : List α) :
    (∀ x ∈ xs, (stored (key x)).or ((row? key xs (key x)).map val) = some (val x)) ↔
      ∀ x ∈ xs, (∀ b ∈ stored (key x), b = val x) ∧ ∀ y ∈ xs, key y = key x → val y = val x := by
  constructor
  · intro h x hx
    refine ⟨fun b hb => ?_, fun y hy hk => ?_⟩
    · have hx := h x hx
      rw [Option.mem_def.1 hb, Option.some_or] at hx
      exact Option.some.inj hx
    · have hy := h y hy
      rw [hk, h x hx] at hy
      exact (Option.some.inj hy).symm
  · intro h x hx
    obtain ⟨hstored, hbatch⟩ := h x hx
    cases hs : stored (key x) with
    | some b => rw [Option.some_or, hstored b hs]
    | none =>
      cases hr : row? key xs (key x) with
      | none => exact absurd rfl (row?_eq_none.1 hr x hx)
      | some y =>
        obtain ⟨hy, hk⟩ := mem_of_row? hr
        rw [Option.none_or, Option.map_some, hbatch y hy hk]

/-! ## Tables that stand for each other, row by row -/

section Related

variable {β : Type} {R : α → β → Prop} {others : List β}

section

variable (h : List.Forall₂ R rows others)

include h

theorem exists_right_of_forall₂ (ha : a ∈ rows) : ∃ b ∈ others, R a b := by
  induction h with
  | nil => cases ha
  | cons hab _ ih =>
    rcases List.mem_cons.1 ha with rfl | ha
    · exact ⟨_, List.mem_cons_self, hab⟩
    · obtain ⟨b, hb, hR⟩ := ih ha
      exact ⟨b, List.mem_cons_of_mem _ hb, hR⟩

theorem exists_left_of_forall₂ {b : β} (hb : b ∈ others) :
    ∃ a ∈ rows, R a b := exists_right_of_forall₂ h.flip hb

theorem forall₂_concat {a : α} {b : β} (hab : R a b) :
    List.Forall₂ R (rows ++ [a]) (others ++ [b]) :=
  List.rel_append h (.cons hab .nil)

theorem forall₂_map {f : α → α} {g : β → β} (hfg : ∀ a ∈ rows, ∀ b, R a b → R (f a) (g b)) :
    List.Forall₂ R (rows.map f) (others.map g) := by
  induction h with
  | nil => exact .nil
  | cons hab _ ih =>
    rw [List.forall_mem_cons] at hfg
    exact .cons (hfg.1 _ hab) (ih hfg.2)

theorem map_eq_of_forall₂ {γ : Type} {f : α → γ} {g : β → γ}
    (hR : ∀ a b, R a b → g b = f a) : others.map g = rows.map f := by
  induction h with
  | nil => rfl
  | cons hab _ ih => rw [List.map_cons, List.map_cons, hR _ _ hab, ih]

end

end Related

end Lib.Table
