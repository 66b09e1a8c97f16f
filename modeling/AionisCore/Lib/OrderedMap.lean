import AionisCore.Lib.Table
import Mathlib.Data.List.Induction

/-!
# Insertion-ordered maps

A map keeps its keys in the order of their first insertion, as a JavaScript `Map`
does: setting a key that is present keeps its place.
-/

namespace Lib

structure OrderedMap (κ α : Type) where
  entries : List (κ × α)
  nodup : (entries.map (·.1)).Nodup

namespace OrderedMap

variable {κ α : Type} [DecidableEq κ]

/-- The value of an entry is replaced, or the entry is appended. -/
def setEntry (k : κ) (a : α) : List (κ × α) → List (κ × α)
  | [] => [(k, a)]
  | e :: es => if e.1 = k then (k, a) :: es else e :: setEntry k a es

def getEntry (k : κ) : List (κ × α) → Option α
  | [] => none
  | e :: es => if e.1 = k then some e.2 else getEntry k es

theorem keys_setEntry (k : κ) (a : α) (es : List (κ × α)) :
    (setEntry k a es).map (·.1) =
      if k ∈ es.map (·.1) then es.map (·.1) else es.map (·.1) ++ [k] := by
  induction es with
  | nil => rfl
  | cons e es ih =>
    rw [setEntry]
    by_cases he : e.1 = k
    · rw [if_pos he, if_pos (by simp [he])]
      simp [he]
    · rw [if_neg he, List.map_cons, ih, List.map_cons]
      by_cases hk : k ∈ es.map (·.1)
      · rw [if_pos hk, if_pos (List.mem_cons_of_mem _ hk)]
      · have hne : k ∉ e.1 :: es.map (·.1) := by
          rw [List.mem_cons, not_or]
          exact ⟨fun h => he h.symm, hk⟩
        rw [if_neg hk, if_neg hne, List.cons_append]

variable {es : List (κ × α)}

theorem nodup_setEntry {k : κ} {a : α} (h : (es.map (·.1)).Nodup) :
    ((setEntry k a es).map (·.1)).Nodup := by
  rw [keys_setEntry]
  split
  · exact h
  · next hk => exact List.nodup_append.2 ⟨h, by simp, by
      intro x hx y hy heq
      exact hk (List.mem_singleton.1 hy ▸ heq ▸ hx)⟩

theorem getEntry_setEntry (k j : κ) (a : α) (es : List (κ × α)) :
    getEntry j (setEntry k a es) = if j = k then some a else getEntry j es := by
  induction es with
  | nil =>
    simp only [setEntry, getEntry, eq_comm]
  | cons e es ih =>
    rw [setEntry]
    by_cases he : e.1 = k
    · rw [if_pos he]
      by_cases hj : j = k
      · simp [getEntry, hj]
      · simp [getEntry, hj, he, Ne.symm hj]
    · rw [if_neg he, getEntry, ih, getEntry]
      by_cases hej : e.1 = j
      · rw [if_pos hej, if_pos hej, if_neg (hej ▸ he)]
      · rw [if_neg hej, if_neg hej]

theorem getEntry_eq_some {k : κ} {a : α} (h : (es.map (·.1)).Nodup) :
    getEntry k es = some a ↔ (k, a) ∈ es := by
  induction es with
  | nil => simp [getEntry]
  | cons e es ih =>
    obtain ⟨hnot, hes⟩ := List.nodup_cons.1 (List.map_cons ▸ h)
    rw [getEntry, List.mem_cons]
    by_cases he : e.1 = k
    · rw [if_pos he]
      constructor
      · intro ha
        exact .inl (Prod.ext he.symm (Option.some.inj ha).symm)
      · rintro (rfl | hmem)
        · rfl
        · exact absurd (he ▸ List.mem_map_of_mem hmem) hnot
    · rw [if_neg he, ih hes]
      constructor
      · exact .inr
      · rintro (rfl | hmem)
        · exact absurd rfl he
        · exact hmem

theorem setEntry_of_none {k : κ} {a : α} (h : getEntry k es = none) :
    setEntry k a es = es ++ [(k, a)] := by
  induction es with
  | nil => rfl
  | cons e es ih =>
    rw [getEntry] at h
    split at h
    · cases h
    · next hne =>
      rw [setEntry, if_neg hne, ih h]
      rfl

theorem exists_split {k : κ} {a : α} (h : getEntry k es = some a) :
    ∃ pre post, es = pre ++ (k, a) :: post ∧
      ∀ b, setEntry k b es = pre ++ (k, b) :: post := by
  induction es with
  | nil => cases h
  | cons e es ih =>
    rw [getEntry] at h
    split at h
    · next he =>
      obtain ⟨k', a'⟩ := e
      obtain rfl : k' = k := he
      obtain rfl := Option.some.inj h
      exact ⟨[], es, rfl, fun b => by rw [setEntry, if_pos rfl]; rfl⟩
    · next hne =>
      obtain ⟨pre, post, rfl, hset⟩ := ih h
      exact ⟨e :: pre, post, rfl, fun b => by rw [setEntry, if_neg hne, hset]; rfl⟩

theorem filter_entries {p : α → Bool} {k : κ} (hnd : (es.map (·.1)).Nodup)
    (h : ∀ e ∈ es, p e.2 = true → e.1 = k) :
    (es.map (·.2)).filter p = ((getEntry k es).filter p).toList := by
  induction es with
  | nil => rfl
  | cons e es ih =>
    obtain ⟨hnot, hes⟩ := List.nodup_cons.1 (List.map_cons ▸ hnd)
    rw [List.map_cons, getEntry]
    by_cases he : e.1 = k
    · have hrest : (es.map (·.2)).filter p = [] := by
        rw [List.filter_eq_nil_iff]
        intro b hb hp
        obtain ⟨x, hx, rfl⟩ := List.mem_map.1 hb
        exact hnot (he.trans (h x (List.mem_cons_of_mem _ hx) hp).symm ▸
          List.mem_map_of_mem hx)
      rw [if_pos he, List.filter_cons, hrest, Option.filter_some]
      split <;> rfl
    · have hp : ¬ p e.2 = true := fun hp => he (h e List.mem_cons_self hp)
      rw [if_neg he, List.filter_cons_of_neg hp]
      exact ih hes fun x hx => h x (List.mem_cons_of_mem _ hx)

def empty : OrderedMap κ α where
  entries := []
  nodup := List.nodup_nil

def get (m : OrderedMap κ α) (k : κ) : Option α := getEntry k m.entries

def set (m : OrderedMap κ α) (k : κ) (a : α) : OrderedMap κ α where
  entries := setEntry k a m.entries
  nodup := nodup_setEntry m.nodup

/-- The values in insertion order of their keys. -/
def values (m : OrderedMap κ α) : List α := m.entries.map (·.2)

def has (m : OrderedMap κ α) (k : κ) : Bool := (m.get k).isSome

/-- The entries whose key passes, as after the others were deleted. -/
def filter (m : OrderedMap κ α) (p : κ → Bool) : OrderedMap κ α where
  entries := m.entries.filter fun e => p e.1
  nodup := m.nodup.sublist (List.filter_sublist.map _)

/-- The values are replaced. -/
def mapValues (m : OrderedMap κ α) (f : κ → α → α) : OrderedMap κ α where
  entries := m.entries.map fun e => (e.1, f e.1 e.2)
  nodup := by
    rw [List.map_map]
    exact m.nodup

/-- The values of a list, each set under its key. -/
def ofValues (key : α → κ) (xs : List α) : OrderedMap κ α :=
  xs.foldl (fun m a => m.set (key a) a) empty

variable {m : OrderedMap κ α} {k j : κ} {a : α} {xs : List α}

@[simp] theorem get_empty (k : κ) : (empty : OrderedMap κ α).get k = none := rfl

@[simp] theorem get_set_self : (m.set k a).get k = some a := by
  show getEntry k (setEntry k a m.entries) = some a
  rw [getEntry_setEntry, if_pos rfl]

theorem get_set_of_ne (h : j ≠ k) : (m.set k a).get j = m.get j := by
  show getEntry j (setEntry k a m.entries) = getEntry j m.entries
  rw [getEntry_setEntry, if_neg h]

theorem get_eq_some : m.get k = some a ↔ (k, a) ∈ m.entries := getEntry_eq_some m.nodup

theorem mem_values : a ∈ m.values ↔ ∃ k, m.get k = some a := by
  simp only [get_eq_some, values, List.mem_map, Prod.exists, exists_eq_right]

/-- The values that pass a test which only the entry of one key can pass. -/
theorem filter_values {p : α → Bool} (h : ∀ j b, m.get j = some b → p b = true → j = k) :
    m.values.filter p = ((m.get k).filter p).toList :=
  filter_entries m.nodup fun e he hp => h e.1 e.2 (get_eq_some.2 he) hp

theorem get_set (m : OrderedMap κ α) (k j : κ) (a : α) :
    (m.set k a).get j = if j = k then some a else m.get j := getEntry_setEntry k j a m.entries

theorem has_iff : m.has k = true ↔ ∃ a, m.get k = some a := Option.isSome_iff_exists

theorem not_has_iff : m.has k = false ↔ m.get k = none := by
  unfold has
  rw [Option.isSome_eq_false_iff, Option.isNone_iff_eq_none]

theorem get_filter {p : κ → Bool} : (m.filter p).get k = if p k then m.get k else none := by
  have h : ∀ a, (m.filter p).get k = some a ↔ p k = true ∧ m.get k = some a := by
    intro a
    rw [get_eq_some, get_eq_some]
    show (k, a) ∈ m.entries.filter _ ↔ _
    rw [List.mem_filter, and_comm]
  split
  · next hp =>
    refine Option.ext fun a => ?_
    rw [h, and_iff_right hp]
  · next hp =>
    refine Option.eq_none_iff_forall_ne_some.2 fun a ha => hp ((h a).1 ha).1

theorem get_mapValues {f : κ → α → α} : (m.mapValues f).get k = (m.get k).map (f k) := by
  show getEntry k (m.entries.map fun e => (e.1, f e.1 e.2)) = (getEntry k m.entries).map (f k)
  induction m.entries with
  | nil => rfl
  | cons e es ih =>
    rw [List.map_cons, getEntry, getEntry]
    split
    · next h => rw [← h, Option.map_some]
    · exact ih

theorem values_set_of_none (h : m.get k = none) : (m.set k a).values = m.values ++ [a] := by
  show (setEntry k a m.entries).map (·.2) = _
  rw [setEntry_of_none h, List.map_append]
  rfl

theorem entries_ofValues {key : α → κ} (h : (xs.map key).Nodup) :
    (ofValues key xs).entries = xs.map fun a => (key a, a) := by
  have hfold : ∀ (xs : List α) (acc : OrderedMap κ α),
      (acc.entries.map (·.1) ++ xs.map key).Nodup →
        (xs.foldl (fun m a => m.set (key a) a) acc).entries =
          acc.entries ++ xs.map fun a => (key a, a) := by
    intro xs
    induction xs with
    | nil => exact fun acc _ => (List.append_nil _).symm
    | cons a xs ih =>
      intro acc hnd
      have hnone : getEntry (key a) acc.entries = none := by
        refine Option.eq_none_iff_forall_ne_some.2 fun b hb => ?_
        have hmem := (getEntry_eq_some acc.nodup).1 hb
        exact (List.nodup_append.1 hnd).2.2 _ (List.mem_map_of_mem hmem) _ List.mem_cons_self rfl
      have hset : (acc.set (key a) a).entries = acc.entries ++ [(key a, a)] :=
        setEntry_of_none hnone
      rw [List.foldl_cons, ih, hset, List.append_assoc]
      · rfl
      · rw [hset, List.map_append, List.append_assoc]
        exact hnd
  exact hfold xs empty h

theorem values_ofValues {key : α → κ} (h : (xs.map key).Nodup) : (ofValues key xs).values = xs := by
  unfold values
  rw [entries_ofValues h, List.map_map]
  exact List.map_id xs

theorem get_ofValues {key : α → κ} (h : (xs.map key).Nodup) :
    (ofValues key xs).get k = some a ↔ a ∈ xs ∧ key a = k := by
  rw [get_eq_some, entries_ofValues h, List.mem_map]
  constructor
  · rintro ⟨b, hb, heq⟩
    obtain ⟨rfl, rfl⟩ := Prod.mk.inj heq
    exact ⟨hb, rfl⟩
  · rintro ⟨ha, rfl⟩
    exact ⟨a, ha, rfl⟩

/-- The entries stand under the keys of their values. -/
def Keyed (key : α → κ) (m : OrderedMap κ α) : Prop := ∀ k a, m.get k = some a → key a = k

section Keyed

variable {key : α → κ} {xs : List α}

theorem keyed_empty : Keyed key empty := fun _ _ h => nomatch h

theorem Keyed.set (h : Keyed key m) (ha : key a = k) : Keyed key (m.set k a) := by
  intro j b hb
  rw [get_set] at hb
  split at hb
  · next hj =>
    obtain rfl := Option.some.inj hb
    exact ha.trans hj.symm
  · exact h j b hb

theorem Keyed.keys (h : Keyed key m) : m.values.map key = m.entries.map (·.1) := by
  unfold values
  rw [List.map_map]
  exact List.map_congr_left fun e he => h e.1 e.2 (get_eq_some.2 he)

theorem Keyed.nodup (h : Keyed key m) : (m.values.map key).Nodup := by
  rw [h.keys]
  exact m.nodup

theorem Keyed.values_set_of_some (h : Keyed key m) {b : α} (hb : m.get k = some b) :
    (m.set k a).values = m.values.map fun c => if key c = k then a else c := by
  have hset : ∀ es : List (κ × α), (es.map (·.1)).Nodup → (∀ e ∈ es, key e.2 = e.1) →
      (getEntry k es).isSome → (setEntry k a es).map (·.2) =
        (es.map (·.2)).map fun c => if key c = k then a else c := by
    intro es
    induction es with
    | nil => intro _ _ hb; cases hb
    | cons e es ih =>
      intro hnd hkeys hb
      rw [List.forall_mem_cons] at hkeys
      obtain ⟨hnot, hnd⟩ := List.nodup_cons.1 (List.map_cons ▸ hnd)
      rw [getEntry] at hb
      rw [setEntry, List.map_cons, List.map_cons, hkeys.1]
      by_cases he : e.1 = k
      · have hrest : (es.map (·.2)).map (fun c => if key c = k then a else c) =
            es.map (·.2) := by
          rw [List.map_map]
          refine List.map_congr_left fun x hx => if_neg ?_
          rw [hkeys.2 x hx, ← he]
          exact fun hx' => hnot (hx' ▸ List.mem_map_of_mem hx)
        rw [if_pos he, if_pos he, hrest, List.map_cons]
      · rw [if_neg he] at hb
        rw [if_neg he, if_neg he, List.map_cons, ih hnd hkeys.2 hb]
  exact hset m.entries m.nodup (fun e he => h e.1 e.2 (get_eq_some.2 he))
    (Option.isSome_iff_exists.2 ⟨b, hb⟩)

theorem Keyed.mem_values (h : Keyed key m) : a ∈ m.values ↔ m.get (key a) = some a := by
  rw [OrderedMap.mem_values]
  constructor
  · rintro ⟨k, hk⟩
    rwa [h k a hk]
  · exact fun ha => ⟨key a, ha⟩

/-- What is set for one value after the other is kept for the map of them all. -/
theorem ofValues_induction {P : OrderedMap κ α → Prop} (h : P empty)
    (hset : ∀ m, P m → ∀ a ∈ xs, P (m.set (key a) a)) : P (ofValues key xs) := by
  have hfold : ∀ (ys : List α) (acc : OrderedMap κ α), (∀ a ∈ ys, a ∈ xs) → P acc →
      P (ys.foldl (fun m a => m.set (key a) a) acc) := by
    intro ys
    induction ys with
    | nil => exact fun _ _ h => h
    | cons a ys ih =>
      intro acc hys hacc
      exact ih _ (fun b hb => hys b (List.mem_cons_of_mem _ hb))
        (hset acc hacc a (hys a List.mem_cons_self))
  exact hfold xs empty (fun _ h => h) h

theorem keyed_ofValues (xs : List α) : Keyed key (ofValues key xs) :=
  ofValues_induction keyed_empty fun _ h _ _ => h.set rfl

theorem exists_get_ofValues (h : a ∈ xs) : ∃ b, (ofValues key xs).get (key a) = some b := by
  unfold ofValues
  induction xs using List.reverseRecOn with
  | nil => cases h
  | append_singleton xs b ih =>
    rw [List.foldl_append, List.foldl_cons, List.foldl_nil, get_set]
    split
    · exact ⟨b, rfl⟩
    · next hne =>
      rcases List.mem_append.1 h with h | h
      · exact ih h
      · exact absurd (congrArg key (List.mem_singleton.1 h)) hne

theorem mem_of_get_ofValues (h : (ofValues key xs).get k = some a) : a ∈ xs := by
  have hall : ∀ j b, (ofValues key xs).get j = some b → b ∈ xs := by
    refine ofValues_induction (P := fun m => ∀ j b, m.get j = some b → b ∈ xs)
      (fun _ _ h => nomatch h) fun m hm c hc j b hb => ?_
    rw [get_set] at hb
    split at hb
    · exact Option.some.inj hb ▸ hc
    · exact hm j b hb
  exact hall k a h

omit [DecidableEq κ] in
theorem ext_entries {m m' : OrderedMap κ α} (h : m.entries = m'.entries) : m = m' := by
  obtain ⟨entries, nodup⟩ := m
  obtain ⟨entries', nodup'⟩ := m'
  obtain rfl : entries = entries' := h
  rfl

/-- Such a map is given by its values. -/
theorem Keyed.ofValues_values (h : Keyed key m) : ofValues key m.values = m := by
  refine ext_entries ?_
  rw [entries_ofValues h.nodup]
  unfold values
  rw [List.map_map]
  refine (List.map_congr_left fun e he => ?_).trans (List.map_id _)
  exact Prod.ext (h e.1 e.2 (get_eq_some.2 he)) rfl

theorem Keyed.ofValues_map (h : Keyed key m) {f : κ → α → α} (hf : ∀ k a, key (f k a) = key a) :
    ofValues key (m.values.map fun a => f (key a) a) = m.mapValues f := by
  have hnodup : ((m.values.map fun a => f (key a) a).map key).Nodup := by
    have hkeys : (m.values.map fun a => f (key a) a).map key = m.values.map key := by
      rw [List.map_map]
      exact List.map_congr_left fun a _ => hf (key a) a
    rw [hkeys]
    exact h.nodup
  refine ext_entries ?_
  rw [entries_ofValues hnodup]
  unfold values mapValues
  rw [List.map_map, List.map_map]
  refine List.map_congr_left fun e he => ?_
  have hkey := h e.1 e.2 (get_eq_some.2 he)
  show (key (f (key e.2) e.2), f (key e.2) e.2) = (e.1, f e.1 e.2)
  rw [hf, hkey]

end Keyed

end OrderedMap

end Lib
