import AionisCore.Lib.OrderedMap
import AionisCore.Lib.Recency
import AionisCore.Util.InflightGate

/-!
# The cache

`LruTtlCache` keeps at most `maxEntries` values, each for `ttlMs`. An entry that is set or found
goes to the end of the map, and entries are evicted from its front.
-/

namespace AionisCore.Util

open Lib

structure LruTtlOptions where
  maxEntries : ℚ
  ttlMs : ℚ

/-- A value in the cache. -/
structure CacheEntry (V : Type) where
  value : V
  expiresAtMs : ℚ

structure LruTtlCache (K V : Type) where
  maxEntries : Nat
  ttlMs : ℚ
  map : OrderedMap K (CacheEntry V)

namespace LruTtlCache

variable {K V : Type} [DecidableEq K]

def new (opts : LruTtlOptions) : LruTtlCache K V where
  maxEntries := (max 1 (trunc opts.maxEntries)).toNat
  ttlMs := max 1000 (trunc opts.ttlMs)
  map := .empty

/-- The front entry is deleted as long as there are too many. -/
def evictEntries {α : Type} (maxEntries : Nat) : List α → List α
  | [] => []
  | e :: es => if maxEntries < (e :: es).length then evictEntries maxEntries es else e :: es

theorem evictEntries_suffix {α : Type} (maxEntries : Nat) (es : List α) :
    evictEntries maxEntries es <:+ es := by
  induction es with
  | nil => exact List.suffix_rfl
  | cons e es ih =>
    rw [evictEntries]
    split
    · exact ih.trans (List.suffix_cons e es)
    · exact List.suffix_rfl

variable (c : LruTtlCache K V)

def evict : LruTtlCache K V :=
  { c with map := {
      entries := evictEntries c.maxEntries c.map.entries
      nodup := c.map.nodup.sublist ((evictEntries_suffix _ _).sublist.map _) } }

def get (key : K) (nowMs : ℚ) : Option V × LruTtlCache K V :=
  match c.map.get key with
  | none => (none, c)
  | some hit =>
    if hit.expiresAtMs ≤ nowMs then (none, { c with map := c.map.filter (· ≠ key) })
    else (some hit.value, { c with map := (c.map.filter (· ≠ key)).set key hit })

def set (key : K) (value : V) (nowMs : ℚ) : LruTtlCache K V :=
  let entry : CacheEntry V := { value, expiresAtMs := nowMs + c.ttlMs }
  let map := if c.map.has key then c.map.filter (· ≠ key) else c.map
  evict { c with map := map.set key entry }

def size : Nat := c.map.entries.length

end LruTtlCache

/-! ## Histories -/

inductive CacheCall (K V : Type) where
  | get (key : K) (nowMs : ℚ)
  | set (key : K) (value : V) (nowMs : ℚ)

namespace CacheCall

variable {K V : Type}

def nowMs : CacheCall K V → ℚ
  | .get _ nowMs => nowMs
  | .set _ _ nowMs => nowMs

/-- What a call sets for a key, and when. -/
def setFor [DecidableEq K] (key : K) : CacheCall K V → Option (V × ℚ)
  | .get _ _ => none
  | .set k value nowMs => if k = key then some (value, nowMs) else none

end CacheCall

namespace LruTtlCache

variable {K V : Type} [DecidableEq K]

def step (c : LruTtlCache K V) : CacheCall K V → LruTtlCache K V
  | .get key nowMs => (c.get key nowMs).2
  | .set key value nowMs => c.set key value nowMs

/-- The key that a call sets or reads; a key is read when its value is found. -/
def touches (c : LruTtlCache K V) : CacheCall K V → Option K
  | .get key nowMs => (c.get key nowMs).1.map fun _ => key
  | .set key _ _ => some key

def after (c : LruTtlCache K V) (calls : List (CacheCall K V)) : LruTtlCache K V :=
  calls.foldl step c

/-- The keys that were set or read, in order. -/
def touched (c : LruTtlCache K V) : List (CacheCall K V) → List K
  | [] => []
  | call :: calls => (c.touches call).toList ++ touched (c.step call) calls

/-- The value last set for a key, and when. -/
def lastSet (key : K) (calls : List (CacheCall K V)) : Option (V × ℚ) :=
  calls.reverse.findSome? (·.setFor key)

/-- The times do not decrease, and `nowMs` is no earlier. -/
def InOrder (calls : List (CacheCall K V)) (nowMs : ℚ) : Prop :=
  (calls.map (·.nowMs) ++ [nowMs]).Pairwise (· ≤ ·)

section Steps

variable {c : LruTtlCache K V} {calls : List (CacheCall K V)} {key : K} {call : CacheCall K V}

theorem after_concat : c.after (calls ++ [call]) = (c.after calls).step call := by
  unfold after
  rw [List.foldl_append, List.foldl_cons, List.foldl_nil]

theorem touched_concat :
    c.touched (calls ++ [call]) = c.touched calls ++ ((c.after calls).touches call).toList := by
  induction calls generalizing c with
  | nil => simp [touched, after]
  | cons x calls ih =>
    rw [List.cons_append, touched, touched, ih, List.append_assoc]
    rfl

theorem lastSet_concat :
    lastSet key (calls ++ [call]) = (call.setFor key).or (lastSet key calls) := by
  unfold lastSet
  rw [List.reverse_concat, List.findSome?_cons]
  cases call.setFor key <;> rfl

end Steps

/-! ## Entries -/

section Entries

variable {α : Type} {maxEntries : Nat} {m : OrderedMap K α} {key : K} {a : α}

theorem length_evictEntries_le (es : List α) :
    (evictEntries maxEntries es).length ≤ maxEntries := by
  induction es with
  | nil => exact Nat.zero_le _
  | cons e es ih =>
    rw [evictEntries]
    split
    · exact ih
    · next hle => exact Nat.not_lt.1 hle

theorem evictEntries_eq_or_full (es : List α) :
    evictEntries maxEntries es = es ∨ (evictEntries maxEntries es).length = maxEntries := by
  induction es with
  | nil => exact .inl rfl
  | cons e es ih =>
    rw [evictEntries]
    split
    · next hlt =>
      rcases ih with heq | hfull
      · rw [heq]
        right
        have hle := @length_evictEntries_le _ maxEntries es
        rw [heq] at hle
        rw [List.length_cons] at hlt
        omega
      · exact .inr hfull
    · exact .inl rfl

theorem entries_filter_set :
    ((m.filter (· ≠ key)).set key a).entries =
      m.entries.filter (fun e => e.1 ≠ key) ++ [(key, a)] := by
  have hnone : (m.filter (· ≠ key)).get key = none := by
    rw [OrderedMap.get_filter]
    simp
  exact OrderedMap.setEntry_of_none hnone

theorem entries_bump :
    ((if m.has key then m.filter (· ≠ key) else m).set key a).entries =
      m.entries.filter (fun e => e.1 ≠ key) ++ [(key, a)] := by
  cases hhas : m.has key with
  | true => exact entries_filter_set
  | false =>
    have hnone := OrderedMap.not_has_iff.1 hhas
    have hkeep : m.entries.filter (fun e => e.1 ≠ key) = m.entries := by
      refine List.filter_eq_self.2 fun e he => ?_
      have hne : e.1 ≠ key := fun heq => by
        have hget : m.get key = some e.2 := OrderedMap.get_eq_some.2 (heq ▸ he)
        rw [hnone] at hget
        cases hget
      simpa using hne
    rw [hkeep]
    exact OrderedMap.setEntry_of_none hnone

end Entries

/-! ## What a cache holds -/

/-- What holds of the entries of a cache after some calls, and of the keys they touched. -/
structure Inv (c : LruTtlCache K V) (calls : List (CacheCall K V)) (touched : List K) : Prop where
  size : c.size ≤ c.maxEntries
  stored : ∀ e ∈ c.map.entries, ∃ nowMs, lastSet e.1 calls = some (e.2.value, nowMs) ∧
    e.2.expiresAtMs = nowMs + c.ttlMs
  ordered : Recency.Ordered touched (c.map.entries.map (·.1))
  kept : ∀ key value setMs, lastSet key calls = some (value, setMs) →
    ∀ nowMs, (∀ call ∈ calls, call.nowMs ≤ nowMs) → nowMs < setMs + c.ttlMs →
      key ∈ c.map.entries.map (·.1) ∨ c.maxEntries ≤ Recency.others key touched

section Inv

variable {c : LruTtlCache K V} {calls : List (CacheCall K V)} {touched : List K} {key : K}

theorem inv_new (opts : LruTtlOptions) : Inv (new opts : LruTtlCache K V) [] [] where
  size := Nat.zero_le _
  stored := nofun
  ordered := List.Pairwise.nil
  kept := nofun

omit [DecidableEq K] in
theorem evict_entries : (evict c).map.entries = evictEntries c.maxEntries c.map.entries := rfl

omit [DecidableEq K] in
theorem forall_concat {call : CacheCall K V} {nowMs : ℚ}
    (h : ∀ x ∈ calls ++ [call], x.nowMs ≤ nowMs) : ∀ x ∈ calls, x.nowMs ≤ nowMs :=
  fun x hx => h x (List.mem_append_left _ hx)

/-- The entries with one of them put at the end keep their order. -/
theorem ordered_bump (h : Recency.Ordered touched (c.map.entries.map (·.1)))
    (entry : CacheEntry V) :
    Recency.Ordered (touched ++ [key])
      ((c.map.entries.filter (fun e => e.1 ≠ key) ++ [(key, entry)]).map (·.1)) := by
  rw [List.map_append]
  refine (h.sublist (List.filter_sublist.map _)).concat fun hmem => ?_
  obtain ⟨e, he, hkey⟩ := List.mem_map.1 hmem
  exact of_decide_eq_true (List.mem_filter.1 he).2 hkey

theorem mem_bump {k : K} (entry : CacheEntry V)
    (h : k = key ∨ k ∈ c.map.entries.map (·.1)) :
    k ∈ (c.map.entries.filter (fun e => e.1 ≠ key) ++ [(key, entry)]).map (·.1) := by
  by_cases hk : k = key
  · exact List.mem_map.2 ⟨_, List.mem_append_right _ (List.mem_singleton.2 rfl), hk.symm⟩
  · obtain ⟨e, he, rfl⟩ := List.mem_map.1 (h.resolve_left hk)
    refine List.mem_map.2 ⟨e, List.mem_append_left _ (List.mem_filter.2 ⟨he, ?_⟩), rfl⟩
    exact decide_eq_true hk

theorem kept_concat {k : K} (h : k = key ∨ k ∈ c.map.entries.map (·.1) ∨
      c.maxEntries ≤ Recency.others k touched) (entry : CacheEntry V) :
    k ∈ (c.map.entries.filter (fun e => e.1 ≠ key) ++ [(key, entry)]).map (·.1) ∨
      c.maxEntries ≤ Recency.others k (touched ++ [key]) := by
  by_cases hk : k = key
  · exact .inl (mem_bump entry (.inl hk))
  · rcases h.resolve_left hk with hmem | hmany
    · exact .inl (mem_bump entry (.inr hmem))
    · exact .inr (hmany.trans (Recency.others_le_concat (Ne.symm hk)))

theorem Inv.get (h : Inv c calls touched) (nowMs : ℚ) :
    Inv (c.get key nowMs).2 (calls ++ [.get key nowMs])
      (touched ++ (c.touches (.get key nowMs)).toList) := by
  have hlast : ∀ k, lastSet k (calls ++ [.get key nowMs]) = lastSet k calls := fun k => by
    rw [lastSet_concat]
    rfl
  rw [show c.touches (.get key nowMs) = (c.get key nowMs).1.map fun _ => key from rfl]
  cases hget : c.map.get key with
  | none =>
    have hout : c.get key nowMs = (none, c) := by
      unfold LruTtlCache.get
      rw [hget]
    rw [hout]
    refine ⟨h.size, fun e he => hlast e.1 ▸ h.stored e he, ?_, ?_⟩
    · simpa using h.ordered
    · intro k value setMs hset now hnow hlt
      rw [hlast] at hset
      simpa using h.kept k value setMs hset now (forall_concat hnow) hlt
  | some hit =>
    have hmem := OrderedMap.get_eq_some.1 hget
    obtain ⟨setMs, hset, hexpires⟩ := h.stored _ hmem
    by_cases hexpired : hit.expiresAtMs ≤ nowMs
    · -- the entry is dropped, and at later times it is expired as well
      have hout : c.get key nowMs = (none, { c with map := c.map.filter (· ≠ key) }) := by
        unfold LruTtlCache.get
        rw [hget]
        exact if_pos hexpired
      rw [hout]
      refine ⟨(List.length_filter_le _ _).trans h.size,
        fun e he => hlast e.1 ▸ h.stored e (List.mem_filter.1 he).1, ?_, ?_⟩
      · rw [Option.map_none, Option.toList_none, List.append_nil]
        exact h.ordered.sublist (List.filter_sublist.map _)
      · intro k value setMs' hset' now hnow hlt
        rw [hlast] at hset'
        have hne : k ≠ key := by
          rintro rfl
          rw [hset] at hset'
          obtain ⟨-, rfl⟩ := Prod.mk.inj (Option.some.inj hset')
          have hle := hnow _ (List.mem_append_right _ (List.mem_singleton.2 rfl))
          change nowMs ≤ now at hle
          dsimp only at hexpires hlt
          linarith
        rcases h.kept k value setMs' hset' now (forall_concat hnow) hlt with hk | hmany
        · obtain ⟨e, he, rfl⟩ := List.mem_map.1 hk
          exact .inl (List.mem_map.2 ⟨e, List.mem_filter.2 ⟨he, decide_eq_true hne⟩, rfl⟩)
        · right
          simpa using hmany
    · have hout : c.get key nowMs =
          (some hit.value, { c with map := (c.map.filter (· ≠ key)).set key hit }) := by
        unfold LruTtlCache.get
        rw [hget]
        exact if_neg hexpired
      have hlen : (c.map.entries.filter (fun e => e.1 ≠ key)).length < c.map.entries.length :=
        List.length_filter_lt_length_iff_exists.2 ⟨_, hmem, by simp⟩
      rw [hout]
      refine ⟨?_, ?_, ?_, ?_⟩
      · have hsize := h.size
        unfold LruTtlCache.size at hsize ⊢
        rw [entries_filter_set, List.length_append, List.length_singleton]
        exact Nat.le_trans hlen hsize
      · intro e he
        rw [hlast]
        rw [entries_filter_set, List.mem_append, List.mem_singleton] at he
        rcases he with he | rfl
        · exact h.stored e (List.mem_filter.1 he).1
        · exact ⟨setMs, hset, hexpires⟩
      · rw [entries_filter_set]
        exact ordered_bump h.ordered hit
      · intro k value setMs' hset' now hnow hlt
        rw [hlast] at hset'
        rw [entries_filter_set]
        exact kept_concat (.inr (h.kept k value setMs' hset' now (forall_concat hnow) hlt)) hit

theorem Inv.set (h : Inv c calls touched) (value : V) (nowMs : ℚ) :
    Inv (c.set key value nowMs) (calls ++ [.set key value nowMs]) (touched ++ [key]) := by
  have hlast : ∀ k, lastSet k (calls ++ [.set key value nowMs]) =
      if key = k then some (value, nowMs) else lastSet k calls := fun k => by
    rw [lastSet_concat]
    change (if key = k then some (value, nowMs) else none).or _ = _
    split <;> rfl
  have hentries : (c.set key value nowMs).map.entries = evictEntries c.maxEntries
      (c.map.entries.filter (fun e => e.1 ≠ key) ++ [(key, ⟨value, nowMs + c.ttlMs⟩)]) := by
    unfold LruTtlCache.set
    rw [evict_entries, entries_bump]
  have hsuffix := evictEntries_suffix c.maxEntries
    (c.map.entries.filter (fun e => e.1 ≠ key) ++ [(key, ⟨value, nowMs + c.ttlMs⟩)])
  have hordered := @ordered_bump _ _ _ c _ key h.ordered ⟨value, nowMs + c.ttlMs⟩
  refine ⟨?_, ?_, ?_, ?_⟩
  · unfold LruTtlCache.size
    rw [hentries]
    exact length_evictEntries_le _
  · intro e he
    rw [hlast]
    rw [hentries] at he
    rcases List.mem_append.1 (hsuffix.subset he) with he | he
    · obtain ⟨he, hne⟩ := List.mem_filter.1 he
      rw [if_neg fun heq => of_decide_eq_true hne heq.symm]
      exact h.stored e he
    · obtain rfl := List.mem_singleton.1 he
      exact ⟨nowMs, if_pos rfl, rfl⟩
  · rw [hentries]
    exact hordered.sublist (hsuffix.sublist.map _)
  · intro k v setMs hset now hnow hlt
    rw [hlast] at hset
    have hbefore : k = key ∨ k ∈ c.map.entries.map (·.1) ∨
        c.maxEntries ≤ Recency.others k touched := by
      by_cases hk : k = key
      · exact .inl hk
      · rw [if_neg (Ne.symm hk)] at hset
        exact .inr (h.kept k v setMs hset now (forall_concat hnow) hlt)
    rw [hentries]
    rcases kept_concat hbefore ⟨value, nowMs + c.ttlMs⟩ with hmem | hmany
    · -- what is evicted stands before a full cache of keys touched since
      obtain ⟨pre, hpre⟩ := hsuffix
      rcases @evictEntries_eq_or_full _ c.maxEntries
        (c.map.entries.filter (fun e => e.1 ≠ key) ++ [(key, ⟨value, nowMs + c.ttlMs⟩)]) with
        heq | hfull
      · exact .inl (heq.symm ▸ hmem)
      · rw [← hpre, List.map_append, List.mem_append] at hmem
        rcases hmem with hgone | hstays
        · right
          rw [← hpre, List.map_append] at hordered
          have hnodup := (c.set key value nowMs).map.nodup
          rw [hentries] at hnodup
          have hmany := hordered.length_le_others hnodup hgone
          rw [List.length_map, hfull] at hmany
          exact hmany
        · exact .inl hstays
    · exact .inr hmany

theorem limits_step (call : CacheCall K V) :
    (c.step call).maxEntries = c.maxEntries ∧ (c.step call).ttlMs = c.ttlMs := by
  cases call with
  | get key nowMs =>
    change (c.get key nowMs).2.maxEntries = c.maxEntries ∧ (c.get key nowMs).2.ttlMs = c.ttlMs
    unfold LruTtlCache.get
    split
    · exact ⟨rfl, rfl⟩
    · split <;> exact ⟨rfl, rfl⟩
  | set key value nowMs => exact ⟨rfl, rfl⟩

theorem limits_after (calls : List (CacheCall K V)) :
    (c.after calls).maxEntries = c.maxEntries ∧ (c.after calls).ttlMs = c.ttlMs := by
  induction calls using List.reverseRecOn with
  | nil => exact ⟨rfl, rfl⟩
  | append_singleton calls call ih =>
    rw [after_concat, (limits_step call).1, (limits_step call).2]
    exact ih

theorem inv_after (opts : LruTtlOptions) (calls : List (CacheCall K V)) :
    Inv ((new opts : LruTtlCache K V).after calls) calls
      (LruTtlCache.touched (new opts) calls) := by
  induction calls using List.reverseRecOn with
  | nil => exact inv_new opts
  | append_singleton calls call ih =>
    rw [after_concat, touched_concat]
    cases call with
    | get key nowMs => exact ih.get nowMs
    | set key value nowMs => exact ih.set value nowMs

theorem get_fst : (c.get key nowMs).1 =
    (c.map.get key).bind fun hit => if hit.expiresAtMs ≤ nowMs then none else some hit.value := by
  unfold LruTtlCache.get
  cases c.map.get key with
  | none => rfl
  | some hit =>
    dsimp only [Option.bind_some]
    split <;> rfl

end Inv

/-- A cache never has too many entries; it answers with the last value that was set, unless that
is expired; and it does answer unless `maxEntries` other keys were set or read since. -/
theorem lruTtlCache_answers (opts : LruTtlOptions) (calls : List (CacheCall K V)) (nowMs : ℚ)
    (htimes : InOrder calls nowMs) :
    let c₀ : LruTtlCache K V := new opts
    let c := c₀.after calls
    c.size ≤ c₀.maxEntries ∧
      ∀ key value,
        ((c.get key nowMs).1 = some value →
          ∃ setMs, lastSet key calls = some (value, setMs) ∧ nowMs < setMs + c₀.ttlMs) ∧
        ∀ setMs, lastSet key calls = some (value, setMs) → nowMs < setMs + c₀.ttlMs →
          (c.get key nowMs).1 = some value ∨
            c₀.maxEntries ≤ Recency.others key (c₀.touched calls) := by
  intro c₀ c
  have hinv : Inv c calls (c₀.touched calls) := inv_after opts calls
  obtain ⟨hmax, httl⟩ : c.maxEntries = c₀.maxEntries ∧ c.ttlMs = c₀.ttlMs := limits_after calls
  have hafter : ∀ call ∈ calls, call.nowMs ≤ nowMs := fun call hcall =>
    (List.pairwise_append.1 htimes).2.2 _ (List.mem_map_of_mem hcall) _ (List.mem_singleton.2 rfl)
  rw [← hmax, ← httl]
  refine ⟨hinv.size, fun key value => ⟨fun hget => ?_, fun setMs hset hlt => ?_⟩⟩
  · rw [get_fst] at hget
    obtain ⟨hit, hhit, hvalue⟩ := Option.bind_eq_some_iff.1 hget
    split at hvalue
    · cases hvalue
    · next hlive =>
      obtain rfl := Option.some.inj hvalue
      obtain ⟨setMs, hset, hexpires⟩ := hinv.stored _ (OrderedMap.get_eq_some.1 hhit)
      exact ⟨setMs, hset, hexpires ▸ not_le.1 hlive⟩
  · refine (hinv.kept key value setMs hset nowMs hafter hlt).imp_left fun hmem => ?_
    obtain ⟨e, he, rfl⟩ := List.mem_map.1 hmem
    obtain ⟨setMs', hset', hexpires⟩ := hinv.stored e he
    rw [hset] at hset'
    obtain ⟨rfl, rfl⟩ := Prod.mk.inj (Option.some.inj hset')
    rw [get_fst, OrderedMap.get_eq_some.2 he, Option.bind_some, if_neg]
    exact not_le.2 (hexpires ▸ hlt)

/-- The second key is read and the third set, so the first is evicted. -/
theorem lruTtlCache_answers_two :
    let c₀ : LruTtlCache String Nat := new ⟨2, 1000⟩
    let calls : List (CacheCall String Nat) :=
      [.set "a" 1 0, .set "b" 2 1, .get "b" 2, .set "c" 3 3]
    (c₀.after calls).size ≤ c₀.maxEntries ∧ c₀.touched calls = ["a", "b", "b", "c"] ∧
      ((c₀.after calls).get "b" 4).1 = some 2 := by
  intro c₀ calls
  have htouched : c₀.touched calls = ["a", "b", "b", "c"] := by decide +kernel
  obtain ⟨hsize, hanswers⟩ := lruTtlCache_answers (⟨2, 1000⟩ : LruTtlOptions) calls 4
    (by unfold InOrder; decide +kernel)
  have hb := (hanswers "b" 2).2 1 (by decide +kernel) (by decide +kernel)
  refine ⟨hsize, htouched, hb.resolve_right fun hmany => ?_⟩
  rw [htouched] at hmany
  exact absurd hmany (by decide +kernel)

end LruTtlCache

end AionisCore.Util
