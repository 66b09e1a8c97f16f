import AionisCore.Execution.StateStore
import Mathlib.Data.Set.Insert

/-!
# Isolation of execution states

What the store reports for one scope and state id depends on the record under the
joined key alone. Calls about two pairs are therefore independent exactly when the
join tells the pairs apart.
-/

namespace AionisCore.Execution

open Lib Lib.JsString Lib.Zod

/-- The scope and the state id pass their schemas as they are. -/
def Accepted (p : String × String) : Prop := name p.1 = some p.1 ∧ name p.2 = some p.2

instance (p : String × String) : Decidable (Accepted p) :=
  inferInstanceAs (Decidable (_ ∧ _))

def pairKey (p : String × String) : String := stateStoreKey p.1 p.2

/-- Two stores answer every call about a pair alike. -/
structure SameReports (datetime : String → Bool) (localeCompare : String → String → Int)
    (store store' : InMemoryExecutionStateStore) (p : String × String) : Prop where
  get : store.get datetime p.1 p.2 = store'.get datetime p.1 p.2
  has : store.has p.1 p.2 = store'.has p.1 p.2
  listed : (store.listByScope datetime localeCompare p.1).map (·.filter (·.state.stateId = p.2)) =
    (store'.listByScope datetime localeCompare p.1).map (·.filter (·.state.stateId = p.2))
  applied : ∀ t t', t.parse datetime = some t' → (t'.scope, t'.stateId) = p →
    (store.applyTransition datetime t).map (·.1) = (store'.applyTransition datetime t).map (·.1)

/-- In the run no call about one pair changes what is reported for another pair of `S`, and
every record that `get` returns has the scope and the state id it was asked for. -/
structure Isolated (datetime : String → Bool) (localeCompare : String → String → Int)
    (S : Set (String × String)) (ops : List StateStoreOp) : Prop where
  frame : ∀ pre op post p, ops = pre ++ op :: post → op.pair datetime = some p →
    ∀ q ∈ S, q ≠ p → SameReports datetime localeCompare (storeAfterAll datetime pre)
      (storeAfterAll datetime (pre ++ [op])) q
  exact : ∀ pre scope stateId post record, ops = pre ++ .get scope stateId :: post →
    (storeAfterAll datetime pre).get datetime scope stateId = .ok (some record) →
    (record.state.scope, record.state.stateId) = (scope, stateId)

/-- The call is about a pair of `S`, or about none. -/
def Within (datetime : String → Bool) (S : Set (String × String)) (op : StateStoreOp) : Prop :=
  ∀ p, op.pair datetime = some p → p ∈ S

variable {datetime : String → Bool} {localeCompare : String → String → Int}
  {store store' : InMemoryExecutionStateStore} {p q : String × String}
  {S : Set (String × String)} {ops : List StateStoreOp}

/-! ## Reports read one record -/

theorem filter_mergeSort {α : Type} {le : α → α → Bool} {test : α → Bool} {xs : List α}
    {o : Option α} (h : xs.filter test = o.toList) : (xs.mergeSort le).filter test = o.toList := by
  have hperm := (List.mergeSort_perm xs le).filter test
  rw [h] at hperm
  cases o with
  | none => exact List.perm_nil.1 hperm
  | some a => exact List.perm_singleton.1 hperm

/-- The listed records of a pair are the record under its key, if that is of the pair. -/
theorem Recorded.listed (h : Recorded datetime store) (p : String × String) :
    (store.listByScope datetime localeCompare p.1).map (·.filter (·.state.stateId = p.2)) =
      .ok ((store.records.get (pairKey p)).filter fun record =>
        record.state.stateId = p.2 && record.state.scope = p.1).toList := by
  have hparse : (store.records.values.filter (·.state.scope = p.1)).mapM
      (fun record => orThrow (record.parse datetime) ExecutionStateError.schema) =
        .ok (store.records.values.filter (·.state.scope = p.1)) := by
    refine mapM_ok_self fun record hrec => ?_
    obtain ⟨key, hkey⟩ := OrderedMap.mem_values.1 (List.mem_filter.1 hrec).1
    rw [(h key record hkey).1]
    rfl
  have hfilter : (store.records.values.filter (·.state.scope = p.1)).filter
      (·.state.stateId = p.2) = ((store.records.get (pairKey p)).filter fun record =>
        record.state.stateId = p.2 && record.state.scope = p.1).toList := by
    rw [List.filter_filter]
    refine OrderedMap.filter_values fun key record hget htest => ?_
    rw [Bool.and_eq_true, decide_eq_true_eq, decide_eq_true_eq] at htest
    rw [← (h key record hget).2, htest.1, htest.2]
    rfl
  unfold InMemoryExecutionStateStore.listByScope
  rw [hparse]
  exact congrArg Except.ok (filter_mergeSort hfilter)

theorem sameReports_of_get (h : Recorded datetime store) (h' : Recorded datetime store')
    (hget : store.records.get (pairKey p) = store'.records.get (pairKey p)) :
    SameReports datetime localeCompare store store' p where
  get := by rw [h.get, h'.get]; exact congrArg _ hget
  has := congrArg Option.isSome hget
  listed := by rw [h.listed, h'.listed, hget]
  applied := by
    rintro t t' ht rfl
    have hget' : store.records.get (stateStoreKey t'.scope t'.stateId) =
      store'.records.get (stateStoreKey t'.scope t'.stateId) := hget
    unfold InMemoryExecutionStateStore.applyTransition
    rw [ht]
    show Except.map _ (orThrow (store.records.get _) _ >>= _) =
      Except.map _ (orThrow (store'.records.get _) _ >>= _)
    rw [hget']
    exact map_bind_congr fun old => map_bind_congr fun _ => map_bind_congr fun state =>
      map_bind_congr fun next => rfl

/-! ## Runs over pairs that the key tells apart -/

theorem pair_of_parse {record : StoredExecutionStateV1}
    (h : record.parse datetime = some record) :
    Accepted (record.state.scope, record.state.stateId) := by
  have hstate := (StoredExecutionStateV1.parse_eq_some h).2.1
  have hvalid := (ExecutionStateV1.parse_eq_some hstate).1
  exact ⟨hvalid.scope, hvalid.stateId⟩

/-- Every record of the store is of a pair of `S`. -/
def RecordsWithin (S : Set (String × String)) (store : InMemoryExecutionStateStore) : Prop :=
  ∀ key record, store.records.get key = some record →
    (record.state.scope, record.state.stateId) ∈ S

theorem recordsWithin_storeAfterAll (h : ∀ op ∈ ops, Within datetime S op) :
    RecordsWithin S (storeAfterAll datetime ops) := by
  refine storeAfterAll_invariant (fun _ _ hn => nomatch hn) fun store op hop hs => ?_
  intro key record hget
  exact (get_storeAfter_eq_some hget).elim (hs key record) fun hnew => h op hop _ hnew.2

theorem get_storeAfter_of_ne (op : StateStoreOp) (hp : op.pair datetime = some p)
    (hkey : Accepted p → pairKey p ≠ pairKey q) :
    (storeAfter datetime store op).records.get (pairKey q) = store.records.get (pairKey q) := by
  rcases storeAfter_cases store op with heq | ⟨rfl, -⟩ | ⟨next, hpair, hself, heq, -⟩
  · rw [heq]
  · cases hp
  · obtain rfl := Option.some.inj (hp.symm.trans hpair)
    rw [heq]
    exact OrderedMap.get_set_of_ne (hkey (pair_of_parse hself)).symm

theorem isolated_of_keys (hkeys : ∀ p ∈ S, Accepted p → ∀ q ∈ S, pairKey p = pairKey q → p = q)
    (h : ∀ op ∈ ops, Within datetime S op) : Isolated datetime localeCompare S ops where
  frame := by
    intro pre op post p hops hp q hq hne
    refine sameReports_of_get (recorded_storeAfterAll _) (recorded_storeAfterAll _) ?_
    have hpS : p ∈ S := h op (by rw [hops]; simp) p hp
    rw [storeAfterAll_concat, get_storeAfter_of_ne op hp]
    exact fun hacc hkey => hne (hkeys p hpS hacc q hq hkey).symm
  exact := by
    intro pre scope stateId post record hops hget
    have hrecorded : Recorded datetime (storeAfterAll datetime pre) := recorded_storeAfterAll pre
    have hpre : RecordsWithin S (storeAfterAll datetime pre) :=
      recordsWithin_storeAfterAll fun op hop => h op (by rw [hops]; simp [hop])
    rw [hrecorded.get] at hget
    have hstored := Except.ok.inj hget
    obtain ⟨hself, hkey⟩ := hrecorded _ _ hstored
    have hS : (scope, stateId) ∈ S :=
      h (.get scope stateId) (by rw [hops]; simp) (scope, stateId) rfl
    exact hkeys _ (hpre _ _ hstored) (pair_of_parse hself) _ hS hkey

/-! ## A run that needs the key -/

/-- A state of a pair. -/
def stateOf (now : String) (p : String × String) : ExecutionStateV1 where
  stateId := p.2
  scope := p.1
  taskBrief := "task"
  currentStage := .triage
  activeRole := .triage
  updatedAt := now

theorem stateOf_parse {now : String} (hnow : datetime now = true) (h : Accepted p) :
    (stateOf now p).parse datetime = some (stateOf now p) := by
  refine ExecutionStateV1.Valid.parse {
    stateId := h.2
    scope := h.1
    taskBrief := show name "task" = some "task" from by decide +kernel
    hypothesis := rfl
    constraints := rfl
    contract := rfl
    anchor := rfl
    lists := rfl
    updatedAt := hnow }

/-- Calls about the pairs of a set are isolated in every run exactly when the joined key
tells the pairs of the set apart. -/
theorem isolated_iff {now : String} (hnow : datetime now = true) :
    (∀ ops, (∀ op ∈ ops, Within datetime S op) → Isolated datetime localeCompare S ops) ↔
      ∀ p ∈ S, Accepted p → ∀ q ∈ S, pairKey p = pairKey q → p = q := by
  constructor
  · intro h p hp hacc q hq hkey
    by_contra hne
    have hparse := stateOf_parse hnow hacc
    have hpair : (StateStoreOp.put (stateOf now p)).pair datetime = some p := by
      simp only [StateStoreOp.pair, hparse, Option.map_some]
      rfl
    have hwithin : ∀ op ∈ [StateStoreOp.put (stateOf now p)], Within datetime S op := by
      intro op hop r hr
      obtain rfl := List.mem_singleton.1 hop
      obtain rfl := Option.some.inj (hpair.symm.trans hr)
      exact hp
    have hhas := ((h _ hwithin).frame [] _ [] p rfl hpair q hq (Ne.symm hne)).has
    have hput : (InMemoryExecutionStateStore.new).put datetime (stateOf now p) =
        .ok (⟨stateOf now p, 1, none, none⟩, ⟨OrderedMap.empty.set (pairKey p)
          ⟨stateOf now p, 1, none, none⟩⟩) := by
      have hrecord : StoredExecutionStateV1.parse datetime ⟨stateOf now p, 1, none, none⟩ =
          some ⟨stateOf now p, 1, none, none⟩ := by
        simp [StoredExecutionStateV1.parse, hparse, nullableName, nullableText]
      simp only [InMemoryExecutionStateStore.put, InMemoryExecutionStateStore.new, hparse,
        orThrow, bind, Except.bind, OrderedMap.get_empty, Option.map_none, Option.getD_none,
        Option.bind_none, hrecord]
      rfl
    have hafter : (storeAfterAll datetime [.put (stateOf now p)]).has q.1 q.2 = true := by
      simp only [storeAfterAll, List.foldl_cons, List.foldl_nil, storeAfter, hput]
      show (OrderedMap.get _ (pairKey q)).isSome = true
      rw [← hkey, OrderedMap.get_set_self, Option.isSome_some]
    rw [List.nil_append, hafter] at hhas
    cases hhas
  · intro hkeys ops hops
    exact isolated_of_keys hkeys hops

theorem sampleTime_now : sampleTime "2026-01-01T00:00:00Z" = true := by decide +kernel

/-- An order of ids that agrees with `localeCompare` on the ids below. -/
def sampleCompare (a b : String) : Int := if a < b then -1 else if a = b then 0 else 1

theorem sampleStates_isolated :
    sampleTime "2026-01-01T00:00:00Z" = true ∧
      ∀ ops, (∀ op ∈ ops, Within sampleTime {("default", "state-1"), ("default", "state-2")} op) →
        Isolated sampleTime sampleCompare {("default", "state-1"), ("default", "state-2")} ops :=
  ⟨sampleTime_now, (isolated_iff sampleTime_now).2 (by
    rintro p (rfl | rfl) - q (rfl | rfl) hkey
    · rfl
    · exact absurd hkey (by decide +kernel)
    · exact absurd hkey (by decide +kernel)
    · rfl)⟩

/-- A state of scope `a::b` answers for the scope `a`. -/
theorem joinedPairs_not_isolated :
    Accepted ("a::b", "c") ∧ Accepted ("a", "b::c") ∧
      (storeAfterAll sampleTime [.put (stateOf "2026-01-01T00:00:00Z" ("a::b", "c"))]).get
          sampleTime "a" "b::c" =
        .ok (some ⟨stateOf "2026-01-01T00:00:00Z" ("a::b", "c"), 1, none, none⟩) ∧
      ¬ Isolated sampleTime sampleCompare {("a::b", "c"), ("a", "b::c")}
        [.put (stateOf "2026-01-01T00:00:00Z" ("a::b", "c")), .get "a" "b::c"] := by
  have hget : (storeAfterAll sampleTime
      [.put (stateOf "2026-01-01T00:00:00Z" ("a::b", "c"))]).get sampleTime "a" "b::c" =
        .ok (some ⟨stateOf "2026-01-01T00:00:00Z" ("a::b", "c"), 1, none, none⟩) := by
    decide +kernel
  refine ⟨by decide +kernel, by decide +kernel, hget, fun h => ?_⟩
  have hpair := h.exact _ "a" "b::c" [] _ rfl hget
  exact absurd hpair (by decide +kernel)

end AionisCore.Execution
