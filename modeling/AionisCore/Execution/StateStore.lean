import AionisCore.Execution.Transitions
import AionisCore.Lib.OrderedMap

/-!
# The in-memory store of execution states

Records live in one map, keyed by scope and state id joined with `::`. `put`
overwrites the state of a record and keeps its revision, `applyTransition` checks
an expected revision and advances it. An operation that throws leaves the records
as they are.
-/

namespace AionisCore.Execution

open Lib Lib.JsString Lib.Zod

structure StoredExecutionStateV1 where
  state : ExecutionStateV1
  revision : Nat
  lastTransitionType : Option String := none
  lastTransitionAt : Option String := none
  deriving DecidableEq, Repr

def StoredExecutionStateV1.parse (datetime : String → Bool) (record : StoredExecutionStateV1) :
    Option StoredExecutionStateV1 := do
  let state ← record.state.parse datetime
  guard (0 < record.revision)
  let lastTransitionType ← nullableName record.lastTransitionType
  guard (∀ at_ ∈ record.lastTransitionAt, datetime at_)
  return { record with state, lastTransitionType }

def stateStoreKey (scope stateId : String) : String := s!"{scope}::{stateId}"

/-- A transition without an expected revision applies to any. -/
def checkRevision (expected : Option Nat) (revision : Nat) : Except ExecutionStateError Unit :=
  match expected with
  | some expected =>
    if expected = revision then .ok ()
    else .error (.thrown
      s!"execution state revision mismatch: expected {expected}, got {revision}")
  | none => .ok ()

structure InMemoryExecutionStateStore where
  records : OrderedMap String StoredExecutionStateV1

namespace InMemoryExecutionStateStore

/-- `new InMemoryExecutionStateStore()`. -/
def new : InMemoryExecutionStateStore := { records := .empty }

def get (datetime : String → Bool) (store : InMemoryExecutionStateStore)
    (scope stateId : String) : Except ExecutionStateError (Option StoredExecutionStateV1) :=
  match store.records.get (stateStoreKey scope stateId) with
  | some record => (orThrow (record.parse datetime) .schema).map some
  | none => .ok none

def put (datetime : String → Bool) (store : InMemoryExecutionStateStore)
    (stateInput : ExecutionStateV1) :
    Except ExecutionStateError (StoredExecutionStateV1 × InMemoryExecutionStateStore) := do
  let state ← orThrow (stateInput.parse datetime) .schema
  let key := stateStoreKey state.scope state.stateId
  let existing := store.records.get key
  let next ← orThrow (StoredExecutionStateV1.parse datetime {
    state
    revision := (existing.map (·.revision)).getD 1
    lastTransitionType := existing.bind (·.lastTransitionType)
    lastTransitionAt := existing.bind (·.lastTransitionAt) }) .schema
  return (next, { records := store.records.set key next })

/-- Records of a scope by state id; the order of ids is `localeCompare`. -/
def listByScope (datetime : String → Bool) (localeCompare : String → String → Int)
    (store : InMemoryExecutionStateStore) (scope : String) :
    Except ExecutionStateError (List StoredExecutionStateV1) := do
  let out ← (store.records.values.filter (·.state.scope = scope)).mapM fun record =>
    orThrow (record.parse datetime) .schema
  return out.mergeSort fun a b => localeCompare a.state.stateId b.state.stateId ≤ 0

def applyTransition (datetime : String → Bool) (store : InMemoryExecutionStateStore)
    (transitionInput : ExecutionStateTransitionV1) :
    Except ExecutionStateError (StoredExecutionStateV1 × InMemoryExecutionStateStore) := do
  let transition ← orThrow (transitionInput.parse datetime) .schema
  let key := stateStoreKey transition.scope transition.stateId
  let existing ← orThrow (store.records.get key)
    (.thrown <| "execution state not found for transition: " ++
      s!"{transition.scope}/{transition.stateId}")
  checkRevision transition.expectedRevision existing.revision
  let nextState ← applyExecutionStateTransition datetime existing.state transition
  let next ← orThrow (StoredExecutionStateV1.parse datetime {
    state := nextState
    revision := existing.revision + 1
    lastTransitionType := some transition.change.type
    lastTransitionAt := some transition.atTime }) .schema
  return (next, { records := store.records.set key next })

def has (store : InMemoryExecutionStateStore) (scope stateId : String) : Bool :=
  (store.records.get (stateStoreKey scope stateId)).isSome

def clear (_store : InMemoryExecutionStateStore) : InMemoryExecutionStateStore := new

end InMemoryExecutionStateStore

/-! ## Runs -/

/-- One call of a client. -/
inductive StateStoreOp where
  | get (scope stateId : String)
  | has (scope stateId : String)
  | listByScope (scope : String)
  | put (stateInput : ExecutionStateV1)
  | applyTransition (transitionInput : ExecutionStateTransitionV1)
  | clear
  deriving DecidableEq, Repr

/-- The scope and state id a call is about. -/
def StateStoreOp.pair (datetime : String → Bool) : StateStoreOp → Option (String × String)
  | .get scope stateId => some (scope, stateId)
  | .has scope stateId => some (scope, stateId)
  | .put stateInput => (stateInput.parse datetime).map fun state => (state.scope, state.stateId)
  | .applyTransition transitionInput =>
    (transitionInput.parse datetime).map fun transition => (transition.scope, transition.stateId)
  | .listByScope _ => none
  | .clear => none

/-- The store a call leaves behind. -/
def storeAfter (datetime : String → Bool) (store : InMemoryExecutionStateStore) :
    StateStoreOp → InMemoryExecutionStateStore
  | .get .. | .has .. | .listByScope _ => store
  | .put stateInput =>
    match store.put datetime stateInput with
    | .ok (_, next) => next
    | .error _ => store
  | .applyTransition transitionInput =>
    match store.applyTransition datetime transitionInput with
    | .ok (_, next) => next
    | .error _ => store
  | .clear => store.clear

/-- The store after the calls of all clients, in the order they were served. -/
def storeAfterAll (datetime : String → Bool) (ops : List StateStoreOp) :
    InMemoryExecutionStateStore :=
  ops.foldl (storeAfter datetime) .new

variable {datetime : String → Bool} {store : InMemoryExecutionStateStore}
  {record next : StoredExecutionStateV1}

theorem storeAfterAll_concat (ops : List StateStoreOp) (op : StateStoreOp) :
    storeAfterAll datetime (ops ++ [op]) = storeAfter datetime (storeAfterAll datetime ops) op := by
  simp [storeAfterAll]

/-- What every operation preserves, every run from the empty store preserves. -/
theorem storeAfterAll_invariant {P : InMemoryExecutionStateStore → Prop}
    {ops : List StateStoreOp} (hnew : P .new)
    (hstep : ∀ store, ∀ op ∈ ops, P store → P (storeAfter datetime store op)) :
    P (storeAfterAll datetime ops) := by
  induction ops using List.reverseRecOn with
  | nil => exact hnew
  | append_singleton ops op ih =>
    rw [storeAfterAll_concat]
    exact hstep _ op (by simp) (ih fun store o ho => hstep store o (List.mem_append_left _ ho))

/-! ## What a call does to the records -/

theorem StoredExecutionStateV1.parse_eq_some (h : record.parse datetime = some next) :
    next.parse datetime = some next ∧ record.state.parse datetime = some next.state ∧
      next.revision = record.revision := by
  simp only [StoredExecutionStateV1.parse, Option.bind_eq_bind, Option.bind_eq_some_iff,
    guard_eq_some] at h
  obtain ⟨state, hs, -, hrev, type, ht, -, hat, h⟩ := h
  obtain rfl := Option.some.inj h
  have hs' : state.parse datetime = some state := (ExecutionStateV1.parse_eq_some hs).1.parse
  have ht' : nullableName type = some type := nullableText_of_nullableText ht
  refine ⟨?_, hs, rfl⟩
  simp only [StoredExecutionStateV1.parse, Option.bind_eq_bind, Option.bind_eq_some_iff,
    guard_eq_some]
  exact ⟨state, hs', (), hrev, type, ht', (), hat, rfl⟩

/-- A `put` that succeeds stores the parsed state under its own key. -/
theorem put_eq_ok {s : ExecutionStateV1} {store' : InMemoryExecutionStateStore}
    (h : store.put datetime s = .ok (next, store')) :
    s.parse datetime = some next.state ∧ next.parse datetime = some next ∧
      next.revision = ((store.records.get
        (stateStoreKey next.state.scope next.state.stateId)).map (·.revision)).getD 1 ∧
      store' = ⟨store.records.set (stateStoreKey next.state.scope next.state.stateId) next⟩ := by
  obtain ⟨state, hs, h⟩ := bind_eq_ok.1 h
  obtain ⟨rec, hrec, h⟩ := bind_eq_ok.1 h
  rw [orThrow_eq_ok] at hs hrec
  cases h
  obtain ⟨hself, hstate, hrev⟩ := StoredExecutionStateV1.parse_eq_some hrec
  have hsame : next.state = state :=
    (Option.some.inj ((ExecutionStateV1.parse_eq_some hs).1.parse.symm.trans hstate)).symm
  rw [hsame]
  exact ⟨hs, hself, hrev, rfl⟩

theorem checkRevision_eq_ok {expected : Option Nat} {revision : Nat} {u : Unit} :
    checkRevision expected revision = .ok u ↔ ∀ r ∈ expected, r = revision := by
  cases expected with
  | none => exact iff_of_true rfl fun r hr => nomatch hr
  | some r =>
    unfold checkRevision
    by_cases hr : r = revision
    · simp [hr]
    · simp [hr]

/-- A transition that succeeds finds a record of the state it is addressed to. -/
theorem applyTransition_eq_ok {t : ExecutionStateTransitionV1}
    {store' : InMemoryExecutionStateStore}
    (h : store.applyTransition datetime t = .ok (next, store')) :
    ∃ t' old, t.parse datetime = some t' ∧
      store.records.get (stateStoreKey t'.scope t'.stateId) = some old ∧
      (∀ r ∈ t'.expectedRevision, r = old.revision) ∧
      (next.state.scope, next.state.stateId) = (t'.scope, t'.stateId) ∧
      next.parse datetime = some next ∧ next.revision = old.revision + 1 ∧
      store' = ⟨store.records.set (stateStoreKey t'.scope t'.stateId) next⟩ := by
  obtain ⟨t', ht, h⟩ := bind_eq_ok.1 h
  obtain ⟨old, hold, h⟩ := bind_eq_ok.1 h
  obtain ⟨u, hu, h⟩ := bind_eq_ok.1 h
  obtain ⟨state, happly, h⟩ := bind_eq_ok.1 h
  obtain ⟨rec, hrec, h⟩ := bind_eq_ok.1 h
  rw [orThrow_eq_ok] at ht hold hrec
  cases h
  obtain ⟨hself, hstate, hrev⟩ := StoredExecutionStateV1.parse_eq_some hrec
  obtain ⟨s', t'', hs, ht', hid, hscope, rfl⟩ := applyExecutionStateTransition_eq_ok happly
  obtain rfl : t' = t'' :=
    Option.some.inj ((ExecutionStateTransitionV1.parse_parse ht).symm.trans ht')
  obtain ⟨hid', hscope'⟩ := assign_addressee { s' with updatedAt := t'.atTime } t'.change
  have hsame : next.state = nextState s' t' := by
    have hvalid := (ExecutionStateV1.parse_eq_some hs).1.nextState ht'
    exact (Option.some.inj (hvalid.parse.symm.trans hstate)).symm
  refine ⟨t', old, ht, hold, checkRevision_eq_ok.1 hu, ?_, hself, hrev, rfl⟩
  rw [hsame, nextState, hid', hscope', ← hid, ← hscope]

/-- A call that changes the records clears them or writes one record under the key of its
own pair. -/
theorem storeAfter_cases (store : InMemoryExecutionStateStore) (op : StateStoreOp) :
    storeAfter datetime store op = store ∨
      op = .clear ∧ storeAfter datetime store op = .new ∨
      ∃ next : StoredExecutionStateV1,
        op.pair datetime = some (next.state.scope, next.state.stateId) ∧
        next.parse datetime = some next ∧
        storeAfter datetime store op =
          ⟨store.records.set (stateStoreKey next.state.scope next.state.stateId) next⟩ ∧
        ((∃ s, op = .put s ∧ s.parse datetime = some next.state ∧
            next.revision = ((store.records.get
              (stateStoreKey next.state.scope next.state.stateId)).map (·.revision)).getD 1) ∨
          ∃ t old, op = .applyTransition t ∧
            store.records.get (stateStoreKey next.state.scope next.state.stateId) = some old ∧
            next.revision = old.revision + 1) := by
  cases op with
  | get | has | listByScope => exact .inl rfl
  | clear => exact .inr (.inl ⟨rfl, rfl⟩)
  | put s =>
    cases h : store.put datetime s with
    | error e =>
      left
      simp only [storeAfter, h]
    | ok out =>
      obtain ⟨next, store'⟩ := out
      obtain ⟨hs, hself, hrev, hstore⟩ := put_eq_ok h
      right
      right
      refine ⟨next, ?_, hself, ?_, .inl ⟨s, rfl, hs, hrev⟩⟩
      · simp only [StateStoreOp.pair, hs, Option.map_some]
      · simp only [storeAfter, h, hstore]
  | applyTransition t =>
    cases h : store.applyTransition datetime t with
    | error e =>
      left
      simp only [storeAfter, h]
    | ok out =>
      obtain ⟨next, store'⟩ := out
      obtain ⟨t', old, ht, hold, -, hpair, hself, hrev, hstore⟩ := applyTransition_eq_ok h
      obtain ⟨hscope, hid⟩ := Prod.mk.inj hpair
      right
      right
      refine ⟨next, ?_, hself, ?_, .inr ⟨t, old, rfl, hscope ▸ hid ▸ hold, hrev⟩⟩
      · simp only [StateStoreOp.pair, ht, Option.map_some, hscope, hid]
      · simp only [storeAfter, h, hstore, hscope, hid]

/-! ## Every record is valid and under its own key -/

/-- The records are as their schema returns them, each under the key of its state. -/
def Recorded (datetime : String → Bool) (store : InMemoryExecutionStateStore) : Prop :=
  ∀ key record, store.records.get key = some record →
    record.parse datetime = some record ∧
      stateStoreKey record.state.scope record.state.stateId = key

/-- A record after a call was there before, or the call is of its pair. -/
theorem get_storeAfter_eq_some {op : StateStoreOp} {key : String} {record : StoredExecutionStateV1}
    (hget : (storeAfter datetime store op).records.get key = some record) :
    store.records.get key = some record ∨ (record.parse datetime = some record ∧
      stateStoreKey record.state.scope record.state.stateId = key) ∧
      op.pair datetime = some (record.state.scope, record.state.stateId) := by
  rcases storeAfter_cases store op with heq | ⟨-, heq⟩ | ⟨next, hpair, hself, heq, -⟩
  all_goals rw [heq] at hget
  · exact .inl hget
  · cases hget
  · by_cases hkey : key = stateStoreKey next.state.scope next.state.stateId
    · subst hkey
      obtain rfl := Option.some.inj (OrderedMap.get_set_self.symm.trans hget)
      exact .inr ⟨⟨hself, rfl⟩, hpair⟩
    · exact .inl ((OrderedMap.get_set_of_ne hkey).symm.trans hget)

theorem Recorded.storeAfter (h : Recorded datetime store) (op : StateStoreOp) :
    Recorded datetime (storeAfter datetime store op) := fun key record hget =>
  (get_storeAfter_eq_some hget).elim (h key record) And.left

theorem recorded_storeAfterAll (ops : List StateStoreOp) :
    Recorded datetime (storeAfterAll datetime ops) :=
  storeAfterAll_invariant (fun _ _ h => nomatch h) fun _ op _ h => h.storeAfter op

/-- In a recorded store `get` returns what is stored. -/
theorem Recorded.get (h : Recorded datetime store) (scope stateId : String) :
    store.get datetime scope stateId = .ok (store.records.get (stateStoreKey scope stateId)) := by
  unfold InMemoryExecutionStateStore.get
  cases hget : store.records.get (stateStoreKey scope stateId) with
  | none => rfl
  | some record =>
    show (orThrow (record.parse datetime) ExecutionStateError.schema).map some = .ok (some record)
    rw [(h _ _ hget).1]
    rfl

end AionisCore.Execution
