import AionisCore.Execution.StateStore

/-!
# Revisions of execution states

A transition that expects the revision a client has read meets the state the client
has read, as long as no `put` replaces the state of a record: `put` keeps the revision
of the record it overwrites.
-/

namespace AionisCore.Execution

open Lib

/-- In a run of `get` by one client, other calls, and a transition that expects the revision
read, the transition meets the state read. The record is not cleared in between. -/
def RevisionLaw (datetime : String → Bool) (ops : List StateStoreOp) : Prop :=
  ∀ pre scope stateId mid t post seen transition out,
    ops = pre ++ .get scope stateId :: mid ++ .applyTransition t :: post →
    .clear ∉ mid →
    (storeAfterAll datetime pre).get datetime scope stateId = .ok (some seen) →
    t.parse datetime = some transition →
    stateStoreKey transition.scope transition.stateId = stateStoreKey scope stateId →
    transition.expectedRevision = some seen.revision →
    (storeAfterAll datetime (pre ++ .get scope stateId :: mid)).applyTransition datetime t =
      .ok out →
    ∃ existing, (storeAfterAll datetime (pre ++ .get scope stateId :: mid)).records.get
        (stateStoreKey transition.scope transition.stateId) = some existing ∧
      existing.state = seen.state

/-- The state a `put` stores is new to its key or the one stored there already. -/
def KeepsState (datetime : String → Bool) (store : InMemoryExecutionStateStore) :
    StateStoreOp → Prop
  | .put stateInput => ∀ state, stateInput.parse datetime = some state →
      ∀ existing, store.records.get (stateStoreKey state.scope state.stateId) = some existing →
        existing.state = state
  | _ => True

/-- Every step of a run meets `KeepsState`. -/
def RunKeepsState (datetime : String → Bool) (ops : List StateStoreOp) : Prop :=
  ∀ pre op post, ops = pre ++ op :: post → KeepsState datetime (storeAfterAll datetime pre) op

/-- Since `seen` was read under a key, its revision stands for its state there. -/
def Tracks (key : String) (seen : StoredExecutionStateV1)
    (store : InMemoryExecutionStateStore) : Prop :=
  ∃ record, store.records.get key = some record ∧ seen.revision ≤ record.revision ∧
    (record.revision = seen.revision → record.state = seen.state)

variable {datetime : String → Bool} {store : InMemoryExecutionStateStore} {key : String}
  {seen : StoredExecutionStateV1} {op : StateStoreOp}

theorem Tracks.storeAfter (h : Tracks key seen store) (hclear : op ≠ .clear)
    (hkeep : KeepsState datetime store op) : Tracks key seen (storeAfter datetime store op) := by
  obtain ⟨record, hget, hle, hstate⟩ := h
  rcases storeAfter_cases store op with heq | ⟨hc, -⟩ | ⟨next, -, -, heq, hwrite⟩
  · rw [heq]
    exact ⟨record, hget, hle, hstate⟩
  · exact absurd hc hclear
  · rw [heq]
    by_cases hkey : key = stateStoreKey next.state.scope next.state.stateId
    · subst hkey
      refine ⟨next, OrderedMap.get_set_self, ?_⟩
      rcases hwrite with ⟨s, rfl, hs, hrev⟩ | ⟨t, old, rfl, hold, hrev⟩
      · have hsame := hkeep next.state hs record hget
        rw [hget, Option.map_some, Option.getD_some] at hrev
        exact ⟨hrev ▸ hle, fun hr => hsame ▸ hstate (hrev ▸ hr)⟩
      · obtain rfl := Option.some.inj (hget.symm.trans hold)
        exact ⟨by omega, fun hr => absurd hr (by omega)⟩
    · exact ⟨record, (OrderedMap.get_set_of_ne hkey).trans hget, hle, hstate⟩

theorem tracks_storeAfterAll {ops pre : List StateStoreOp} (mid post : List StateStoreOp)
    (hkeep : RunKeepsState datetime ops) (hops : ops = pre ++ mid ++ post)
    (hclear : .clear ∉ mid) (h : Tracks key seen (storeAfterAll datetime pre)) :
    Tracks key seen (storeAfterAll datetime (pre ++ mid)) := by
  induction mid generalizing pre with
  | nil =>
    rw [List.append_nil]
    exact h
  | cons op mid ih =>
    have hop : op ≠ .clear := fun he => hclear (he ▸ List.mem_cons_self)
    have hstep := h.storeAfter hop (hkeep pre op (mid ++ post) (by rw [hops]; simp))
    rw [← storeAfterAll_concat] at hstep
    have hrest := ih (by rw [hops]; simp) (fun hm => hclear (List.mem_cons_of_mem _ hm)) hstep
    rwa [List.append_assoc, List.singleton_append] at hrest

/-- A run whose `put`s replace no state keeps the revision law. -/
theorem revisionLaw_of_keepsState {ops : List StateStoreOp}
    (h : RunKeepsState datetime ops) : RevisionLaw datetime ops := by
  intro pre scope stateId mid t post seen transition out hops hclear hget ht hkey hexpected hout
  rw [(recorded_storeAfterAll pre).get] at hget
  have hseen : Tracks (stateStoreKey scope stateId) seen (storeAfterAll datetime pre) :=
    ⟨seen, Except.ok.inj hget, Nat.le_refl _, fun _ => rfl⟩
  have htracks := tracks_storeAfterAll (.get scope stateId :: mid) (.applyTransition t :: post) h
    (by rw [hops]) (by simpa using hclear) hseen
  obtain ⟨record, hrec, -, hstate⟩ := htracks
  obtain ⟨next, store'⟩ := out
  obtain ⟨t', old, ht', hold, hrev, -⟩ := applyTransition_eq_ok hout
  obtain rfl := Option.some.inj (ht.symm.trans ht')
  rw [hkey, hrec] at hold
  obtain rfl := Option.some.inj hold
  rw [hkey]
  exact ⟨record, hrec, hstate (hrev _ hexpected).symm⟩

/-! ## Two clients -/

def expectingTransition : ExecutionStateTransitionV1 :=
  { sampleTransition (.blockerRecorded ["no disk"]) with expectedRevision := some 1 }

/-- One client reads the state, another puts a state, and the first updates what it read. -/
def overwrittenRun (overwrite : ExecutionStateV1) : List StateStoreOp :=
  [.put sampleState, .get "default" "state-1", .put overwrite,
    .applyTransition expectingTransition]

theorem unchangedRun_keepsState : RunKeepsState sampleTime (overwrittenRun sampleState) := by
  intro pre op post hops
  rcases pre with _ | ⟨a, _ | ⟨b, _ | ⟨c, _ | ⟨d, pre⟩⟩⟩⟩ <;>
    simp only [overwrittenRun, List.nil_append, List.cons_append, List.cons.injEq] at hops
  · obtain ⟨rfl, -⟩ := hops
    intro state _ existing hget
    cases hget
  · obtain ⟨-, rfl, -⟩ := hops
    trivial
  · obtain ⟨rfl, rfl, rfl, -⟩ := hops
    intro state hstate existing hget
    obtain rfl := Option.some.inj (sampleState_parse.symm.trans hstate)
    have hstored : ∀ record, (storeAfterAll sampleTime
        [.put sampleState, .get "default" "state-1"]).records.get
          (stateStoreKey sampleState.scope sampleState.stateId) = some record →
        record.state = sampleState := by
      decide +kernel
    exact hstored existing hget
  · obtain ⟨-, -, -, rfl, -⟩ := hops
    trivial
  · simp at hops

theorem unchangedRun_revisionLaw :
    RunKeepsState sampleTime (overwrittenRun sampleState) ∧
      RevisionLaw sampleTime (overwrittenRun sampleState) :=
  ⟨unchangedRun_keepsState, revisionLaw_of_keepsState unchangedRun_keepsState⟩

def rewrittenState : ExecutionStateV1 := { sampleState with taskBrief := "rewrite the parser" }

/-- The overwriting `put` leaves the revision at 1, and the update that expects revision 1
applies to the state its client has not seen. -/
theorem rewrittenRun_not_revisionLaw :
    ¬ RevisionLaw sampleTime (overwrittenRun rewrittenState) := by
  intro h
  have happlies : ((storeAfterAll sampleTime [.put sampleState, .get "default" "state-1",
      .put rewrittenState]).applyTransition sampleTime expectingTransition).isOk = true := by
    decide +kernel
  cases hout : (storeAfterAll sampleTime [.put sampleState, .get "default" "state-1",
      .put rewrittenState]).applyTransition sampleTime expectingTransition with
  | error e =>
    rw [hout] at happlies
    cases happlies
  | ok out =>
    obtain ⟨existing, hget, hstate⟩ := h [.put sampleState] "default" "state-1"
      [.put rewrittenState] expectingTransition [] { state := sampleState, revision := 1 }
      { expectingTransition with stateId := "state-1" } out rfl (by decide +kernel)
      (by decide +kernel) (by decide +kernel) rfl rfl hout
    have hstored : ∀ record, (storeAfterAll sampleTime [.put sampleState,
        .get "default" "state-1", .put rewrittenState]).records.get "default::state-1" =
          some record → record.state = rewrittenState := by
      decide +kernel
    exact absurd ((hstored existing hget).symm.trans hstate) (by decide +kernel)

end AionisCore.Execution
