import AionisCore.Execution.Transitions

/-!
# The history of an execution state

After any sequence of transitions a validation is completed as its last event
says, and a blocker is unresolved as its last event says. A name without events
stays as the initial state has it.
-/

namespace AionisCore.Execution

open Lib Lib.JsString Lib.Zod

/-- What a transition says about a validation: added (`false`) or completed (`true`). -/
def validationEvent (v : String) : TransitionChange → Option Bool
  | .validationAdded validations => if Lists validations v then some false else none
  | .validationCompleted validations => if Lists validations v then some true else none
  | _ => none

/-- What a transition says about a blocker: cleared (`false`) or recorded (`true`). -/
def blockerEvent (v : String) : TransitionChange → Option Bool
  | .blockerCleared blockers => if Lists blockers v then some false else none
  | .blockerRecorded blockers => if Lists blockers v then some true else none
  | _ => none

/-- The last event of a sequence of transitions. -/
def lastEvent (event : TransitionChange → Option Bool) (ts : List ExecutionStateTransitionV1) :
    Option Bool :=
  (ts.filterMap (event ·.change)).getLast?

/-- A name is switched on by its last event, or was on and has no event. -/
def OnAfter (before : Prop) (last : Option Bool) : Prop :=
  last = some true ∨ last = none ∧ before

/-- No pending validation is completed, up to trimming. -/
def Apart (s : ExecutionStateV1) : Prop :=
  ∀ v, ¬ (Lists s.pendingValidations v ∧ Lists s.completedValidations v)

/-- The transition passes its schema and names the state. -/
def AddressedTo (datetime : String → Bool) (state : ExecutionStateV1)
    (t : ExecutionStateTransitionV1) : Prop :=
  ∃ t', t.parse datetime = some t' ∧ t'.stateId = state.stateId ∧ t'.scope = state.scope

/-- `state` becomes `final` under the transitions `ts` as their events say. -/
structure Follows (datetime : String → Bool) (state final : ExecutionStateV1)
    (ts : List ExecutionStateTransitionV1) : Prop where
  valid : (final.parse datetime).isSome = true
  apart : Apart final
  completed : ∀ v, ¬ Blank v → (Lists final.completedValidations v ↔
    OnAfter (Lists state.completedValidations v) (lastEvent (validationEvent v) ts))
  unresolved : ∀ v, ¬ Blank v → (Lists final.unresolvedBlockers v ↔
    OnAfter (Lists state.unresolvedBlockers v) (lastEvent (blockerEvent v) ts))

def applyTransitions (datetime : String → Bool) (state : ExecutionStateV1)
    (ts : List ExecutionStateTransitionV1) : Except ExecutionStateError ExecutionStateV1 :=
  ts.foldlM (applyExecutionStateTransition datetime) state

variable {datetime : String → Bool} {s s' : ExecutionStateV1} {c c' : TransitionChange}
  {t t' : ExecutionStateTransitionV1} {ts : List ExecutionStateTransitionV1} {v : String}

/-! ## One step -/

theorem Apart.assign (h : Apart s) (c : TransitionChange) : Apart (c.assign s) := by
  cases c with
  | validationAdded vs =>
    intro v ⟨hp, hc⟩
    obtain ⟨hp, hne⟩ := lists_uniqKeepOrder.1 hp
    obtain ⟨hc, hkeep⟩ := lists_without.1 hc
    rcases lists_append.1 hp with hp | hp
    · exact h v ⟨hp, hc⟩
    · exact hne (hkeep hp)
  | validationCompleted vs =>
    intro v ⟨hp, hc⟩
    obtain ⟨hp, hkeep⟩ := lists_without.1 hp
    obtain ⟨hc, hne⟩ := lists_uniqKeepOrder.1 hc
    rcases lists_append.1 hc with hc | hc
    · exact h v ⟨hp, hc⟩
    · exact hne (hkeep hc)
  | _ => exact h

theorem lists_without_onAfter {xs ys : List String} (hv : ¬ Blank v) :
    Lists (without xs ys) v ↔ OnAfter (Lists xs v) (if Lists ys v then some false else none) := by
  rw [lists_without]
  by_cases hy : Lists ys v
  · rw [if_pos hy]
    refine iff_of_false (fun h => hv (h.2 hy)) ?_
    rintro (h | ⟨h, -⟩)
    · cases h
    · cases h
  · rw [if_neg hy]
    constructor
    · intro h
      exact .inr ⟨rfl, h.1⟩
    · rintro (h | ⟨-, h⟩)
      · cases h
      · exact ⟨h, fun hys => absurd hys hy⟩

theorem lists_added_onAfter {xs ys : List String} (hv : ¬ Blank v) :
    Lists (uniqKeepOrder (xs ++ ys)) v ↔
      OnAfter (Lists xs v) (if Lists ys v then some true else none) := by
  rw [lists_uniqKeepOrder, lists_append]
  by_cases hy : Lists ys v
  · rw [if_pos hy]
    exact iff_of_true ⟨.inr hy, hv⟩ (.inl rfl)
  · rw [if_neg hy]
    constructor
    · rintro ⟨hx | hys, -⟩
      · exact .inr ⟨rfl, hx⟩
      · exact absurd hys hy
    · rintro (h | ⟨-, h⟩)
      · cases h
      · exact ⟨.inl h, hv⟩

theorem onAfter_none (before : Prop) : OnAfter before none ↔ before := by
  simp [OnAfter]

theorem completed_assign (hv : ¬ Blank v) (c : TransitionChange) :
    Lists (c.assign s).completedValidations v ↔
      OnAfter (Lists s.completedValidations v) (validationEvent v c) := by
  cases c with
  | validationAdded vs => exact lists_without_onAfter hv
  | validationCompleted vs => exact lists_added_onAfter hv
  | _ => exact (onAfter_none _).symm

theorem unresolved_assign (hv : ¬ Blank v) (c : TransitionChange) :
    Lists (c.assign s).unresolvedBlockers v ↔
      OnAfter (Lists s.unresolvedBlockers v) (blockerEvent v c) := by
  cases c with
  | blockerCleared bs => exact lists_without_onAfter hv
  | blockerRecorded bs => exact lists_added_onAfter hv
  | _ => exact (onAfter_none _).symm

/-- A transition as submitted and as parsed has the same events. -/
theorem event_parse (h : c.parse = some c') :
    validationEvent v c' = validationEvent v c ∧ blockerEvent v c' = blockerEvent v c := by
  cases c with
  | validationAdded vs =>
    obtain ⟨vs', hvs, rfl⟩ := Option.map_eq_some_iff.1 h
    exact ⟨by simp only [validationEvent, lists_names hvs], rfl⟩
  | validationCompleted vs =>
    obtain ⟨vs', hvs, rfl⟩ := Option.map_eq_some_iff.1 h
    exact ⟨by simp only [validationEvent, lists_names hvs], rfl⟩
  | blockerRecorded bs =>
    obtain ⟨bs', hbs, rfl⟩ := Option.map_eq_some_iff.1 h
    exact ⟨rfl, by simp only [blockerEvent, lists_names hbs]⟩
  | blockerCleared bs =>
    obtain ⟨bs', hbs, rfl⟩ := Option.map_eq_some_iff.1 h
    exact ⟨rfl, by simp only [blockerEvent, lists_names hbs]⟩
  | stageStarted stage role => obtain rfl := Option.some.inj h; exact ⟨rfl, rfl⟩
  | stageCompleted stage role => obtain rfl := Option.some.inj h; exact ⟨rfl, rfl⟩
  | hypothesisAccepted | pathRejected | reviewerContractUpdated | resumeAnchorUpdated =>
    obtain ⟨x, -, rfl⟩ := Option.map_eq_some_iff.1 h
    exact ⟨rfl, rfl⟩

/-! ## Every run -/

theorem lastEvent_cons {event : TransitionChange → Option Bool} :
    lastEvent event (t :: ts) = (lastEvent event ts).or (event t.change) := by
  unfold lastEvent
  rw [List.filterMap_cons]
  cases h : event t.change with
  | none => simp
  | some b => simp [List.getLast?_cons]

theorem onAfter_or {before : Prop} {last first : Option Bool} :
    OnAfter before (last.or first) ↔ OnAfter (OnAfter before first) last := by
  cases last with
  | none => simp [OnAfter]
  | some b => simp [OnAfter]

theorem Apart.nextState (h : Apart s) : Apart (nextState s t) :=
  Apart.assign (s := { s with updatedAt := t.atTime }) h t.change

theorem applyTransitions_cons (h : applyExecutionStateTransition datetime s t = .ok s') :
    applyTransitions datetime s (t :: ts) = applyTransitions datetime s' ts := by
  unfold applyTransitions
  rw [List.foldlM_cons, h]
  rfl

/-- One step before a run that follows its events. -/
theorem Follows.cons {final : ExecutionStateV1} (hs : s.parse datetime = some s')
    (ht : t.parse datetime = some t') (h : Follows datetime (nextState s' t') final ts) :
    Follows datetime s final (t :: ts) := by
  obtain ⟨-, -, -, -, hdone, hopen⟩ := ExecutionStateV1.parse_eq_some hs
  have hevent : ∀ v, validationEvent v t'.change = validationEvent v t.change ∧
      blockerEvent v t'.change = blockerEvent v t.change := fun v =>
    event_parse (ExecutionStateTransitionV1.parse_eq_some ht).2.2.2.2.2
  refine { valid := h.valid, apart := h.apart, completed := ?_, unresolved := ?_ }
  · intro v hv
    have hstep := completed_assign (s := { s' with updatedAt := t'.atTime }) hv t'.change
    rw [h.completed v hv, lastEvent_cons, onAfter_or, ← (hevent v).1, ← hdone]
    unfold OnAfter at hstep ⊢
    rw [nextState, hstep]
  · intro v hv
    have hstep := unresolved_assign (s := { s' with updatedAt := t'.atTime }) hv t'.change
    rw [h.unresolved v hv, lastEvent_cons, onAfter_or, ← (hevent v).2, ← hopen]
    unfold OnAfter at hstep ⊢
    rw [nextState, hstep]

theorem follows_run (hs : s.parse datetime = some s') (hd : Apart s)
    (hts : ∀ t ∈ ts, AddressedTo datetime s' t) :
    ∃ final, applyTransitions datetime s ts = .ok final ∧ Follows datetime s final ts := by
  induction ts generalizing s s' with
  | nil =>
    refine ⟨s, rfl, { valid := by rw [hs]; rfl, apart := hd, completed := ?_, unresolved := ?_ }⟩
    · intro v _
      exact (onAfter_none _).symm
    · intro v _
      exact (onAfter_none _).symm
  | cons t ts ih =>
    obtain ⟨t', ht, hid, hscope⟩ := hts t List.mem_cons_self
    obtain ⟨hok, hvalid⟩ := applyExecutionStateTransition_ok hs ht hid.symm hscope.symm
    obtain ⟨-, -, -, hpend, hdone, -⟩ := ExecutionStateV1.parse_eq_some hs
    have hd' : Apart s' := by
      unfold Apart
      rw [hpend, hdone]
      exact hd
    obtain ⟨hid', hscope'⟩ := assign_addressee { s' with updatedAt := t'.atTime } t'.change
    have hrest : ∀ u ∈ ts, AddressedTo datetime (nextState s' t') u := by
      intro u hu
      obtain ⟨u', hu', hui, hus⟩ := hts u (List.mem_cons_of_mem _ hu)
      exact ⟨u', hu', hui.trans hid'.symm, hus.trans hscope'.symm⟩
    obtain ⟨final, hrun, hfollows⟩ := ih hvalid.parse hd'.nextState hrest
    exact ⟨final, (applyTransitions_cons hok).trans hrun, hfollows.cons hs ht⟩

/-- Every sequence of transitions addressed to a valid state runs through, and after each
of its prefixes the state is what the events so far say. -/
theorem transitions_follow (hs : s.parse datetime = some s') (hd : Apart s)
    (hts : ∀ t ∈ ts, AddressedTo datetime s' t) :
    ∀ pre, pre <+: ts →
      ∃ final, applyTransitions datetime s pre = .ok final ∧ Follows datetime s final pre := by
  intro pre hpre
  exact follows_run hs hd fun t ht => hts t (hpre.subset ht)

/-! ## A concrete state -/

/-- The state after the unit tests are completed. -/
def sampleFinal : ExecutionStateV1 :=
  { sampleState with pendingValidations := [], completedValidations := ["unit tests"] }

theorem sampleState_apart : Apart sampleState := by
  rintro v ⟨⟨x, hx, hxv⟩, y, hy, hyv⟩
  obtain rfl := List.mem_singleton.1 hx
  obtain rfl := List.mem_singleton.1 hy
  exact absurd (hxv.trans hyv.symm) (by decide +kernel)

theorem sampleTransition_addressed :
    AddressedTo sampleTime sampleState
      (sampleTransition (.validationCompleted [" unit tests"])) :=
  ⟨{ sampleTransition (.validationCompleted ["unit tests"]) with stateId := "state-1" },
    by decide +kernel, rfl, rfl⟩

theorem sampleState_follows :
    sampleState.parse sampleTime = some sampleState ∧ Apart sampleState ∧
      ∀ pre, pre <+: [sampleTransition (.validationCompleted [" unit tests"])] →
        ∃ final, applyTransitions sampleTime sampleState pre = .ok final ∧
          Follows sampleTime sampleState final pre :=
  ⟨sampleState_parse, sampleState_apart,
    transitions_follow sampleState_parse sampleState_apart fun _ ht =>
      List.mem_singleton.1 ht ▸ sampleTransition_addressed⟩

/-- Completing the unit tests drops the blank validation, which has no event, and a blocker
is unresolved without any event. -/
theorem sampleFinal_unannounced :
    sampleState.parse sampleTime = some sampleState ∧ Apart sampleState ∧
      AddressedTo sampleTime sampleState
        (sampleTransition (.validationCompleted [" unit tests"])) ∧
      applyTransitions sampleTime sampleState
        [sampleTransition (.validationCompleted [" unit tests"])] = .ok sampleFinal ∧
      (OnAfter (Lists sampleState.completedValidations " ") (lastEvent (validationEvent " ")
          [sampleTransition (.validationCompleted [" unit tests"])]) ∧
        ¬ Lists sampleFinal.completedValidations " ") ∧
      Lists sampleFinal.unresolvedBlockers "flaky runner" ∧
      lastEvent (blockerEvent "flaky runner")
        [sampleTransition (.validationCompleted [" unit tests"])] ≠ some true := by
  refine ⟨sampleState_parse, sampleState_apart, sampleTransition_addressed, ?_, ?_, ?_, ?_⟩
  · decide +kernel
  · unfold OnAfter
    decide +kernel
  · decide +kernel
  · decide +kernel

end AionisCore.Execution
