import AionisCore.Execution.Types
import AionisCore.Lib.Result

/-!
# Execution state transitions

A transition is addressed to one state and changes its stage, its lists or one of
its records. The lists of a transition are trimmed by its schema, the lists of a
state are trimmed only where a transition rebuilds them.
-/

namespace AionisCore.Execution

open Lib Lib.JsString Lib.Zod

/-- The fields of one kind of transition. -/
inductive TransitionChange where
  | stageStarted (nextStage : ExecutionStage) (nextRole : ExecutionRole)
  | stageCompleted (completedStage : ExecutionStage) (completedRole : Option ExecutionRole)
  | validationAdded (validations : List String)
  | validationCompleted (validations : List String)
  | hypothesisAccepted (hypothesis : String)
  | pathRejected (path : String)
  | blockerRecorded (blockers : List String)
  | blockerCleared (blockers : List String)
  | reviewerContractUpdated (reviewerContract : Option ReviewerContract)
  | resumeAnchorUpdated (resumeAnchor : Option ResumeAnchor)
  deriving DecidableEq, Repr

structure ExecutionStateTransitionV1 where
  transitionId : String
  stateId : String
  scope : String
  actorRole : ExecutionRole
  atTime : String
  expectedRevision : Option Nat := none
  change : TransitionChange
  deriving DecidableEq, Repr

/-- `transition.type`. -/
def TransitionChange.type : TransitionChange → String
  | .stageStarted .. => "stage_started"
  | .stageCompleted .. => "stage_completed"
  | .validationAdded _ => "validation_added"
  | .validationCompleted _ => "validation_completed"
  | .hypothesisAccepted _ => "hypothesis_accepted"
  | .pathRejected _ => "path_rejected"
  | .blockerRecorded _ => "blocker_recorded"
  | .blockerCleared _ => "blocker_cleared"
  | .reviewerContractUpdated _ => "reviewer_contract_updated"
  | .resumeAnchorUpdated _ => "resume_anchor_updated"

/-- A schema error, or an error thrown with a message. -/
inductive ExecutionStateError where
  | schema
  | thrown (message : String)
  deriving DecidableEq, Repr

/-! ## Schemas -/

/-- `z.array(z.string().trim().min(1))`. -/
def names (xs : List String) : Option (List String) := xs.mapM name

def TransitionChange.parse : TransitionChange → Option TransitionChange
  | .stageStarted stage role => some (.stageStarted stage role)
  | .stageCompleted stage role => some (.stageCompleted stage role)
  | .validationAdded validations => (names validations).map .validationAdded
  | .validationCompleted validations => (names validations).map .validationCompleted
  | .hypothesisAccepted hypothesis => (name hypothesis).map .hypothesisAccepted
  | .pathRejected path => (name path).map .pathRejected
  | .blockerRecorded blockers => (names blockers).map .blockerRecorded
  | .blockerCleared blockers => (names blockers).map .blockerCleared
  | .reviewerContractUpdated contract =>
    (nullableRecord ReviewerContract.parse contract).map .reviewerContractUpdated
  | .resumeAnchorUpdated anchor =>
    (nullableRecord ResumeAnchor.parse anchor).map .resumeAnchorUpdated

def ExecutionStateTransitionV1.parse (datetime : String → Bool)
    (t : ExecutionStateTransitionV1) : Option ExecutionStateTransitionV1 := do
  let transitionId ← name t.transitionId
  let stateId ← name t.stateId
  let scope ← name t.scope
  guard (datetime t.atTime)
  guard (∀ r ∈ t.expectedRevision, 0 < r)
  let change ← t.change.parse
  return { t with transitionId, stateId, scope, change }

/-! ## Applying a transition -/

def uniqKeepOrder (values : List String) : List String := distinctStrings values

def without (values removals : List String) : List String :=
  let removeSet := (removals.map trim).filter (· ≠ "")
  values.filter fun value => trim value ∉ removeSet

/-- The assignments that one kind of transition makes to the next state. -/
def TransitionChange.assign (next : ExecutionStateV1) : TransitionChange → ExecutionStateV1
  | .stageStarted nextStage nextRole =>
    { next with currentStage := nextStage, activeRole := nextRole }
  | .stageCompleted completedStage completedRole =>
    { next with
      currentStage := if next.currentStage = completedStage then .resume else next.currentStage
      activeRole := if completedRole = some next.activeRole then .resume else next.activeRole }
  | .validationAdded validations =>
    { next with
      pendingValidations := uniqKeepOrder (next.pendingValidations ++ validations)
      completedValidations := without next.completedValidations validations }
  | .validationCompleted validations =>
    { next with
      pendingValidations := without next.pendingValidations validations
      completedValidations := uniqKeepOrder (next.completedValidations ++ validations) }
  | .hypothesisAccepted hypothesis => { next with lastAcceptedHypothesis := some hypothesis }
  | .pathRejected path =>
    { next with rejectedPaths := uniqKeepOrder (next.rejectedPaths ++ [path]) }
  | .blockerRecorded blockers =>
    { next with unresolvedBlockers := uniqKeepOrder (next.unresolvedBlockers ++ blockers) }
  | .blockerCleared blockers =>
    { next with unresolvedBlockers := without next.unresolvedBlockers blockers }
  | .reviewerContractUpdated contract => { next with reviewerContract := contract }
  | .resumeAnchorUpdated anchor => { next with resumeAnchor := anchor }

/-- The next state before it is parsed again. -/
def nextState (state : ExecutionStateV1) (t : ExecutionStateTransitionV1) : ExecutionStateV1 :=
  t.change.assign { state with updatedAt := t.atTime }

def applyExecutionStateTransition (datetime : String → Bool) (stateInput : ExecutionStateV1)
    (transitionInput : ExecutionStateTransitionV1) :
    Except ExecutionStateError ExecutionStateV1 := do
  let state ← orThrow (stateInput.parse datetime) .schema
  let transition ← orThrow (transitionInput.parse datetime) .schema
  if state.stateId ≠ transition.stateId then
    throw (.thrown <|
      s!"execution state transition state_id mismatch: expected {state.stateId}, " ++
        s!"got {transition.stateId}")
  if state.scope ≠ transition.scope then
    throw (.thrown <|
      s!"execution state transition scope mismatch: expected {state.scope}, " ++
        s!"got {transition.scope}")
  orThrow ((nextState state transition).parse datetime) .schema

/-! ## Lists up to trimming -/

/-- A list has an entry that trims to what the name trims to. -/
def Lists (xs : List String) (v : String) : Prop := ∃ x ∈ xs, trim x = trim v

instance (xs : List String) (v : String) : Decidable (Lists xs v) :=
  inferInstanceAs (Decidable (∃ x ∈ xs, trim x = trim v))

/-- Nothing of the name is left after trimming. -/
def Blank (v : String) : Prop := trim v = ""

instance (v : String) : Decidable (Blank v) := inferInstanceAs (Decidable (_ = _))

variable {xs ys : List String} {v : String}

theorem lists_append : Lists (xs ++ ys) v ↔ Lists xs v ∨ Lists ys v := by
  unfold Lists
  constructor
  · rintro ⟨x, hx, hv⟩
    rcases List.mem_append.1 hx with hx | hx
    · exact .inl ⟨x, hx, hv⟩
    · exact .inr ⟨x, hx, hv⟩
  · rintro (⟨x, hx, hv⟩ | ⟨x, hx, hv⟩)
    · exact ⟨x, List.mem_append_left _ hx, hv⟩
    · exact ⟨x, List.mem_append_right _ hx, hv⟩

/-- De-duplication keeps every name but the blank one. -/
theorem lists_uniqKeepOrder : Lists (uniqKeepOrder xs) v ↔ Lists xs v ∧ ¬ Blank v := by
  unfold Lists Blank uniqKeepOrder
  constructor
  · rintro ⟨x, hx, hv⟩
    obtain ⟨⟨y, hy, rfl⟩, hne⟩ := mem_distinctStrings.1 hx
    rw [trim_trim] at hv
    exact ⟨⟨y, hy, hv⟩, hv ▸ hne⟩
  · rintro ⟨⟨x, hx, hv⟩, hne⟩
    exact ⟨trim x, mem_distinctStrings.2 ⟨⟨x, hx, rfl⟩, hv ▸ hne⟩, by rw [trim_trim, hv]⟩

theorem lists_without : Lists (without xs ys) v ↔ Lists xs v ∧ (Lists ys v → Blank v) := by
  have hremove : ∀ w, w ∈ (ys.map trim).filter (· ≠ "") ↔ (∃ y ∈ ys, trim y = w) ∧ w ≠ "" := by
    intro w
    simp
  unfold Lists Blank without
  constructor
  · rintro ⟨x, hx, hv⟩
    obtain ⟨hx, hkeep⟩ := List.mem_filter.1 hx
    rw [decide_eq_true_eq, hremove, hv] at hkeep
    exact ⟨⟨x, hx, hv⟩, fun hy => by_contra fun hne => hkeep ⟨hy, hne⟩⟩
  · rintro ⟨⟨x, hx, hv⟩, hblank⟩
    refine ⟨x, List.mem_filter.2 ⟨hx, ?_⟩, hv⟩
    rw [decide_eq_true_eq, hremove, hv]
    exact fun ⟨hy, hne⟩ => hne (hblank hy)

theorem lists_names (h : names xs = some ys) : Lists ys v ↔ Lists xs v := by
  have hall : List.Forall₂ (fun x y => y = trim x) xs ys :=
    (mapM_eq_some.1 h).imp fun x y hxy => (trimmed_eq_some.1 hxy).1
  constructor
  · rintro ⟨y, hy, hv⟩
    obtain ⟨x, hx, rfl⟩ := exists_left_of_forall₂ hall hy
    exact ⟨x, hx, by rw [← hv, trim_trim]⟩
  · rintro ⟨x, hx, hv⟩
    obtain ⟨y, hy, rfl⟩ := exists_right_of_forall₂ hall hx
    exact ⟨trim x, hy, by rw [trim_trim, hv]⟩

/-! ## A step succeeds and keeps the state valid -/

variable {datetime : String → Bool} {s s' : ExecutionStateV1}
  {t t' : ExecutionStateTransitionV1} {c c' : TransitionChange}

theorem entriesFit_uniqKeepOrder (xs : List String) : entriesFit (uniqKeepOrder xs) = true := by
  refine List.all_eq_true.2 fun x hx => ?_
  rw [decide_eq_true_eq]
  exact (mem_distinctStrings.1 hx).2

theorem entriesFit_without (ys : List String) (h : entriesFit xs = true) :
    entriesFit (without xs ys) = true :=
  List.all_eq_true.2 fun x hx => List.all_eq_true.1 h x (List.mem_filter.1 hx).1

theorem ExecutionStateV1.Valid.assign (h : s.Valid datetime) (hc : c.parse = some c') :
    (c'.assign s).Valid datetime := by
  obtain ⟨ho, hm, hp, hd, hr, hb, hn, hlen⟩ := ExecutionStateV1.listsFit_iff.1 h.lists
  cases c with
  | stageStarted stage role =>
    obtain rfl := Option.some.inj hc
    exact { h with }
  | stageCompleted stage role =>
    obtain rfl := Option.some.inj hc
    exact { h with }
  | validationAdded vs =>
    obtain ⟨vs', -, rfl⟩ := Option.map_eq_some_iff.1 hc
    exact { h with
      lists := ExecutionStateV1.listsFit_iff.2 ⟨ho, hm, entriesFit_uniqKeepOrder _,
        entriesFit_without _ hd, hr, hb, hn, hlen⟩ }
  | validationCompleted vs =>
    obtain ⟨vs', -, rfl⟩ := Option.map_eq_some_iff.1 hc
    exact { h with
      lists := ExecutionStateV1.listsFit_iff.2 ⟨ho, hm, entriesFit_without _ hp,
        entriesFit_uniqKeepOrder _, hr, hb, hn, hlen⟩ }
  | hypothesisAccepted hyp =>
    obtain ⟨hyp', hhyp, rfl⟩ := Option.map_eq_some_iff.1 hc
    refine { h with hypothesis := ?_ }
    show (name hyp').map some = some (some hyp')
    rw [show name hyp' = some hyp' from trimmed_of_trimmed hhyp, Option.map_some]
  | pathRejected path =>
    obtain ⟨path', -, rfl⟩ := Option.map_eq_some_iff.1 hc
    exact { h with
      lists := ExecutionStateV1.listsFit_iff.2 ⟨ho, hm, hp, hd,
        entriesFit_uniqKeepOrder _, hb, hn, hlen⟩ }
  | blockerRecorded bs =>
    obtain ⟨bs', -, rfl⟩ := Option.map_eq_some_iff.1 hc
    exact { h with
      lists := ExecutionStateV1.listsFit_iff.2 ⟨ho, hm, hp, hd, hr,
        entriesFit_uniqKeepOrder _, hn, hlen⟩ }
  | blockerCleared bs =>
    obtain ⟨bs', -, rfl⟩ := Option.map_eq_some_iff.1 hc
    exact { h with
      lists := ExecutionStateV1.listsFit_iff.2 ⟨ho, hm, hp, hd, hr,
        entriesFit_without _ hb, hn, hlen⟩ }
  | reviewerContractUpdated contract =>
    obtain ⟨contract', hcontract, rfl⟩ := Option.map_eq_some_iff.1 hc
    exact { h with
      contract := nullableRecord_of_nullableRecord ReviewerContract.parse_parse hcontract }
  | resumeAnchorUpdated anchor =>
    obtain ⟨anchor', hanchor, rfl⟩ := Option.map_eq_some_iff.1 hc
    exact { h with
      anchor := nullableRecord_of_nullableRecord ResumeAnchor.parse_parse hanchor }

theorem names_names (h : names xs = some ys) : names ys = some ys := by
  refine mapM_eq_self fun y hy => ?_
  obtain ⟨x, -, hx⟩ := exists_left_of_forall₂ (mapM_eq_some.1 h) hy
  exact trimmed_of_trimmed hx

theorem TransitionChange.parse_parse (h : c.parse = some c') : c'.parse = some c' := by
  cases c with
  | stageStarted stage role => obtain rfl := Option.some.inj h; rfl
  | stageCompleted stage role => obtain rfl := Option.some.inj h; rfl
  | validationAdded | validationCompleted | blockerRecorded | blockerCleared =>
    obtain ⟨xs, hxs, rfl⟩ := Option.map_eq_some_iff.1 h
    rw [TransitionChange.parse, names_names hxs, Option.map_some]
  | hypothesisAccepted | pathRejected =>
    obtain ⟨x, hx, rfl⟩ := Option.map_eq_some_iff.1 h
    rw [TransitionChange.parse, show name x = some x from trimmed_of_trimmed hx, Option.map_some]
  | reviewerContractUpdated contract =>
    obtain ⟨x, hx, rfl⟩ := Option.map_eq_some_iff.1 h
    rw [TransitionChange.parse,
      nullableRecord_of_nullableRecord ReviewerContract.parse_parse hx, Option.map_some]
  | resumeAnchorUpdated anchor =>
    obtain ⟨x, hx, rfl⟩ := Option.map_eq_some_iff.1 h
    rw [TransitionChange.parse,
      nullableRecord_of_nullableRecord ResumeAnchor.parse_parse hx, Option.map_some]

theorem ExecutionStateTransitionV1.parse_eq_some (h : t.parse datetime = some t') :
    name t.stateId = some t'.stateId ∧ name t.scope = some t'.scope ∧ t'.atTime = t.atTime ∧
      datetime t.atTime = true ∧ t'.expectedRevision = t.expectedRevision ∧
      t.change.parse = some t'.change := by
  simp only [ExecutionStateTransitionV1.parse, Option.bind_eq_bind, Option.bind_eq_some_iff,
    guard_eq_some] at h
  obtain ⟨id, -, stateId, hid, scope, hscope, -, hat, -, -, change, hchange, h⟩ := h
  obtain rfl := Option.some.inj h
  exact ⟨hid, hscope, rfl, hat, rfl, hchange⟩

theorem ExecutionStateV1.Valid.nextState (h : s.Valid datetime)
    (ht : t.parse datetime = some t') : (nextState s t').Valid datetime := by
  obtain ⟨-, -, hat, hdt, -, hc⟩ := ExecutionStateTransitionV1.parse_eq_some ht
  exact ExecutionStateV1.Valid.assign { h with updatedAt := hat ▸ hdt } hc

/-- A transition addressed to a state applies to it. -/
theorem applyExecutionStateTransition_ok (hs : s.parse datetime = some s')
    (ht : t.parse datetime = some t') (hid : s'.stateId = t'.stateId)
    (hscope : s'.scope = t'.scope) :
    applyExecutionStateTransition datetime s t = .ok (nextState s' t') ∧
      (nextState s' t').Valid datetime := by
  have hvalid := (ExecutionStateV1.parse_eq_some hs).1.nextState ht
  refine ⟨?_, hvalid⟩
  simp [applyExecutionStateTransition, hs, ht, hid, hscope, hvalid.parse, orThrow, bind,
    Except.bind]

theorem ExecutionStateTransitionV1.parse_parse (h : t.parse datetime = some t') :
    t'.parse datetime = some t' := by
  simp only [ExecutionStateTransitionV1.parse, Option.bind_eq_bind, Option.bind_eq_some_iff,
    guard_eq_some] at h
  obtain ⟨id, hid, stateId, hstate, scope, hscope, -, hat, -, hrev, change, hchange, h⟩ := h
  obtain rfl := Option.some.inj h
  have hid' : name id = some id := trimmed_of_trimmed hid
  have hstate' : name stateId = some stateId := trimmed_of_trimmed hstate
  have hscope' : name scope = some scope := trimmed_of_trimmed hscope
  have hchange' : change.parse = some change := TransitionChange.parse_parse hchange
  have hrev' : (guard (∀ r ∈ t.expectedRevision, 0 < r) : Option Unit) = some () :=
    guard_eq_some.2 hrev
  simp only [ExecutionStateTransitionV1.parse, hid', hstate', hscope', hat, hchange', hrev',
    Option.bind_eq_bind, Option.bind_some]
  rfl

theorem assign_addressee (next : ExecutionStateV1) (c : TransitionChange) :
    (c.assign next).stateId = next.stateId ∧ (c.assign next).scope = next.scope := by
  cases c <;> exact ⟨rfl, rfl⟩

/-- A transition that applies is addressed to the state. -/
theorem applyExecutionStateTransition_eq_ok {next : ExecutionStateV1}
    (h : applyExecutionStateTransition datetime s t = .ok next) :
    ∃ s' t', s.parse datetime = some s' ∧ t.parse datetime = some t' ∧
      s'.stateId = t'.stateId ∧ s'.scope = t'.scope ∧ next = nextState s' t' := by
  obtain ⟨s', hs, h⟩ := bind_eq_ok.1 h
  obtain ⟨t', ht, h⟩ := bind_eq_ok.1 h
  rw [orThrow_eq_ok] at hs ht
  by_cases hid : s'.stateId = t'.stateId
  · by_cases hscope : s'.scope = t'.scope
    · have hok := (applyExecutionStateTransition_ok hs ht hid hscope).1
      refine ⟨s', t', hs, ht, hid, hscope, ?_⟩
      have hvalid := (ExecutionStateV1.parse_eq_some hs).1.nextState ht
      simp only [hid, hscope, ne_eq, not_true_eq_false, if_false, hvalid.parse, orThrow] at h
      cases h
      rfl
    · simp only [hid, hscope, ne_eq, not_true_eq_false, not_false_eq_true, if_true, if_false] at h
      cases h
  · simp only [hid, ne_eq, not_false_eq_true, if_true] at h
    cases h

/-! ## A concrete state -/

/-- The timestamps of the examples. -/
def sampleTime (s : String) : Bool := s == "2026-01-01T00:00:00Z"

/-- A blank validation is completed and a blocker is open from the start. -/
def sampleState : ExecutionStateV1 where
  stateId := "state-1"
  scope := "default"
  taskBrief := "fix the build"
  currentStage := .patch
  activeRole := .patch
  pendingValidations := ["unit tests "]
  completedValidations := [" "]
  unresolvedBlockers := ["flaky runner"]
  updatedAt := "2026-01-01T00:00:00Z"

def sampleTransition (change : TransitionChange) : ExecutionStateTransitionV1 where
  transitionId := "transition-1"
  stateId := "state-1 "
  scope := "default"
  actorRole := .patch
  atTime := "2026-01-01T00:00:00Z"
  change := change

theorem sampleState_parse : sampleState.parse sampleTime = some sampleState := by
  decide +kernel

end AionisCore.Execution
