import AionisCore.AionisDoc.Runtime

/-!
# The run of a plan

`stateAt` is the state of a run after its first steps, as long as no handler raised. What the
loop returns is the last of these states, and the result of a step stands at its place in it.
-/

namespace AionisCore.AionisDoc

open Lib

section Run

variable (runtime : ModuleRegistryExecutionRuntime) (plan : ExecutionPlanV1)

/-- The state after a step, unless its handler raised. -/
def advance (turn : Nat) (s : ExecutionState) (step : ExecutionPlanStep) : Option ExecutionState :=
  match runStep runtime plan turn s.outputs step with
  | .failed message => some (s.fail step message)
  | .raised _ => none
  | .success output artifacts evidence => some (s.succeed step output artifacts evidence)

/-- The state after the first `n` steps. -/
def stateAt : Nat → Option ExecutionState
  | 0 => some {}
  | n + 1 => (stateAt n).bind fun s =>
    plan.executions[n]?.bind fun step => advance runtime plan n s step

/-- How the step at a place ends, when the run gets to it. -/
def stepEnd (n : Nat) : Option StepEnd :=
  (stateAt runtime plan n).bind fun s =>
    plan.executions[n]?.map fun step => runStep runtime plan n s.outputs step

/-- What the loop leaves behind. -/
def lastState : ExecutionState := (runSteps runtime plan {} 0 plan.executions).1

variable {runtime plan} {n m : Nat} {s t : ExecutionState}

theorem stateAt_succ : stateAt runtime plan (n + 1) = some t ↔
    ∃ s step, stateAt runtime plan n = some s ∧ plan.executions[n]? = some step ∧
      advance runtime plan n s step = some t := by
  rw [stateAt, Option.bind_eq_some_iff]
  refine exists_congr fun s => ?_
  rw [Option.bind_eq_some_iff]
  constructor
  · rintro ⟨hs, step, hstep, ht⟩
    exact ⟨step, hs, hstep, ht⟩
  · rintro ⟨step, hs, hstep, ht⟩
    exact ⟨hs, step, hstep, ht⟩

theorem stateAt_isSome_of_le (h : (stateAt runtime plan m).isSome) (hle : n ≤ m) :
    (stateAt runtime plan n).isSome := by
  induction m with
  | zero =>
    obtain rfl := Nat.le_zero.1 hle
    exact h
  | succ m ih =>
    obtain rfl | hlt := Nat.eq_or_lt_of_le hle
    · exact h
    · obtain ⟨t, ht⟩ := Option.isSome_iff_exists.1 h
      obtain ⟨s, -, hs, -, -⟩ := stateAt_succ.1 ht
      exact ih (by rw [hs]; rfl) (by omega)

theorem advance_nodeResults {step : ExecutionPlanStep}
    (h : advance runtime plan n s step = some t) :
    ∃ r, t.nodeResults = s.nodeResults ++ [r] := by
  unfold advance at h
  split at h
  · obtain rfl := Option.some.inj h
    exact ⟨_, rfl⟩
  · cases h
  · obtain rfl := Option.some.inj h
    exact ⟨_, rfl⟩

theorem stateAt_length (h : stateAt runtime plan n = some s) : s.nodeResults.length = n := by
  induction n generalizing s with
  | zero =>
    obtain rfl := Option.some.inj h
    rfl
  | succ n ih =>
    obtain ⟨u, step, hu, -, hs⟩ := stateAt_succ.1 h
    obtain ⟨r, hr⟩ := advance_nodeResults hs
    rw [hr, List.length_append, ih hu]
    rfl

theorem stateAt_le_length (h : stateAt runtime plan n = some s) : n ≤ plan.executions.length := by
  cases n with
  | zero => exact Nat.zero_le _
  | succ n =>
    obtain ⟨-, step, -, hstep, -⟩ := stateAt_succ.1 h
    exact (List.getElem?_eq_some_iff.1 hstep).1

/-- Later states keep the results of the earlier ones. -/
theorem nodeResults_of_stateAt (hs : stateAt runtime plan n = some s)
    (ht : stateAt runtime plan m = some t) (hle : n ≤ m) {i : Nat} (hi : i < n) :
    t.nodeResults[i]? = s.nodeResults[i]? := by
  induction m generalizing t with
  | zero =>
    obtain rfl := Nat.le_zero.1 hle
    cases hi
  | succ m ih =>
    obtain rfl | hlt := Nat.eq_or_lt_of_le hle
    · rw [Option.some.inj (hs.symm.trans ht)]
    · obtain ⟨u, step, hu, -, ht⟩ := stateAt_succ.1 ht
      obtain ⟨r, hr⟩ := advance_nodeResults ht
      have hlength := stateAt_length hu
      rw [hr, List.getElem?_append_left (by omega)]
      exact ih hu (by omega)

theorem runSteps_drop (h : stateAt runtime plan n = some s) :
    runSteps runtime plan {} 0 plan.executions =
      runSteps runtime plan s n (plan.executions.drop n) := by
  induction n generalizing s with
  | zero =>
    obtain rfl := Option.some.inj h
    rfl
  | succ n ih =>
    obtain ⟨u, step, hu, hstep, hs⟩ := stateAt_succ.1 h
    obtain ⟨hlt, hget⟩ := List.getElem?_eq_some_iff.1 hstep
    rw [ih hu, List.drop_eq_getElem_cons hlt, hget, runSteps]
    unfold advance at hs
    cases hend : runStep runtime plan n u.outputs step with
    | failed message =>
      rw [hend] at hs
      obtain rfl := Option.some.inj hs
      rfl
    | raised message =>
      rw [hend] at hs
      cases hs
    | success output artifacts evidence =>
      rw [hend] at hs
      obtain rfl := Option.some.inj hs
      rfl

/-- Where the states end, the loop has ended. -/
theorem lastState_of_stateAt (h : stateAt runtime plan n = some s)
    (hlast : stateAt runtime plan (n + 1) = none) : lastState runtime plan = s := by
  unfold lastState
  rw [runSteps_drop h]
  rw [stateAt, h, Option.bind_some] at hlast
  cases hstep : plan.executions[n]? with
  | none =>
    rw [List.drop_eq_nil_of_le (List.getElem?_eq_none_iff.1 hstep)]
    rfl
  | some step =>
    obtain ⟨hlt, hget⟩ := List.getElem?_eq_some_iff.1 hstep
    rw [hstep, Option.bind_some] at hlast
    rw [List.drop_eq_getElem_cons hlt, hget, runSteps]
    unfold advance at hlast
    cases hend : runStep runtime plan n s.outputs step with
    | failed message =>
      rw [hend] at hlast
      cases hlast
    | raised message => rfl
    | success output artifacts evidence =>
      rw [hend] at hlast
      cases hlast

theorem exists_last (runtime : ModuleRegistryExecutionRuntime) (plan : ExecutionPlanV1) :
    ∃ n, stateAt runtime plan n = some (lastState runtime plan) ∧
      stateAt runtime plan (n + 1) = none := by
  have hnone : ∃ n, stateAt runtime plan (n + 1) = none := by
    refine ⟨plan.executions.length, Option.eq_none_iff_forall_ne_some.2 fun s hs => ?_⟩
    have hle := stateAt_le_length hs
    omega
  classical
  have hspec := Nat.find_spec hnone
  obtain ⟨s, hs⟩ : ∃ s, stateAt runtime plan (Nat.find hnone) = some s := by
    cases hn : Nat.find hnone with
    | zero => exact ⟨_, rfl⟩
    | succ n =>
      have hmin := Nat.find_min hnone (show n < Nat.find hnone by omega)
      exact Option.ne_none_iff_exists'.1 hmin
  exact ⟨_, (lastState_of_stateAt hs hspec).symm ▸ hs, hspec⟩

end Run

/-! ## Results -/

/-- The step at the place is finished with status success. -/
def Succeeded (results : List ExecutionNodeResult) (i : Nat) : Prop :=
  results[i]?.map (·.status) = some .success

/-- The step at the place is refused as blocked on a dependency. -/
def RefusedAsBlocked (plan : ExecutionPlanV1) (results : List ExecutionNodeResult) (j : Nat) :
    Prop :=
  ∃ step dependency, plan.executions[j]? = some step ∧
    results[j]?.bind (·.error) = some (blockedMessage step dependency)

section Results

variable {runtime : ModuleRegistryExecutionRuntime} {plan : ExecutionPlanV1} {n : Nat}
  {s : ExecutionState}

/-- The result of a step that the run has passed. -/
theorem result_of_stepEnd {r : StepEnd} (h : stepEnd runtime plan n = some r) :
    ∃ step, plan.executions[n]? = some step ∧
      ((∃ message, r = .failed message ∧
          ((lastState runtime plan).nodeResults[n]?).map (·.status) = some .failed ∧
          (lastState runtime plan).nodeResults[n]?.bind (·.error) = some message) ∨
        (∃ message, r = .raised message ∧ (lastState runtime plan).nodeResults[n]? = none) ∨
        ∃ output artifacts evidence, r = .success output artifacts evidence ∧
          ((lastState runtime plan).nodeResults[n]?).map (·.status) = some .success ∧
          (lastState runtime plan).nodeResults[n]?.bind (·.output) = some output ∧
          (lastState runtime plan).nodeResults[n]?.bind (·.error) = none) := by
  unfold stepEnd at h
  obtain ⟨s, hs, h⟩ := Option.bind_eq_some_iff.1 h
  obtain ⟨step, hstep, rfl⟩ := Option.map_eq_some_iff.1 h
  refine ⟨step, hstep, ?_⟩
  obtain ⟨last, hlast, hend⟩ := exists_last runtime plan
  have hnext : stateAt runtime plan (n + 1) = advance runtime plan n s step := by
    rw [stateAt, hs, Option.bind_some, hstep, Option.bind_some]
  have hlength := stateAt_length hs
  -- the later steps leave the result alone
  have hkept : ∀ {u : ExecutionState}, stateAt runtime plan (n + 1) = some u →
      (lastState runtime plan).nodeResults[n]? = u.nodeResults[n]? := by
    intro u hu
    have hle : n + 1 ≤ last := by
      by_contra hlt
      have hsome := stateAt_isSome_of_le (n := last + 1) (by rw [hu]; rfl) (by omega)
      rw [hend] at hsome
      cases hsome
    exact nodeResults_of_stateAt hu hlast hle (Nat.lt_succ_self n)
  unfold advance at hnext
  cases hr : runStep runtime plan n s.outputs step with
  | raised message =>
    rw [hr] at hnext
    refine Or.inr (Or.inl ⟨message, rfl, ?_⟩)
    rw [lastState_of_stateAt hs hnext]
    exact List.getElem?_eq_none_iff.2 (by omega)
  | failed message =>
    rw [hr] at hnext
    rw [hkept hnext]
    refine Or.inl ⟨message, rfl, ?_⟩
    simp [ExecutionState.fail, ← hlength]
  | success output artifacts evidence =>
    rw [hr] at hnext
    rw [hkept hnext]
    refine Or.inr (Or.inr ⟨output, artifacts, evidence, rfl, ?_⟩)
    simp [ExecutionState.succeed, ← hlength]

theorem exists_stepEnd (hle : n ≤ (lastState runtime plan).nodeResults.length)
    (hlt : n < plan.executions.length) : ∃ r, stepEnd runtime plan n = some r := by
  obtain ⟨last, hlast, -⟩ := exists_last runtime plan
  have hlength := stateAt_length hlast
  obtain ⟨s, hs⟩ := Option.isSome_iff_exists.1
    (stateAt_isSome_of_le (n := n) (by rw [hlast]; rfl) (by omega))
  exact ⟨_, by rw [stepEnd, hs, Option.bind_some, List.getElem?_eq_getElem hlt]; rfl⟩

theorem succeeded_iff {i : Nat} : Succeeded (lastState runtime plan).nodeResults i ↔
    ∃ output artifacts evidence,
      stepEnd runtime plan i = some (.success output artifacts evidence) := by
  constructor
  · intro h
    unfold Succeeded at h
    obtain ⟨result, hresult, -⟩ := Option.map_eq_some_iff.1 h
    have hlt := (List.getElem?_eq_some_iff.1 hresult).1
    obtain ⟨last, hlast, -⟩ := exists_last runtime plan
    have hlength := stateAt_length hlast
    have hle := stateAt_le_length hlast
    obtain ⟨r, hr⟩ := exists_stepEnd (Nat.le_of_lt hlt) (by omega : i < plan.executions.length)
    obtain ⟨-, -, ⟨-, -, hstatus, -⟩ | ⟨-, -, hnone⟩ | ⟨output, artifacts, evidence, rfl, -⟩⟩ :=
      result_of_stepEnd hr
    · rw [hstatus] at h
      cases h
    · rw [hnone] at h
      cases h
    · exact ⟨output, artifacts, evidence, hr⟩
  · rintro ⟨output, artifacts, evidence, hr⟩
    obtain ⟨-, -, ⟨_, hfailed, -⟩ | ⟨_, hraised, -⟩ | ⟨_, _, _, -, hstatus, -⟩⟩ :=
      result_of_stepEnd hr
    · cases hfailed
    · cases hraised
    · exact hstatus

end Results

/-! ## Refusals -/

theorem acceptResult_failed {module message : String} {manifest : ExecutionModuleManifest}
    {rawResult : AionisValue} (h : acceptResult module manifest rawResult = .failed message) :
    message.toList.take 2 ≠ ['E', 'x'] := by
  unfold acceptResult at h
  extract_lets normalized artifacts evidence outputErrors refused at h
  split at h
  · obtain rfl := StepEnd.failed.inj h
    simp [toString, String.toList_append]
  · split at h
    · cases h
    · obtain rfl := StepEnd.failed.inj h
      simp [toString, String.toList_append]
    · split at h
      · cases h
      · obtain rfl := StepEnd.failed.inj h
        simp [toString, String.toList_append]
      · clear_value artifacts evidence
        split at h
        · cases h
        · cases h

theorem runModule_failed {runtime : ModuleRegistryExecutionRuntime} {plan : ExecutionPlanV1}
    {turn : Nat} {outputs : AionisObject} {step : ExecutionPlanStep} {module message : String}
    {definition : ExecutionModuleDefinition}
    (h : runModule runtime plan turn outputs step module definition = .failed message) :
    message.toList.take 2 ≠ ['E', 'x'] := by
  unfold runModule at h
  extract_lets missing input inputErrors at h
  split at h
  · obtain rfl := StepEnd.failed.inj h
    simp [toString, String.toList_append]
  · split at h
    · obtain rfl := StepEnd.failed.inj h
      simp [toString, String.toList_append]
    · split at h
      · cases h
      · exact acceptResult_failed h

/-- No other failure reads like that of a missing dependency. -/
theorem runStep_blocked {runtime : ModuleRegistryExecutionRuntime} {plan : ExecutionPlanV1}
    {turn : Nat} {outputs : AionisObject} {step : ExecutionPlanStep} {dependency : String}
    (h : runStep runtime plan turn outputs step = .failed (blockedMessage step dependency)) :
    (unmetDependency step outputs).isSome := by
  unfold runStep at h
  split at h
  · next hunmet =>
    rw [hunmet]
    rfl
  · have hread : (blockedMessage step dependency).toList.take 2 = ['E', 'x'] := by
      simp [blockedMessage, toString, String.toList_append]
    split at h
    · have hlist := congrArg String.toList (StepEnd.failed.inj h)
      simp [blockedMessage, toString, String.toList_append] at hlist
    · dsimp only at h
      split at h
      · obtain hmessage := StepEnd.failed.inj h
        rw [← hmessage] at hread
        simp [toString, String.toList_append] at hread
      · exact absurd hread (runModule_failed h)

section Results

variable {runtime : ModuleRegistryExecutionRuntime} {plan : ExecutionPlanV1} {n : Nat}

theorem stepEnd_eq {s : ExecutionState} {step : ExecutionPlanStep}
    (hs : stateAt runtime plan n = some s) (hstep : plan.executions[n]? = some step) :
    stepEnd runtime plan n = some (runStep runtime plan n s.outputs step) := by
  rw [stepEnd, hs, Option.bind_some, hstep]
  rfl

theorem refusedAsBlocked_iff {s : ExecutionState} {step : ExecutionPlanStep}
    (hs : stateAt runtime plan n = some s) (hstep : plan.executions[n]? = some step) :
    RefusedAsBlocked plan (lastState runtime plan).nodeResults n ↔
      (unmetDependency step s.outputs).isSome := by
  have hend := stepEnd_eq hs hstep
  obtain ⟨step', hstep', hresult⟩ := result_of_stepEnd hend
  obtain rfl := Option.some.inj (hstep.symm.trans hstep')
  constructor
  · rintro ⟨step', dependency, hstep', herror⟩
    obtain rfl := Option.some.inj (hstep.symm.trans hstep')
    obtain ⟨message, hr, -, hmessage⟩ | ⟨message, hr, hnone⟩ | ⟨_, _, _, hr, -, -, hnone⟩ :=
      hresult
    · obtain rfl := Option.some.inj (hmessage.symm.trans herror)
      exact runStep_blocked hr
    · rw [hnone] at herror
      cases herror
    · rw [hnone] at herror
      cases herror
  · intro h
    obtain ⟨dependency, hdependency⟩ := Option.isSome_iff_exists.1 h
    have hr : runStep runtime plan n s.outputs step =
        .failed (blockedMessage step dependency) := by
      unfold runStep
      rw [hdependency]
    refine ⟨step, dependency, hstep, ?_⟩
    rw [hr] at hresult
    obtain ⟨message, hfailed, -, hmessage⟩ | ⟨_, hraised, -⟩ | ⟨_, _, _, hsuccess, -⟩ := hresult
    · rw [hmessage, StepEnd.failed.inj hfailed]
    · cases hraised
    · cases hsuccess

end Results

end AionisCore.AionisDoc
