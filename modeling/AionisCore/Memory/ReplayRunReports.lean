import AionisCore.Memory.ReplayPlaybookRun

/-!
# Reports and counters of a replay

Every exit of the loop changes the counters by one law (`ReplayHandledStepResult.Fits`), so a
run of any length keeps the reports, the counters and the commands handed out in step.
-/

namespace AionisCore.Memory

open Lib

/-- The step passes its gates, its command is executed, and the outcome passes every check. -/
def ReplayStepPassed (host : RuleHost) (cfg : ReplayRunConfig) (world : ReplayWorld)
    (stepObj : Json.Fields) : Prop :=
  replayStepGate host cfg world stepObj = none ∧
    ∃ exec outcome,
      executeReplayCommand cfg.backend world.executors (replayArgv stepObj) = .ok exec ∧
      exec.outcome = some outcome ∧ outcome.ok = true ∧
      (evaluateExpectedSignature host (replayExpectedSignature stepObj) outcome).ok = true ∧
      ∀ c ∈ replayConditions stepObj "postconditions",
        (evaluatePostcondition host world.after outcome c).state = .pass

theorem isReplayExecutionPassed_iff {execution : LocalCommandOutcome}
    {signature : SignatureEvaluation} {postconditions : List PreconditionResult} :
    isReplayExecutionPassed execution signature postconditions = true ↔
      execution.ok = true ∧ signature.ok = true ∧ ∀ c ∈ postconditions, c.state = .pass := by
  unfold isReplayExecutionPassed
  simp only [Bool.and_eq_true, Bool.not_eq_true', List.any_eq_false, beq_iff_eq, and_assoc]
  refine and_congr_right fun _ => and_congr_right fun _ => ⟨fun h c hc => ?_, fun h => ?_⟩
  · cases hstate : c.state with
    | pass => rfl
    | fail => exact absurd hstate (h.1 c hc)
    | unknown => exact absurd hstate (h.2 c hc)
  · constructor <;> intro c hc <;> rw [h c hc] <;> decide

/-! ## One step -/

/-- What each exit of the loop does, given whether it handed out a command and whether the step
passed. -/
structure ReplayHandledStepResult.Fits (handled : ReplayHandledStepResult) (host : RuleHost)
    (cfg : ReplayRunConfig) (stepObj : Json.Fields) (executed : Bool) (passed : Prop) : Prop where
  stepIndex : handled.report.stepIndex = replayStepIndex stepObj host
  toolName : handled.report.toolName = replayToolName stepObj
  success : handled.report.status = .success ↔ passed
  one : handled.delta.succeededSteps + handled.delta.failedSteps + handled.delta.repairedSteps = 1
  executed : handled.delta.executedSteps = if executed then 1 else 0
  succeeded : handled.delta.succeededSteps = if handled.report.status = .success then 1 else 0
  skipped : handled.delta.skippedSteps ≤ handled.delta.repairedSteps
  strict : cfg.mode = .strict → handled.delta.repairedSteps = 0
  stop : handled.stop = true ↔
    cfg.mode = .strict ∧ handled.report.status ≠ .success ∧ cfg.stopOnFailure = true

section Step

variable {host : RuleHost} {cfg : ReplayRunConfig} {world : ReplayWorld} {stepId : Option String}
  {stepObj : Json.Fields}

theorem handleReplayGateStep_fits (gate : ReplayStepGate) :
    (handleReplayGateStep host cfg stepId stepObj gate).Fits host cfg stepObj false False := by
  unfold handleReplayGateStep
  split
  · next hmode =>
    exact {
      stepIndex := rfl
      toolName := rfl
      success := iff_of_false nofun id
      one := rfl
      executed := rfl
      succeeded := rfl
      skipped := Nat.le_refl 0
      strict := fun _ => rfl
      stop := ⟨fun h => ⟨hmode, nofun, h⟩, fun h => h.2.2⟩ }
  · next hmode =>
    exact {
      stepIndex := rfl
      toolName := rfl
      success := iff_of_false nofun id
      one := rfl
      executed := rfl
      succeeded := rfl
      skipped := Nat.le_refl 1
      strict := fun h => absurd h hmode
      stop := iff_of_false nofun fun h => hmode h.1 }

theorem handleReplayPendingStep_fits (sandboxRunId : Option String) :
    (handleReplayPendingStep host cfg stepId stepObj sandboxRunId).Fits host cfg stepObj true
      False := by
  unfold handleReplayPendingStep
  cases hguided : cfg.mode != .strict with
  | false =>
    have hmode : cfg.mode = .strict := by simpa using hguided
    exact {
      stepIndex := rfl
      toolName := rfl
      success := iff_of_false nofun id
      one := rfl
      executed := rfl
      succeeded := rfl
      skipped := Nat.le_refl 0
      strict := fun _ => rfl
      stop := ⟨fun h => ⟨hmode, nofun, h⟩, fun h => h.2.2⟩ }
  | true =>
    have hmode : cfg.mode ≠ .strict := by simpa using hguided
    exact {
      stepIndex := rfl
      toolName := rfl
      success := iff_of_false nofun id
      one := rfl
      executed := rfl
      succeeded := rfl
      skipped := Nat.zero_le 1
      strict := fun h => absurd h hmode
      stop := iff_of_false nofun fun h => hmode h.1 }

theorem handleReplayExecutedStep_fits {exec : ReplayCommandExecutionResult}
    (hgate : replayStepGate host cfg world stepObj = none)
    (hexec : executeReplayCommand cfg.backend world.executors (replayArgv stepObj) = .ok exec) :
    (handleReplayExecutedStep host cfg world stepId stepObj exec).Fits host cfg stepObj true
      (ReplayStepPassed host cfg world stepObj) := by
  unfold handleReplayExecutedStep
  cases houtcome : exec.outcome with
  | none =>
    have hnot : ¬ ReplayStepPassed host cfg world stepObj := by
      rintro ⟨-, exec', outcome, hexec', hout, -⟩
      obtain rfl : exec = exec' := Except.ok.inj (hexec.symm.trans hexec')
      rw [houtcome] at hout
      cases hout
    rw [eq_false hnot]
    exact handleReplayPendingStep_fits exec.sandboxRunId
  | some outcome =>
    dsimp only
    have hpassed : ReplayStepPassed host cfg world stepObj ↔
        isReplayExecutionPassed outcome
          (evaluateExpectedSignature host (replayExpectedSignature stepObj) outcome)
          ((replayConditions stepObj "postconditions").map
            (evaluatePostcondition host world.after outcome)) = true := by
      rw [isReplayExecutionPassed_iff, List.forall_mem_map]
      constructor
      · rintro ⟨-, exec', outcome', hexec', hout, hchecks⟩
        obtain rfl : exec = exec' := Except.ok.inj (hexec.symm.trans hexec')
        obtain rfl : outcome = outcome' := Option.some.inj (houtcome.symm.trans hout)
        exact hchecks
      · intro hchecks
        exact ⟨hgate, exec, outcome, hexec, houtcome, hchecks⟩
    split
    · next h =>
      exact {
        stepIndex := rfl
        toolName := rfl
        success := iff_of_true rfl (hpassed.2 h)
        one := rfl
        executed := rfl
        succeeded := rfl
        skipped := Nat.le_refl 0
        strict := fun _ => rfl
        stop := iff_of_false nofun fun h => h.2.1 rfl }
    · next h =>
      split
      · next hmode =>
        exact {
          stepIndex := rfl
          toolName := rfl
          success := iff_of_false nofun fun hp => h (hpassed.1 hp)
          one := rfl
          executed := rfl
          succeeded := rfl
          skipped := Nat.le_refl 0
          strict := fun _ => rfl
          stop := ⟨fun h => ⟨hmode, nofun, h⟩, fun h => h.2.2⟩ }
      · next hmode =>
        exact {
          stepIndex := rfl
          toolName := rfl
          success := iff_of_false nofun fun hp => h (hpassed.1 hp)
          one := rfl
          executed := rfl
          succeeded := rfl
          skipped := Nat.zero_le 1
          strict := fun h => absurd h hmode
          stop := iff_of_false nofun fun h => hmode h.1 }

end Step

/-! ## Runs -/

section Run

variable {σ : Type} {host : RuleHost} {cfg : ReplayRunConfig} {recorder : ReplayRecorder σ}

/-- An exit of the loop, seen from the run. -/
structure ReplayRunState.Reported (s s' : ReplayRunState σ) (stepObj : Json.Fields)
    (handled : ReplayHandledStepResult) (executed : Bool) : Prop where
  counters : s'.counters = applyReplayRunStepDelta s.counters handled.delta
  reports : s'.reports = s.reports ++ [handled.report]
  handed : s'.handed = s.handed ++
    (if executed then [(s.reports.length, replayArgv stepObj)] else [])
  status : s'.status = if handled.stop then .stopped else .running

variable {s : ReplayRunState σ}

theorem finish_cases {handled : ReplayHandledStepResult} :
    (∃ error, (s.finish cfg recorder handled).status = .raised error) ∨
      (s.finish cfg recorder handled).counters =
        applyReplayRunStepDelta s.counters handled.delta ∧
      (s.finish cfg recorder handled).reports = s.reports ++ [handled.report] ∧
      (s.finish cfg recorder handled).handed = s.handed ∧
      (s.finish cfg recorder handled).status = if handled.stop then .stopped else .running := by
  unfold ReplayRunState.finish
  split
  · next error _ => exact Or.inl ⟨error, rfl⟩
  · exact Or.inr ⟨rfl, rfl, rfl, rfl⟩

/-- A step that does not raise leaves by one of the exits. -/
theorem process_cases {world : ReplayWorld} {s : ReplayRunState σ} {stepObj : Json.Fields} :
    (∃ error, (s.process host cfg recorder world stepObj).status = .raised error) ∨
    ∃ handled executed,
      ReplayHandledStepResult.Fits handled host cfg stepObj executed
        (ReplayStepPassed host cfg world stepObj) ∧
      s.Reported (s.process host cfg recorder world stepObj) stepObj handled executed := by
  unfold ReplayRunState.process
  split
  · next error _ => exact Or.inl ⟨error, rfl⟩
  · next stepId store _ =>
    split
    · next gate hgate =>
      have hnot : ¬ ReplayStepPassed host cfg world stepObj := by
        rintro ⟨hnone, -⟩
        rw [hgate] at hnone
        cases hnone
      refine finish_cases.imp id fun ⟨hcounters, hreports, hhanded, hstatus⟩ =>
        ⟨handleReplayGateStep host cfg stepId stepObj gate, false, ?_, ?_⟩
      · rw [eq_false hnot]
        exact handleReplayGateStep_fits gate
      · exact ⟨hcounters, hreports, hhanded.trans (List.append_nil _).symm, hstatus⟩
    · next hgate =>
      dsimp only
      split
      · next error _ => exact Or.inl ⟨error, rfl⟩
      · next exec hexec =>
        exact finish_cases.imp id fun ⟨hcounters, hreports, hhanded, hstatus⟩ =>
          ⟨handleReplayExecutedStep host cfg world stepId stepObj exec, true,
            handleReplayExecutedStep_fits hgate hexec, hcounters, hreports, hhanded, hstatus⟩

variable {worlds : Nat → ReplayWorld}

/-- What holds of a run that has not raised, once it has met the steps `met`. -/
structure ReplayRunLaw (host : RuleHost) (cfg : ReplayRunConfig) (worlds : Nat → ReplayWorld)
    (s : ReplayRunState σ) (met : List Json) : Prop where
  length_le : s.reports.length ≤ met.length
  running : s.status = .running → s.reports.length = met.length
  headers : s.reports.map (fun r => (r.stepIndex, r.toolName)) =
    (met.take s.reports.length).map fun step =>
      (replayStepIndex (replayStepObj step) host, replayToolName (replayStepObj step))
  counted : s.counters.succeededSteps + s.counters.failedSteps + s.counters.repairedSteps =
    s.reports.length
  succeeded : s.counters.succeededSteps = s.reports.countP (·.status = .success)
  skipped : s.counters.skippedSteps ≤ s.counters.repairedSteps
  strict : cfg.mode = .strict → s.counters.repairedSteps = 0
  executed : s.counters.executedSteps = s.handed.length
  handed_lt : ∀ h ∈ s.handed, h.1 < s.reports.length
  passed : ∀ i r step, s.reports[i]? = some r → met[i]? = some step →
    (r.status = .success ↔ ReplayStepPassed host cfg (worlds i) (replayStepObj step))
  stopped : s.status = .stopped → ∃ r, s.reports.getLast? = some r ∧ r.status ≠ .success
  stops : cfg.mode = .strict → cfg.stopOnFailure = true → ∀ i r, s.reports[i]? = some r →
    r.status ≠ .success → i + 1 = s.reports.length ∧ s.status = .stopped

theorem ReplayRunLaw.start (store : σ) :
    ReplayRunLaw host cfg worlds { store } [] where
  length_le := Nat.le_refl 0
  running _ := rfl
  headers := rfl
  counted := rfl
  succeeded := rfl
  skipped := Nat.le_refl 0
  strict _ := rfl
  executed := rfl
  handed_lt _ hmem := absurd hmem List.not_mem_nil
  passed _ _ _ hr _ := by
    rw [List.getElem?_nil] at hr
    cases hr
  stopped := nofun
  stops _ _ _ _ hr _ := by
    rw [List.getElem?_nil] at hr
    cases hr

variable {met : List Json}

theorem ReplayRunLaw.stay (h : ReplayRunLaw host cfg worlds s met) (hstopped : s.status = .stopped)
    (step : Json) :
    ReplayRunLaw host cfg worlds s (met ++ [step]) where
  length_le := by
    rw [List.length_append]
    exact Nat.le_add_right_of_le h.length_le
  running hrunning := by
    rw [hstopped] at hrunning
    cases hrunning
  headers := by
    rw [h.headers, List.take_append_of_le_length h.length_le]
  counted := h.counted
  succeeded := h.succeeded
  skipped := h.skipped
  strict := h.strict
  executed := h.executed
  handed_lt := h.handed_lt
  passed i r step' hr hstep := by
    have hi : i < met.length := Nat.lt_of_lt_of_le (List.getElem?_eq_some_iff.1 hr).1 h.length_le
    rw [List.getElem?_append_left hi] at hstep
    exact h.passed i r step' hr hstep
  stopped := h.stopped
  stops := h.stops

/-- One exit of the loop keeps the law. -/
theorem ReplayRunLaw.report {s' : ReplayRunState σ} (h : ReplayRunLaw host cfg worlds s met)
    (hrunning : s.status = .running) {step : Json} {handled : ReplayHandledStepResult}
    {executed : Bool} (hfits : handled.Fits host cfg (replayStepObj step) executed
      (ReplayStepPassed host cfg (worlds s.reports.length) (replayStepObj step)))
    (hreported : s.Reported s' (replayStepObj step) handled executed) :
    ReplayRunLaw host cfg worlds s' (met ++ [step]) := by
  have hlen := h.running hrunning
  have hlen' : s'.reports.length = s.reports.length + 1 := by
    rw [hreported.reports, List.length_append, List.length_singleton]
  have hmet : (met ++ [step]).length = met.length + 1 := by
    rw [List.length_append, List.length_singleton]
  have hall : cfg.mode = .strict → cfg.stopOnFailure = true → ∀ (i : Nat) r,
      s.reports[i]? = some r → r.status = .success := by
    intro hmode hstop i r hr
    refine Decidable.byContradiction fun hne => ?_
    have hstopped := (h.stops hmode hstop i r hr hne).2
    rw [hrunning] at hstopped
    cases hstopped
  have hlast : ∀ (i : Nat) r, s'.reports[i]? = some r →
      s.reports[i]? = some r ∨ i = s.reports.length ∧ r = handled.report := by
    intro i r hr
    rw [hreported.reports] at hr
    obtain hi | hi := Nat.lt_or_ge i s.reports.length
    · exact Or.inl (by rwa [List.getElem?_append_left hi] at hr)
    · rw [List.getElem?_append_right hi] at hr
      have hzero : i - s.reports.length = 0 := by
        have := (List.getElem?_eq_some_iff.1 hr).1
        rw [List.length_singleton] at this
        omega
      rw [hzero] at hr
      exact Or.inr ⟨by omega, (Option.some.inj hr).symm⟩
  exact {
    length_le := by omega
    running := fun _ => by omega
    headers := by
      rw [List.take_of_length_le (by omega), hreported.reports, List.map_append,
        List.map_append, h.headers, List.take_of_length_le (Nat.le_of_eq hlen.symm)]
      simp only [List.map_cons, List.map_nil, hfits.stepIndex, hfits.toolName]
    counted := by
      have hcounted := h.counted
      have hone := hfits.one
      simp only [hreported.counters, applyReplayRunStepDelta]
      omega
    succeeded := by
      simp only [hreported.counters, hreported.reports, applyReplayRunStepDelta,
        List.countP_append, List.countP_singleton, decide_eq_true_eq]
      rw [h.succeeded, hfits.succeeded]
    skipped := by
      rw [hreported.counters]
      exact Nat.add_le_add h.skipped hfits.skipped
    strict := fun hmode => by
      simp only [hreported.counters, applyReplayRunStepDelta, h.strict hmode, hfits.strict hmode]
    executed := by
      simp only [hreported.counters, hreported.handed, applyReplayRunStepDelta, List.length_append]
      rw [h.executed, hfits.executed]
      cases executed <;> rfl
    handed_lt := by
      intro hd hmem
      rw [hreported.handed] at hmem
      rw [hlen']
      obtain hmem | hmem := List.mem_append.1 hmem
      · exact Nat.lt_succ_of_lt (h.handed_lt hd hmem)
      · cases executed with
        | false => exact absurd hmem List.not_mem_nil
        | true =>
          obtain rfl := List.mem_singleton.1 hmem
          exact Nat.lt_succ_self _
    passed := by
      intro i r step' hr hstep
      obtain hr | ⟨rfl, rfl⟩ := hlast i r hr
      · have hi : i < met.length := by
          have := (List.getElem?_eq_some_iff.1 hr).1
          omega
        rw [List.getElem?_append_left hi] at hstep
        exact h.passed i r step' hr hstep
      · rw [List.getElem?_append_right (by omega), hlen, Nat.sub_self] at hstep
        obtain rfl := Option.some.inj hstep
        exact hfits.success
    stopped := fun hstopped => by
      refine ⟨handled.report, by rw [hreported.reports, List.getLast?_concat], ?_⟩
      rw [hreported.status] at hstopped
      split at hstopped
      · next hstop => exact (hfits.stop.1 hstop).2.1
      · cases hstopped
    stops := by
      intro hmode hstop i r hr hne
      obtain hr | ⟨rfl, rfl⟩ := hlast i r hr
      · exact absurd (hall hmode hstop i r hr) hne
      · exact ⟨hlen'.symm, by rw [hreported.status, if_pos (hfits.stop.2 ⟨hmode, hne, hstop⟩)]⟩ }

/-- A run that has not raised keeps the law. -/
theorem replaySteps_law {s : ReplayRunState σ} {met : List Json}
    (h : (∃ error, s.status = .raised error) ∨ ReplayRunLaw host cfg worlds s met)
    (steps : List Json) :
    (∃ error, (replaySteps host cfg recorder worlds s steps).status = .raised error) ∨
      ReplayRunLaw host cfg worlds (replaySteps host cfg recorder worlds s steps)
        (met ++ steps) := by
  induction steps generalizing s met with
  | nil =>
    rw [List.append_nil]
    exact h
  | cons step steps ih =>
    rw [List.append_cons]
    refine ih ?_
    unfold ReplayRunState.step
    cases hstatus : s.status with
    | raised error => exact Or.inl ⟨error, hstatus⟩
    | stopped =>
      obtain ⟨error, herror⟩ | h := h
      · rw [hstatus] at herror
        cases herror
      · exact Or.inr (h.stay hstatus step)
    | running =>
      obtain ⟨error, herror⟩ | h := h
      · rw [hstatus] at herror
        cases herror
      · obtain hraised | ⟨handled, executed, hfits, hreported⟩ := process_cases
        · exact Or.inl hraised
        · exact Or.inr (h.report hstatus hfits hreported)

/-! ## The reports of a run that returns -/

/-- What the reports, the counters and the status of a run say, after `reports` of its steps. -/
structure ReplayReportsFaithful (host : RuleHost) (cfg : ReplayRunConfig)
    (worlds : Nat → ReplayWorld) (steps : List Json) (s : ReplayRunState σ) : Prop where
  /-- One report for each step that was processed, in the order of the template. -/
  inOrder : s.reports.map (fun r => (r.stepIndex, r.toolName)) =
    (steps.take s.reports.length).map fun step =>
      (replayStepIndex (replayStepObj step) host, replayToolName (replayStepObj step))
  /-- A report says success of a step that passed. -/
  passed : ∀ i r step, s.reports[i]? = some r → steps[i]? = some step →
    (r.status = .success ↔ ReplayStepPassed host cfg (worlds i) (replayStepObj step))
  /-- Steps are left out at the end only, after one that did not succeed. -/
  processed : s.reports.length = steps.length ∨
    s.reports.length < steps.length ∧ ∃ r, s.reports.getLast? = some r ∧ r.status ≠ .success
  counted : s.counters.succeededSteps + s.counters.failedSteps + s.counters.repairedSteps =
    s.reports.length
  executed : s.counters.executedSteps = s.handed.length
  success : replayRunStatus cfg s.counters = .success ↔
    ∀ i step, steps[i]? = some step → ReplayStepPassed host cfg (worlds i) (replayStepObj step)
  /-- Nothing is handed out for a step after one that did not succeed. -/
  strictStops : cfg.mode = .strict → cfg.stopOnFailure = true → ∀ i r, s.reports[i]? = some r →
    r.status ≠ .success → ∀ h ∈ s.handed, h.1 ≤ i

theorem replayRunStatus_success {counters : ReplayRunCounters}
    (hskipped : counters.skippedSteps ≤ counters.repairedSteps)
    (hstrict : cfg.mode = .strict → counters.repairedSteps = 0) :
    replayRunStatus cfg counters = .success ↔
      counters.failedSteps = 0 ∧ counters.repairedSteps = 0 := by
  unfold replayRunStatus
  split
  · next hmode =>
    have hzero := hstrict hmode
    split
    · exact iff_of_false nofun (by omega)
    · exact iff_of_true rfl (by omega)
  · split
    · exact iff_of_false nofun (by omega)
    · split
      · exact iff_of_false nofun (by omega)
      · exact iff_of_true rfl (by omega)

theorem ReplayRunLaw.allSuccess (h : ReplayRunLaw host cfg worlds s met) :
    replayRunStatus cfg s.counters = .success ↔ ∀ r ∈ s.reports, r.status = .success := by
  have hcounted := h.counted
  have hsucceeded := h.succeeded
  rw [replayRunStatus_success h.skipped h.strict]
  have hcount : s.counters.failedSteps = 0 ∧ s.counters.repairedSteps = 0 ↔
      s.reports.countP (·.status = .success) = s.reports.length := by omega
  rw [hcount, List.countP_eq_length]
  simp only [decide_eq_true_eq]

theorem ReplayRunLaw.faithful {steps : List Json} (h : ReplayRunLaw host cfg worlds s steps)
    (hraised : ∀ error, s.status ≠ .raised error) :
    ReplayReportsFaithful host cfg worlds steps s := by
  have hended : s.reports.length = steps.length ∨
      ∃ r, s.reports.getLast? = some r ∧ r.status ≠ .success := by
    cases hstatus : s.status with
    | running => exact Or.inl (h.running hstatus)
    | stopped => exact Or.inr (h.stopped hstatus)
    | raised error => exact absurd hstatus (hraised error)
  have hle := h.length_le
  refine ⟨h.headers, h.passed, ?_, h.counted, h.executed, ?_, ?_⟩
  · obtain hlen | hlast := hended
    · exact Or.inl hlen
    · obtain hlt | hge := Nat.lt_or_ge s.reports.length steps.length
      · exact Or.inr ⟨hlt, hlast⟩
      · exact Or.inl (by omega)
  · rw [h.allSuccess]
    constructor
    · intro hall i step hstep
      have hlen : s.reports.length = steps.length := by
        obtain hlen | ⟨r, hlast, hne⟩ := hended
        · exact hlen
        · exact absurd (hall r (List.mem_of_getLast? hlast)) hne
      have hi : i < s.reports.length := by
        have := (List.getElem?_eq_some_iff.1 hstep).1
        omega
      exact (h.passed i _ step (List.getElem?_eq_getElem hi) hstep).1
        (hall _ (List.getElem_mem hi))
    · intro hall r hr
      obtain ⟨i, hi⟩ := List.mem_iff_getElem?.1 hr
      have hlt : i < steps.length := by
        have := (List.getElem?_eq_some_iff.1 hi).1
        omega
      exact (h.passed i r _ hi (List.getElem?_eq_getElem hlt)).2
        (hall i _ (List.getElem?_eq_getElem hlt))
  · intro hmode hstop i r hr hne hd hmem
    have hlt := h.handed_lt hd hmem
    have hlast := (h.stops hmode hstop i r hr hne).1
    omega

theorem replayRun_faithful {recorder : ReplayRecorder σ} {store : σ} {steps : List Json}
    (hreturns : ∀ error, (replayRun host cfg recorder worlds store steps).status ≠ .raised error) :
    ReplayReportsFaithful host cfg worlds steps
      (replayRun host cfg recorder worlds store steps) := by
  obtain ⟨error, -, hraised⟩ | ⟨start, -, hhanded, hreports, hcounters, hstatus⟩ :=
    replayRun_eq host cfg recorder worlds store steps
  · exact absurd (congrArg ReplayRunState.status hraised) (hreturns error)
  · obtain ⟨error, herror⟩ | hstatus := hstatus
    · exact absurd herror (hreturns error)
    · obtain ⟨error, herror⟩ | hlaw :=
        @replaySteps_law _ _ _ recorder _ _ _ (Or.inr (ReplayRunLaw.start start)) steps
      · exact absurd (hstatus.trans herror) (hreturns error)
      · have h := hlaw.faithful fun error herror => hreturns error (hstatus.trans herror)
        refine ⟨?_, ?_, ?_, ?_, ?_, ?_, ?_⟩
        · rw [hreports]
          exact h.inOrder
        · rw [hreports]
          exact h.passed
        · rw [hreports]
          exact h.processed
        · rw [hreports, hcounters]
          exact h.counted
        · rw [hhanded, hcounters]
          exact h.executed
        · rw [hcounters]
          exact h.success
        · rw [hreports, hhanded]
          exact h.strictStops

/-- A replay that returns reports what it did. -/
theorem replay_reports_faithful {recorder : ReplayRecorder σ} {stableJson : Json → String}
    {opts : ReplayPlaybookRunOptions} {input : ReplayPlaybookRunInput} {store : σ}
    {s : ReplayRunState σ}
    (hreturns : replayPlaybookRunFound host recorder worlds stableJson opts input store =
      .ok (some (cfg, s))) :
    ReplayReportsFaithful host cfg worlds input.stepsRaw s := by
  obtain ⟨-, rfl, hstatus⟩ := replayPlaybookRunFound_eq_some host recorder worlds hreturns
  exact replayRun_faithful hstatus

end Run

theorem replay_reports_faithful_ls :
    ∃ cfg s, replayPlaybookRunFound sampleRuleHost silentRecorder (fun _ => sampleWorld)
        (fun _ => "") (serverOptions ["ls"]) (strictInput (commandStep "auto_ok" ["ls"])) () =
          .ok (some (cfg, s)) ∧
      replayRunStatus cfg s.counters = .success ∧
      ReplayReportsFaithful sampleRuleHost cfg (fun _ => sampleWorld)
        (strictInput (commandStep "auto_ok" ["ls"])).stepsRaw s := by
  have hreturns : ((replayPlaybookRunFound sampleRuleHost silentRecorder (fun _ => sampleWorld)
      (fun _ => "") (serverOptions ["ls"]) (strictInput (commandStep "auto_ok" ["ls"]))
      ()).toOption.bind id).any (fun (cfg, s) => replayRunStatus cfg s.counters = .success) =
        true := by
    decide +kernel
  obtain ⟨⟨cfg, s⟩, h, hsuccess⟩ := exists_ok_some hreturns
  exact ⟨cfg, s, h, of_decide_eq_true hsuccess, replay_reports_faithful h⟩

end AionisCore.Memory
