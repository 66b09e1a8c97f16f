import AionisCore.AionisDoc.EnvelopePlan

/-!
# Telling plans apart

A handler is handed the whole plan. Two plans whose steps differ in their inputs only come out the
same for every registry just if they are one plan, or no step of them ever gets to a handler.
-/

namespace AionisCore.AionisDoc

open Lib

/-- The outputs, node results and status of an execution that is not rejected. -/
def observed (result : Except String ExecutionResultV1) :
    Option (AionisObject × List ExecutionNodeResult × ExecutionNodeStatus) :=
  result.toOption.map fun result => (result.outputs, result.nodeResults, result.status)

/-- The step fails before its handler is called, as long as there are no outputs. -/
def ExecutionPlanStep.Idle (step : ExecutionPlanStep) : Prop :=
  falsy step.module = true ∨ (unmetDependency step {}).isSome = true

def ExecutionPlanV1.Idle (plan : ExecutionPlanV1) : Prop := ∀ step ∈ plan.executions, step.Idle

section Idle

variable {runtime : ModuleRegistryExecutionRuntime} {p q : ExecutionPlanV1}
  {f : AionisObject → AionisObject}

/-- An idle step fails with one message whatever its input and its plan. -/
theorem runStep_idle {step : ExecutionPlanStep} (h : step.Idle) (turn : Nat) :
    ∃ message, runStep runtime p turn {} step = .failed message ∧
      runStep runtime q turn {} (step.mapObjects f) = .failed message := by
  have hunmet : unmetDependency (step.mapObjects f) {} = unmetDependency step {} := rfl
  unfold runStep
  rw [hunmet]
  cases hdependency : unmetDependency step {} with
  | some dependency => exact ⟨_, rfl, rfl⟩
  | none =>
    have hmodule : falsy step.module = true :=
      h.resolve_right (by rw [hdependency]; nofun)
    have hmapped : falsy (step.mapObjects f).module = true := hmodule
    dsimp only
    rw [if_pos hmodule, if_pos hmapped]
    exact ⟨_, rfl, rfl⟩

theorem runSteps_idle {s : ExecutionState} (hs : s.outputs = {}) {turn : Nat}
    {steps : List ExecutionPlanStep} (h : ∀ step ∈ steps, step.Idle) :
    runSteps runtime q s turn (steps.map (ExecutionPlanStep.mapObjects f)) =
      runSteps runtime p s turn steps := by
  induction steps generalizing s turn with
  | nil => rfl
  | cons step steps ih =>
    obtain ⟨message, hstep, hmapped⟩ :=
      @runStep_idle runtime p q f step (h step List.mem_cons_self) turn
    rw [List.map_cons, runSteps, runSteps, hs, hstep, hmapped]
    exact @ih (s.fail step message) hs (turn + 1) fun x hx => h x (List.mem_cons_of_mem step hx)

/-- What is observed of an execution is read off the run of the steps. -/
theorem observed_execute (executedAt : String) :
    observed (execute runtime p executedAt) =
      match runSteps runtime p {} 0 p.executions with
      | (_, some _) => none
      | (s, none) =>
        some (s.outputs, s.nodeResults, if 0 < s.errors.length then .failed else .success) := by
  unfold execute
  obtain ⟨s, raised⟩ := runSteps runtime p {} 0 p.executions
  cases raised with
  | none => rfl
  | some message => rfl

end Idle

section Telling

open Classical

/-- The answer of a handler that knows one plan to another. -/
noncomputable def verdict (known plan : ExecutionPlanV1) : AionisValue :=
  .bool (decide (plan = known))

/-- Every module answers whether it is handed the known plan. -/
noncomputable def tellingRuntime (known : ExecutionPlanV1) : ModuleRegistryExecutionRuntime where
  runtimeId := ""
  registry := fun _ => some {
    manifest := {}
    handler := fun _ _ context => .value (verdict known context.plan) }
  capabilities := fun _ => true

variable {known plan : ExecutionPlanV1} {outputs : AionisObject} {step : ExecutionPlanStep}
  {turn : Nat}

theorem runStep_telling : (∃ message,
      runStep (tellingRuntime known) plan turn outputs step = .failed message) ∨
    runStep (tellingRuntime known) plan turn outputs step =
      .success (verdict known plan) [] [] := by
  unfold runStep
  split
  · exact .inl ⟨_, rfl⟩
  · split
    · exact .inl ⟨_, rfl⟩
    · exact .inr rfl

/-- Where a step is not idle, its handler answers. -/
theorem runStep_telling_of_not_idle (h : ¬ step.Idle) :
    runStep (tellingRuntime known) plan turn {} step = .success (verdict known plan) [] [] := by
  have hmodule : ¬ falsy step.module = true := fun hmodule => h (.inl hmodule)
  have hunmet : unmetDependency step {} = none := by
    cases hdependency : unmetDependency step {} with
    | none => rfl
    | some dependency => exact absurd (.inr (by rw [hdependency]; rfl)) h
  unfold runStep
  rw [hunmet]
  dsimp only
  rw [if_neg hmodule]
  rfl

/-- The run ends, and no step of it has another answer for its output. -/
theorem runSteps_telling {s : ExecutionState} {steps : List ExecutionPlanStep} :
    ∃ t, runSteps (tellingRuntime known) plan s turn steps = (t, none) ∧
      (∀ r ∈ s.nodeResults, r ∈ t.nodeResults) ∧
      ∀ r ∈ t.nodeResults, r ∈ s.nodeResults ∨ ∀ v ∈ r.output, v = verdict known plan := by
  induction steps generalizing s turn with
  | nil => exact ⟨s, rfl, fun r hr => hr, fun r hr => .inl hr⟩
  | cons step steps ih =>
    rw [runSteps]
    obtain ⟨message, hstep⟩ | hstep :=
      @runStep_telling known plan s.outputs step turn
    · obtain ⟨t, ht, hkept, honly⟩ := @ih (turn + 1) (s.fail step message)
      rw [hstep]
      refine ⟨t, ht, fun r hr => hkept r (List.mem_append_left _ hr), fun r hr => ?_⟩
      obtain hr | hr := honly r hr
      · obtain hr | hr := List.mem_append.1 hr
        · exact .inl hr
        · obtain rfl := List.mem_singleton.1 hr
          exact .inr nofun
      · exact .inr hr
    · obtain ⟨t, ht, hkept, honly⟩ := @ih (turn + 1) (s.succeed step (verdict known plan) [] [])
      rw [hstep]
      refine ⟨t, ht, fun r hr => hkept r (List.mem_append_left _ hr), fun r hr => ?_⟩
      obtain hr | hr := honly r hr
      · obtain hr | hr := List.mem_append.1 hr
        · exact .inl hr
        · obtain rfl := List.mem_singleton.1 hr
          exact .inr fun v hv => (Option.some.inj hv).symm
      · exact .inr hr

/-- Where some step is not idle, an answer is among the results. -/
theorem runSteps_telling_answers {s t : ExecutionState} (hs : s.outputs = {})
    {steps : List ExecutionPlanStep} (hstep : ∃ step ∈ steps, ¬ step.Idle)
    (ht : runSteps (tellingRuntime known) plan s turn steps = (t, none)) :
    ∃ r ∈ t.nodeResults, r.output = some (verdict known plan) := by
  induction steps generalizing s turn with
  | nil =>
    obtain ⟨step, hmem, -⟩ := hstep
    cases hmem
  | cons step steps ih =>
    rw [runSteps, hs] at ht
    by_cases hidle : step.Idle
    · obtain ⟨message, hfailed, -⟩ :=
        @runStep_idle (tellingRuntime known) plan plan id step hidle turn
      rw [hfailed] at ht
      refine ih (show (s.fail step message).outputs = {} from hs) ?_ ht
      obtain ⟨x, hx, hactive⟩ := hstep
      obtain rfl | hx := List.mem_cons.1 hx
      · exact absurd hidle hactive
      · exact ⟨x, hx, hactive⟩
    · rw [runStep_telling_of_not_idle hidle] at ht
      obtain ⟨u, hu, hkept, -⟩ := @runSteps_telling known plan (turn + 1)
        (s.succeed step (verdict known plan) [] []) steps
      obtain rfl : u = t := congrArg Prod.fst (hu.symm.trans ht)
      exact ⟨_, hkept _ (List.mem_append_right _ List.mem_cons_self), rfl⟩

/-- Every registry gives two plans one outcome just if they are the same or idle. -/
theorem observed_eq_iff {p q : ExecutionPlanV1} {f : AionisObject → AionisObject}
    (hsteps : q.executions = p.executions.map (ExecutionPlanStep.mapObjects f)) :
    (∀ runtime executedAt,
      observed (execute runtime q executedAt) = observed (execute runtime p executedAt)) ↔
      q = p ∨ p.Idle := by
  constructor
  · intro h
    by_contra hneither
    obtain ⟨hne, hactive⟩ := not_or.1 hneither
    have hactive : ∃ step ∈ p.executions, ¬ step.Idle := by
      unfold ExecutionPlanV1.Idle at hactive
      push Not at hactive
      exact hactive
    obtain ⟨s, hs, -, -⟩ := @runSteps_telling p p 0 {} p.executions
    obtain ⟨t, ht, -, honly⟩ := @runSteps_telling p q 0 {} q.executions
    obtain ⟨r, hr, hanswer⟩ := runSteps_telling_answers rfl hactive hs
    have hsame := h (tellingRuntime p) ""
    rw [observed_execute, observed_execute, hs, ht] at hsame
    have hresults : t.nodeResults = s.nodeResults :=
      congrArg (fun outcome => outcome.2.1) (Option.some.inj hsame)
    obtain hr | hr := honly r (hresults ▸ hr)
    · cases hr
    · have hverdict : verdict p p = verdict p q := hr _ hanswer
      rw [verdict, verdict, decide_eq_true rfl, decide_eq_false hne] at hverdict
      cases hverdict
  · rintro (rfl | hidle) runtime executedAt
    · rfl
    · rw [observed_execute, observed_execute, hsteps, runSteps_idle rfl hidle]

end Telling

end AionisCore.AionisDoc
