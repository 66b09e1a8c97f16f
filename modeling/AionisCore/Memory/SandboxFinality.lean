import AionisCore.Memory.SandboxRefinement

/-!
# The outcome of a run is final

Once the row of a run has a terminal status, its outcome stays as it is, as long as nobody
adopts or recovers the run while an execution holds it, and no rollback takes back a write
to its row: then an execution writes the outcome of a run that is still running.
-/

namespace AionisCore.Memory

open Lib Store

namespace SandboxSystem

variable {Cidr : Type} {config : SandboxExecutorConfig Cidr} {network : SandboxNetwork Cidr}
  {s t : SandboxSystem} {id : String} {runs : List SandboxRunRow}

/-- The executor at its start, over the runs of the store. -/
def new (runs : List SandboxRunRow) : SandboxSystem where
  store := { runs }

theorem unheld_new : ((new runs).view id).Unheld := fun _ => rfl

/-- Where the run is over in one state, it is over in the same way in a later one. -/
def KeepsOutcome (s t : SandboxSystem) (id : String) : Prop :=
  ∀ row, s.store.run? id = some row → row.status.terminal →
    ∃ row', t.store.run? id = some row' ∧ row'.outcome = row.outcome

/-- Whoever holds the run holds it alone and until the end, and its writes are kept. -/
def Undisturbed (id : String) (s : SandboxSystem) (event : SandboxEvent) : Prop :=
  ¬ s.Loses id event ∧ ¬ s.Adopts id event ∧ ¬ s.Sweeps id event

theorem owned_run {es : List SandboxEvent}
    (h : Along (step config network) (Undisturbed id) (new runs) es)
    (hrun : run (step config network) (new runs) es = some s) : (s.view id).Owned :=
  run_invariant_along (Q := fun s => (s.view id).Owned)
    (fun _ _ _ hown ⟨hlossless, hsole, hunswept⟩ hstep =>
      preserves (fun _ _ => RunView.Owned.step) hown hlossless (fun _ => hsole)
        (fun _ => hunswept) hstep)
    (@RunView.Unheld.owned ((new runs).view id) unheld_new _) h hrun

/-- The outcome of a run is final in every run of the executor that does not disturb it. -/
theorem outcome_final {es₁ es₂ : List SandboxEvent}
    (h : Along (step config network) (Undisturbed id) (new runs) (es₁ ++ es₂))
    (h₁ : run (step config network) (new runs) es₁ = some s)
    (h₂ : run (step config network) s es₂ = some t) : KeepsOutcome s t id := by
  intro row hrow hterminal
  have hlater := run_invariant_along
    (Q := fun u => (u.view id).Owned ∧ ∃ row', u.store.run? id = some row' ∧
      row'.outcome = row.outcome)
    (fun u _ u' ⟨hown, row₁, hrow₁, hout₁⟩ ⟨hlossless, hsole, hunswept⟩ hstep =>
      preserves (P := fun v => v.Owned ∧ ∃ row', v.row = some row' ∧ row'.outcome = row.outcome)
        (fun v w ⟨hv, row₂, hrow₂, hout₂⟩ hvw => by
          have hstatus : row₂.status = row.status := congrArg RunOutcome.status hout₂
          obtain ⟨row₃, hrow₃, hout₃⟩ := hv.keeps hvw hrow₂ (by rw [hstatus]; exact hterminal)
          exact ⟨hv.step hvw, row₃, hrow₃, hout₃.trans hout₂⟩)
        ⟨hown, row₁, hrow₁, hout₁⟩ hlossless (fun _ => hsole) (fun _ => hunswept) hstep)
    ⟨owned_run (along_of_append h) h₁, row, hrow, rfl⟩ (along_append h h₁) h₂
  exact hlater.2

/-- A step that resumes no failed claim, rolls nothing back and recovers nothing. -/
def plain (s : SandboxSystem) : SandboxEvent → Bool
  | .submitNext i _ _ => s.submits[i]? != some (.closing false true)
  | .cancelNext i _ => s.cancels[i]?.all fun c => c.2 != .closing none true
  | .execution i .resumed _ => s.executions[i]?.all fun e =>
    match e.stage with
    | .claimed none => false
    | _ => true
  | .sweepNext _ => false
  | _ => true

theorem undisturbed_of_plain {event : SandboxEvent} (h : s.plain event) :
    Undisturbed id s event := by
  refine ⟨fun hloses => ?_, fun hadopts => ?_, fun hsweeps => ?_⟩
  · unfold Loses at hloses
    split at hloses
    · rw [plain, hloses.1] at h
      exact absurd h (by decide)
    · obtain ⟨⟨request, hi⟩, -⟩ := hloses
      rw [plain, hi, Option.all_some, bne_self_eq_false] at h
      cases h
    · exact hloses
  · unfold Adopts at hadopts
    split at hadopts
    · obtain ⟨-, -, e, hi, -, run, hstage, hnone⟩ := hadopts
      obtain rfl := Option.isNone_iff_eq_none.1 hnone
      rw [plain, hi, Option.all_some, hstage] at h
      cases h
    · exact hadopts
  · unfold Sweeps at hsweeps
    split at hsweeps
    · cases h
    · exact hsweeps

/-! ## A run that is executed twice -/

def sampleRun : SandboxRunRow where
  id := "run-1"
  tenantId := "default"
  scope := "default"
  argv := some ["node"]

def sampleConfig : SandboxExecutorConfig Unit where
  mode := .localProcess
  maxConcurrency := 2
  allowedCommands := ["node"]
  staleAfterMs := 15000
  recoveryPollIntervalMs := 5000
  recoveryBatchSize := 20

def sampleNetwork : SandboxNetwork Unit where
  hostname _ := none
  sandboxRemoteHostAllowed _ _ := false
  isIP _ := false
  ipInCidrs _ _ := false
  isPrivateOrLocalIp _ := true
  tailText text _ := text
  number _ := none

abbrev sampleStep := step sampleConfig sampleNetwork

/-- The run is claimed and its command started. -/
def firstStart : List SandboxEvent := [
  .executeSync "run-1" 0,
  .execution 0 .resumed 0,
  .execution 0 .resumed 0,
  .execution 0 (.prepared true) 1]

/-- It is submitted again while it is running, and its command started again. -/
def secondStart : List SandboxEvent := [
  .executeSync "run-1" 2,
  .execution 1 .resumed 2,
  .execution 1 .resumed 2,
  .execution 1 .resumed 2,
  .execution 1 (.prepared true) 3]

def endOf (i : Nat) (code : Int) (now : Int) : List SandboxEvent := [
  .execution i (.ended (.closed { code := some code })) now,
  .execution i .resumed now]

/-- One execution of the run writes its outcome and finishes. -/
theorem outcome_final_sample : ∃ s t,
    run sampleStep (new [sampleRun]) (firstStart ++ endOf 0 0 4) = some s ∧
      run sampleStep s [.execution 0 .resumed 5] = some t ∧ KeepsOutcome s t "run-1" := by
  obtain ⟨s, hs⟩ := Option.isSome_iff_exists.1
    (show (run sampleStep (new [sampleRun]) (firstStart ++ endOf 0 0 4)).isSome by
      decide +kernel)
  obtain ⟨u, hu⟩ := Option.isSome_iff_exists.1
    (show (run sampleStep (new [sampleRun])
      ((firstStart ++ endOf 0 0 4) ++ [.execution 0 .resumed 5])).isSome by decide +kernel)
  obtain ⟨s', hs', hu⟩ := run_append.1 hu
  obtain rfl := Option.some.inj (hs.symm.trans hs')
  have hplain : Along sampleStep (fun s event => s.plain event) (new [sampleRun])
      ((firstStart ++ endOf 0 0 4) ++ [.execution 0 .resumed 5]) := by decide +kernel
  exact ⟨s, u, hs, hu,
    outcome_final (hplain.mono fun _ _ => undisturbed_of_plain) hs hu⟩

/-- The first process succeeds, and then the second one fails. -/
theorem outcome_overwritten : ¬ ∀ es₁ es₂ s t,
    run sampleStep (new [sampleRun]) es₁ = some s → run sampleStep s es₂ = some t →
      KeepsOutcome s t "run-1" := by
  intro h
  have hsome : ((run sampleStep (new [sampleRun]) (firstStart ++ secondStart ++ endOf 0 0 4)).bind
      fun s => (run sampleStep s (endOf 1 1 5)).map fun t =>
        ((s.store.run? "run-1").map (·.status), (t.store.run? "run-1").map (·.status))) =
      some (some .succeeded, some .failed) := by decide +kernel
  obtain ⟨s, hs, hsome⟩ := Option.bind_eq_some_iff.1 hsome
  obtain ⟨t, ht, hstatus⟩ := Option.map_eq_some_iff.1 hsome
  obtain ⟨hbefore, hafter⟩ := Prod.mk.inj hstatus
  obtain ⟨row, hrow, hsucceeded⟩ := Option.map_eq_some_iff.1 hbefore
  obtain ⟨row', hrow', hout⟩ := h _ _ s t hs ht row hrow (by rw [hsucceeded]; decide)
  rw [hrow', Option.map_some] at hafter
  have hsame : row'.status = row.status := congrArg RunOutcome.status hout
  rw [Option.some.inj hafter, hsucceeded] at hsame
  cases hsame

end SandboxSystem

end AionisCore.Memory
