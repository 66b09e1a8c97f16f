import AionisCore.Lib.Run
import AionisCore.Memory.ReplayRunReports

/-!
# What a command handed out has passed

A command goes to an executor only after the checks of the run and the gates of its step. The
gates know a command by its name, and some read a name otherwise than their neighbours:
`ReplayPlainStep` says where they agree.
-/

namespace AionisCore.Memory

open Lib Lib.JsString

/-! ## Names of commands -/

variable {s raw : String}

theorem safeName_visible (h : isSafeCommandName s = true) :
    ∀ c ∈ s.toList, c ≠ '/' ∧ isWhite c = false := by
  intro c hc
  unfold isSafeCommandName at h
  rw [Bool.and_eq_true, List.all_eq_true] at h
  have hsafe := h.2 c hc
  constructor
  · rintro rfl
    exact absurd hsafe (by decide)
  · simp only [Bool.or_eq_true, beq_iff_eq] at hsafe
    obtain ((halnum | rfl) | rfl) | rfl := hsafe
    · exact isWhite_of_isAlphanum halnum
    all_goals decide

theorem pathSegments_safeName (h : isSafeCommandName s = true) : pathSegments s = [s] := by
  have hne : s.toList ≠ [] := by
    intro hnil
    unfold isSafeCommandName at h
    rw [Bool.and_eq_true, decide_eq_true_eq] at h
    exact h.1 (String.toList_eq_nil_iff.1 hnil)
  have hsplit : s.toList.splitOn '/' = [s.toList] :=
    List.splitOnP_eq_singleton fun c hc => beq_eq_false_iff_ne.2 (safeName_visible h c hc).1
  unfold pathSegments
  rw [hsplit, List.filter_cons_of_pos (by simpa using hne), List.filter_nil, List.map_singleton,
    String.ofList_toList]

theorem baseName_safeName (h : isSafeCommandName s = true) : baseName s = s := by
  unfold baseName
  rw [pathSegments_safeName h]
  rfl

theorem safeReference_trim : isSafeCommandReference (trim raw) = isSafeCommandReference raw := by
  unfold isSafeCommandReference
  simp only [trim_trim]

theorem mem_aliases {name : String} :
    name ∈ resolveCommandReferenceAliases raw ↔
      isSafeCommandReference raw = true ∧
        (name = trim raw ∨ name = baseName (trim raw) ∧ isSafeCommandName name = true) := by
  unfold resolveCommandReferenceAliases
  dsimp only
  rw [safeReference_trim]
  cases isSafeCommandReference raw with
  | false => exact iff_of_false List.not_mem_nil fun h => Bool.false_ne_true h.1
  | true =>
    rw [if_neg (by decide)]
    generalize baseName (trim raw) = base
    by_cases hbase : base ≠ trim raw ∧ isSafeCommandName base = true
    · rw [if_pos hbase, List.mem_cons, List.mem_singleton]
      refine ⟨fun h => ⟨rfl, h.imp id fun hname => ⟨hname, hname ▸ hbase.2⟩⟩, fun h => ?_⟩
      exact h.2.imp id And.left
    · rw [if_neg hbase, List.mem_singleton]
      refine ⟨fun h => ⟨rfl, Or.inl h⟩, fun ⟨_, h⟩ => h.elim id fun ⟨hname, hsafe⟩ => ?_⟩
      exact hname.trans (Decidable.not_not.1 fun hne => hbase ⟨hne, hname ▸ hsafe⟩)

/-- An alias of an alias is one of the command's own. -/
theorem aliases_trans {mid target : String} (hmid : mid ∈ resolveCommandReferenceAliases raw)
    (htarget : target ∈ resolveCommandReferenceAliases mid) :
    target ∈ resolveCommandReferenceAliases raw := by
  obtain ⟨hraw, hmid' | ⟨hmid', hname⟩⟩ := mem_aliases.1 hmid
  · rw [hmid', mem_aliases, safeReference_trim, trim_trim] at htarget
    exact mem_aliases.2 htarget
  · have htrim : trim mid = mid :=
      trimmed_of_visible fun c hc => (safeName_visible hname c hc).2
    obtain ⟨-, h⟩ := mem_aliases.1 htarget
    rw [htrim, baseName_safeName hname] at h
    have htarget' : target = mid := h.elim id And.left
    rw [htarget']
    exact hmid

/-- No path is the name of a sensitive command. -/
theorem lowerCommand_absolute (h : isAbsolutePath s = true) :
    lowerCommand s ∉ SENSITIVE_COMMANDS := by
  intro hmem
  have hnames : ∀ name ∈ SENSITIVE_COMMANDS, name.toList.head? ≠ some '/' := by decide
  refine hnames _ hmem ?_
  unfold isAbsolutePath at h
  unfold lowerCommand
  rw [String.toList_ofList, List.head?_map, eq_of_beq h]
  rfl

theorem sensitive_iff {command : String} {argv : List String} :
    (detectSensitiveCommand command argv).sensitive = true ↔
      trim command ≠ "" ∧ lowerCommand (trim command) ∈ SENSITIVE_COMMANDS := by
  unfold detectSensitiveCommand
  dsimp only
  by_cases h : trim command = "" ∨ lowerCommand (trim command) ∉ SENSITIVE_COMMANDS
  · rw [if_pos h]
    refine iff_of_false Bool.false_ne_true fun ⟨hne, hmem⟩ => ?_
    exact h.elim hne fun hnot => hnot hmem
  · rw [if_neg h]
    obtain ⟨hne, hmem⟩ := not_or.1 h
    refine iff_of_true ?_ ⟨hne, Decidable.not_not.1 hmem⟩
    repeat' split
    all_goals rfl

/-- The base name is seen where the command is no path. -/
theorem sensitive_of_base {argv : List String}
    (hsafe : isSafeCommandReference (commandOf argv) = true) :
    (detectSensitiveCommand (commandOf argv) argv).sensitive = true ↔
      lowerCommand (baseName (commandOf argv)) ∈ SENSITIVE_COMMANDS ∧
        isAbsolutePath (commandOf argv) = false := by
  have htrim : trim (commandOf argv) = commandOf argv := trim_trim _
  rw [sensitive_iff, htrim]
  unfold isSafeCommandReference at hsafe
  dsimp only at hsafe
  rw [htrim, Bool.or_eq_true] at hsafe
  obtain hname | hpath := hsafe
  · have hne : commandOf argv ≠ "" := by
      intro h
      rw [h] at hname
      cases hname
    have hrelative : isAbsolutePath (commandOf argv) = false := by
      unfold isAbsolutePath
      cases hlist : (commandOf argv).toList with
      | nil => rfl
      | cons c cs =>
        have hc := (safeName_visible hname c (hlist ▸ List.mem_cons_self)).1
        exact beq_eq_false_iff_ne.2 fun h => hc (Option.some.inj h)
    rw [baseName_safeName hname]
    exact ⟨fun h => ⟨h.2, hrelative⟩, fun h => ⟨hne, h.1⟩⟩
  · have habsolute : isAbsolutePath (commandOf argv) = true := by
      simp only [Bool.and_eq_true] at hpath
      exact hpath.1.1
    refine iff_of_false (fun h => lowerCommand_absolute habsolute h.2) fun h => ?_
    rw [habsolute] at h
    exact Bool.false_ne_true h.2.symm

/-! ## The checks of the run -/

section Config

variable {stableJson : Json → String} {opts : ReplayPlaybookRunOptions}
  {input : ReplayPlaybookRunInput} {cfg : ReplayRunConfig}

/-- What a configuration takes from the request. -/
structure ReplayRunConfig.Follows (cfg : ReplayRunConfig) (stableJson : Json → String)
    (opts : ReplayPlaybookRunOptions) (input : ReplayPlaybookRunInput) : Prop where
  mode : cfg.mode = (input.gate stableJson).effectiveMode
  executes : cfg.mode ≠ .simulate
  consent : input.flag "allow_local_exec" = true
  allowedCommands : cfg.allowedCommands = replayAllowedCommands opts input
  autoConfirm : cfg.autoConfirm = input.flag "auto_confirm"
  sensitiveReviewMode : cfg.sensitiveReviewMode =
    normalizeReplaySensitiveReviewMode (input.text "sensitive_review_mode")
  allowSensitiveExec : cfg.allowSensitiveExec = input.flag "allow_sensitive_exec"

theorem replayRunConfig_follows (h : replayRunConfig stableJson opts input = .ok (some cfg)) :
    cfg.Follows stableJson opts input := by
  unfold replayRunConfig at h
  dsimp only at h
  split at h
  · cases h
  · split at h
    · cases h
    · next hmode =>
      split at h
      · cases h
      · obtain ⟨_, -, h⟩ := bind_eq_ok.1 h
        split at h
        · cases h
        · split at h
          · cases h
          · next hconsent =>
            split at h
            · cases h
            · obtain ⟨strategy, -, h⟩ := bind_eq_ok.1 h
              obtain ⟨_, -, h⟩ := bind_eq_ok.1 h
              obtain rfl := Option.some.inj (Except.ok.inj h)
              exact ⟨rfl, hmode, by simpa using hconsent, rfl, rfl, rfl, rfl⟩

end Config

/-! ## The gates of a step -/

/-- What the command of a step must have passed. -/
structure ReplayConsented (host : RuleHost) (stableJson : Json → String)
    (opts : ReplayPlaybookRunOptions) (input : ReplayPlaybookRunInput) (world : ReplayWorld)
    (stepObj : Json.Fields) : Prop where
  /-- The run is strict or guided; a simulation is so only by a gate that matched. -/
  mode : (input.gate stableJson).effectiveMode ∈ [.strict, .guided] ∧
    (input.requestedMode = .simulate →
      (input.gate stableJson).enabled = true ∧ (input.gate stableJson).matched = true)
  consent : input.flag "allow_local_exec" = true
  preconditions : ∀ c ∈ replayPreChecks host world stepObj, c.state = .pass
  safetyLevel : replaySafetyLevel stepObj = "auto_ok" ∨
    replaySafetyLevel stepObj = "needs_confirm" ∧ input.flag "auto_confirm" = true
  tool : isReplayCommandTool (replayToolName stepObj) = true
  /-- The command is one of the server. -/
  server : isAllowedReplayCommand (commandOf (replayArgv stepObj)) (serverCommands opts) = true
  /-- It is one of the request, where the request names any. -/
  requested : input.requestedCommands ≠ [] →
    isAllowedReplayCommand (commandOf (replayArgv stepObj)) input.requestedCommands = true
  sensitive : lowerCommand (baseName (commandOf (replayArgv stepObj))) ∈ SENSITIVE_COMMANDS →
    normalizeReplaySensitiveReviewMode (input.text "sensitive_review_mode") = .warn ∨
      input.flag "allow_sensitive_exec" = true

/-- The gates read the safety level and the command of the step as they are meant: the level is
one of the three, and no path names a sensitive command under review. -/
def ReplayPlainStep (cfg : ReplayRunConfig) (stepObj : Json.Fields) : Prop :=
  replaySafetyLevel stepObj ∈ ["auto_ok", "needs_confirm", "manual_only"] ∧
    (isAbsolutePath (commandOf (replayArgv stepObj)) = true →
      lowerCommand (baseName (commandOf (replayArgv stepObj))) ∈ SENSITIVE_COMMANDS →
        cfg.sensitiveReviewMode = .warn ∨ cfg.allowSensitiveExec = true)

instance (cfg : ReplayRunConfig) (stepObj : Json.Fields) :
    Decidable (ReplayPlainStep cfg stepObj) := by
  unfold ReplayPlainStep
  infer_instance

section Gates

variable {host : RuleHost} {stableJson : Json → String} {opts : ReplayPlaybookRunOptions}
  {input : ReplayPlaybookRunInput} {cfg : ReplayRunConfig} {world : ReplayWorld}
  {stepObj : Json.Fields}

theorem replayStepGate_eq_none :
    replayStepGate host cfg world stepObj = none ↔
      resolveReplayPreconditionGate (replayPreChecks host world stepObj) = none ∧
      resolveReplayConfirmationGate (replaySafetyLevel stepObj) cfg.autoConfirm = none ∧
      resolveReplayUnsupportedToolGate (replayToolName stepObj) = none ∧
      resolveReplayCommandAllowlistGate (replayArgv stepObj) cfg.allowedCommands = none ∧
      resolveReplaySensitiveCommandGate (commandOf (replayArgv stepObj)) (replayArgv stepObj)
        (detectSensitiveCommand (commandOf (replayArgv stepObj)) (replayArgv stepObj))
        cfg.sensitiveReviewMode cfg.allowSensitiveExec = none := by
  unfold replayStepGate
  simp only [Option.orElse_eq_orElse, Option.orElse_eq_or, Option.or_eq_none_iff,
    Option.map_eq_none_iff]

/-- A command that is allowed in the run is one of the server and one of the request. -/
theorem allowed_of_replayAllowed {raw : String}
    (h : isAllowedReplayCommand raw (replayAllowedCommands opts input) = true) :
    isAllowedReplayCommand raw (serverCommands opts) = true ∧
      (input.requestedCommands ≠ [] →
        isAllowedReplayCommand raw input.requestedCommands = true) := by
  unfold isAllowedReplayCommand at h
  obtain ⟨name, hname, hmem⟩ := List.any_eq_true.1 h
  have hmem := of_decide_eq_true hmem
  unfold replayAllowedCommands at hmem
  obtain ⟨hserver, hrequested⟩ := List.mem_filter.1 hmem
  refine ⟨List.any_eq_true.2 ⟨name, hname, decide_eq_true hserver⟩, fun hne => ?_⟩
  rw [Bool.or_eq_true, List.isEmpty_iff] at hrequested
  obtain hempty | hrequested := hrequested
  · exact absurd hempty hne
  · obtain ⟨target, htarget, hin⟩ := List.any_eq_true.1 hrequested
    exact List.any_eq_true.2 ⟨target, aliases_trans hname htarget, hin⟩

/-- The gates let through what has passed, where the step is plain. -/
theorem consented_iff_plain (hcfg : cfg.Follows stableJson opts input)
    (hgate : replayStepGate host cfg world stepObj = none) :
    ReplayConsented host stableJson opts input world stepObj ↔ ReplayPlainStep cfg stepObj := by
  obtain ⟨hpre, hconfirm, htool, hallow, hsensitive⟩ := replayStepGate_eq_none.1 hgate
  rw [preconditionGate_eq_none] at hpre
  rw [confirmationGate_eq_none] at hconfirm
  rw [unsupportedToolGate_eq_none] at htool
  rw [commandAllowlistGate_eq_none] at hallow
  rw [sensitiveCommandGate_eq_none] at hsensitive
  obtain ⟨-, -, hsafe, hallowed⟩ := hallow
  rw [sensitive_of_base hsafe] at hsensitive
  constructor
  · intro h
    refine ⟨?_, fun _ hbase => ?_⟩
    · obtain hlevel | ⟨hlevel, -⟩ := h.safetyLevel <;> rw [hlevel] <;> decide
    · rw [hcfg.sensitiveReviewMode, hcfg.allowSensitiveExec]
      exact h.sensitive hbase
  · rintro ⟨hlevel, hpath⟩
    have hmode : (input.gate stableJson).effectiveMode ≠ .simulate := by
      rw [← hcfg.mode]
      exact hcfg.executes
    rw [hcfg.allowedCommands] at hallowed
    obtain ⟨hserver, hrequested⟩ := allowed_of_replayAllowed hallowed
    exact {
      mode := by
        refine ⟨?_, fun hsimulate => ?_⟩
        · cases heffective : (input.gate stableJson).effectiveMode with
          | simulate => exact absurd heffective hmode
          | strict => decide
          | guided => decide
        · obtain heq | ⟨-, -, henabled, hmatched⟩ := effectiveMode_of_simulate
            (rfl : input.gate stableJson = input.gate stableJson)
          · exact absurd (heq.trans hsimulate) hmode
          · exact ⟨henabled, hmatched⟩
      consent := hcfg.consent
      preconditions := hpre
      safetyLevel := by
        simp only [List.mem_cons, List.not_mem_nil, or_false] at hlevel
        obtain hauto | hneeds | hmanual := hlevel
        · exact Or.inl hauto
        · exact Or.inr ⟨hneeds, hcfg.autoConfirm ▸ hconfirm.2 hneeds⟩
        · exact absurd hmanual hconfirm.1
      tool := htool
      server := hserver
      requested := hrequested
      sensitive := fun hbase => by
        rw [← hcfg.sensitiveReviewMode, ← hcfg.allowSensitiveExec]
        cases hpath' : isAbsolutePath (commandOf (replayArgv stepObj)) with
        | false => exact hsensitive ⟨hbase, hpath'⟩
        | true => exact hpath hpath' hbase }

end Gates

/-! ## Runs -/

section Run

variable {σ : Type} {host : RuleHost} {stableJson : Json → String}
  {opts : ReplayPlaybookRunOptions} {input : ReplayPlaybookRunInput} {cfg : ReplayRunConfig}
  {recorder : ReplayRecorder σ} {worlds : Nat → ReplayWorld}

/-- The command of the step at this position was handed out, and has passed what it must. -/
def ReplayHandedConsented (host : RuleHost) (stableJson : Json → String)
    (opts : ReplayPlaybookRunOptions) (input : ReplayPlaybookRunInput)
    (worlds : Nat → ReplayWorld) (handed : Nat × List String) : Prop :=
  ∃ step, input.stepsRaw[handed.1]? = some step ∧
    handed.2 = replayArgv (replayStepObj step) ∧
    ReplayConsented host stableJson opts input (worlds handed.1) (replayStepObj step)

/-- The step is begun, and its gates let it pass. -/
def ReplayRunState.HandsOut (host : RuleHost) (cfg : ReplayRunConfig)
    (recorder : ReplayRecorder σ) (worlds : Nat → ReplayWorld) (s : ReplayRunState σ)
    (step : Json) : Prop :=
  s.status = .running ∧
    (∃ begun, recordStepBefore host cfg recorder s.store (replayStepObj step) = .ok begun) ∧
    replayStepGate host cfg (worlds s.reports.length) (replayStepObj step) = none

variable {s : ReplayRunState σ}

theorem finish_handed {handled : ReplayHandledStepResult} :
    (s.finish cfg recorder handled).handed = s.handed := by
  unfold ReplayRunState.finish
  split <;> rfl

variable {step : Json}

theorem step_handed_of_handsOut (h : s.HandsOut host cfg recorder worlds step) :
    (s.step host cfg recorder worlds step).handed =
      s.handed ++ [(s.reports.length, replayArgv (replayStepObj step))] := by
  obtain ⟨hrunning, ⟨⟨stepId, store⟩, hbegun⟩, hgate⟩ := h
  unfold ReplayRunState.step
  rw [hrunning]
  dsimp only
  unfold ReplayRunState.process
  rw [hbegun]
  dsimp only
  rw [hgate]
  dsimp only
  split
  · rfl
  · exact finish_handed

theorem step_handed_of_not (h : ¬ s.HandsOut host cfg recorder worlds step) :
    (s.step host cfg recorder worlds step).handed = s.handed := by
  unfold ReplayRunState.step
  split
  · next hrunning =>
    unfold ReplayRunState.process
    split
    · rfl
    · next stepId store hbegun =>
      split
      · exact finish_handed
      · next hgate => exact absurd ⟨hrunning, ⟨_, hbegun⟩, hgate⟩ h
  · rfl

theorem handed_subset_replaySteps {steps : List Json} :
    s.handed ⊆ (replaySteps host cfg recorder worlds s steps).handed := by
  induction steps generalizing s with
  | nil => exact List.Subset.refl _
  | cons step steps ih =>
    refine List.Subset.trans ?_ (ih (s := s.step host cfg recorder worlds step))
    by_cases h : s.HandsOut host cfg recorder worlds step
    · rw [step_handed_of_handsOut h]
      exact List.subset_append_left _ _
    · rw [step_handed_of_not h]
      exact List.Subset.refl _

theorem step_running (h : (s.step host cfg recorder worlds step).status = .running) :
    s.status = .running ∧
      (s.step host cfg recorder worlds step).reports.length = s.reports.length + 1 := by
  unfold ReplayRunState.step at h ⊢
  cases hstatus : s.status with
  | running =>
    rw [hstatus] at h
    dsimp only at h ⊢
    obtain ⟨error, herror⟩ | ⟨handled, executed, -, hreported⟩ :=
      @process_cases _ host cfg recorder _ s _
    · rw [herror] at h
      cases h
    · rw [hreported.reports, List.length_append]
      exact ⟨rfl, rfl⟩
  | stopped =>
    rw [hstatus] at h
    dsimp only at h
    rw [hstatus] at h
    cases h
  | raised error =>
    rw [hstatus] at h
    dsimp only at h
    rw [hstatus] at h
    cases h

theorem replaySteps_consented_iff (hcfg : cfg.Follows stableJson opts input)
    {s : ReplayRunState σ} {met rest : List Json} (hsteps : input.stepsRaw = met ++ rest)
    (hlen : s.status = .running → s.reports.length = met.length)
    (hgood : ∀ h ∈ s.handed, ReplayHandedConsented host stableJson opts input worlds h) :
    (∀ h ∈ (replaySteps host cfg recorder worlds s rest).handed,
      ReplayHandedConsented host stableJson opts input worlds h) ↔
    Along (fun s step => some (s.step host cfg recorder worlds step))
      (fun s step => s.HandsOut host cfg recorder worlds step →
        ReplayPlainStep cfg (replayStepObj step)) s rest := by
  induction rest generalizing s met with
  | nil => exact iff_of_true hgood trivial
  | cons step rest ih =>
    have hsteps' : input.stepsRaw = (met ++ [step]) ++ rest := by
      rw [hsteps, List.append_assoc, List.singleton_append]
    have hlen' : (s.step host cfg recorder worlds step).status = .running →
        (s.step host cfg recorder worlds step).reports.length = (met ++ [step]).length := by
      intro h
      obtain ⟨hrunning, hreports⟩ := step_running h
      rw [hreports, hlen hrunning, List.length_append, List.length_singleton]
    rw [along_cons_some]
    by_cases hout : s.HandsOut host cfg recorder worlds step
    · have hhanded := step_handed_of_handsOut hout
      have hat : input.stepsRaw[s.reports.length]? = some step := by
        rw [hsteps, hlen hout.1, List.getElem?_append_right (Nat.le_refl _), Nat.sub_self,
          List.getElem?_cons_zero]
      have hplain : ReplayHandedConsented host stableJson opts input worlds
            (s.reports.length, replayArgv (replayStepObj step)) ↔
          ReplayPlainStep cfg (replayStepObj step) := by
        rw [← consented_iff_plain hcfg hout.2.2]
        constructor
        · rintro ⟨step', hstep', -, h⟩
          obtain rfl := Option.some.inj (hat.symm.trans hstep')
          exact h
        · intro h
          exact ⟨step, hat, rfl, h⟩
      constructor
      · intro h
        have hsub : (s.step host cfg recorder worlds step).handed ⊆
            (replaySteps host cfg recorder worlds s (step :: rest)).handed :=
          handed_subset_replaySteps
        rw [hhanded] at hsub
        have hnew := h _ (hsub (List.mem_append_right _ (List.mem_singleton.2 rfl)))
        refine ⟨fun _ => hplain.1 hnew, (ih hsteps' hlen' ?_).1 h⟩
        rw [hhanded]
        exact fun hd hmem => h hd (hsub hmem)
      · rintro ⟨hstep, htail⟩
        refine (ih hsteps' hlen' ?_).2 htail
        rw [hhanded]
        intro hd hmem
        obtain hmem | hmem := List.mem_append.1 hmem
        · exact hgood hd hmem
        · obtain rfl := List.mem_singleton.1 hmem
          exact hplain.2 (hstep hout)
    · have hgood' : ∀ h ∈ (s.step host cfg recorder worlds step).handed,
          ReplayHandedConsented host stableJson opts input worlds h := by
        rw [step_handed_of_not hout]
        exact hgood
      exact (ih hsteps' hlen' hgood').trans
        ⟨fun h => ⟨fun hin => absurd hin hout, h⟩, fun h => h.2⟩

/-- Every command that a replay hands out has passed what it must, just if the steps it hands out
are plain. Runs that raise are included. -/
theorem replay_consented_iff (hcfg : replayRunConfig stableJson opts input = .ok (some cfg))
    {store : σ} :
    (∀ h ∈ (replayRun host cfg recorder worlds store input.stepsRaw).handed,
      ReplayHandedConsented host stableJson opts input worlds h) ↔
    ∀ start, recordRunStart cfg recorder store = .ok start →
      Along (fun (s : ReplayRunState σ) step => some (s.step host cfg recorder worlds step))
        (fun s step => s.HandsOut host cfg recorder worlds step →
          ReplayPlainStep cfg (replayStepObj step)) { store := start } input.stepsRaw := by
  have hiff : ∀ start, (∀ h ∈ (replaySteps host cfg recorder worlds { store := start }
        input.stepsRaw).handed, ReplayHandedConsented host stableJson opts input worlds h) ↔ _ :=
    fun start => @replaySteps_consented_iff _ _ _ _ _ _ _ _ (replayRunConfig_follows hcfg) _ [] _
      (List.nil_append _).symm (fun _ => rfl) fun _ hmem => absurd hmem List.not_mem_nil
  obtain ⟨error, herror, hraised⟩ | ⟨start, hstart, hhanded, -⟩ :=
    replayRun_eq host cfg recorder worlds store input.stepsRaw
  · rw [hraised]
    refine iff_of_true (fun h hmem => absurd hmem List.not_mem_nil) fun start hstart => ?_
    rw [herror] at hstart
    cases hstart
  · rw [hhanded, hiff start]
    constructor
    · intro h start' hstart'
      obtain rfl := Except.ok.inj (hstart.symm.trans hstart')
      exact h
    · intro h
      exact h start hstart

theorem replay_consented_iff_ls :
    ∃ cfg, replayRunConfig (fun _ => "") (serverOptions ["ls"])
        (strictInput (commandStep "auto_ok" ["ls"])) = .ok (some cfg) ∧
      (replayRun sampleRuleHost cfg silentRecorder (fun _ => sampleWorld) ()
        (strictInput (commandStep "auto_ok" ["ls"])).stepsRaw).handed = [(0, ["ls"])] ∧
      ∀ h ∈ (replayRun sampleRuleHost cfg silentRecorder (fun _ => sampleWorld) ()
          (strictInput (commandStep "auto_ok" ["ls"])).stepsRaw).handed,
        ReplayHandedConsented sampleRuleHost (fun _ => "") (serverOptions ["ls"])
          (strictInput (commandStep "auto_ok" ["ls"])) (fun _ => sampleWorld) h := by
  have hconfig : ((replayRunConfig (fun _ => "") (serverOptions ["ls"])
      (strictInput (commandStep "auto_ok" ["ls"]))).toOption.bind id).any (fun cfg =>
        (replayRun sampleRuleHost cfg silentRecorder (fun _ => sampleWorld) ()
          (strictInput (commandStep "auto_ok" ["ls"])).stepsRaw).handed = [(0, ["ls"])] ∧
        ReplayPlainStep cfg (replayStepObj (commandStep "auto_ok" ["ls"]))) = true := by
    decide +kernel
  obtain ⟨cfg, hcfg, h⟩ := exists_ok_some hconfig
  obtain ⟨hhanded, hplain⟩ := of_decide_eq_true h
  refine ⟨cfg, hcfg, hhanded, (replay_consented_iff hcfg).2 fun start _ => ?_⟩
  exact along_cons_some.2 ⟨fun _ => hplain, trivial⟩

/-- `rm` under its path, and a safety level that no gate knows. -/
theorem unplain_commands_handed_out :
    (∃ cfg, replayRunConfig (fun _ => "") (serverOptions ["rm"])
        (strictInput (commandStep "auto_ok" ["/bin/rm", "-rf", "data"])) = .ok (some cfg) ∧
      ∃ h ∈ (replayRun sampleRuleHost cfg silentRecorder (fun _ => sampleWorld) ()
          (strictInput (commandStep "auto_ok" ["/bin/rm", "-rf", "data"])).stepsRaw).handed,
        ¬ ReplayHandedConsented sampleRuleHost (fun _ => "") (serverOptions ["rm"])
          (strictInput (commandStep "auto_ok" ["/bin/rm", "-rf", "data"])) (fun _ => sampleWorld)
          h) ∧
    ∃ cfg, replayRunConfig (fun _ => "") (serverOptions ["ls"])
        (unrecordedInput (commandStep "manual" ["ls"])) = .ok (some cfg) ∧
      ∃ h ∈ (replayRun sampleRuleHost cfg silentRecorder (fun _ => sampleWorld) ()
          (unrecordedInput (commandStep "manual" ["ls"])).stepsRaw).handed,
        ¬ ReplayHandedConsented sampleRuleHost (fun _ => "") (serverOptions ["ls"])
          (unrecordedInput (commandStep "manual" ["ls"])) (fun _ => sampleWorld) h := by
  constructor
  · have hconfig : ((replayRunConfig (fun _ => "") (serverOptions ["rm"])
        (strictInput (commandStep "auto_ok" ["/bin/rm", "-rf", "data"]))).toOption.bind id).any
          (fun cfg => (0, ["/bin/rm", "-rf", "data"]) ∈ (replayRun sampleRuleHost cfg
            silentRecorder (fun _ => sampleWorld) () (strictInput
              (commandStep "auto_ok" ["/bin/rm", "-rf", "data"])).stepsRaw).handed) = true := by
      decide +kernel
    obtain ⟨cfg, hcfg, h⟩ := exists_ok_some hconfig
    refine ⟨cfg, hcfg, _, of_decide_eq_true h, ?_⟩
    rintro ⟨step, hstep, -, hconsented⟩
    obtain rfl : commandStep "auto_ok" ["/bin/rm", "-rf", "data"] = step := Option.some.inj hstep
    exact absurd (hconsented.sensitive (by decide +kernel)) (by decide +kernel)
  · have hconfig : ((replayRunConfig (fun _ => "") (serverOptions ["ls"])
        (unrecordedInput (commandStep "manual" ["ls"]))).toOption.bind id).any
          (fun cfg => (0, ["ls"]) ∈ (replayRun sampleRuleHost cfg silentRecorder
            (fun _ => sampleWorld) ()
            (unrecordedInput (commandStep "manual" ["ls"])).stepsRaw).handed) = true := by
      decide +kernel
    obtain ⟨cfg, hcfg, h⟩ := exists_ok_some hconfig
    refine ⟨cfg, hcfg, _, of_decide_eq_true h, ?_⟩
    rintro ⟨step, hstep, -, hconsented⟩
    obtain rfl : commandStep "manual" ["ls"] = step := Option.some.inj hstep
    exact absurd hconsented.safetyLevel (by decide +kernel)

end Run

end AionisCore.Memory
