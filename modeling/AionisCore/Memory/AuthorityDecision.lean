import AionisCore.Memory.AuthorityGate

/-!
# What the authority gate grants

The two gates list reasons against a contract and against its evidence; authority
is granted where both lists are empty. Here the lists are read as conditions on the
contract and on the evidence.
-/

namespace AionisCore.Memory

open Lib Lib.JsString Lib.Zod Lib.Json

/-! ## The outcome contract -/

variable {c : GateContract}

theorem reasonIf_eq_nil {p : Bool} {r : String} : reasonIf p r = [] ↔ p = false := by
  cases p <;> simp [reasonIf]

theorem hasVerifiableOutcome_iff : hasVerifiableOutcome c = true ↔ VerifiableOutcome c.outcome := by
  simp only [hasVerifiableOutcome, outcomeDecisiveFields, VerifiableOutcome, Bool.or_eq_true,
    Bool.and_eq_true, decide_eq_true_eq, List.length_pos_iff, List.contains_iff_mem, or_assoc]
  refine or_congr_left ?_
  rw [← List.length_pos_iff, List.length_pos_iff_exists_mem]
  simp only [List.mem_filter, decide_eq_true_eq]

theorem filter_short_iff {α : Type} {p : α → Bool} {l : List α} :
    (l.filter p).length < l.length ↔ ¬ ∀ x ∈ l, p x := by
  rw [List.length_filter_lt_length_iff_exists]
  simp

theorem healthChecks_zero_iff {l : List Execution.ServiceLifecycleConstraint} :
    (l.map fun s => (outcomeStringList s.healthChecks).length).sum = 0 ↔
      ¬ ∃ s ∈ l, outcomeStringList s.healthChecks ≠ [] := by
  rw [List.sum_eq_zero_iff_forall_eq_nat]
  simp

/-- The outcome gate has no reason against a contract exactly if it binds its outcome. -/
theorem outcomeReasons_eq_nil :
    outcomeReasons c = [] ↔ VerifiableOutcome c.outcome ∧ ServicesBound c := by
  simp only [outcomeReasons, List.append_eq_nil_iff, reasonIf_eq_nil, and_assoc,
    Bool.not_eq_false', hasVerifiableOutcome_iff, Bool.and_eq_false_iff, decide_eq_false_iff_not,
    outcomeDecisiveFields, filter_short_iff, healthChecks_zero_iff, List.length_eq_zero_iff,
    List.length_pos_iff, not_not]
  refine and_congr_right fun _ => ?_
  by_cases hdurable : c.durable = []
  · refine iff_of_true (by simp [hdurable]) ⟨?_, ?_, ?_, ?_, ?_, ?_⟩ <;> simp [hdurable]
  · simp only [hdurable, false_or]
    constructor
    · rintro ⟨hm, hv, hs, hf, hd, hh⟩
      exact ⟨hs, hf, hd, fun _ => hh, fun _ => hm, fun _ => hv⟩
    · intro h
      exact ⟨h.mustHold hdurable, h.visibility hdurable, h.mustSurvive, h.freshShell,
        h.detachThenProbe, h.healthCheck hdurable⟩

/-! ## The evidence -/

/-- The evidence has the proofs that are required of it. -/
structure Proves (g : GateRequirements) (e : ExecutionEvidenceV1) : Prop where
  afterExit : g.afterExitRevalidation → e.afterExitRevalidated = some true
  freshShell : g.freshShellProbe → e.freshShellProbePassed = some true
  boundary : g.external → validationBoundaryAllowsExternalVerification e

theorem verdictReason_eq_nil {required : Bool} {v : Option Bool} {x y : String} :
    verdictReason required v x y = [] ↔ (required → v = some true) := by
  unfold verdictReason
  split
  · next h => exact iff_of_false (by simp) fun hv => h.2 (hv h.1)
  · next h => exact iff_of_true rfl fun hr => by_contra fun hv => h ⟨hr, hv⟩

variable {e : ExecutionEvidenceV1}

theorem evidenceReasons_eq_nil {g : GateRequirements} :
    evidenceReasons g e = [] ↔ e.validationPassed = some true ∧
      e.falseConfidenceDetected = false ∧ e.failureReason = none ∧
      hasExplicitExecutionEvidenceRef (some e) ∧ Proves g e := by
  have hboundary : (if g.external = true ∧ (!validationBoundaryAllowsExternalVerification e) = true
      then [if e.validationBoundary = .agentSelf then "agent_self_validation_boundary"
        else "missing_external_validation_boundary"] else []) = [] ↔
      (g.external → validationBoundaryAllowsExternalVerification e) := by
    cases g.external <;> cases validationBoundaryAllowsExternalVerification e <;> simp
  simp only [evidenceReasons, List.append_eq_nil_iff, verdictReason_eq_nil, hboundary,
    List.map_eq_nil_iff, Option.toList_eq_nil_iff, and_assoc]
  constructor
  · rintro ⟨hx, hp, ha, hf, hb, hc, hr⟩
    refine ⟨hp trivial, ?_, hr, ?_, ha, hf, hb⟩
    · by_contra hne
      simp [hne] at hc
    · by_contra hne
      simp [hne] at hx
  · rintro ⟨hp, hc, hr, hx, ha, hf, hb⟩
    exact ⟨by simp [hx], fun _ => hp, ha, hf, hb, by simp [hc], hr⟩

theorem explicit_iff :
    hasExplicitExecutionEvidenceRef (some e) = true ↔
      ∃ r ∈ e.evidenceRefs, r ≠ "source.metrics" := by
  simp [hasExplicitExecutionEvidenceRef]

theorem deriveStatus_eq_succeeded {reasons : List String} :
    deriveStatus (some e) reasons = .succeeded ↔ e.validationPassed ≠ some false ∧
      e.afterExitRevalidated ≠ some false ∧ e.freshShellProbePassed ≠ some false ∧
      e.falseConfidenceDetected = false ∧ reasons = [] := by
  unfold deriveStatus
  dsimp only
  split
  · next h =>
    refine iff_of_false (by simp) fun ⟨hp, ha, hf, hc, _⟩ => ?_
    rcases h with h | h | h | h
    · exact hp h
    · exact ha h
    · exact hf h
    · simp [hc] at h
  · next h =>
    simp only [not_or, Bool.not_eq_true] at h
    split
    · next hr => exact iff_of_false (by simp) fun hc => hr hc.2.2.2.2
    · next hr => exact iff_of_true rfl ⟨h.1, h.2.1, h.2.2.1, h.2.2.2, not_not.1 hr⟩

/-- Stable promotion is allowed exactly on a clean pass with the proofs that are required. -/
theorem assess_allowsStablePromotion (args : AssessArgs) :
    (assessExecutionEvidence args).allowsStablePromotion = true ↔
      ∃ e, parseEvidence args.evidence = some e ∧ CleanPass e ∧ Proves args.requirements e := by
  simp only [assessExecutionEvidence, Bool.and_eq_true, decide_eq_true_eq]
  cases parseEvidence args.evidence with
  | none => simp [deriveStatus]
  | some e =>
    rw [deriveStatus_eq_succeeded, gateReasons, evidenceReasons_eq_nil, explicit_iff]
    constructor
    · rintro ⟨⟨-, ha, hf, hc, hp, -, hr, -, hproves⟩, hx⟩
      exact ⟨e, rfl, ⟨hp, ha, hf, hc, hr, hx⟩, hproves⟩
    · rintro ⟨e', he, hclean, hproves⟩
      obtain rfl := Option.some.inj he
      refine ⟨⟨by simp [hclean.passed], hclean.afterExit, hclean.freshShell, hclean.confident,
        hclean.passed, hclean.confident, hclean.noFailure, hclean.explicit, hproves⟩,
        hclean.explicit⟩

theorem assess_allowsAuthoritative {args : AssessArgs} :
    (assessExecutionEvidence args).allowsAuthoritative = true ↔
      args.trust = some .authoritative ∧
        (assessExecutionEvidence args).allowsStablePromotion = true := by
  simp only [assessExecutionEvidence, Bool.and_eq_true, decide_eq_true_eq, and_assoc]

/-! ## The gate -/

variable {v evidence : Option Json} {args : RuntimeAuthorityArgs}

theorem requestedContractTrust_trustValue {contract : Option GateContract}
    {t : Option ContractTrust} :
    requestedContractTrust (trustValue t) contract =
      t.or (contract.bind (·.contractTrust)) := by
  cases t with
  | none => rfl
  | some t => cases t <;> rfl

theorem outcomeGate_allowsAuthoritative {contract : Option GateContract} {t : Option Json} :
    (buildOutcomeContractGate contract t).allowsAuthoritative = true ↔
      requestedContractTrust t contract = some .authoritative ∧
        VerifiableOutcome (contract.getD {}).outcome ∧ ServicesBound (contract.getD {}) := by
  simp only [buildOutcomeContractGate, Bool.and_eq_true, decide_eq_true_eq, outcomeReasons_eq_nil]

theorem assessArgs_trust (h : requestedContractTrust args.requestedTrust args.executionContract =
      some .authoritative) : (assessArgs args evidence).trust = some .authoritative := by
  simp only [assessArgs, h]
  rfl

theorem not_verifiableOutcome_empty : ¬ VerifiableOutcome {} := by
  rintro (⟨s, hs, -⟩ | ⟨h, -⟩ | ⟨h, -⟩)
  · cases hs
  · exact h rfl
  · exact h rfl

theorem authorityGate_allowsAuthoritative :
    (authorityGate args evidence).allowsAuthoritative = true ↔
      requestedContractTrust args.requestedTrust args.executionContract = some .authoritative ∧
      (VerifiableOutcome (args.executionContract.getD {}).outcome ∧
        ServicesBound (args.executionContract.getD {})) ∧
      (assessExecutionEvidence (assessArgs args evidence)).allowsStablePromotion = true := by
  simp only [authorityGate, Bool.and_eq_true, decide_eq_true_eq, outcomeGate_allowsAuthoritative,
    assess_allowsAuthoritative, requestedContractTrust_trustValue]
  constructor
  · rintro ⟨⟨ht, -, ho⟩, -, hs⟩
    exact ⟨ht, ho, hs⟩
  · rintro ⟨ht, ho, hs⟩
    exact ⟨⟨ht, by rw [ht]; rfl, ho⟩, assessArgs_trust ht, hs⟩

theorem authorityGate_allowsStablePromotion :
    (authorityGate args evidence).allowsStablePromotion = true →
      (assessExecutionEvidence (assessArgs args evidence)).allowsStablePromotion = true := by
  intro h
  simp only [authorityGate, Bool.and_eq_true] at h
  exact h.1

theorem effectiveTrust_le {t : Option ContractTrust} {b : Bool} :
    ∀ e ∈ effectiveTrust t b, ∃ r ∈ t, e.rank ≤ r.rank := by
  intro e he
  unfold effectiveTrust at he
  split at he
  · next h =>
    obtain rfl := Option.some.inj he
    exact ⟨.authoritative, h.1, by decide⟩
  · exact ⟨e, he, Nat.le_refl _⟩

/-! ## Authority -/

/-- `e` is the evidence the gate reads. -/
def EvidenceFor (args : RuntimeAuthorityArgs) (e : ExecutionEvidenceV1) : Prop :=
  ∃ v, executionEvidence args = some v ∧ parseEvidence v = some e

theorem proves_iff (hc : args.executionContract = some c) :
    Proves (assessArgs args v).requirements e ↔ RequiredProofs c e := by
  have hreq : (assessArgs args v).requirements =
      ⟨inferRequiresAfterExit (some c.toExecutionContractV1),
        inferRequiresFreshShell (some c.toExecutionContractV1)⟩ := by
    simp only [assessArgs, AssessArgs.requirements, hc, Option.map_some, Option.getD_none]
  rw [hreq]
  constructor <;> intro h
  all_goals
    refine ⟨h.afterExit, h.freshShell, fun hr => ?_⟩
    have := h.boundary (by simpa [GateRequirements.external] using hr)
    simpa [validationBoundaryAllowsExternalVerification] using this

/-- Authority is granted exactly where it is requested, the contract binds its outcome and its
services, and the evidence is a clean pass with the proofs the contract requires. -/
theorem gate_allowsAuthoritative_iff {args : RuntimeAuthorityArgs} {g : RuntimeAuthorityGateV1}
    (hg : buildRuntimeAuthorityGate args = some g) :
    (g.allowsAuthoritative = true ↔
      requestedContractTrust args.requestedTrust args.executionContract = some .authoritative ∧
      ∃ c, args.executionContract = some c ∧ VerifiableOutcome c.outcome ∧ ServicesBound c ∧
        ∃ e, EvidenceFor args e ∧ CleanPass e ∧ RequiredProofs c e) ∧
      ∀ t ∈ g.effectiveTrust, ∃ r ∈ g.requestedTrust, t.rank ≤ r.rank := by
  obtain ⟨v, hv, rfl⟩ := Option.map_eq_some_iff.1 hg
  refine ⟨?_, effectiveTrust_le⟩
  rw [authorityGate_allowsAuthoritative, assess_allowsStablePromotion]
  refine and_congr_right fun _ => ?_
  cases hc : args.executionContract with
  | none =>
    refine iff_of_false (fun h => not_verifiableOutcome_empty h.1.1) ?_
    rintro ⟨c, hnone, -⟩
    cases hnone
  | some c =>
    have hfor : ∀ e, EvidenceFor args e ↔ parseEvidence v = some e := by
      intro e
      constructor
      · rintro ⟨v', hv', he⟩
        obtain rfl := Option.some.inj (hv.symm.trans hv')
        exact he
      · exact fun he => ⟨v, hv, he⟩
    constructor
    · rintro ⟨⟨ho, hs⟩, e, he, hclean, hproves⟩
      exact ⟨c, rfl, ho, hs, e, (hfor e).2 he, hclean, (proves_iff hc).1 hproves⟩
    · rintro ⟨c', hc', ho, hs, e, he, hclean, hproves⟩
      obtain rfl := Option.some.inj hc'
      exact ⟨⟨ho, hs⟩, e, (hfor e).1 he, hclean, (proves_iff hc).2 hproves⟩

/-- A contract that states its own success invariant. -/
def testedContract : GateContract where
  contractTrust := some .authoritative
  outcome := { successInvariants := ["tests_pass"] }

def passingEvidence : Fields :=
  [("validation_passed", .bool true), ("evidence_refs", .arr [.str "run:1"])]

def testedArgs (contract : GateContract) (evidence : Fields) : RuntimeAuthorityArgs where
  executionContract := some contract
  evidence := some (.obj evidence)

theorem gate_allowsAuthoritative_iff_tested :
    ∃ g, buildRuntimeAuthorityGate (testedArgs testedContract passingEvidence) = some g ∧
      g.allowsAuthoritative = true ∧
      ∃ c, some testedContract = some c ∧ VerifiableOutcome c.outcome ∧ ServicesBound c ∧
        ∃ e, EvidenceFor (testedArgs testedContract passingEvidence) e ∧ CleanPass e ∧
          RequiredProofs c e := by
  have hg : buildRuntimeAuthorityGate (testedArgs testedContract passingEvidence) =
      some (authorityGate (testedArgs testedContract passingEvidence)
        (some (.obj passingEvidence))) := rfl
  exact ⟨_, hg, by decide +kernel, ((gate_allowsAuthoritative_iff hg).1.1 (by decide +kernel)).2⟩

/-- What was to suffice for authority: the proofs the contract requires, and then a boundary that
is not the agent. -/
structure Claimed (args : RuntimeAuthorityArgs) (c : GateContract) (e : ExecutionEvidenceV1) :
    Prop where
  trust : requestedContractTrust args.requestedTrust args.executionContract = some .authoritative
  contract : args.executionContract = some c
  outcome : VerifiableOutcome c.outcome
  services : ServicesBound c
  evidence : EvidenceFor args e
  passed : e.validationPassed = some true
  confident : e.falseConfidenceDetected = false
  noFailure : e.failureReason = none
  explicit : ∃ r ∈ e.evidenceRefs, r ≠ "source.metrics"
  afterExit : inferRequiresAfterExit (some c.toExecutionContractV1) →
    e.afterExitRevalidated = some true
  freshShell : inferRequiresFreshShell (some c.toExecutionContractV1) →
    e.freshShellProbePassed = some true
  boundary : inferRequiresAfterExit (some c.toExecutionContractV1) ∨
    inferRequiresFreshShell (some c.toExecutionContractV1) → e.validationBoundary ≠ .agentSelf

/-- Nothing requires the after-exit check that failed. -/
def failedExit : RuntimeAuthorityArgs :=
  testedArgs testedContract (("after_exit_revalidated", .bool false) :: passingEvidence)

def lastingContract : GateContract where
  contractTrust := some .authoritative
  outcome := { successInvariants := ["tests_pass"], mustHoldAfterExit := ["service_up"] }

/-- The required check passed, and nothing says who made it. -/
def unknownChecker : RuntimeAuthorityArgs :=
  testedArgs lastingContract (("after_exit_revalidated", .bool true) :: passingEvidence)

theorem claimed_not_granted :
    ((∃ c e, Claimed failedExit c e) ∧ (∃ g, buildRuntimeAuthorityGate failedExit = some g ∧
      g.allowsAuthoritative = false)) ∧
    (∃ c e, Claimed unknownChecker c e) ∧ ∃ g, buildRuntimeAuthorityGate unknownChecker = some g ∧
      g.allowsAuthoritative = false := by
  have houtcome : ∀ o : ExecutionContractOutcome, o.successInvariants = ["tests_pass"] →
      VerifiableOutcome o := by
    intro o ho
    refine .inl ⟨"tests_pass", ?_, by decide⟩
    rw [ho]
    decide +kernel
  have hservices : ∀ c : GateContract, c.serviceLifecycleConstraints = [] → ServicesBound c := by
    intro c hc
    have hnone : c.durable = [] := by rw [GateContract.durable, hc]; rfl
    refine ⟨?_, ?_, ?_, ?_, ?_, ?_⟩ <;> simp [hnone]
  have hfailed : buildRuntimeAuthorityGate failedExit = some (authorityGate failedExit
      failedExit.evidence) := rfl
  have hunknown : buildRuntimeAuthorityGate unknownChecker = some (authorityGate unknownChecker
      unknownChecker.evidence) := rfl
  refine ⟨⟨⟨testedContract, ⟨some true, some false, none, .unknown, none, false, ["run:1"]⟩, ?_⟩,
    _, hfailed, by decide +kernel⟩,
    ⟨lastingContract, ⟨some true, some true, none, .unknown, none, false,
    ["run:1"]⟩, ?_⟩, _, hunknown, by decide +kernel⟩
  · exact ⟨rfl, rfl, houtcome _ rfl, hservices _ rfl, ⟨_, rfl, by decide +kernel⟩, rfl, rfl, rfl,
      by decide, by decide +kernel, by decide +kernel, by decide +kernel⟩
  · exact ⟨rfl, rfl, houtcome _ rfl, hservices _ rfl, ⟨_, rfl, by decide +kernel⟩, rfl, rfl, rfl,
      by decide, by decide +kernel, by decide +kernel, by decide +kernel⟩

/-! ## Masked failures -/

def carriesFailure (v : Option Json) : Bool :=
  (asRecord v).any fun r => boolean (get r "validation_passed") = some false ||
    boolean (get r "false_confidence_detected") = some true

/-- One of the consulted records says outright that the run failed. -/
def FailureCarried (slots : Fields) : Prop :=
  let summary := asRecord (get slots "execution_result_summary")
  carriesFailure (get slots "execution_evidence_v1") ∨
  carriesFailure (get slots "execution_result_summary") ∨
  carriesFailure (field summary "execution_evidence_v1") ∨
  ∃ x ∈ (asArray (get slots "execution_evidence")).getD [], carriesFailure (some x)

/-- The sources of evidence, in the order extraction tries them. -/
def evidenceSources (slots : Fields) (metrics : Option Json) :
    List (Option (Option ExecutionEvidenceV1)) :=
  let executionResultSummary := asRecord (get slots "execution_result_summary")
  let compileSummary := asRecord (get slots "compile_summary")
  let refs := [get slots "execution_evidence", get slots "execution_packet_v1"]
  [some (parseEvidence (get slots "execution_evidence_v1")),
   some (parseEvidence (field executionResultSummary "execution_evidence_v1")),
   compileEvidenceFromRecord executionResultSummary refs,
   compileEvidenceFromRecord compileSummary refs,
   compileEvidenceFromArray (get slots "execution_evidence"),
   compileEvidenceFromArray (field executionResultSummary "execution_evidence"),
   metricEvidence metrics]

/-- The first source that yields evidence yields `e`. -/
def Decides (slots : Fields) (metrics : Option Json) (e : ExecutionEvidenceV1) : Prop :=
  ∃ before after, evidenceSources slots metrics = before ++ some (some e) :: after ∧
    ∀ s ∈ before, s = some none

/-- A failing record is there, and evidence that passes comes before it. -/
def FailureMasked (slots : Fields) (metrics : Option Json) : Prop :=
  FailureCarried slots ∧ ∃ e, Decides slots metrics e ∧ CleanPass e

/-- Failure evidence keeps the gate shut, whatever contract and trust come with the slots. -/
def FailureDenied (slots : Fields) (metrics : Option Json) : Prop :=
  FailureCarried slots → ∀ args g, args.slots = slots → args.metrics = metrics →
    orElse args.evidence none = none → buildRuntimeAuthorityGate args = some g →
    g.allowsAuthoritative = false ∧ g.allowsStablePromotion = false

theorem extract_eq_foldr (slots : Fields) (metrics : Option Json) :
    extractExecutionEvidenceFromSlots slots metrics =
      (evidenceSources slots metrics).foldr orEvidence (some none) := by
  simp only [evidenceSources, List.foldr_cons, List.foldr_nil, orEvidence_none]
  rfl

theorem foldr_orEvidence {l : List (Option (Option ExecutionEvidenceV1))} :
    l.foldr orEvidence (some none) = some (some e) ↔
      ∃ before after, l = before ++ some (some e) :: after ∧ ∀ s ∈ before, s = some none := by
  induction l with
  | nil => simp
  | cons a l ih =>
    rw [List.foldr_cons]
    match a with
    | none =>
      refine iff_of_false (by simp [orEvidence]) ?_
      rintro ⟨before, after, h, hbefore⟩
      cases before with
      | nil => cases h
      | cons b before =>
        obtain ⟨rfl, -⟩ := List.cons.inj h
        cases hbefore _ List.mem_cons_self
    | some none =>
      refine ih.trans ⟨?_, ?_⟩
      · rintro ⟨before, after, rfl, hbefore⟩
        refine ⟨some none :: before, after, rfl, fun s hs => ?_⟩
        rcases List.mem_cons.1 hs with rfl | hs
        · rfl
        · exact hbefore s hs
      · rintro ⟨before, after, h, hbefore⟩
        cases before with
        | nil => cases h
        | cons b before =>
          obtain ⟨-, rfl⟩ := List.cons.inj h
          exact ⟨before, after, rfl, fun s hs => hbefore s (List.mem_cons_of_mem _ hs)⟩
    | some (some e') =>
      constructor
      · intro h
        obtain rfl : e' = e := Option.some.inj (Option.some.inj h)
        exact ⟨[], l, rfl, by simp⟩
      · rintro ⟨before, after, h, hbefore⟩
        cases before with
        | nil =>
          obtain ⟨he, -⟩ := List.cons.inj h
          exact he
        | cons b before =>
          obtain ⟨rfl, -⟩ := List.cons.inj h
          cases hbefore _ List.mem_cons_self

theorem extract_eq_some_iff {slots : Fields} {metrics : Option Json} :
    extractExecutionEvidenceFromSlots slots metrics = some (some e) ↔ Decides slots metrics e := by
  rw [extract_eq_foldr, foldr_orEvidence]
  rfl

/-- Without evidence of its own, a call's evidence is what the slots decide. -/
theorem parse_executionEvidence (hnone : orElse args.evidence none = none)
    (hv : executionEvidence args = some v) :
    parseEvidence v = some e ↔ Decides args.slots args.metrics e := by
  simp only [executionEvidence, hnone] at hv
  obtain ⟨r, hr, rfl⟩ := Option.map_eq_some_iff.1 hv
  rw [← extract_eq_some_iff, hr]
  cases r with
  | none => simp [parseEvidence, asRecord]
  | some e' =>
    rw [Option.map_some, parseEvidence_record_of_parse (checked_extract _ _ e' hr),
      Option.some_inj, Option.some_inj, Option.some_inj]

/-- A gate that nothing is required of promotes on a clean pass. -/
theorem promotes_of_cleanPass {slots : Fields} {metrics : Option Json}
    (he : parseEvidence v = some e) (hclean : CleanPass e) :
    (authorityGate { slots, metrics } v).allowsStablePromotion = true := by
  have hreq : (assessArgs { slots, metrics } v).requirements = ⟨false, false⟩ := rfl
  have hassess := (assess_allowsStablePromotion (assessArgs { slots, metrics } v)).2
    ⟨e, he, hclean, by rw [hreq]; exact ⟨nofun, nofun, nofun⟩⟩
  simp only [authorityGate, hassess]
  rfl

/-- A passing run first, then one with false confidence. -/
def mixedSlots : Fields :=
  [("execution_evidence", .arr [.obj passingEvidence,
    .obj [("false_confidence_detected", .bool true)]])]

end AionisCore.Memory
