import AionisCore.Lib.Dedup
import AionisCore.Memory.AnchorSchemas
import AionisCore.Memory.ContractTrust

/-!
# Execution contracts

`deriveExecutionContractFromSlots`: a contract is projected from the slots of a node and the
records in them, and merged into the contract that the slots hold. The texts and lists of a
contract are as its schema returns them, so that the schema reads back what is written.
-/

namespace AionisCore.Memory.ExecutionContract

open Lib Lib.JsString Lib.Zod
open Lib.Schema (safeParse)

/-! ## Texts and lists -/

/-- A trimmed string that is not empty. -/
abbrev Text := {s : String // Plain s}

def Text.read (s : String) : Option Text :=
  if h : trim s = "" then none else some ⟨trim s, trimmed_trim s, h⟩

/-- `z.string().trim().min(1)`. -/
def text : Zod.Schema Text
  | some (.str s) => Text.read s
  | _ => none

abbrev Bounded (n : Nat) (α : Type) := {xs : List α // xs.length ≤ n}

namespace Bounded

variable {n m : Nat} {α : Type}

def none : Bounded n α := ⟨[], Nat.zero_le n⟩

def widen (h : n ≤ m) (xs : Bounded n α) : Bounded m α := ⟨xs.val, xs.property.trans h⟩

/-- `primary.length > 0 ? primary : fallback`. -/
def orElse (primary fallback : Bounded n α) : Bounded n α :=
  if primary.val = [] then fallback else primary

end Bounded

theorem length_of_array {n : Nat} {α : Type} {p : Zod.Schema α} {v : Option Json} {xs : List α}
    (h : array n p v = some xs) : xs.length ≤ n := by
  unfold array at h
  split at h
  · split at h
    · next hlen =>
      rw [← (mapM_eq_some.1 h).length_eq]
      exact hlen
    · cases h
  · cases h

/-- `z.array(p).max(n)`. -/
def bounded (n : Nat) {α : Type} (p : Zod.Schema α) : Zod.Schema (Bounded n α) := fun v =>
  (array n p v).pmap (fun xs h => ⟨xs, h⟩) fun _ h => length_of_array h

/-- `z.array(z.string().trim().min(1)).max(n).default([])`. -/
def texts (n : Nat) : Zod.Schema (Bounded n Text) := withDefault .none (bounded n text)

def NullableString : Zod.Schema (Option Text) := withDefault none (nullable text)

/-! ## Lifecycle constraints -/

/-- A service lifecycle constraint as its schema returns it. -/
abbrev Lifecycle :=
  {r : Json.Fields // safeParse ServiceLifecycleConstraintV1Schema (some (.obj r)) = some r}

namespace Lifecycle

variable (c : Lifecycle)

def textOf (k : String) : Option String := Json.textOf (Json.get c.val k)

def endpoint : Option String := c.textOf "endpoint"

def label : String := (c.textOf "label").getD ""

def mustSurviveAgentExit : Bool := Json.truthy (Json.get c.val "must_survive_agent_exit")

def healthChecks : List String := Json.textsOf (Json.get c.val "health_checks")

def key : String :=
  "::".intercalate [(c.textOf "service_kind").getD "", c.label, c.endpoint.getD "",
    (c.textOf "launch_reference").getD ""]

end Lifecycle

theorem lifecycle_again {v : Option Json} {r : Json.Fields}
    (h : safeParse ServiceLifecycleConstraintV1Schema v = some r) :
    safeParse ServiceLifecycleConstraintV1Schema (some (.obj r)) = some r :=
  Lib.Schema.safeParse_again (by decide) h

def lifecycle : Zod.Schema Lifecycle := fun v =>
  (safeParse ServiceLifecycleConstraintV1Schema v).pmap (fun r h => ⟨r, h⟩)
    fun _ h => lifecycle_again h

def lifecycles (n : Nat) : Zod.Schema (Bounded n Lifecycle) :=
  withDefault .none (bounded n lifecycle)

/-! ## The contract -/

structure ExecutionContractOutcomeV1 where
  acceptanceChecks : Bounded 24 Text
  successInvariants : Bounded 24 Text
  dependencyRequirements : Bounded 24 Text
  environmentAssumptions : Bounded 24 Text
  mustHoldAfterExit : Bounded 24 Text
  externalVisibilityRequirements : Bounded 24 Text

inductive ExecutionContractProvenanceKind where
  | trajectoryCompile
  | handoffStore
  | actionRetrieval
  | policyContract
  | derivedPolicy
  | writeDistillation
  | patternAnchorWrite
  | workflowProjection
  | legacyProjection
  | manualContext
  deriving DecidableEq, Repr

def ExecutionContractProvenanceKind.name : ExecutionContractProvenanceKind → String
  | trajectoryCompile => "trajectory_compile"
  | handoffStore => "handoff_store"
  | actionRetrieval => "action_retrieval"
  | policyContract => "policy_contract"
  | derivedPolicy => "derived_policy"
  | writeDistillation => "write_distillation"
  | patternAnchorWrite => "pattern_anchor_write"
  | workflowProjection => "workflow_projection"
  | legacyProjection => "legacy_projection"
  | manualContext => "manual_context"

def provenanceKind : Zod.Schema ExecutionContractProvenanceKind :=
  Zod.enum [("trajectory_compile", .trajectoryCompile), ("handoff_store", .handoffStore),
    ("action_retrieval", .actionRetrieval), ("policy_contract", .policyContract),
    ("derived_policy", .derivedPolicy), ("write_distillation", .writeDistillation),
    ("pattern_anchor_write", .patternAnchorWrite), ("workflow_projection", .workflowProjection),
    ("legacy_projection", .legacyProjection), ("manual_context", .manualContext)]

structure ExecutionContractProvenanceV1 where
  sourceKind : ExecutionContractProvenanceKind
  sourceSummaryVersion : Option Text
  sourceAnchor : Option Text
  evidenceRefs : Bounded 16 Text
  notes : Bounded 16 Text

structure ExecutionContractV1 where
  contractTrust : Option ContractTrust
  taskFamily : Option Text
  taskSignature : Option Text
  workflowSignature : Option Text
  policyMemoryId : Option Text
  selectedTool : Option Text
  filePath : Option Text
  targetFiles : Bounded 64 Text
  nextAction : Option Text
  workflowSteps : Bounded 64 Text
  patternHints : Bounded 64 Text
  serviceLifecycleConstraints : Bounded 16 Lifecycle
  outcome : ExecutionContractOutcomeV1
  provenance : ExecutionContractProvenanceV1

/-! ## Reading and writing -/

def readOutcome : Zod.Schema ExecutionContractOutcomeV1 := fun v => do
  let r ← Json.asRecord v
  return {
    acceptanceChecks := ← texts 24 (Json.get r "acceptance_checks")
    successInvariants := ← texts 24 (Json.get r "success_invariants")
    dependencyRequirements := ← texts 24 (Json.get r "dependency_requirements")
    environmentAssumptions := ← texts 24 (Json.get r "environment_assumptions")
    mustHoldAfterExit := ← texts 24 (Json.get r "must_hold_after_exit")
    externalVisibilityRequirements := ←
      texts 24 (Json.get r "external_visibility_requirements") }

def readProvenance : Zod.Schema ExecutionContractProvenanceV1 := fun v => do
  let r ← Json.asRecord v
  return {
    sourceKind := ← provenanceKind (Json.get r "source_kind")
    sourceSummaryVersion := ← NullableString (Json.get r "source_summary_version")
    sourceAnchor := ← NullableString (Json.get r "source_anchor")
    evidenceRefs := ← texts 16 (Json.get r "evidence_refs")
    notes := ← texts 16 (Json.get r "notes") }

def parseExecutionContract : Zod.Schema ExecutionContractV1 := fun v => do
  let r ← Json.asRecord v
  literal "execution_contract_v1" (Json.get r "schema_version")
  return {
    contractTrust := ←
      withDefault none (nullable contractTrustSchema) (Json.get r "contract_trust")
    taskFamily := ← NullableString (Json.get r "task_family")
    taskSignature := ← NullableString (Json.get r "task_signature")
    workflowSignature := ← NullableString (Json.get r "workflow_signature")
    policyMemoryId := ← NullableString (Json.get r "policy_memory_id")
    selectedTool := ← NullableString (Json.get r "selected_tool")
    filePath := ← NullableString (Json.get r "file_path")
    targetFiles := ← texts 64 (Json.get r "target_files")
    nextAction := ← NullableString (Json.get r "next_action")
    workflowSteps := ← texts 64 (Json.get r "workflow_steps")
    patternHints := ← texts 64 (Json.get r "pattern_hints")
    serviceLifecycleConstraints := ←
      lifecycles 16 (Json.get r "service_lifecycle_constraints")
    outcome := ← readOutcome (Json.get r "outcome")
    provenance := ← readProvenance (Json.get r "provenance") }

def nullableJson (t : Option Text) : Json := Json.orNull (t.map (·.val))

def textsJson (xs : List Text) : Json := .arr (xs.map fun t => .str t.val)

def ExecutionContractOutcomeV1.toJson (o : ExecutionContractOutcomeV1) : Json.Fields := [
  ("acceptance_checks", textsJson o.acceptanceChecks.val),
  ("success_invariants", textsJson o.successInvariants.val),
  ("dependency_requirements", textsJson o.dependencyRequirements.val),
  ("environment_assumptions", textsJson o.environmentAssumptions.val),
  ("must_hold_after_exit", textsJson o.mustHoldAfterExit.val),
  ("external_visibility_requirements", textsJson o.externalVisibilityRequirements.val)]

def ExecutionContractProvenanceV1.toJson (p : ExecutionContractProvenanceV1) : Json.Fields := [
  ("source_kind", .str p.sourceKind.name),
  ("source_summary_version", nullableJson p.sourceSummaryVersion),
  ("source_anchor", nullableJson p.sourceAnchor),
  ("evidence_refs", textsJson p.evidenceRefs.val),
  ("notes", textsJson p.notes.val)]

def ExecutionContractV1.toJson (c : ExecutionContractV1) : Json.Fields := [
  ("schema_version", .str "execution_contract_v1"),
  ("contract_trust", Json.orNull (c.contractTrust.map ContractTrust.name)),
  ("task_family", nullableJson c.taskFamily),
  ("task_signature", nullableJson c.taskSignature),
  ("workflow_signature", nullableJson c.workflowSignature),
  ("policy_memory_id", nullableJson c.policyMemoryId),
  ("selected_tool", nullableJson c.selectedTool),
  ("file_path", nullableJson c.filePath),
  ("target_files", textsJson c.targetFiles.val),
  ("next_action", nullableJson c.nextAction),
  ("workflow_steps", textsJson c.workflowSteps.val),
  ("pattern_hints", textsJson c.patternHints.val),
  ("service_lifecycle_constraints",
    .arr (c.serviceLifecycleConstraints.val.map fun r => .obj r.val)),
  ("outcome", .obj c.outcome.toJson),
  ("provenance", .obj c.provenance.toJson)]

theorem Text.read_val (t : Text) : Text.read t.val = some t := by
  obtain ⟨s, htrim, hne⟩ := t
  have htrim : trim s = s := htrim
  unfold Text.read
  rw [dif_neg (by rwa [htrim])]
  exact congrArg some (Subtype.ext htrim)

theorem bounded_map {n : Nat} {α : Type} {p : Zod.Schema α} {f : α → Json}
    (h : ∀ x, p (some (f x)) = some x) (xs : Bounded n α) :
    bounded n p (some (.arr (xs.val.map f))) = some xs := by
  have harray : array n p (some (.arr (xs.val.map f))) = some xs.val := by
    rw [array, if_pos (by rw [List.length_map]; exact xs.property), mapM_eq_some]
    exact List.forall₂_map_left_iff.2 (List.forall₂_same.2 fun x _ => h x)
  unfold bounded
  rw [Option.pmap_eq_some_iff]
  exact ⟨xs.val, xs.property, harray, rfl⟩

theorem texts_json {n : Nat} (xs : Bounded n Text) : texts n (some (textsJson xs.val)) = some xs :=
  bounded_map Text.read_val xs

theorem lifecycles_json {n : Nat} (xs : Bounded n Lifecycle) :
    lifecycles n (some (.arr (xs.val.map fun r => .obj r.val))) = some xs := by
  refine bounded_map (f := fun r => .obj r.val) (fun r => ?_) xs
  unfold lifecycle
  rw [Option.pmap_eq_some_iff]
  exact ⟨r.val, r.property, r.property, rfl⟩

theorem nullableString_json (t : Option Text) :
    NullableString (some (nullableJson t)) = some t := by
  cases t with
  | none => rfl
  | some t => exact congrArg (Option.map some) (Text.read_val t)

theorem contractTrust_json (t : Option ContractTrust) :
    withDefault none (nullable contractTrustSchema)
      (some (Json.orNull (t.map ContractTrust.name))) = some t := by
  rcases t with _ | t
  · rfl
  · cases t <;> rfl

theorem provenanceKind_name (k : ExecutionContractProvenanceKind) :
    provenanceKind (some (.str k.name)) = some k := by
  cases k <;> rfl

theorem readOutcome_toJson (o : ExecutionContractOutcomeV1) :
    readOutcome (some (.obj o.toJson)) = some o := by
  refine Option.bind_eq_some_iff.2 ⟨_, texts_json o.acceptanceChecks, ?_⟩
  refine Option.bind_eq_some_iff.2 ⟨_, texts_json o.successInvariants, ?_⟩
  refine Option.bind_eq_some_iff.2 ⟨_, texts_json o.dependencyRequirements, ?_⟩
  refine Option.bind_eq_some_iff.2 ⟨_, texts_json o.environmentAssumptions, ?_⟩
  refine Option.bind_eq_some_iff.2 ⟨_, texts_json o.mustHoldAfterExit, ?_⟩
  exact Option.bind_eq_some_iff.2 ⟨_, texts_json o.externalVisibilityRequirements, rfl⟩

theorem readProvenance_toJson (p : ExecutionContractProvenanceV1) :
    readProvenance (some (.obj p.toJson)) = some p := by
  refine Option.bind_eq_some_iff.2 ⟨_, provenanceKind_name p.sourceKind, ?_⟩
  refine Option.bind_eq_some_iff.2 ⟨_, nullableString_json p.sourceSummaryVersion, ?_⟩
  refine Option.bind_eq_some_iff.2 ⟨_, nullableString_json p.sourceAnchor, ?_⟩
  refine Option.bind_eq_some_iff.2 ⟨_, texts_json p.evidenceRefs, ?_⟩
  exact Option.bind_eq_some_iff.2 ⟨_, texts_json p.notes, rfl⟩

/-- The schema reads back the contract that is written. -/
theorem parseExecutionContract_toJson (c : ExecutionContractV1) :
    parseExecutionContract (some (.obj c.toJson)) = some c := by
  refine Option.bind_eq_some_iff.2 ⟨_, contractTrust_json c.contractTrust, ?_⟩
  refine Option.bind_eq_some_iff.2 ⟨_, nullableString_json c.taskFamily, ?_⟩
  refine Option.bind_eq_some_iff.2 ⟨_, nullableString_json c.taskSignature, ?_⟩
  refine Option.bind_eq_some_iff.2 ⟨_, nullableString_json c.workflowSignature, ?_⟩
  refine Option.bind_eq_some_iff.2 ⟨_, nullableString_json c.policyMemoryId, ?_⟩
  refine Option.bind_eq_some_iff.2 ⟨_, nullableString_json c.selectedTool, ?_⟩
  refine Option.bind_eq_some_iff.2 ⟨_, nullableString_json c.filePath, ?_⟩
  refine Option.bind_eq_some_iff.2 ⟨_, texts_json c.targetFiles, ?_⟩
  refine Option.bind_eq_some_iff.2 ⟨_, nullableString_json c.nextAction, ?_⟩
  refine Option.bind_eq_some_iff.2 ⟨_, texts_json c.workflowSteps, ?_⟩
  refine Option.bind_eq_some_iff.2 ⟨_, texts_json c.patternHints, ?_⟩
  refine Option.bind_eq_some_iff.2 ⟨_, lifecycles_json c.serviceLifecycleConstraints, ?_⟩
  refine Option.bind_eq_some_iff.2 ⟨_, readOutcome_toJson c.outcome, ?_⟩
  exact Option.bind_eq_some_iff.2 ⟨_, readProvenance_toJson c.provenance, rfl⟩

/-! ## Projection -/

def toStringOrNull (value : Option Json) : Option Text := text value

def firstNonEmptyString (values : List (Option Json)) : Option Text :=
  values.findSome? toStringOrNull

def distinct (limit : Nat) (xs : List Text) : Bounded limit Text :=
  ⟨firstUpTo id limit xs, length_firstUpTo_le⟩

def uniqueStrings (limit : Nat) (values : List String) : Bounded limit Text :=
  distinct limit (values.filterMap Text.read)

/-- The entries of an array that are texts. -/
def textEntries (value : Option Json) : List Text :=
  ((Json.asArray value).getD []).filterMap fun v => toStringOrNull (some v)

def stringList (limit : Nat) (value : Option Json) : Bounded limit Text :=
  distinct limit (textEntries value)

def uniqueLifecycleConstraints (limit : Nat) (values : List Lifecycle) :
    Bounded limit Lifecycle :=
  ⟨firstUpTo Lifecycle.key limit values, length_firstUpTo_le⟩

def lifecycleConstraintList (limit : Nat) (value : Option Json) : Bounded limit Lifecycle :=
  uniqueLifecycleConstraints limit
    (((Json.asArray value).getD []).filterMap fun v => lifecycle (some v))

inductive ExecutionContractMergePreference where
  | existing
  | incoming
  deriving DecidableEq, Repr

def mergeField {α : Type} (existing incoming : Option α) :
    ExecutionContractMergePreference → Option α
  | .incoming => incoming.or existing
  | .existing => existing.or incoming

def mergeStringListField {n : Nat} (existing incoming : List Text)
    (preference : ExecutionContractMergePreference) : Bounded n Text :=
  let existingList := (distinct n existing).val
  let incomingList := (distinct n incoming).val
  distinct n (match preference with
    | .incoming => incomingList ++ existingList
    | .existing => existingList ++ incomingList)

def mergeLifecycleField {n : Nat} (existing incoming : List Lifecycle)
    (preference : ExecutionContractMergePreference) : Bounded n Lifecycle :=
  uniqueLifecycleConstraints n (match preference with
    | .incoming => incoming ++ existing
    | .existing => existing ++ incoming)

def deriveSuccessInvariants (targetFiles acceptanceChecks : List Text)
    (constraints : List Lifecycle) : Bounded 24 Text :=
  uniqueStrings 24 (
    (if targetFiles = [] then [] else ["target_files_reflect_the_intended_change_surface"]) ++
    (if acceptanceChecks = [] then [] else ["all_acceptance_checks_pass"]) ++
    constraints.filterMap fun c => c.endpoint.map (s!"service_endpoint_reachable:{·}"))

def deriveMustHoldAfterExit (constraints : List Lifecycle) : Bounded 24 Text :=
  uniqueStrings 24 (constraints.flatMap fun c =>
    if c.mustSurviveAgentExit then
      s!"service_survives_agent_exit:{c.label}" ::
        (c.endpoint.map (s!"service_endpoint_still_serves_after_exit:{·}")).toList
    else [])

def deriveExternalVisibilityRequirements (constraints : List Lifecycle) : Bounded 24 Text :=
  uniqueStrings 24 (constraints.flatMap fun c =>
    (c.endpoint.map (s!"endpoint_reachable:{·}")).toList ++
      c.healthChecks.map (s!"health_check:{·}"))

/-- What a contract says apart from its outcome and its provenance. -/
structure ContractSurface where
  contractTrust : Option ContractTrust
  taskFamily : Option Text
  taskSignature : Option Text
  workflowSignature : Option Text
  policyMemoryId : Option Text
  selectedTool : Option Text
  filePath : Option Text
  targetFiles : List Text
  nextAction : Option Text
  workflowSteps : List Text
  patternHints : List Text
  serviceLifecycleConstraints : List Lifecycle

/-- What a contract is built from. -/
structure Projection extends ContractSurface where
  acceptanceChecks : List Text
  successInvariants : List Text
  dependencyRequirements : List Text
  environmentAssumptions : List Text
  mustHoldAfterExit : List Text
  externalVisibilityRequirements : List Text
  sourceKind : ExecutionContractProvenanceKind
  sourceSummaryVersion : Option Text
  sourceAnchor : Option Text
  evidenceRefs : List Text
  notes : List Text

def deriveOutcomeFromInputs (acceptanceChecks targetFiles : Bounded 24 Text)
    (constraints : List Lifecycle)
    (environmentAssumptions dependencyRequirements : Bounded 24 Text) :
    ExecutionContractOutcomeV1 where
  acceptanceChecks := acceptanceChecks
  successInvariants :=
    deriveSuccessInvariants targetFiles.val acceptanceChecks.val constraints
  dependencyRequirements := dependencyRequirements
  environmentAssumptions := environmentAssumptions
  mustHoldAfterExit := deriveMustHoldAfterExit constraints
  externalVisibilityRequirements := deriveExternalVisibilityRequirements constraints

def buildExecutionContractFromProjection (args : Projection) : ExecutionContractV1 :=
  let targetFiles := distinct 24 args.targetFiles
  let constraints := uniqueLifecycleConstraints 16 args.serviceLifecycleConstraints
  let derived := deriveOutcomeFromInputs (distinct 24 args.acceptanceChecks) targetFiles
    constraints.val (distinct 24 args.environmentAssumptions)
    (distinct 24 args.dependencyRequirements)
  { contractTrust := args.contractTrust
    taskFamily := args.taskFamily
    taskSignature := args.taskSignature
    workflowSignature := args.workflowSignature
    policyMemoryId := args.policyMemoryId
    selectedTool := args.selectedTool
    filePath := args.filePath.or targetFiles.val.head?
    targetFiles := targetFiles.widen (by decide)
    nextAction := args.nextAction
    workflowSteps := (distinct 24 args.workflowSteps).widen (by decide)
    patternHints := (distinct 24 args.patternHints).widen (by decide)
    serviceLifecycleConstraints := constraints
    outcome := {
      acceptanceChecks := derived.acceptanceChecks
      successInvariants :=
        mergeStringListField derived.successInvariants.val args.successInvariants .incoming
      dependencyRequirements := mergeStringListField derived.dependencyRequirements.val
        args.dependencyRequirements .incoming
      environmentAssumptions := mergeStringListField derived.environmentAssumptions.val
        args.environmentAssumptions .incoming
      mustHoldAfterExit :=
        mergeStringListField derived.mustHoldAfterExit.val args.mustHoldAfterExit .incoming
      externalVisibilityRequirements := mergeStringListField
        derived.externalVisibilityRequirements.val args.externalVisibilityRequirements
        .incoming }
    provenance := {
      sourceKind := args.sourceKind
      sourceSummaryVersion := args.sourceSummaryVersion
      sourceAnchor := args.sourceAnchor
      evidenceRefs := distinct 16 args.evidenceRefs
      notes := distinct 16 args.notes } }

def hasExecutionContractSignal (c : ExecutionContractV1) : Bool :=
  c.contractTrust.isSome || c.taskFamily.isSome || c.taskSignature.isSome ||
    c.workflowSignature.isSome || c.policyMemoryId.isSome || c.selectedTool.isSome ||
    c.filePath.isSome || c.nextAction.isSome || !c.targetFiles.val.isEmpty ||
    !c.workflowSteps.val.isEmpty || !c.patternHints.val.isEmpty ||
    !c.serviceLifecycleConstraints.val.isEmpty ||
    !c.outcome.acceptanceChecks.val.isEmpty || !c.outcome.successInvariants.val.isEmpty ||
    !c.outcome.dependencyRequirements.val.isEmpty ||
    !c.outcome.environmentAssumptions.val.isEmpty ||
    !c.outcome.mustHoldAfterExit.val.isEmpty ||
    !c.outcome.externalVisibilityRequirements.val.isEmpty

/-! ## Merging -/

def mergeExecutionContracts (existing incoming : ExecutionContractV1)
    (preference : ExecutionContractMergePreference) : ExecutionContractV1 :=
  let lists (f : ExecutionContractV1 → Bounded 64 Text) : Bounded 64 Text :=
    (mergeStringListField (n := 24) (f existing).val (f incoming).val preference).widen
      (by decide)
  let outcomes (f : ExecutionContractOutcomeV1 → Bounded 24 Text) : Bounded 24 Text :=
    mergeStringListField (f existing.outcome).val (f incoming.outcome).val preference
  { contractTrust := mergeField existing.contractTrust incoming.contractTrust preference
    taskFamily := mergeField existing.taskFamily incoming.taskFamily preference
    taskSignature := mergeField existing.taskSignature incoming.taskSignature preference
    workflowSignature :=
      mergeField existing.workflowSignature incoming.workflowSignature preference
    policyMemoryId := mergeField existing.policyMemoryId incoming.policyMemoryId preference
    selectedTool := mergeField existing.selectedTool incoming.selectedTool preference
    filePath := mergeField existing.filePath incoming.filePath preference
    targetFiles := lists (·.targetFiles)
    nextAction := mergeField existing.nextAction incoming.nextAction preference
    workflowSteps := lists (·.workflowSteps)
    patternHints := lists (·.patternHints)
    serviceLifecycleConstraints := mergeLifecycleField existing.serviceLifecycleConstraints.val
      incoming.serviceLifecycleConstraints.val preference
    outcome := {
      acceptanceChecks := outcomes (·.acceptanceChecks)
      successInvariants := outcomes (·.successInvariants)
      dependencyRequirements := outcomes (·.dependencyRequirements)
      environmentAssumptions := outcomes (·.environmentAssumptions)
      mustHoldAfterExit := outcomes (·.mustHoldAfterExit)
      externalVisibilityRequirements := outcomes (·.externalVisibilityRequirements) }
    provenance := {
      sourceKind := match preference with
        | .incoming => incoming.provenance.sourceKind
        | .existing => existing.provenance.sourceKind
      sourceSummaryVersion := mergeField existing.provenance.sourceSummaryVersion
        incoming.provenance.sourceSummaryVersion preference
      sourceAnchor := mergeField existing.provenance.sourceAnchor
        incoming.provenance.sourceAnchor preference
      evidenceRefs := mergeStringListField existing.provenance.evidenceRefs.val
        incoming.provenance.evidenceRefs.val preference
      notes := mergeStringListField existing.provenance.notes.val
        incoming.provenance.notes.val preference } }

/-- The merge in which a list of the preferred contract stands for itself. -/
def mergeExecutionContractsWithActionSurface (existing incoming : ExecutionContractV1)
    (preference : ExecutionContractMergePreference) : ExecutionContractV1 :=
  let merged := mergeExecutionContracts existing incoming preference
  let (primary, fallback) := match preference with
    | .incoming => (incoming, existing)
    | .existing => (existing, incoming)
  { merged with
    targetFiles := primary.targetFiles.orElse fallback.targetFiles
    workflowSteps := primary.workflowSteps.orElse fallback.workflowSteps
    patternHints := primary.patternHints.orElse fallback.patternHints
    serviceLifecycleConstraints :=
      primary.serviceLifecycleConstraints.orElse fallback.serviceLifecycleConstraints
    outcome := {
      acceptanceChecks :=
        primary.outcome.acceptanceChecks.orElse fallback.outcome.acceptanceChecks
      successInvariants :=
        primary.outcome.successInvariants.orElse fallback.outcome.successInvariants
      dependencyRequirements :=
        primary.outcome.dependencyRequirements.orElse fallback.outcome.dependencyRequirements
      environmentAssumptions :=
        primary.outcome.environmentAssumptions.orElse fallback.outcome.environmentAssumptions
      mustHoldAfterExit :=
        primary.outcome.mustHoldAfterExit.orElse fallback.outcome.mustHoldAfterExit
      externalVisibilityRequirements := primary.outcome.externalVisibilityRequirements.orElse
        fallback.outcome.externalVisibilityRequirements } }

/-! ## Derivation -/

/-- The records of the slots that a contract is projected from, each as its fields. -/
structure Sources where
  slot : String → Option Json
  executionNative : String → Option Json
  anchor : String → Option Json
  trajectory : String → Option Json
  recovery : String → Option Json
  recoveryBody : String → Option Json
  policy : String → Option Json
  derived : String → Option Json

def sources (slots : Json.Fields) : Sources :=
  let slot := Json.get slots
  let recovery := Json.field (Json.asRecord (slot "recovery_contract_v1"))
  { slot
    executionNative := Json.field (Json.asRecord (slot "execution_native_v1"))
    anchor := Json.field (Json.asRecord (slot "anchor_v1"))
    trajectory := Json.field (Json.asRecord (Json.field
      (Json.asRecord (slot "execution_result_summary")) "trajectory_compile_v1"))
    recovery
    recoveryBody := Json.field (Json.asRecord (recovery "contract"))
    policy := Json.field ((Json.asRecord (slot "policy_contract_v1")).or
      (Json.asRecord (slot "policy_contract")))
    derived := Json.field (Json.asRecord (slot "derived_policy_v1")) }

/-- The lists of at most 24 texts each, one after the other. -/
def stringLists (values : List (Option Json)) : List Text :=
  values.flatMap fun v => (stringList 24 v).val

def Sources.surface (s : Sources) : ContractSurface where
  contractTrust := (firstNonEmptyString [s.slot "contract_trust",
    s.executionNative "contract_trust", s.anchor "contract_trust", s.recovery "contract_trust",
    s.policy "contract_trust", s.derived "contract_trust"]).bind fun t =>
      contractTrustSchema (some (.str t.val))
  taskFamily := firstNonEmptyString [s.slot "task_family", s.slot "task_kind",
    s.executionNative "task_family", s.anchor "task_family", s.recovery "task_family",
    s.policy "task_family", s.derived "task_family", s.trajectory "task_family"]
  taskSignature := firstNonEmptyString [s.slot "task_signature",
    s.executionNative "task_signature", s.anchor "task_signature", s.recovery "task_signature",
    s.policy "task_signature", s.derived "task_signature"]
  workflowSignature := firstNonEmptyString [s.slot "workflow_signature",
    s.executionNative "workflow_signature", s.anchor "workflow_signature",
    s.recovery "workflow_signature", s.policy "workflow_signature",
    s.derived "workflow_signature", s.trajectory "workflow_signature"]
  policyMemoryId := firstNonEmptyString [s.slot "policy_memory_id", s.policy "policy_memory_id",
    s.derived "policy_memory_id"]
  selectedTool := firstNonEmptyString [s.slot "selected_tool",
    s.executionNative "selected_tool", s.anchor "selected_tool", s.recoveryBody "likely_tool",
    s.policy "selected_tool", s.derived "selected_tool"]
  filePath := firstNonEmptyString [s.slot "file_path", s.executionNative "file_path",
    s.anchor "file_path", s.policy "file_path", s.derived "file_path"]
  targetFiles := (distinct 24 (stringLists [s.slot "target_files",
    s.executionNative "target_files", s.anchor "target_files", s.recoveryBody "target_files",
    s.policy "target_files", s.derived "target_files"])).val
  nextAction := firstNonEmptyString [s.slot "next_action", s.executionNative "next_action",
    s.anchor "next_action", s.recoveryBody "next_action", s.policy "next_action",
    s.derived "next_action"]
  workflowSteps := (distinct 24 (stringLists [s.slot "workflow_steps",
    s.executionNative "workflow_steps", s.anchor "key_steps", s.recoveryBody "workflow_steps",
    s.policy "workflow_steps", s.derived "workflow_steps"])).val
  patternHints := (distinct 24 (stringLists [s.slot "pattern_hints",
    s.executionNative "pattern_hints", s.anchor "pattern_hints", s.recoveryBody "pattern_hints",
    s.policy "pattern_hints", s.derived "pattern_hints"])).val
  serviceLifecycleConstraints := [s.slot "service_lifecycle_constraints",
    s.executionNative "service_lifecycle_constraints",
    s.anchor "service_lifecycle_constraints", s.recoveryBody "service_lifecycle_constraints",
    s.policy "service_lifecycle_constraints",
    s.derived "service_lifecycle_constraints"].flatMap fun v =>
      (lifecycleConstraintList 16 v).val

/-- A list of the outcome of the contract that the slots hold. -/
def existingOutcome (existing : Option ExecutionContractV1)
    (f : ExecutionContractOutcomeV1 → Bounded 24 Text) : List Text :=
  (existing.map fun c => (distinct 24 (f c.outcome).val).val).getD []

/-- What the sources say of a contract, after the provenance that the caller gives and before
the contract that the slots hold. -/
def Sources.projection (s : Sources) (provenance : Option Json.Fields)
    (existing : Option ExecutionContractV1) : Projection :=
  let given := Json.field provenance
  let outcome (values : List (Option Json))
      (f : ExecutionContractOutcomeV1 → Bounded 24 Text) : List Text :=
    (distinct 24 (stringLists values ++ existingOutcome existing f)).val
  { s.surface with
    acceptanceChecks := outcome [s.slot "acceptance_checks", s.recoveryBody "acceptance_checks",
      s.policy "acceptance_checks", s.derived "acceptance_checks"] (·.acceptanceChecks)
    successInvariants := outcome [s.recoveryBody "success_invariants"] (·.successInvariants)
    dependencyRequirements :=
      outcome [s.recoveryBody "dependency_requirements"] (·.dependencyRequirements)
    environmentAssumptions :=
      outcome [s.recoveryBody "environment_assumptions"] (·.environmentAssumptions)
    mustHoldAfterExit :=
      outcome [s.recoveryBody "must_hold_after_exit"] (·.mustHoldAfterExit)
    externalVisibilityRequirements :=
      outcome [s.recoveryBody "external_visibility_requirements"]
        (·.externalVisibilityRequirements)
    sourceKind := (provenanceKind (given "source_kind")).getD .legacyProjection
    sourceSummaryVersion := toStringOrNull (Json.orElse (given "source_summary_version")
      (((existing.bind (·.provenance.sourceSummaryVersion)).or
        (toStringOrNull (s.trajectory "summary_version"))).map fun t => .str t.val))
    sourceAnchor := toStringOrNull (Json.orElse (given "source_anchor")
      ((existing.bind (·.provenance.sourceAnchor)).map fun t => .str t.val))
    evidenceRefs := (distinct 16 (textEntries (given "evidence_refs") ++
      (existing.map (·.provenance.evidenceRefs.val)).getD [])).val
    notes := (distinct 16 (textEntries (given "notes") ++
      (existing.map (·.provenance.notes.val)).getD [])).val }

/-- The contract that the slots project beside the one they hold. -/
def projected (slots : Json.Fields) (provenance : Option Json.Fields)
    (existing : Option ExecutionContractV1) : ExecutionContractV1 :=
  buildExecutionContractFromProjection ((sources slots).projection provenance existing)

/-- The contract of the slots that hold `existing`. -/
def deriveExecutionContract (slots : Json.Fields) (provenance : Option Json.Fields)
    (existing : Option ExecutionContractV1) : Option ExecutionContractV1 :=
  let incoming := projected slots provenance existing
  if !hasExecutionContractSignal incoming then existing
  else match existing with
    | none => some incoming
    | some existing => some (mergeExecutionContractsWithActionSurface existing incoming .existing)

def deriveExecutionContractFromSlots (slots : Json.Fields) (provenance : Option Json.Fields) :
    Option ExecutionContractV1 :=
  deriveExecutionContract slots provenance
    (parseExecutionContract (Json.get slots "execution_contract_v1"))

/-! ## What a list keeps -/

section Lists

variable {n : Nat} {xs ys zs : List Text}

@[simp] theorem distinct_eq_nil (hn : 0 < n) : (distinct n xs).val = [] ↔ xs = [] :=
  firstUpTo_eq_nil hn

theorem nodup_distinct : (distinct n xs).val.Nodup := by
  have h : ((firstUpTo id n xs).map id).Nodup := nodup_firstUpTo xs
  rwa [List.map_id] at h

/-- The list holds the texts, or as many as it may. -/
def Covers (n : Nat) (ys xs : List Text) : Prop := (∀ x ∈ xs, x ∈ ys) ∨ ys.length = n

variable {kept : Bounded n Text}

theorem distinct_append (hkept : kept.val.Nodup) (h : Covers n kept.val ys) :
    distinct n (kept.val ++ ys) = kept := by
  refine Subtype.ext (firstUpTo_append ?_ kept.property ?_)
  · rwa [List.map_id]
  · rwa [List.map_id]

theorem distinct_self (hkept : kept.val.Nodup) : distinct n kept.val = kept := by
  have h : distinct n (kept.val ++ []) = kept := distinct_append hkept (.inl nofun)
  rwa [List.append_nil] at h

theorem covers_distinct : Covers n (distinct n xs).val xs := by
  by_cases hfull : (distinct n xs).val.length = n
  · exact .inr hfull
  · refine .inl fun x hx => ?_
    have hmem : id x ∈ (firstUpTo id n xs).map id ∨ (firstUpTo id n xs).length = n :=
      mem_firstUpTo_or_full hx
    have h := hmem.resolve_right hfull
    rwa [List.map_id] at h

theorem Covers.mono (h : Covers n zs ys) (hsub : ∀ x ∈ xs, x ∈ ys) : Covers n zs xs :=
  h.imp_left fun hall x hx => hall x (hsub x hx)

theorem Covers.trans (hzs : Covers n zs ys) (hys : Covers n ys xs) (hnodup : ys.Nodup)
    (hlen : zs.length ≤ n) : Covers n zs xs := by
  rcases hzs with hall | hfull
  · rcases hys with hys | hfull
    · exact .inl fun x hx => hall x (hys x hx)
    · have hle := (List.subperm_of_subset hnodup hall).length_le
      exact .inr (by omega)
  · exact .inr hfull

@[simp] theorem mergeStringListField_eq_nil {e i : List Text}
    {preference : ExecutionContractMergePreference} (hn : 0 < n) :
    (mergeStringListField (n := n) e i preference).val = [] ↔ e = [] ∧ i = [] := by
  unfold mergeStringListField
  cases preference with
  | existing => simp [hn]
  | incoming => simp [hn, and_comm]

theorem mergeStringListField_covers {e i : List Text} :
    Covers n (mergeStringListField (n := n) e i .existing).val i := by
  have hall : Covers n (mergeStringListField (n := n) e i .existing).val (distinct n i).val :=
    covers_distinct.mono fun x hx => List.mem_append_right _ hx
  exact hall.trans covers_distinct nodup_distinct
    (mergeStringListField (n := n) e i .existing).property

theorem mergeStringListField_self (hkept : kept.val.Nodup) (h : Covers n kept.val ys) :
    mergeStringListField kept.val ys .existing = kept := by
  unfold mergeStringListField
  dsimp only
  rw [distinct_self hkept]
  exact distinct_append hkept (h.mono fun x hx => mem_of_mem_firstBy (List.mem_of_mem_take hx))

end Lists

/-! ## Merging again -/

/-- What the second contract has, the first has. -/
structure Complete (c p : ExecutionContractV1) : Prop where
  contractTrust : c.contractTrust = none → p.contractTrust = none
  taskFamily : c.taskFamily = none → p.taskFamily = none
  taskSignature : c.taskSignature = none → p.taskSignature = none
  workflowSignature : c.workflowSignature = none → p.workflowSignature = none
  policyMemoryId : c.policyMemoryId = none → p.policyMemoryId = none
  selectedTool : c.selectedTool = none → p.selectedTool = none
  filePath : c.filePath = none → p.filePath = none
  targetFiles : c.targetFiles.val = [] → p.targetFiles.val = []
  nextAction : c.nextAction = none → p.nextAction = none
  workflowSteps : c.workflowSteps.val = [] → p.workflowSteps.val = []
  patternHints : c.patternHints.val = [] → p.patternHints.val = []
  constraints :
    c.serviceLifecycleConstraints.val = [] → p.serviceLifecycleConstraints.val = []
  acceptanceChecks :
    c.outcome.acceptanceChecks.val = [] → p.outcome.acceptanceChecks.val = []
  successInvariants :
    c.outcome.successInvariants.val = [] → p.outcome.successInvariants.val = []
  dependencyRequirements :
    c.outcome.dependencyRequirements.val = [] → p.outcome.dependencyRequirements.val = []
  environmentAssumptions :
    c.outcome.environmentAssumptions.val = [] → p.outcome.environmentAssumptions.val = []
  mustHoldAfterExit :
    c.outcome.mustHoldAfterExit.val = [] → p.outcome.mustHoldAfterExit.val = []
  externalVisibilityRequirements : c.outcome.externalVisibilityRequirements.val = [] →
    p.outcome.externalVisibilityRequirements.val = []
  sourceSummaryVersion :
    c.provenance.sourceSummaryVersion = none → p.provenance.sourceSummaryVersion = none
  sourceAnchor : c.provenance.sourceAnchor = none → p.provenance.sourceAnchor = none

theorem or_eq_self {α : Type} {a b : Option α} (h : a = none → b = none) : a.or b = a := by
  cases a with
  | none => exact h rfl
  | some a => rfl

theorem Bounded.orElse_eq_self {n : Nat} {α : Type} {a b : Bounded n α}
    (h : a.val = [] → b.val = []) : a.orElse b = a := by
  unfold Bounded.orElse
  split
  · next ha => exact Subtype.ext ((h ha).trans ha.symm)
  · rfl

theorem Bounded.orElse_eq_nil {n : Nat} {α : Type} {a b : Bounded n α} :
    (a.orElse b).val = [] ↔ a.val = [] ∧ b.val = [] := by
  unfold Bounded.orElse
  split
  · next ha => exact (and_iff_right ha).symm
  · next ha => exact iff_of_false ha fun h => ha h.1

/-- A contract takes nothing from one that it completes. -/
theorem Complete.merge {c p : ExecutionContractV1} (h : Complete c p)
    (hrefs : c.provenance.evidenceRefs.val.Nodup)
    (hcovers : Covers 16 c.provenance.evidenceRefs.val p.provenance.evidenceRefs.val)
    (hnotes : c.provenance.notes.val.Nodup)
    (hcovers' : Covers 16 c.provenance.notes.val p.provenance.notes.val) :
    mergeExecutionContractsWithActionSurface c p .existing = c := by
  simp only [mergeExecutionContractsWithActionSurface, mergeExecutionContracts, mergeField,
    or_eq_self h.contractTrust, or_eq_self h.taskFamily, or_eq_self h.taskSignature,
    or_eq_self h.workflowSignature, or_eq_self h.policyMemoryId, or_eq_self h.selectedTool,
    or_eq_self h.filePath, or_eq_self h.nextAction, or_eq_self h.sourceSummaryVersion,
    or_eq_self h.sourceAnchor, Bounded.orElse_eq_self h.targetFiles,
    Bounded.orElse_eq_self h.workflowSteps, Bounded.orElse_eq_self h.patternHints,
    Bounded.orElse_eq_self h.constraints, Bounded.orElse_eq_self h.acceptanceChecks,
    Bounded.orElse_eq_self h.successInvariants, Bounded.orElse_eq_self h.dependencyRequirements,
    Bounded.orElse_eq_self h.environmentAssumptions, Bounded.orElse_eq_self h.mustHoldAfterExit,
    Bounded.orElse_eq_self h.externalVisibilityRequirements,
    mergeStringListField_self hrefs hcovers, mergeStringListField_self hnotes hcovers']

theorem complete_merge (e p : ExecutionContractV1) :
    Complete (mergeExecutionContractsWithActionSurface e p .existing) p where
  contractTrust h := (Option.or_eq_none_iff.1 h).2
  taskFamily h := (Option.or_eq_none_iff.1 h).2
  taskSignature h := (Option.or_eq_none_iff.1 h).2
  workflowSignature h := (Option.or_eq_none_iff.1 h).2
  policyMemoryId h := (Option.or_eq_none_iff.1 h).2
  selectedTool h := (Option.or_eq_none_iff.1 h).2
  filePath h := (Option.or_eq_none_iff.1 h).2
  targetFiles h := (Bounded.orElse_eq_nil.1 h).2
  nextAction h := (Option.or_eq_none_iff.1 h).2
  workflowSteps h := (Bounded.orElse_eq_nil.1 h).2
  patternHints h := (Bounded.orElse_eq_nil.1 h).2
  constraints h := (Bounded.orElse_eq_nil.1 h).2
  acceptanceChecks h := (Bounded.orElse_eq_nil.1 h).2
  successInvariants h := (Bounded.orElse_eq_nil.1 h).2
  dependencyRequirements h := (Bounded.orElse_eq_nil.1 h).2
  environmentAssumptions h := (Bounded.orElse_eq_nil.1 h).2
  mustHoldAfterExit h := (Bounded.orElse_eq_nil.1 h).2
  externalVisibilityRequirements h := (Bounded.orElse_eq_nil.1 h).2
  sourceSummaryVersion h := (Option.or_eq_none_iff.1 h).2
  sourceAnchor h := (Option.or_eq_none_iff.1 h).2

/-! ## Deriving again -/

section Again

variable {slots : Json.Fields} {provenance : Option Json.Fields}
  {existing : Option ExecutionContractV1} {c : ExecutionContractV1} {s : Sources}

theorem existingOutcome_eq_nil {f : ExecutionContractOutcomeV1 → Bounded 24 Text} :
    existingOutcome existing f = [] ↔ ∀ e ∈ existing, (f e.outcome).val = [] := by
  cases existing <;> simp [existingOutcome]

theorem acceptanceChecks_of_deriveSuccessInvariants {targetFiles checks : List Text}
    {constraints : List Lifecycle}
    (h : (deriveSuccessInvariants targetFiles checks constraints).val = []) : checks = [] := by
  by_contra hne
  unfold deriveSuccessInvariants uniqueStrings at h
  rw [distinct_eq_nil (by decide), if_neg hne] at h
  have hread := List.filterMap_eq_nil_iff.1 h "all_acceptance_checks_pass" (by simp)
  revert hread
  decide

theorem toStringOrNull_val (t : Text) : toStringOrNull (some (.str t.val)) = some t :=
  Text.read_val t

/-- A text that stands for a missing one is missing if that is. -/
theorem orElse_eq_none {g : Option Json} {t t' : Option Text} (h : t = none → t' = none)
    (hnone : toStringOrNull (Json.orElse g (t.map fun t => .str t.val)) = none) :
    toStringOrNull (Json.orElse g (t'.map fun t => .str t.val)) = none := by
  have htext : toStringOrNull (t.map fun t => .str t.val) = t := by
    cases t with
    | none => rfl
    | some t => exact toStringOrNull_val t
  unfold Json.orElse at hnone ⊢
  split at hnone
  · rw [h (htext.symm.trans hnone)]
    rfl
  · rw [h (htext.symm.trans hnone)]
    rfl
  · exact hnone

/-- A contract that completes one projection completes another with the same surface that says
no more of the outcome and of its sources. -/
theorem complete_build {a b : Projection} (h : Complete c (buildExecutionContractFromProjection a))
    (hsurface : b.toContractSurface = a.toContractSurface)
    (hchecks : a.acceptanceChecks = [] → b.acceptanceChecks = [])
    (hinvariants : c.outcome.successInvariants.val = [] → a.successInvariants = [] →
      b.successInvariants = [])
    (hdependencies : c.outcome.dependencyRequirements.val = [] →
      a.dependencyRequirements = [] → b.dependencyRequirements = [])
    (hassumptions : c.outcome.environmentAssumptions.val = [] →
      a.environmentAssumptions = [] → b.environmentAssumptions = [])
    (hmust : c.outcome.mustHoldAfterExit.val = [] → a.mustHoldAfterExit = [] →
      b.mustHoldAfterExit = [])
    (hexternal : c.outcome.externalVisibilityRequirements.val = [] →
      a.externalVisibilityRequirements = [] → b.externalVisibilityRequirements = [])
    (hversion : c.provenance.sourceSummaryVersion = none → a.sourceSummaryVersion = none →
      b.sourceSummaryVersion = none)
    (hanchor : c.provenance.sourceAnchor = none → a.sourceAnchor = none →
      b.sourceAnchor = none) :
    Complete c (buildExecutionContractFromProjection b) := by
  obtain ⟨surface, checks, _, _, _, _, _, _, _, _, _, _⟩ := a
  obtain ⟨surface', checks', _, _, _, _, _, _, _, _, _, _⟩ := b
  obtain rfl : surface' = surface := hsurface
  refine ⟨h.contractTrust, h.taskFamily, h.taskSignature, h.workflowSignature,
    h.policyMemoryId, h.selectedTool, h.filePath, h.targetFiles, h.nextAction, h.workflowSteps,
    h.patternHints, h.constraints, fun hc => ?_, fun hc => ?_, fun hc => ?_, fun hc => ?_,
    fun hc => ?_, fun hc => ?_, fun hc => hversion hc (h.sourceSummaryVersion hc),
    fun hc => hanchor hc (h.sourceAnchor hc)⟩
  · exact (distinct_eq_nil (by decide)).2
      (hchecks ((distinct_eq_nil (by decide)).1 (h.acceptanceChecks hc)))
  · obtain ⟨hderived, hsaid⟩ := (mergeStringListField_eq_nil (by decide)).1
      (h.successInvariants hc)
    have hnone : (distinct 24 checks).val = [] :=
      acceptanceChecks_of_deriveSuccessInvariants hderived
    have hsame : distinct 24 checks' = distinct 24 checks := by
      refine Subtype.ext (Eq.trans ?_ hnone.symm)
      exact (distinct_eq_nil (by decide)).2 (hchecks ((distinct_eq_nil (by decide)).1 hnone))
    refine (mergeStringListField_eq_nil (by decide)).2 ⟨?_, hinvariants hc hsaid⟩
    refine Eq.trans ?_ hderived
    exact congrArg (fun xs : Bounded 24 Text => (deriveSuccessInvariants _ xs.val _).val) hsame
  · obtain ⟨-, hsaid⟩ := (mergeStringListField_eq_nil (by decide)).1
      (h.dependencyRequirements hc)
    have hnil := hdependencies hc hsaid
    exact (mergeStringListField_eq_nil (by decide)).2 ⟨(distinct_eq_nil (by decide)).2 hnil, hnil⟩
  · obtain ⟨-, hsaid⟩ := (mergeStringListField_eq_nil (by decide)).1
      (h.environmentAssumptions hc)
    have hnil := hassumptions hc hsaid
    exact (mergeStringListField_eq_nil (by decide)).2 ⟨(distinct_eq_nil (by decide)).2 hnil, hnil⟩
  · obtain ⟨hderived, hsaid⟩ := (mergeStringListField_eq_nil (by decide)).1
      (h.mustHoldAfterExit hc)
    exact (mergeStringListField_eq_nil (by decide)).2 ⟨hderived, hmust hc hsaid⟩
  · obtain ⟨hderived, hsaid⟩ := (mergeStringListField_eq_nil (by decide)).1
      (h.externalVisibilityRequirements hc)
    exact (mergeStringListField_eq_nil (by decide)).2 ⟨hderived, hexternal hc hsaid⟩

/-- An outcome list of a projection is empty if the sources and the contract of the slots say
nothing. -/
theorem outcome_eq_nil {f : ExecutionContractOutcomeV1 → Bounded 24 Text} {said : List Text}
    (hc : (f c.outcome).val = [])
    (h : (distinct 24 (said ++ existingOutcome existing f)).val = []) :
    (distinct 24 (said ++ existingOutcome (some c) f)).val = [] := by
  rw [distinct_eq_nil (by decide), List.append_eq_nil_iff] at h ⊢
  exact ⟨h.1, existingOutcome_eq_nil.2 fun e he => Option.some.inj he ▸ hc⟩

/-- A contract that completes what the sources project beside the one before it completes what
they project beside itself. -/
theorem complete_again
    (h : Complete c (buildExecutionContractFromProjection (s.projection provenance existing)))
    (hchecks : (∀ e ∈ existing, e.outcome.acceptanceChecks.val = []) →
      (s.projection provenance existing).acceptanceChecks = [] →
        c.outcome.acceptanceChecks.val = []) :
    Complete c (buildExecutionContractFromProjection (s.projection provenance (some c))) := by
  refine complete_build h rfl (fun hnil => ?_) outcome_eq_nil outcome_eq_nil outcome_eq_nil
    outcome_eq_nil outcome_eq_nil (fun hc => orElse_eq_none fun hnone => ?_)
    fun hc => orElse_eq_none fun _ => hc
  · have hexisting : ∀ e ∈ existing, e.outcome.acceptanceChecks.val = [] :=
      existingOutcome_eq_nil.1 (List.append_eq_nil_iff.1 ((distinct_eq_nil (by decide)).1 hnil)).2
    exact outcome_eq_nil (hchecks hexisting hnil) hnil
  · exact Option.or_eq_none_iff.2 ⟨hc, (Option.or_eq_none_iff.1 hnone).2⟩

/-- The references and the notes of a contract cover what the caller gives and what they are
projected to beside the contract. -/
theorem covers_again {given : List Text} {kept : Bounded 16 Text}
    (h : Covers 16 kept.val given) :
    Covers 16 kept.val (distinct 16 (distinct 16 (given ++ kept.val)).val).val := by
  have hall : Covers 16 kept.val (given ++ kept.val) := by
    refine h.imp_left fun hgiven x hx => ?_
    exact (List.mem_append.1 hx).elim (hgiven x) id
  have hmem : ∀ {xs : List Text} {x : Text}, x ∈ (distinct 16 xs).val → x ∈ xs :=
    fun h => mem_of_mem_firstBy (List.mem_of_mem_take h)
  exact hall.mono fun x hx => hmem (hmem hx)

theorem covers_given {given rest : List Text} :
    Covers 16 (distinct 16 (distinct 16 (given ++ rest)).val).val given := by
  have hall : Covers 16 (distinct 16 (distinct 16 (given ++ rest)).val).val (given ++ rest) :=
    covers_distinct.trans covers_distinct nodup_distinct length_firstUpTo_le
  exact hall.mono fun x hx => List.mem_append_left _ hx

theorem complete_self (p : ExecutionContractV1) : Complete p p := by
  refine ⟨id, id, id, id, id, id, id, id, id, id, id, id, id, id, id, id, id, id, id, id⟩

/-- Deriving the contract beside the one that was derived returns that contract. -/
theorem deriveExecutionContract_again
    (h : deriveExecutionContract slots provenance existing = some c) :
    deriveExecutionContract slots provenance (some c) = some c := by
  unfold deriveExecutionContract at h
  dsimp only at h
  split at h
  · next hsignal =>
    subst h
    unfold deriveExecutionContract
    dsimp only
    rw [if_pos hsignal]
  · have hmerge : mergeExecutionContractsWithActionSurface c
        (projected slots provenance (some c)) .existing = c := by
      cases existing with
      | none =>
        obtain rfl := Option.some.inj h
        refine (complete_again (complete_self _) fun _ hnil => ?_).merge nodup_distinct
          (covers_again covers_given) nodup_distinct (covers_again covers_given)
        exact (distinct_eq_nil (by decide)).2 hnil
      | some e =>
        obtain rfl := Option.some.inj h
        refine (complete_again (complete_merge _ _) fun hexisting hnil => ?_).merge
          nodup_distinct (covers_again ?_) nodup_distinct (covers_again ?_)
        · refine Bounded.orElse_eq_nil.2 ⟨hexisting e rfl, ?_⟩
          exact (distinct_eq_nil (by decide)).2 hnil
        · exact mergeStringListField_covers.trans covers_given nodup_distinct
            length_firstUpTo_le
        · exact mergeStringListField_covers.trans covers_given nodup_distinct
            length_firstUpTo_le
    unfold deriveExecutionContract
    dsimp only
    split
    · rfl
    · exact congrArg some hmerge

theorem projection_set {v : Json} :
    (sources (Json.set slots "execution_contract_v1" v)).projection provenance existing =
      (sources slots).projection provenance existing := by
  unfold Sources.projection Sources.surface sources
  simp (disch := decide) only [Json.get_set_of_ne]

/-- Deriving the contract of slots that hold the contract that was derived returns that
contract. -/
theorem deriveExecutionContractFromSlots_again
    (h : deriveExecutionContractFromSlots slots provenance = some c) :
    deriveExecutionContractFromSlots
      (Json.set slots "execution_contract_v1" (.obj c.toJson)) provenance = some c := by
  have hprojected : ∀ existing, projected (Json.set slots "execution_contract_v1" (.obj c.toJson))
      provenance existing = projected slots provenance existing :=
    fun existing => congrArg buildExecutionContractFromProjection projection_set
  have hagain := deriveExecutionContract_again h
  unfold deriveExecutionContractFromSlots
  rw [Json.get_set_self, parseExecutionContract_toJson]
  unfold deriveExecutionContract at hagain ⊢
  rwa [hprojected]

end Again

end AionisCore.Memory.ExecutionContract
