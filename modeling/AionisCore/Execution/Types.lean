import AionisCore.Execution.Verification

/-!
# Execution states

An execution state and the schema that reads it. The schema trims names and notes
but leaves the entries of string lists as they are. What counts as a timestamp is
a parameter. `none` stands for a schema error.
-/

namespace AionisCore.Execution

open Lib Lib.JsString Lib.Zod

inductive ExecutionStage where
  | triage
  | patch
  | review
  | resume
  deriving DecidableEq, Repr

inductive ExecutionRole where
  | orchestrator
  | triage
  | patch
  | review
  | resume
  deriving DecidableEq, Repr

inductive ServiceLifecycleKind where
  | generic
  | http
  | tcp
  | process
  deriving DecidableEq, Repr

/-- A service lifecycle constraint with the fields the verifier does not read. -/
structure ServiceLifecycleConstraint extends ServiceLifecycleConstraintV1 where
  serviceKind : ServiceLifecycleKind := .generic
  launchReference : Option String := none
  detachThenProbe : Bool := false
  teardownNotes : List String := []
  deriving DecidableEq, Repr

structure ReviewerContract where
  standard : String
  requiredOutputs : List String := []
  acceptanceChecks : List String := []
  rollbackRequired : Bool := false
  deriving DecidableEq, Repr

structure ResumeAnchor where
  anchor : String
  filePath : Option String := none
  symbol : Option String := none
  repoRoot : Option String := none
  deriving DecidableEq, Repr

structure ExecutionStateV1 where
  stateId : String
  scope : String
  taskBrief : String
  currentStage : ExecutionStage
  activeRole : ExecutionRole
  ownedFiles : List String := []
  modifiedFiles : List String := []
  pendingValidations : List String := []
  completedValidations : List String := []
  lastAcceptedHypothesis : Option String := none
  rejectedPaths : List String := []
  unresolvedBlockers : List String := []
  rollbackNotes : List String := []
  serviceLifecycleConstraints : List ServiceLifecycleConstraint := []
  reviewerContract : Option ReviewerContract := none
  resumeAnchor : Option ResumeAnchor := none
  updatedAt : String
  deriving DecidableEq, Repr

/-! ## Schemas -/

/-- `z.array(z.string().min(1))`, which keeps the entries as they are. -/
def entriesFit (xs : List String) : Bool := xs.all (· ≠ "")

/-- `.trim().min(1)`. -/
def name (s : String) : Option String := trimmed none s

/-- `.trim().min(1).nullable()`. -/
def nullableName (s : Option String) : Option (Option String) := nullableText none s

/-- `.nullable()` after a record schema. -/
def nullableRecord {α : Type} (p : α → Option α) : Option α → Option (Option α)
  | none => some none
  | some x => (p x).map some

def ServiceLifecycleConstraint.parse (c : ServiceLifecycleConstraint) :
    Option ServiceLifecycleConstraint := do
  let label ← name c.label
  let launchReference ← nullableName c.launchReference
  let endpoint ← nullableName c.endpoint
  guard (entriesFit c.healthChecks)
  guard (entriesFit c.teardownNotes)
  return { c with label, launchReference, endpoint }

def ReviewerContract.parse (c : ReviewerContract) : Option ReviewerContract := do
  let standard ← name c.standard
  guard (entriesFit c.requiredOutputs)
  guard (entriesFit c.acceptanceChecks)
  return { c with standard }

def ResumeAnchor.parse (a : ResumeAnchor) : Option ResumeAnchor := do
  let anchor ← name a.anchor
  let filePath ← nullableName a.filePath
  let symbol ← nullableName a.symbol
  let repoRoot ← nullableName a.repoRoot
  return { anchor, filePath, symbol, repoRoot }

/-- The string lists of a state and the number of its constraints are within bounds. -/
def ExecutionStateV1.listsFit (s : ExecutionStateV1) : Bool :=
  entriesFit s.ownedFiles && entriesFit s.modifiedFiles && entriesFit s.pendingValidations &&
    entriesFit s.completedValidations && entriesFit s.rejectedPaths &&
    entriesFit s.unresolvedBlockers && entriesFit s.rollbackNotes &&
    s.serviceLifecycleConstraints.length ≤ 16

def ExecutionStateV1.parse (datetime : String → Bool) (s : ExecutionStateV1) :
    Option ExecutionStateV1 := do
  let stateId ← name s.stateId
  let scope ← name s.scope
  let taskBrief ← name s.taskBrief
  let lastAcceptedHypothesis ← nullableName s.lastAcceptedHypothesis
  let serviceLifecycleConstraints ← s.serviceLifecycleConstraints.mapM (·.parse)
  let reviewerContract ← nullableRecord ReviewerContract.parse s.reviewerContract
  let resumeAnchor ← nullableRecord ResumeAnchor.parse s.resumeAnchor
  guard s.listsFit
  guard (datetime s.updatedAt)
  return { s with
    stateId, scope, taskBrief, lastAcceptedHypothesis, serviceLifecycleConstraints,
    reviewerContract, resumeAnchor }

/-! ## What a schema returns, it accepts as it is -/

theorem nullableRecord_eq_some {α : Type} {p : α → Option α} {o o' : Option α} :
    nullableRecord p o = some o' ↔
      o = none ∧ o' = none ∨ ∃ x y, o = some x ∧ o' = some y ∧ p x = some y := by
  cases o with
  | none => simp [nullableRecord, eq_comm]
  | some x =>
    rw [nullableRecord, Option.map_eq_some_iff]
    constructor
    · rintro ⟨y, hy, rfl⟩
      exact .inr ⟨x, y, rfl, rfl, hy⟩
    · rintro (⟨h, -⟩ | ⟨z, y, hz, rfl, hy⟩)
      · cases h
      · obtain rfl := Option.some.inj hz
        exact ⟨y, hy, rfl⟩

theorem nullableRecord_of_nullableRecord {α : Type} {p : α → Option α} {o o' : Option α}
    (hp : ∀ {x y}, p x = some y → p y = some y) (h : nullableRecord p o = some o') :
    nullableRecord p o' = some o' := by
  rcases nullableRecord_eq_some.1 h with ⟨-, rfl⟩ | ⟨x, y, -, rfl, hy⟩
  · rfl
  · rw [nullableRecord, hp hy, Option.map_some]

theorem ServiceLifecycleConstraint.parse_parse {c d : ServiceLifecycleConstraint}
    (h : c.parse = some d) : d.parse = some d := by
  simp only [ServiceLifecycleConstraint.parse, Option.bind_eq_bind, Option.bind_eq_some_iff,
    guard_eq_some] at h
  obtain ⟨label, hl, launch, hr, endpoint, he, -, hh, -, ht, h⟩ := h
  obtain rfl := Option.some.inj h
  have hl' : name label = some label := trimmed_of_trimmed hl
  have hr' : nullableName launch = some launch := nullableText_of_nullableText hr
  have he' : nullableName endpoint = some endpoint := nullableText_of_nullableText he
  simp [ServiceLifecycleConstraint.parse, hl', hr', he', hh, ht]

theorem ReviewerContract.parse_parse {c d : ReviewerContract} (h : c.parse = some d) :
    d.parse = some d := by
  simp only [ReviewerContract.parse, Option.bind_eq_bind, Option.bind_eq_some_iff,
    guard_eq_some] at h
  obtain ⟨standard, hs, -, ho, -, ha, h⟩ := h
  obtain rfl := Option.some.inj h
  have hs' : name standard = some standard := trimmed_of_trimmed hs
  simp [ReviewerContract.parse, hs', ho, ha]

theorem ResumeAnchor.parse_parse {a b : ResumeAnchor} (h : a.parse = some b) :
    b.parse = some b := by
  simp only [ResumeAnchor.parse, Option.bind_eq_bind, Option.bind_eq_some_iff] at h
  obtain ⟨anchor, ha, file, hf, symbol, hs, root, hr, h⟩ := h
  obtain rfl := Option.some.inj h
  have ha' : name anchor = some anchor := trimmed_of_trimmed ha
  have hf' : nullableName file = some file := nullableText_of_nullableText hf
  have hs' : nullableName symbol = some symbol := nullableText_of_nullableText hs
  have hr' : nullableName root = some root := nullableText_of_nullableText hr
  simp [ResumeAnchor.parse, ha', hf', hs', hr']

theorem ExecutionStateV1.listsFit_iff {s : ExecutionStateV1} :
    s.listsFit = true ↔ entriesFit s.ownedFiles = true ∧ entriesFit s.modifiedFiles = true ∧
      entriesFit s.pendingValidations = true ∧ entriesFit s.completedValidations = true ∧
      entriesFit s.rejectedPaths = true ∧ entriesFit s.unresolvedBlockers = true ∧
      entriesFit s.rollbackNotes = true ∧ s.serviceLifecycleConstraints.length ≤ 16 := by
  simp only [ExecutionStateV1.listsFit, Bool.and_eq_true, decide_eq_true_eq, and_assoc]

/-- A state that the schema leaves as it is. -/
structure ExecutionStateV1.Valid (datetime : String → Bool) (s : ExecutionStateV1) : Prop where
  stateId : name s.stateId = some s.stateId
  scope : name s.scope = some s.scope
  taskBrief : name s.taskBrief = some s.taskBrief
  hypothesis : nullableName s.lastAcceptedHypothesis = some s.lastAcceptedHypothesis
  constraints : s.serviceLifecycleConstraints.mapM (·.parse) = some s.serviceLifecycleConstraints
  contract : nullableRecord ReviewerContract.parse s.reviewerContract = some s.reviewerContract
  anchor : nullableRecord ResumeAnchor.parse s.resumeAnchor = some s.resumeAnchor
  lists : s.listsFit = true
  updatedAt : datetime s.updatedAt = true

variable {datetime : String → Bool} {s t : ExecutionStateV1}

theorem ExecutionStateV1.Valid.parse (h : s.Valid datetime) : s.parse datetime = some s := by
  simp [ExecutionStateV1.parse, h.stateId, h.scope, h.taskBrief, h.hypothesis, h.constraints,
    h.contract, h.anchor, h.lists, h.updatedAt]

/-- The schema changes neither the string lists nor the timestamp. -/
theorem ExecutionStateV1.parse_eq_some (h : s.parse datetime = some t) :
    t.Valid datetime ∧ name s.stateId = some t.stateId ∧ name s.scope = some t.scope ∧
      t.pendingValidations = s.pendingValidations ∧
      t.completedValidations = s.completedValidations ∧
      t.unresolvedBlockers = s.unresolvedBlockers := by
  simp only [ExecutionStateV1.parse, Option.bind_eq_bind, Option.bind_eq_some_iff,
    guard_eq_some] at h
  obtain ⟨id, hid, scope, hscope, brief, hbrief, hyp, hhyp, cs, hcs, contract, hcontract, anchor,
    hanchor, -, hlists, -, hat, h⟩ := h
  obtain rfl := Option.some.inj h
  refine ⟨?_, hid, hscope, rfl, rfl, rfl⟩
  have hself : ∀ c ∈ cs, c.parse = some c := by
    intro c hc
    obtain ⟨b, -, hb⟩ := exists_left_of_forall₂ (mapM_eq_some.1 hcs) hc
    exact ServiceLifecycleConstraint.parse_parse hb
  have hlen : cs.length = s.serviceLifecycleConstraints.length :=
    (mapM_eq_some.1 hcs).length_eq.symm
  exact {
    stateId := trimmed_of_trimmed hid
    scope := trimmed_of_trimmed hscope
    taskBrief := trimmed_of_trimmed hbrief
    hypothesis := nullableText_of_nullableText hhyp
    constraints := mapM_eq_self hself
    contract := nullableRecord_of_nullableRecord ReviewerContract.parse_parse hcontract
    anchor := nullableRecord_of_nullableRecord ResumeAnchor.parse_parse hanchor
    lists := by rw [← hlists]; simp [ExecutionStateV1.listsFit, hlen]
    updatedAt := hat }

end AionisCore.Execution
