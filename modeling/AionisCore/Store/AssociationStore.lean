import AionisCore.Lib.Journal
import AionisCore.Lib.StableSort
import AionisCore.Store.WriteTables
import Mathlib.Data.String.Basic

/-!
# Association candidates

The table of association candidates beside the tables of a memory write, and its statements.
A candidate is known by its scope, its two nodes and the kind of their relation.
-/

namespace AionisCore.Store

open Lib Lib.Table Lib.StableSort Lib.Journal Util

inductive AssociativeRelationKind where
  | sameTask
  | supports
  | extending
  | repeats
  | supersedes
  deriving DecidableEq, Repr

def AssociativeRelationKind.name : AssociativeRelationKind → String
  | .sameTask => "same_task"
  | .supports => "supports"
  | .extending => "extends"
  | .repeats => "repeats"
  | .supersedes => "supersedes"

inductive AssociativeCandidateStatus where
  | shadow
  | promoted
  | rejected
  | expired
  deriving DecidableEq, Repr

/-- The columns of the unique index on candidates. -/
structure CandidateKey where
  scope : String
  srcId : String
  dstId : String
  relationKind : AssociativeRelationKind
  deriving DecidableEq, Repr

structure UpsertAssociationCandidateArgs extends CandidateKey where
  status : AssociativeCandidateStatus
  score : ℚ
  confidence : ℚ
  featureSummary : Json.Fields
  evidence : Json.Fields
  sourceCommitId : Option String
  workerRunId : Option String
  promotedEdgeId : Option String

structure AssociationCandidateRecord extends UpsertAssociationCandidateArgs where
  id : String
  createdAt : String
  updatedAt : String

abbrev AssociationCandidateRecord.key (c : AssociationCandidateRecord) : CandidateKey :=
  c.toCandidateKey

/-- The tables, and the number of statements that have read the clock. -/
structure AssociationStore where
  tables : LiteTables
  candidates : List AssociationCandidateRecord
  candidateKeys : Unique (·.key) candidates
  ticks : Nat

/-- What the statements take from the runtime. -/
structure AssociationEnv where
  crypto : Crypto
  /-- `nowIso` at each reading of the clock. -/
  nowIso : Nat → String

/-! ## Statements -/

/-- The columns that a second upsert of a key assigns. A promoted candidate stays one under
an upsert as shadow. -/
def mergeCandidate (now : String) (a : UpsertAssociationCandidateArgs)
    (row : AssociationCandidateRecord) : AssociationCandidateRecord :=
  if row.key = a.toCandidateKey then
    { row with
      status := if row.status = .promoted ∧ a.status = .shadow then row.status else a.status
      score := a.score
      confidence := a.confidence
      featureSummary := a.featureSummary
      evidence := a.evidence
      sourceCommitId := a.sourceCommitId
      workerRunId := a.workerRunId
      promotedEdgeId := if row.status = .promoted ∧ a.status = .shadow then row.promotedEdgeId
        else a.promotedEdgeId
      updatedAt := now }
  else row

theorem mergeCandidate_key (now : String) (a : UpsertAssociationCandidateArgs)
    (row : AssociationCandidateRecord) : (mergeCandidate now a row).key = row.key := by
  unfold mergeCandidate
  split
  · rfl
  · rfl

/-- The `UPDATE` of `updateAssociationCandidateStatus` without an edge id. -/
def withStatus (now : String) (k : CandidateKey) (status : AssociativeCandidateStatus)
    (row : AssociationCandidateRecord) : AssociationCandidateRecord :=
  if row.key = k then { row with status, updatedAt := now } else row

theorem withStatus_key (now : String) (k : CandidateKey) (status : AssociativeCandidateStatus)
    (row : AssociationCandidateRecord) : (withStatus now k status row).key = row.key := by
  unfold withStatus
  split
  · rfl
  · rfl

/-- The `UPDATE` of `markAssociationCandidatePromoted`. -/
def withEdge (now : String) (k : CandidateKey) (edgeId : String)
    (row : AssociationCandidateRecord) : AssociationCandidateRecord :=
  if row.key = k then
    { row with status := .promoted, promotedEdgeId := some edgeId, updatedAt := now }
  else row

theorem withEdge_key (now : String) (k : CandidateKey) (edgeId : String)
    (row : AssociationCandidateRecord) : (withEdge now k edgeId row).key = row.key := by
  unfold withEdge
  split
  · rfl
  · rfl

/-- `ORDER BY score DESC, confidence DESC, updated_at DESC`. -/
def bestFirst : AssociationCandidateRecord → AssociationCandidateRecord → Bool :=
  StableSort.lex (fun a b => b.score ≤ a.score)
    (StableSort.lex (fun a b => b.confidence ≤ a.confidence) fun a b => b.updatedAt ≤ a.updatedAt)

/-- The stored text `s:src:dst:kind` of which the id of a candidate is made. -/
def candidateIdText (k : CandidateKey) : String :=
  s!"{k.scope}:assoc:{k.srcId}:{k.dstId}:{k.relationKind.name}"

namespace AssociationStore

variable (env : AssociationEnv) (s : AssociationStore)

/-- `listAssociationCandidatesForSource` for the status `shadow`. -/
def listShadowCandidates (scope srcId : String) (limit : Nat) : List AssociationCandidateRecord :=
  ((s.candidates.filter fun c => c.scope = scope ∧ c.srcId = srcId ∧ c.status = .shadow).mergeSort
    bestFirst).take (max 1 (min 200 limit))

def candidate? (k : CandidateKey) : Option AssociationCandidateRecord := row? (·.key) s.candidates k

/-- One candidate of `upsertAssociationCandidates`. A new one is refused if its id is taken. -/
def upsertCandidate (a : UpsertAssociationCandidateArgs) : Option AssociationStore :=
  match hkey : s.candidate? a.toCandidateKey with
  | some _ =>
    some { s with
      candidates := s.candidates.map (mergeCandidate (env.nowIso s.ticks) a)
      candidateKeys := s.candidateKeys.map (mergeCandidate_key _ a)
      ticks := s.ticks + 1 }
  | none =>
    let id := env.crypto.stableUuid (candidateIdText a.toCandidateKey)
    let now := env.nowIso s.ticks
    if s.candidates.any (·.id = id) then none
    else some { s with
      candidates := s.candidates ++ [{ a with id, createdAt := now, updatedAt := now }]
      candidateKeys := s.candidateKeys.concat fun c hc => row?_eq_none.1 hkey c hc
      ticks := s.ticks + 1 }

def updateStatus (k : CandidateKey) (status : AssociativeCandidateStatus) : AssociationStore :=
  { s with
    candidates := s.candidates.map (withStatus (env.nowIso s.ticks) k status)
    candidateKeys := s.candidateKeys.map (withStatus_key _ k status)
    ticks := s.ticks + 1 }

def markPromoted (k : CandidateKey) (edgeId : String) : AssociationStore :=
  { s with
    candidates := s.candidates.map (withEdge (env.nowIso s.ticks) k edgeId)
    candidateKeys := s.candidateKeys.map (withEdge_key _ k edgeId)
    ticks := s.ticks + 1 }

def upsertEdge (a : WriteEdgeUpsertArgs) : Option AssociationStore :=
  (s.tables.upsertEdge (env.nowIso s.ticks) a).map fun tables =>
    { s with tables, ticks := s.ticks + 1 }

end AssociationStore

/-! ## The statements as programs -/

section Programs

variable (env : AssociationEnv)

def listAssociationCandidatesForSource (scope srcId : String) (limit : Nat) :
    Program AssociationStore (List AssociationCandidateRecord) :=
  Program.read fun s => s.listShadowCandidates scope srcId limit

def upsertAssociationCandidates (args : List UpsertAssociationCandidateArgs) :
    Program AssociationStore Unit :=
  args.forM fun a => Program.write fun s => s.upsertCandidate env a

def updateAssociationCandidateStatus (k : CandidateKey) (status : AssociativeCandidateStatus) :
    Program AssociationStore Unit :=
  Program.write fun s => some (s.updateStatus env k status)

def markAssociationCandidatePromoted (k : CandidateKey) (promotedEdgeId : String) :
    Program AssociationStore Unit :=
  Program.write fun s => some (s.markPromoted env k promotedEdgeId)

def upsertEdge (a : WriteEdgeUpsertArgs) : Program AssociationStore Unit :=
  Program.write fun s => s.upsertEdge env a

end Programs

end AionisCore.Store
