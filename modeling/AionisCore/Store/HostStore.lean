import AionisCore.Lib.Query
import AionisCore.Memory.SandboxShared

/-!
# The Lite host store

The table of sandbox runs behind one connection. `withTx` opens a transaction unless one is
open, and otherwise runs its body inside the open one; whoever opened it ends it, and a
rollback puts back the rows as they were when it began.
-/

namespace AionisCore.Store

open Lib Lib.Table Memory

structure LiteHostStore where
  runs : List SandboxRunRow := []
  /-- The rows at the beginning of the open transaction. -/
  tx : Option (List SandboxRunRow) := none

namespace LiteHostStore

variable {s : LiteHostStore} {id k : String} {now : Int} {row : SandboxRunRow}

def run? (s : LiteHostStore) (id : String) : Option SandboxRunRow := row? (·.id) s.runs id

/-! ## Transactions -/

/-- `withTx` up to its body, and whether it opened the transaction. -/
def beginTx (s : LiteHostStore) : LiteHostStore × Bool :=
  match s.tx with
  | none => ({ s with tx := some s.runs }, true)
  | some _ => (s, false)

def commit (s : LiteHostStore) : LiteHostStore := { s with tx := none }

def rollback (s : LiteHostStore) : LiteHostStore := { runs := s.tx.getD s.runs, tx := none }

/-- `withTx` after its body: who opened the transaction ends it. -/
def endTx (s : LiteHostStore) (opened returned : Bool) : LiteHostStore :=
  if !opened then s else if returned then s.commit else s.rollback

/-! ## Statements -/

def updateRun (s : LiteHostStore) (id : String) (p : SandboxRunRow → Bool)
    (f : SandboxRunRow → SandboxRunRow) : LiteHostStore :=
  { s with runs := Table.update (·.id) id p f s.runs }

/-- The insertion fails on the id of another run. -/
def insertRun (s : LiteHostStore) (row : SandboxRunRow) (now : Int) : Option LiteHostStore :=
  if (s.run? row.id).isSome then none
  else some { s with runs := s.runs ++ [{
    id := row.id
    tenantId := row.tenantId
    scope := row.scope
    argv := row.argv
    updatedAt := now }] }

/-- `requestCancel`, and the status it reads back. -/
def requestCancel (s : LiteHostStore) (id tenantId scope : String) (reason : Option String)
    (now : Int) : LiteHostStore × Option SandboxRunStatus :=
  let owned := fun row : SandboxRunRow => row.tenantId == tenantId && row.scope == scope
  let s' := s.updateRun id owned (·.setCancelRequested reason now)
  (s', ((s'.run? id).filter owned).map (·.status))

/-- `cancelQueuedRun`, and whether it changed a row. -/
def cancelQueuedRun (s : LiteHostStore) (id : String) (now : Int) : LiteHostStore × Bool :=
  (s.updateRun id (·.status == .queued) (·.setCanceled now),
   ((s.run? id).filter (·.status == .queued)).isSome)

def touchRunningRun (s : LiteHostStore) (id : String) (now : Int) : LiteHostStore :=
  s.updateRun id (·.status == .running) fun row => { row with updatedAt := now }

def listStaleRunningRuns (s : LiteHostStore) (staleAfterSeconds limit now : Int) :
    List SandboxRunRow :=
  let cutoff := now - max 1 staleAfterSeconds * 1000
  let stale := s.runs.filter fun row => row.status == .running && decide (row.updatedAt < cutoff)
  (Query.orderByDesc (fun row => - row.updatedAt) stale).take (max 1 limit).toNat

def getRunningRun (s : LiteHostStore) (id : String) : Option SandboxRunRow :=
  (s.run? id).filter (·.status == .running)

/-- `claimQueuedRun`: the row as claimed, if it was queued. -/
def claimQueuedRun (s : LiteHostStore) (id : String) (now : Int) :
    LiteHostStore × Option SandboxRunRow :=
  let s' := s.updateRun id (·.status == .queued) (·.setRunning now)
  (s', if ((s.run? id).filter (·.status == .queued)).isSome then s'.getRunningRun id else none)

def finalizeSandboxRun (s : LiteHostStore) (id : String) (out : RunOutcome)
    (onlyIfRunning : Bool) (now : Int) : LiteHostStore :=
  s.updateRun id (fun row => !onlyIfRunning || row.status == .running) (·.setOutcome out now)

def finalizeRun (s : LiteHostStore) (id : String) (out : RunOutcome) (now : Int) :
    LiteHostStore := s.finalizeSandboxRun id out false now

def finalizeRunningRun (s : LiteHostStore) (id : String) (out : RunOutcome) (now : Int) :
    LiteHostStore := s.finalizeSandboxRun id out true now

/-! ## What the statements do to a row -/

variable {p : SandboxRunRow → Bool} {f : SandboxRunRow → SandboxRunRow}

theorem id_of_run? (h : s.run? id = some row) : row.id = id := (mem_of_row? h).2

theorem run?_updateRun {p : SandboxRunRow → Bool} {f : SandboxRunRow → SandboxRunRow}
    (hf : ∀ row, (f row).id = row.id) :
    (s.updateRun id p f).run? k =
      (s.run? k).map fun row => if k = id ∧ p row then f row else row :=
  row?_update hf k

theorem getRunningRun_eq_some :
    s.getRunningRun id = some row ↔ s.run? id = some row ∧ row.status = .running := by
  unfold getRunningRun
  rw [Option.filter_eq_some_iff, beq_iff_eq]

@[simp] theorem runs_beginTx : s.beginTx.1.runs = s.runs := by
  unfold beginTx
  split <;> rfl

@[simp] theorem run?_beginTx : s.beginTx.1.run? k = s.run? k := by
  unfold run?
  rw [runs_beginTx]

theorem run?_endTx {opened returned : Bool}
    (h : opened = true → returned = false → s.rollback.run? k = s.run? k) :
    (s.endTx opened returned).run? k = s.run? k := by
  unfold endTx
  cases opened with
  | false => rfl
  | true =>
    cases returned with
    | true => rfl
    | false => exact h rfl rfl

theorem run?_insertRun {s' : LiteHostStore} (h : s.insertRun row now = some s') :
    s.run? row.id = none ∧ s'.run? k = (s.run? k).or (if row.id = k then some {
      id := row.id
      tenantId := row.tenantId
      scope := row.scope
      argv := row.argv
      updatedAt := now } else none) := by
  unfold insertRun at h
  split at h
  · cases h
  · next hfree =>
    obtain rfl := Option.some.inj h
    exact ⟨Option.not_isSome_iff_eq_none.1 hfree, row?_concat k⟩

theorem run?_updateRun_of_ne (hf : ∀ row, (f row).id = row.id) (hne : k ≠ id) :
    (s.updateRun id p f).run? k = s.run? k :=
  row?_update_of_ne hf hne

theorem run?_updateRun_of_not (hf : ∀ row, (f row).id = row.id)
    (hp : ∀ row, s.run? id = some row → p row = false) :
    (s.updateRun id p f).run? k = s.run? k := by
  by_cases hk : k = id
  · subst hk
    rw [run?_updateRun hf]
    cases hrow : s.run? k with
    | none => rfl
    | some row => simp [hp row hrow]
  · exact run?_updateRun_of_ne hf hk

theorem run?_updateRun_self (hf : ∀ row, (f row).id = row.id) (hrow : s.run? id = some row)
    (hp : p row) : (s.updateRun id p f).run? id = some (f row) := by
  rw [run?_updateRun hf, hrow, Option.map_some, if_pos ⟨rfl, hp⟩]

/-- A claim takes a queued run, or changes nothing. -/
theorem claimQueuedRun_cases (s : LiteHostStore) (id : String) (now : Int) :
    (∃ row, s.run? id = some row ∧ row.status = .queued ∧
      (s.claimQueuedRun id now).2 = some (row.setRunning now) ∧
      (s.claimQueuedRun id now).1.run? id = some (row.setRunning now)) ∨
    (s.claimQueuedRun id now).2 = none ∧
      ∀ k, (s.claimQueuedRun id now).1.run? k = s.run? k := by
  have hset : ∀ row : SandboxRunRow, (row.setRunning now).id = row.id := fun _ => rfl
  unfold claimQueuedRun
  dsimp only
  cases hfound : (s.run? id).filter (·.status == .queued) with
  | some row =>
    obtain ⟨hrow, hqueued⟩ := Option.filter_eq_some_iff.1 hfound
    have hclaimed := run?_updateRun_self (p := (·.status == .queued)) hset hrow hqueued
    refine .inl ⟨row, hrow, beq_iff_eq.1 hqueued, ?_, hclaimed⟩
    rw [if_pos Option.isSome_some, getRunningRun_eq_some]
    exact ⟨hclaimed, rfl⟩
  | none =>
    refine .inr ⟨if_neg (by simp), fun k => run?_updateRun_of_not hset fun row hrow => ?_⟩
    rw [Option.filter_eq_none_iff] at hfound
    exact Bool.eq_false_iff.2 (hfound row hrow)

theorem run?_finalizeRun {out : RunOutcome} :
    (s.finalizeRun id out now).run? k = (s.run? k).map fun row =>
      if k = id then row.setOutcome out now else row := by
  unfold finalizeRun finalizeSandboxRun
  rw [run?_updateRun (f := (·.setOutcome out now)) fun _ => rfl]
  simp only [Bool.not_false, Bool.true_or, and_true]

theorem run?_claimQueuedRun_of_ne (hne : k ≠ id) :
    (s.claimQueuedRun id now).1.run? k = s.run? k :=
  run?_updateRun_of_ne (f := (·.setRunning now)) (fun _ => rfl) hne

end LiteHostStore

end AionisCore.Store
