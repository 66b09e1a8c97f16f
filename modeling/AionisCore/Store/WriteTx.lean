import AionisCore.Lib.Run
import Mathlib.Logic.Function.Basic

/-!
# Transactions on the shared connection

All requests of the Lite write store share one SQLite connection and one
counter `txDepth`. `withTx` opens a transaction when the counter is zero and
otherwise runs its body inside the transaction that is already open; the
request that opened it decides between `COMMIT` and `ROLLBACK`. A request is
its sequence of writes and how it ends, and between any two of its steps any
other request may run.
-/

namespace AionisCore.Store

open Lib

/-- How a body settles. -/
inductive Outcome where
  | returns
  | throws
  deriving DecidableEq, Repr

/-- The body passed to `withTx`. -/
structure TxBody (W : Type) where
  writes : List W
  outcome : Outcome

/-- The `index`-th write of a request. -/
structure Entry (ι W : Type) where
  request : ι
  index : Nat
  write : W
  deriving DecidableEq, Repr

/-- The connection: what is durable, and the writes of the open transaction. -/
structure Conn (ι W : Type) where
  committed : List (Entry ι W) := []
  pending : Option (List (Entry ι W)) := none

namespace Conn

variable {ι W : Type}

/-- `BEGIN IMMEDIATE` fails within a transaction. -/
def beginImmediate (c : Conn ι W) : Option (Conn ι W) :=
  match c.pending with
  | some _ => none
  | none => some { c with pending := some [] }

/-- A statement outside a transaction commits by itself. -/
def exec (c : Conn ι W) (e : Entry ι W) : Conn ι W :=
  match c.pending with
  | some p => { c with pending := some (p ++ [e]) }
  | none => { c with committed := c.committed ++ [e] }

/-- `COMMIT` fails outside a transaction. -/
def commit (c : Conn ι W) : Option (Conn ι W) :=
  c.pending.map fun p => { committed := c.committed ++ p, pending := none }

/-- `ROLLBACK` fails outside a transaction. -/
def rollback (c : Conn ι W) : Option (Conn ι W) :=
  c.pending.map fun _ => { c with pending := none }

/-- The connection once the open transaction with the writes `p` has ended. -/
def ended (c : Conn ι W) (p : List (Entry ι W)) : Outcome → Conn ι W
  | .returns => { committed := c.committed ++ p, pending := none }
  | .throws => { c with pending := none }

theorem exec_pending (c : Conn ι W) (e : Entry ι W) :
    (c.exec e).pending = c.pending.map (· ++ [e]) := by
  unfold exec
  split <;> simp [*]

@[simp] theorem ended_pending (c : Conn ι W) (p : List (Entry ι W)) (o : Outcome) :
    (c.ended p o).pending = none := by
  cases o <;> rfl

/-- The writes of the open transaction. -/
def uncommitted (c : Conn ι W) : List (Entry ι W) := c.pending.getD []

variable {c : Conn ι W}

theorem mem_exec_committed {e f : Entry ι W} :
    e ∈ (c.exec f).committed ↔ e ∈ c.committed ∨ c.pending = none ∧ e = f := by
  unfold exec
  split <;> simp [*]

theorem mem_exec_uncommitted {e f : Entry ι W} :
    e ∈ (c.exec f).uncommitted ↔ e ∈ c.uncommitted ∨ c.pending ≠ none ∧ e = f := by
  unfold uncommitted exec
  split <;> simp [*]

theorem mem_ended_committed {p : List (Entry ι W)} {o : Outcome} {e : Entry ι W} :
    e ∈ (c.ended p o).committed ↔ e ∈ c.committed ∨ o = .returns ∧ e ∈ p := by
  cases o <;> simp [ended]

end Conn

/-- Where a request stands: `opener` tells whether its `withTx` opened the transaction. -/
inductive Phase where
  | idle
  | running (opener : Bool) (done : Nat)
  | settled
  deriving DecidableEq, Repr

/-- Whether a request has done its `k`-th write. -/
def Phase.Reached : Phase → Nat → Prop
  | .idle, _ => False
  | .running _ done, k => k < done
  | .settled, _ => True

structure TxState (ι W : Type) where
  conn : Conn ι W := {}
  txDepth : Nat := 0
  phase : ι → Phase := fun _ => .idle

namespace TxState

variable {ι W : Type}

/-- The `withTx` of `o` opened a transaction and has not ended it. -/
def Opens (s : TxState ι W) (o : ι) : Prop := ∃ k, s.phase o = .running true k

/-- No transaction is open. -/
structure NoTx (s : TxState ι W) : Prop where
  depth : s.txDepth = 0
  pending : s.conn.pending = none
  opens : ∀ i, ¬ s.Opens i

/-- The open transaction belongs to `o` alone. -/
structure TxOf (s : TxState ι W) (o : ι) : Prop where
  depth : s.txDepth = 1
  pending : ∃ p, s.conn.pending = some p
  opens : ∀ i, s.Opens i ↔ i = o

/-- The counter, the connection and the phases tell the same story. -/
def Coherent (s : TxState ι W) : Prop := s.NoTx ∨ ∃ o, s.TxOf o

theorem Coherent.init : ({} : TxState ι W).Coherent :=
  .inl ⟨rfl, rfl, fun i => by simp [Opens]⟩

theorem Coherent.of_same {s s' : TxState ι W} (hc : s.Coherent)
    (hd : s'.txDepth = s.txDepth) (hp : s'.conn.pending.isSome = s.conn.pending.isSome)
    (ho : ∀ o, s'.Opens o ↔ s.Opens o) : s'.Coherent := by
  rcases hc with h | ⟨o, h⟩
  · refine .inl ⟨hd ▸ h.depth, ?_, fun i hi => h.opens i ((ho i).1 hi)⟩
    simpa [h.pending] using hp
  · obtain ⟨p, hpend⟩ := h.pending
    refine .inr ⟨o, hd ▸ h.depth, ?_, fun i => (ho i).trans (h.opens i)⟩
    rwa [hpend, Option.isSome_some, Option.isSome_iff_exists] at hp

end TxState

section Step

variable {ι W : Type} [DecidableEq ι] (body : ι → TxBody W)

def TxState.setPhase (s : TxState ι W) (i : ι) (p : Phase) : TxState ι W :=
  { s with phase := Function.update s.phase i p }

@[simp] theorem setPhase_txDepth (s : TxState ι W) (i : ι) (p : Phase) :
    (s.setPhase i p).txDepth = s.txDepth := rfl

@[simp] theorem setPhase_conn (s : TxState ι W) (i : ι) (p : Phase) :
    (s.setPhase i p).conn = s.conn := rfl

/-- The end of the call that opened the transaction. -/
def closeTx (s : TxState ι W) (i : ι) : Option (TxState ι W) :=
  let closed := match (body i).outcome with
    | .returns => s.conn.commit
    | .throws => s.conn.rollback
  closed.map fun conn => { s with conn, txDepth := s.txDepth - 1 }

/-- `withTx` of request `i` up to its next suspension; a settled request takes no step. -/
def withTxStep (s : TxState ι W) (i : ι) : Option (TxState ι W) :=
  match s.phase i with
  | .idle =>
    if 0 < s.txDepth then some (s.setPhase i (.running false 0))
    else s.conn.beginImmediate.map fun conn =>
      { s with conn, txDepth := s.txDepth + 1 }.setPhase i (.running true 0)
  | .running opener k =>
    match (body i).writes[k]? with
    | some w => some ({ s with conn := s.conn.exec ⟨i, k, w⟩ }.setPhase i (.running opener (k + 1)))
    | none =>
      if opener then (closeTx body s i).map (·.setPhase i .settled)
      else some (s.setPhase i .settled)
  | .settled => none

/-- The steps of a request. -/
inductive TxStep (s : TxState ι W) (i : ι) : TxState ι W → Prop where
  /-- A call that finds a transaction open joins it. -/
  | join : s.phase i = .idle → 0 < s.txDepth → TxStep s i (s.setPhase i (.running false 0))
  | opens : s.phase i = .idle → s.txDepth = 0 → s.conn.pending = none →
      TxStep s i ({ s with conn := { s.conn with pending := some [] },
                           txDepth := s.txDepth + 1 }.setPhase i (.running true 0))
  | write (b : Bool) (k : Nat) (w : W) : s.phase i = .running b k →
      (body i).writes[k]? = some w →
      TxStep s i ({ s with conn := s.conn.exec ⟨i, k, w⟩ }.setPhase i (.running b (k + 1)))
  | leave (k : Nat) : s.phase i = .running false k → (body i).writes[k]? = none →
      TxStep s i (s.setPhase i .settled)
  | close (k : Nat) (p : List (Entry ι W)) : s.phase i = .running true k →
      (body i).writes[k]? = none → s.conn.pending = some p →
      TxStep s i ({ s with conn := s.conn.ended p (body i).outcome,
                           txDepth := s.txDepth - 1 }.setPhase i .settled)

variable {body}
variable {s s' : TxState ι W} {i j : ι} {k : Nat}

theorem txStep_of_closeTx (hp : s.phase i = .running true k) (hk : (body i).writes[k]? = none)
    (h : (closeTx body s i).map (·.setPhase i .settled) = some s') : TxStep body s i s' := by
  cases hpend : s.conn.pending with
  | none =>
    cases ho : (body i).outcome <;>
      simp [closeTx, ho, Conn.commit, Conn.rollback, hpend] at h
  | some p =>
    have hc := TxStep.close k p hp hk hpend
    cases ho : (body i).outcome <;>
      simp only [closeTx, ho, Conn.commit, Conn.rollback, hpend, Option.map_some,
        Option.some.injEq] at h <;>
      exact h ▸ (ho ▸ hc :)

theorem txStep_of_withTxStep (h : withTxStep body s i = some s') : TxStep body s i s' := by
  unfold withTxStep at h
  split at h
  · next hp =>
    split at h
    · next hd => exact Option.some.inj h ▸ .join hp hd
    · next hd =>
      cases hpend : s.conn.pending with
      | none =>
        simp only [Conn.beginImmediate, hpend, Option.map_some, Option.some.injEq] at h
        exact h ▸ .opens hp (by omega) hpend
      | some p => simp [Conn.beginImmediate, hpend] at h
  · next b k hp =>
    split at h
    · next w hw => exact Option.some.inj h ▸ .write b k w hp hw
    · next hw =>
      split at h
      · next hb => exact txStep_of_closeTx (hb ▸ hp) hw h
      · next hb =>
        rw [Bool.not_eq_true] at hb
        exact Option.some.inj h ▸ .leave k (hb ▸ hp) hw
  · cases h

/-! ## Coherence along a run -/

theorem opens_setPhase {o : ι} {p : Phase} :
    (s.setPhase i p).Opens o ↔ if o = i then ∃ k, p = .running true k else s.Opens o := by
  unfold TxState.Opens TxState.setPhase
  by_cases h : o = i <;> simp [h]

theorem opens_setPhase_of_not {p : Phase} (hi : ¬ s.Opens i) (hp : ∀ k, p ≠ .running true k)
    (o : ι) : (s.setPhase i p).Opens o ↔ s.Opens o := by
  rw [opens_setPhase]
  split
  · next h => subst h; simp [hi, hp]
  · rfl

theorem opens_of_write {b : Bool} (hp : s.phase i = .running b k) (o : ι) :
    (s.setPhase i (.running b (k + 1))).Opens o ↔ s.Opens o := by
  rw [opens_setPhase]
  split
  · next h => subst h; simp [TxState.Opens, hp]
  · rfl

theorem TxState.Coherent.step (s : TxState ι W) (i : ι) (s' : TxState ι W) (hc : s.Coherent)
    (h : withTxStep body s i = some s') : s'.Coherent := by
  cases txStep_of_withTxStep h with
  | join hp hd =>
    refine hc.of_same rfl rfl (opens_setPhase_of_not ?_ (by simp))
    simp [TxState.Opens, hp]
  | opens hp hd hpend =>
    have hno : ∀ o, ¬ s.Opens o := by
      rcases hc with h | ⟨o, h⟩
      · exact h.opens
      · exact absurd hd (by simp [h.depth])
    refine .inr ⟨i, congrArg (· + 1) hd, ⟨[], rfl⟩, fun o => ?_⟩
    rw [opens_setPhase]
    split
    · next ho => simp [ho]
    · next ho => exact iff_of_false (hno o) ho
  | write b k w hp hw =>
    refine hc.of_same rfl ?_ (opens_of_write hp)
    simp [Conn.exec_pending]
  | leave k hp hk =>
    refine hc.of_same rfl rfl (opens_setPhase_of_not ?_ (by simp))
    simp [TxState.Opens, hp]
  | close k p hp hk hpend =>
    rcases hc with h | ⟨o, h⟩
    · exact absurd ⟨k, hp⟩ (h.opens i)
    · obtain rfl := (h.opens i).1 ⟨k, hp⟩
      refine .inl ⟨by simp [h.depth], Conn.ended_pending .., fun o ho => ?_⟩
      rw [opens_setPhase] at ho
      split at ho
      · simp at ho
      · next hne => exact hne ((h.opens o).1 ho)

/-! ## The fate of a write -/

theorem reached_setPhase {p : Phase} (hp : (s.phase i).Reached k → p.Reached k)
    (h : (s.phase j).Reached k) : ((s.setPhase i p).phase j).Reached k := by
  unfold TxState.setPhase
  by_cases hj : j = i
  · subst hj; simpa using hp h
  · simpa [hj] using h

theorem reached_step (h : withTxStep body s i = some s') (hr : (s.phase j).Reached k) :
    (s'.phase j).Reached k := by
  cases txStep_of_withTxStep h with
  | join hp hd => exact reached_setPhase (fun h => by simp [hp, Phase.Reached] at h) hr
  | opens hp hd hpend =>
    exact reached_setPhase (s := { s with .. }) (fun h => by simp [hp, Phase.Reached] at h) hr
  | write b d w hp hw =>
    exact reached_setPhase (s := { s with .. })
      (fun h => by simp only [hp, Phase.Reached] at h ⊢; omega) hr
  | leave d hp hd => exact reached_setPhase (fun _ => trivial) hr
  | close d p hp hd hpend => exact reached_setPhase (s := { s with .. }) (fun _ => trivial) hr

variable (body) in
/-- The write `e` is done, and it will be durable once its transaction has ended iff `D` holds. -/
def Destined (e : Entry ι W) (D : Prop) (s : TxState ι W) : Prop :=
  (s.phase e.request).Reached e.index ∧
    ((∃ o, s.Opens o ∧ e ∈ s.conn.uncommitted ∧ e ∉ s.conn.committed ∧
        ((body o).outcome = .returns ↔ D)) ∨
      e ∉ s.conn.uncommitted ∧ (e ∈ s.conn.committed ↔ D))

theorem Destined.step {e : Entry ι W} {D : Prop} (s : TxState ι W) (i : ι) (s' : TxState ι W)
    (hs : s.Coherent ∧ Destined body e D s) (h : withTxStep body s i = some s') :
    s'.Coherent ∧ Destined body e D s' := by
  obtain ⟨hc, hreach, hd⟩ := hs
  refine ⟨hc.step s i s' h, reached_step h hreach, ?_⟩
  cases txStep_of_withTxStep h with
  | join hp _ =>
    have hop : ∀ o, (s.setPhase i (.running false 0)).Opens o ↔ s.Opens o :=
      opens_setPhase_of_not (by simp [TxState.Opens, hp]) (by simp)
    simpa only [hop, setPhase_conn] using hd
  | opens hp h0 hpend =>
    rcases hd with ⟨o, _, hm, _⟩ | ⟨_, hm⟩
    · simp [Conn.uncommitted, hpend] at hm
    · exact .inr ⟨by simp [Conn.uncommitted], hm⟩
  | write b k w hp hw =>
    have hne : e ≠ ⟨i, k, w⟩ := by
      rintro rfl
      simp [hp, Phase.Reached] at hreach
    simpa only [TxState.Opens, TxState.setPhase, Conn.mem_exec_uncommitted,
      Conn.mem_exec_committed, hne, and_false, or_false] using hd.imp_left
      fun ⟨o, ho, h⟩ => ⟨o, (opens_of_write hp o).2 ho, h⟩
  | leave k hp _ =>
    have hop : ∀ o, (s.setPhase i .settled).Opens o ↔ s.Opens o :=
      opens_setPhase_of_not (by simp [TxState.Opens, hp]) (by simp)
    simpa only [hop, setPhase_conn] using hd
  | close k p hp _ hpend =>
    refine .inr ⟨by simp [Conn.uncommitted], ?_⟩
    have hp' : s.conn.uncommitted = p := by simp [Conn.uncommitted, hpend]
    show e ∈ (s.conn.ended p (body i).outcome).committed ↔ D
    rw [Conn.mem_ended_committed]
    rcases hd with ⟨o, ho, hm, hnc, hD⟩ | ⟨hm, hD⟩
    · have hio : i = o := by
        rcases hc with h | ⟨o', h⟩
        · exact absurd ho (h.opens o)
        · rw [(h.opens i).1 ⟨k, hp⟩, (h.opens o).1 ho]
      subst hio
      simpa [hnc, hp' ▸ hm] using hD
    · simpa [hp' ▸ hm] using hD

variable (body) in
/-- Every entry of the database, durable or not, is a write its request has done. -/
def Recorded (s : TxState ι W) : Prop :=
  ∀ e, e ∈ s.conn.committed ∨ e ∈ s.conn.uncommitted →
    (s.phase e.request).Reached e.index ∧ (body e.request).writes[e.index]? = some e.write

theorem Recorded.step (s : TxState ι W) (i : ι) (s' : TxState ι W)
    (hs : Recorded body s) (h : withTxStep body s i = some s') : Recorded body s' := by
  have old : ∀ e, e ∈ s.conn.committed ∨ e ∈ s.conn.uncommitted →
      (s'.phase e.request).Reached e.index ∧ (body e.request).writes[e.index]? = some e.write :=
    fun e he => ⟨reached_step h (hs e he).1, (hs e he).2⟩
  intro e he
  cases txStep_of_withTxStep h with
  | join hp _ => exact old e he
  | opens hp h0 hpend =>
    rcases he with he | he
    · exact old e (.inl he)
    · simp [Conn.uncommitted] at he
  | write b k w hp hw =>
    by_cases hne : e = ⟨i, k, w⟩
    · subst hne
      exact ⟨by simp [TxState.setPhase, Phase.Reached], hw⟩
    · simp only [setPhase_conn, Conn.mem_exec_committed, Conn.mem_exec_uncommitted, hne,
        and_false, or_false] at he
      exact old e he
  | leave k hp _ => exact old e he
  | close k p hp _ hpend =>
    rcases he with he | he
    · rcases Conn.mem_ended_committed.1 he with he | ⟨_, he⟩
      · exact old e (.inl he)
      · exact old e (.inr (by simpa [Conn.uncommitted, hpend] using he))
    · simp [Conn.uncommitted] at he

/-- A new write is durable unless a transaction is open whose opener throws. -/
theorem destined_of_write {b : Bool} {w : W} (hc : s.Coherent) (hr : Recorded body s)
    (hp : s.phase i = .running b k) (hw : (body i).writes[k]? = some w)
    (h : withTxStep body s i = some s') :
    Destined body ⟨i, k, w⟩ (∀ o, s.Opens o → (body o).outcome = .returns) s' := by
  have hs' : s' = { s with conn := s.conn.exec ⟨i, k, w⟩ }.setPhase i (.running b (k + 1)) := by
    simpa [withTxStep, hp, hw, eq_comm] using h
  have hnot : ¬ (s.phase i).Reached k := by simp [hp, Phase.Reached]
  have hcom : (⟨i, k, w⟩ : Entry ι W) ∉ s.conn.committed := fun hm => hnot (hr _ (.inl hm)).1
  have hunc : (⟨i, k, w⟩ : Entry ι W) ∉ s.conn.uncommitted := fun hm => hnot (hr _ (.inr hm)).1
  subst hs'
  refine ⟨by simp [TxState.setPhase, Phase.Reached], ?_⟩
  simp only [setPhase_conn, Conn.mem_exec_committed, Conn.mem_exec_uncommitted,
    hcom, hunc, false_or, and_true]
  rcases hc with hn | ⟨o, ho⟩
  · exact .inr ⟨by simp [hn.pending], iff_of_true hn.pending fun o h => absurd h (hn.opens o)⟩
  · obtain ⟨p, hpend⟩ := ho.pending
    refine .inl ⟨o, (opens_of_write hp o).2 ((ho.opens o).2 rfl), by simp [hpend],
      by simp [hpend], ?_⟩
    simp only [ho.opens, forall_eq]

/-! ## All or nothing -/

def TxState.AllSettled (s : TxState ι W) : Prop := ∀ i, s.phase i = .settled

omit [DecidableEq ι] in
theorem Destined.committed_iff {e : Entry ι W} {D : Prop} (h : Destined body e D s)
    (hset : s.AllSettled) : e ∈ s.conn.committed ↔ D := by
  rcases h.2 with ⟨o, ⟨k, hk⟩, _⟩ | ⟨_, h⟩
  · rw [hset o] at hk; cases hk
  · exact h

variable (body) in
/-- The database holds every write of the calls that returned and no write of those that threw. -/
structure AllOrNothing (s : TxState ι W) : Prop where
  kept : ∀ i, (body i).outcome = .returns → ∀ k w, (body i).writes[k]? = some w →
    ⟨i, k, w⟩ ∈ s.conn.committed
  dropped : ∀ e ∈ s.conn.committed, (body e.request).outcome ≠ .throws

variable (body) in
/-- If the next step of `i` is a write, then `i` returns exactly when the opener of the open
transaction does; with none open it returns. -/
def WriteFits (s : TxState ι W) (i : ι) : Prop :=
  ∀ b k w, s.phase i = .running b k → (body i).writes[k]? = some w →
    ((body i).outcome = .returns ↔ ∀ o, s.Opens o → (body o).outcome = .returns)

theorem writes_of_reached {w : W} (hw : (body j).writes[k]? = some w)
    (h : withTxStep body s i = some s') (hs : ¬ (s.phase j).Reached k)
    (hs' : (s'.phase j).Reached k) : i = j ∧ ∃ b, s.phase j = .running b k := by
  have hij : i = j := by
    by_contra hne
    have hsame : ∀ p, (s.setPhase i p).phase j = s.phase j := fun p => by
      simp [TxState.setPhase, Ne.symm hne]
    refine hs ?_
    cases txStep_of_withTxStep h with
    | join | leave => rwa [hsame] at hs'
    | opens | write | close => simpa [TxState.setPhase, Ne.symm hne] using hs'
  subst hij
  refine ⟨rfl, ?_⟩
  have hlast : ∀ d, (body i).writes[d]? = none → k < d := by
    intro d hd
    by_contra hlt
    rw [List.getElem?_eq_none_iff] at hd
    rw [List.getElem?_eq_none (by omega)] at hw
    cases hw
  cases txStep_of_withTxStep h with
  | join | opens => simp [TxState.setPhase, Phase.Reached] at hs'
  | write b d v hp hv =>
    simp only [TxState.setPhase, Function.update_self, hp, Phase.Reached] at hs hs'
    exact ⟨b, by rw [hp, show d = k by omega]⟩
  | leave d hp hd | close d p hp hd hpend =>
    simp only [hp, Phase.Reached] at hs
    exact absurd (hlast d hd) hs

theorem run_wellFormed {sched : List ι} (h : run (withTxStep body) {} sched = some s) :
    s.Coherent ∧ Recorded body s :=
  run_invariant (P := fun s => s.Coherent ∧ Recorded body s)
    (fun s i s' hs h => ⟨hs.1.step s i s' h, hs.2.step s i s' h⟩)
    ⟨.init, fun e he => by simp [Conn.uncommitted] at he⟩ h

/-- Where a write is done decides whether it is durable in the end. -/
theorem committed_iff_of_write {u t : TxState ι W} {b : Bool} {w : W} {pre post : List ι}
    (hpre : run (withTxStep body) {} pre = some s) (hp : s.phase i = .running b k)
    (hw : (body i).writes[k]? = some w) (hu : withTxStep body s i = some u)
    (hpost : run (withTxStep body) u post = some t) (hset : t.AllSettled) :
    ⟨i, k, w⟩ ∈ t.conn.committed ↔ ∀ o, s.Opens o → (body o).outcome = .returns := by
  obtain ⟨hc, hr⟩ := run_wellFormed hpre
  have hd := run_invariant Destined.step
    ⟨hc.step s i u hu, destined_of_write hc hr hp hw hu⟩ hpost
  exact hd.2.committed_iff hset

/-- When all calls have settled, the database is all-or-nothing exactly when every write was
done outside a transaction by a call that returns, or in a transaction whose opener ends as the
writer does. -/
theorem withTx_allOrNothing_iff {t : TxState ι W} {sched : List ι}
    (hrun : run (withTxStep body) {} sched = some t) (hset : t.AllSettled) :
    AllOrNothing body t ↔ ∀ pre i post s, sched = pre ++ i :: post →
      run (withTxStep body) {} pre = some s → WriteFits body s i := by
  constructor
  · rintro hall pre i post s rfl hpre b k w hp hw
    obtain ⟨s', hs', hrest⟩ := run_append.1 hrun
    obtain rfl := Option.some.inj (hpre.symm.trans hs')
    obtain ⟨u, hu, hpost⟩ := run_cons.1 hrest
    rw [← committed_iff_of_write hpre hp hw hu hpost hset]
    constructor
    · exact fun ho => hall.kept i ho k w hw
    · intro hm
      cases ho : (body i).outcome with
      | returns => rfl
      | throws => exact absurd ho (hall.dropped _ hm)
  · intro hfit
    -- every write was done at some step, and that step fits
    have hiff : ∀ i k w, (body i).writes[k]? = some w →
        (⟨i, k, w⟩ ∈ t.conn.committed ↔ (body i).outcome = .returns) := by
      intro i k w hw
      obtain ⟨pre, j, post, s, u, rfl, hpre, hs, hu, hv, hpost⟩ :=
        run_switch (P := fun s : TxState ι W => (s.phase i).Reached k)
          (by simp [Phase.Reached]) hrun (by simp [hset i, Phase.Reached])
      obtain ⟨rfl, b, hp⟩ := writes_of_reached hw hu hs hv
      rw [committed_iff_of_write hpre hp hw hu hpost hset]
      exact (hfit pre j post s rfl hpre b k w hp hw).symm
    refine ⟨fun i ho k w hw => (hiff i k w hw).2 ho, fun e he ho => ?_⟩
    have hrec := (run_wellFormed hrun).2 e (.inl he)
    have hret := (hiff e.request e.index e.write hrec.2).1 he
    rw [ho] at hret
    cases hret

theorem withTxStep_isSome (hc : s.Coherent) (hp : s.phase i ≠ .settled) :
    (withTxStep body s i).isSome := by
  unfold withTxStep
  split
  · split
    · rfl
    · next hd =>
      rcases hc with h | ⟨o, h⟩
      · simp [Conn.beginImmediate, h.pending]
      · simp [h.depth] at hd
  · next b k hrun =>
    split
    · rfl
    · split
      · next hb =>
        rcases hc with h | ⟨o, h⟩
        · exact absurd ⟨k, hb ▸ hrun⟩ (h.opens i)
        · obtain ⟨p, hpend⟩ := h.pending
          cases ho : (body i).outcome <;>
            simp [closeTx, ho, Conn.commit, Conn.rollback, hpend]
      · rfl
  · next h => exact absurd h hp

/-- No schedule gets stuck, and none that has settled all requests leaves a transaction open. -/
theorem withTx_never_stuck {sched : List ι} (hrun : run (withTxStep body) {} sched = some s) :
    (∀ i, s.phase i ≠ .settled → (withTxStep body s i).isSome) ∧
      (s.AllSettled → s.txDepth = 0 ∧ s.conn.pending = none) := by
  have hc := (run_wellFormed hrun).1
  refine ⟨fun _ => withTxStep_isSome hc, fun hset => ?_⟩
  rcases hc with h | ⟨o, h⟩
  · exact ⟨h.depth, h.pending⟩
  · obtain ⟨k, hk⟩ := (h.opens o).2 rfl
    rw [hset o] at hk
    cases hk

end Step

/-- Request 0 writes and throws; request 1 writes and returns. -/
def failingOpener : Fin 2 → TxBody String
  | 0 => ⟨["node"], .throws⟩
  | 1 => ⟨["edge"], .returns⟩

/-- Request 1 runs to its end while request 0 holds the transaction open. -/
def joinedSchedule : List (Fin 2) := [0, 1, 0, 1, 1, 0]

/-- Where the joined schedule ends. -/
def joinedEnd : TxState (Fin 2) String :=
  (run (withTxStep failingOpener) {} joinedSchedule).getD {}

theorem joinedEnd_settled : joinedEnd.AllSettled
  | 0 => by rfl
  | 1 => by rfl

/-- The step at which request 1 writes inside the transaction of request 0 does not fit. -/
theorem withTx_allOrNothing_iff_joined : AllOrNothing failingOpener joinedEnd ↔
    ∀ pre i post s, joinedSchedule = pre ++ i :: post →
      run (withTxStep failingOpener) {} pre = some s → WriteFits failingOpener s i :=
  withTx_allOrNothing_iff (by rfl) joinedEnd_settled

theorem withTx_never_stuck_joined : joinedEnd.txDepth = 0 ∧ joinedEnd.conn.pending = none :=
  (withTx_never_stuck (show run (withTxStep failingOpener) {} joinedSchedule = some joinedEnd by
    rfl)).2 joinedEnd_settled

/-- A call that returned loses its write when the call whose transaction it joined throws. -/
theorem joined_write_lost :
    run (withTxStep failingOpener) {} joinedSchedule = some joinedEnd ∧
      joinedEnd.AllSettled ∧ joinedEnd.conn.committed = [] ∧
      ¬ AllOrNothing failingOpener joinedEnd := by
  have hempty : joinedEnd.conn.committed = [] := by rfl
  refine ⟨by rfl, joinedEnd_settled, hempty, fun h => ?_⟩
  have hkept := h.kept 1 rfl 0 "edge" rfl
  rw [hempty] at hkept
  exact List.not_mem_nil hkept

end AionisCore.Store
