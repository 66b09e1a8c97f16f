import AionisCore.Memory.SandboxShared
import Mathlib.Logic.Function.Basic

/-!
# One run and its holders

What concerns a single run: its row, the executions that hold it and how often its command
was started. An execution holds the run from its claim or its adoption on until it writes
the outcome or gives up. The steps come with two assumptions that may be made of them:
`sole`, that a run is adopted only when nobody holds it, and `unswept`, that a sweep
recovers a run only when nobody holds it.
-/

namespace AionisCore.Memory

open Function

/-- What a holder has done: `begun` once the command is started, and `canceled` when it will
write the status `canceled`. -/
structure Holder where
  begun : Bool := false
  canceled : Bool := false
  deriving DecidableEq, Repr

@[ext]
structure RunView where
  row : Option SandboxRunRow
  /-- What each execution holds of the run. -/
  holder : Nat → Option Holder
  starts : Nat

namespace RunView

variable {sole unswept : Prop} {v w : RunView}

def Unheld (v : RunView) : Prop := ∀ i, v.holder i = none

/-- The row is there, with a status as `p` says. -/
def Has (v : RunView) (p : SandboxRunStatus → Prop) : Prop :=
  ∃ row, v.row = some row ∧ p row.status

inductive Step (sole unswept : Prop) (v : RunView) : RunView → Prop where
  /-- The row is written, and its outcome kept. -/
  | touch {row row'} (hrow : v.row = some row) (hout : row'.outcome = row.outcome)
    (hcancel : row.cancelRequested → row'.cancelRequested) :
    Step sole unswept v { v with row := some row' }
  | insert {row} (hrow : v.row = none) (hqueued : row.status = .queued) :
    Step sole unswept v { v with row := some row }
  | cancelQueued {row} (now) (hrow : v.row = some row) (hqueued : row.status = .queued) :
    Step sole unswept v { v with row := some (row.setCanceled now) }
  | claim {row} (i now) (hrow : v.row = some row) (hqueued : row.status = .queued)
    (hi : v.holder i = none) :
    Step sole unswept v { v with
      row := some (row.setRunning now)
      holder := update v.holder i (some { canceled := row.cancelRequested }) }
  | adopt {row} (i) (hrow : v.row = some row) (hrunning : row.status = .running)
    (hi : v.holder i = none) (hsole : sole → v.Unheld) :
    Step sole unswept v { v with
      holder := update v.holder i (some { canceled := row.cancelRequested }) }
  | begin (i) (hi : v.holder i = some {}) :
    Step sole unswept v { v with
      holder := update v.holder i (some { begun := true })
      starts := v.starts + 1 }
  /-- Some of the holders that have started the command are told to cancel. -/
  | cancel {holder} (hcancel : ∀ i, holder i = v.holder i ∨
      (∃ c, v.holder i = some { begun := true, canceled := c }) ∧
        holder i = some { begun := true, canceled := true }) :
    Step sole unswept v { v with holder }
  | finish {h} (i now) (out : RunOutcome) (hi : v.holder i = some h)
    (hterminal : out.status.terminal) (hcanceled : h.canceled → out.status = .canceled) :
    Step sole unswept v { v with
      row := v.row.map (·.setOutcome out now)
      holder := update v.holder i none }
  /-- The execution gives the run up before it starts the command. -/
  | drop (i) (hi : v.holder i = some {}) :
    Step sole unswept v { v with holder := update v.holder i none }
  | sweep {row} (now) (out : RunOutcome) (hrow : v.row = some row)
    (hrunning : row.status = .running) (hterminal : out.status.terminal)
    (hunswept : unswept → v.Unheld) :
    Step sole unswept v { v with row := some (row.setOutcome out now) }

/-! ## Holders of the run -/

/-- A held run has been claimed. -/
def Claimed (v : RunView) : Prop := ∀ i h, v.holder i = some h → v.Has (· ≠ .queued)

/-- No two executions hold the run. -/
def Sole (v : RunView) : Prop :=
  ∀ i j h k, v.holder i = some h → v.holder j = some k → i = j

/-- The run is running as long as it is held. -/
def HeldRunning (v : RunView) : Prop := ∀ i h, v.holder i = some h → v.Has (· = .running)

theorem Unheld.sole_of (h : v.Unheld) : v.Sole := fun i j a b ha _ => by
  rw [h i] at ha
  cases ha

theorem update_eq_some {α : Type} {f : Nat → Option α} {i j : Nat} {a : Option α} {b : α}
    (h : update f i a j = some b) : j = i ∧ a = some b ∨ j ≠ i ∧ f j = some b := by
  by_cases hj : j = i
  · subst hj
    rw [update_self] at h
    exact .inl ⟨rfl, h⟩
  · rw [update_of_ne hj] at h
    exact .inr ⟨hj, h⟩

variable {k : Holder}

theorem sole_update {i : Nat} (hi : ∀ j h, v.holder j = some h → j = i) {row : Option SandboxRunRow}
    {starts : Nat} : Sole { row, holder := Function.update v.holder i (some k), starts } := by
  intro a b x y ha hb
  have held : ∀ {j z}, Function.update v.holder i (some k) j = some z → j = i := by
    intro j z hj
    rcases update_eq_some hj with ⟨rfl, -⟩ | ⟨-, hj⟩
    · rfl
    · exact hi j z hj
  exact (held ha).trans (held hb).symm

/-- A step that changes what `i` holds and keeps it a holder keeps who holds the run. -/
theorem Sole.update {i : Nat} {h : Holder} (hs : v.Sole) (hi : v.holder i = some h)
    {row : Option SandboxRunRow} {starts : Nat} :
    Sole { row, holder := Function.update v.holder i (some k), starts } :=
  sole_update fun j z hj => hs j i z h hj hi

theorem Sole.release {i : Nat} (hs : v.Sole) {row : Option SandboxRunRow} {starts : Nat} :
    Sole { row, holder := Function.update v.holder i none, starts } := by
  intro a b x y ha hb
  rcases update_eq_some ha with ⟨-, ha⟩ | ⟨-, ha⟩
  · cases ha
  · rcases update_eq_some hb with ⟨-, hb⟩ | ⟨-, hb⟩
    · cases hb
    · exact hs a b x y ha hb

theorem Sole.unheld_release {i : Nat} {h : Holder} (hs : v.Sole) (hi : v.holder i = some h)
    {row : Option SandboxRunRow} {starts : Nat} :
    Unheld { row, holder := Function.update v.holder i none, starts } := by
  intro j
  by_contra hj
  obtain ⟨k, hj⟩ := Option.ne_none_iff_exists'.1 hj
  rcases update_eq_some hj with ⟨-, hj⟩ | ⟨hne, hj⟩
  · cases hj
  · exact hne (hs j i _ _ hj hi)

theorem Unheld.acquire {i : Nat} (hu : v.Unheld) {row : Option SandboxRunRow} {starts : Nat} :
    Sole { row, holder := Function.update v.holder i (some k), starts } :=
  sole_update fun j z hj => by rw [hu j] at hj; cases hj

section Cancel

variable {holder : Nat → Option Holder} (hcancel : ∀ i, holder i = v.holder i ∨
  (∃ c, v.holder i = some { begun := true, canceled := c }) ∧
    holder i = some { begun := true, canceled := true })

include hcancel

/-- Holders that are told to cancel have held the run before. -/
theorem holder_of_cancel {i : Nat} {k : Holder} (hi : holder i = some k) :
    ∃ c, v.holder i = some { k with canceled := c } := by
  rcases hcancel i with hsame | ⟨⟨c, hc⟩, htrue⟩
  · exact ⟨k.canceled, hsame ▸ hi⟩
  · obtain rfl := Option.some.inj (htrue.symm.trans hi)
    exact ⟨c, hc⟩

theorem cancel_of_holder {i : Nat} {k : Holder} (hi : v.holder i = some k) :
    ∃ c, holder i = some { k with canceled := c } := by
  rcases hcancel i with hsame | ⟨⟨c, hc⟩, htrue⟩
  · exact ⟨k.canceled, hsame.trans hi⟩
  · obtain rfl := Option.some.inj (hc.symm.trans hi)
    exact ⟨true, htrue⟩

theorem Sole.cancel (hs : v.Sole) : Sole { v with holder } := by
  intro i j h k hi hj
  obtain ⟨c, hi⟩ := holder_of_cancel hcancel hi
  obtain ⟨d, hj⟩ := holder_of_cancel hcancel hj
  exact hs i j _ _ hi hj

end Cancel

theorem Claimed.unheld (hc : v.Claimed) {row : SandboxRunRow} (hrow : v.row = some row)
    (hqueued : row.status = .queued) : v.Unheld := by
  intro i
  cases hi : v.holder i with
  | none => rfl
  | some h =>
    obtain ⟨row', hrow', hne⟩ := hc i h hi
    obtain rfl := Option.some.inj (hrow.symm.trans hrow')
    exact absurd hqueued hne

/-! ## The outcome is written once -/

/-- The run has at most one holder, and runs as long as it has one. -/
structure Owned (v : RunView) : Prop where
  sole : v.Sole
  running : v.HeldRunning

theorem Owned.unheld (h : v.Owned) {row : SandboxRunRow} (hrow : v.row = some row)
    (hne : row.status ≠ .running) : v.Unheld := by
  intro i
  cases hi : v.holder i with
  | none => rfl
  | some k =>
    obtain ⟨row', hrow', hrunning⟩ := h.running i k hi
    obtain rfl := Option.some.inj (hrow.symm.trans hrow')
    exact absurd hrunning hne

/-- The row may be written as long as it stays running where the run is held. -/
theorem Owned.write (h : v.Owned) {row row' : SandboxRunRow} (hrow : v.row = some row)
    (hstatus : row.status = .running → row'.status = .running) :
    Owned { v with row := some row' } := by
  refine ⟨h.sole, fun i k hi => ?_⟩
  obtain ⟨held, hheld, hrunning⟩ := h.running i k hi
  obtain rfl := Option.some.inj (hrow.symm.trans hheld)
  exact ⟨row', rfl, hstatus hrunning⟩

theorem Owned.update (h : v.Owned) {i : Nat} {k' : Holder} (hi : v.holder i = some k)
    {starts : Nat} :
    Owned { row := v.row, holder := Function.update v.holder i (some k'), starts } := by
  refine ⟨h.sole.update hi, fun j l hj => ?_⟩
  rcases update_eq_some hj with ⟨-, -⟩ | ⟨-, hj⟩
  · exact h.running i k hi
  · exact h.running j l hj

theorem Owned.release (h : v.Owned) {i : Nat} (hi : v.holder i = some k)
    {row : Option SandboxRunRow} :
    Owned { v with row, holder := Function.update v.holder i none } := by
  refine ⟨h.sole.release, fun j l hj => ?_⟩
  rcases update_eq_some hj with ⟨-, hj⟩ | ⟨hne, hj⟩
  · cases hj
  · exact absurd (h.sole j i l k hj hi) hne

theorem Unheld.owned (hu : v.Unheld) {row : Option SandboxRunRow} : Owned { v with row } := by
  refine ⟨fun i j a b ha _ => ?_, fun i a ha => ?_⟩ <;>
  · rw [hu i] at ha
    cases ha

theorem Unheld.owned_acquire {i : Nat} (hu : v.Unheld) {row : SandboxRunRow}
    {row? : Option SandboxRunRow} (hrow : row? = some row) (hrunning : row.status = .running) :
    Owned { v with row := row?, holder := Function.update v.holder i (some k) } := by
  refine ⟨hu.acquire, fun j l hj => ?_⟩
  rcases update_eq_some hj with ⟨-, -⟩ | ⟨-, hj⟩
  · exact ⟨row, hrow, hrunning⟩
  · rw [hu j] at hj
    cases hj

theorem Owned.step (h : v.Owned) (hstep : Step True True v w) : w.Owned := by
  cases hstep with
  | touch hrow hout _ =>
    refine h.write hrow fun hrunning => ?_
    rw [← hrunning]
    exact congrArg RunOutcome.status hout
  | insert hrow hqueued =>
    refine Unheld.owned fun i => ?_
    cases hi : v.holder i with
    | none => rfl
    | some k =>
      obtain ⟨row, hrow', -⟩ := h.running i k hi
      rw [hrow] at hrow'
      cases hrow'
  | cancelQueued now hrow hqueued =>
    exact (h.unheld hrow (by rw [hqueued]; decide)).owned
  | claim i now hrow hqueued hi =>
    exact (h.unheld hrow (by rw [hqueued]; decide)).owned_acquire rfl rfl
  | adopt i hrow hrunning hi hsole => exact (hsole trivial).owned_acquire hrow hrunning
  | begin i hi => exact h.update hi
  | cancel hcancel =>
    refine ⟨h.sole.cancel hcancel, fun i k hi => ?_⟩
    obtain ⟨c, hi⟩ := holder_of_cancel hcancel hi
    exact h.running i _ hi
  | finish i now out hi hterminal hcanceled => exact h.release hi
  | drop i hi => exact h.release hi
  | sweep now out hrow hrunning hterminal hunswept => exact (hunswept trivial).owned

/-- Once the run is over, its outcome is never written again. -/
theorem Owned.keeps (h : v.Owned) (hstep : Step True True v w) {row : SandboxRunRow}
    (hrow : v.row = some row) (hterminal : row.status.terminal) :
    ∃ row', w.row = some row' ∧ row'.outcome = row.outcome := by
  obtain ⟨hne, hnr⟩ := SandboxRunStatus.terminal_iff.1 hterminal
  cases hstep with
  | touch hrow' hout _ =>
    obtain rfl := Option.some.inj (hrow.symm.trans hrow')
    exact ⟨_, rfl, hout⟩
  | insert hrow' => rw [hrow] at hrow'; cases hrow'
  | cancelQueued now hrow' hqueued =>
    obtain rfl := Option.some.inj (hrow.symm.trans hrow')
    exact absurd hqueued hne
  | claim i now hrow' hqueued hi =>
    obtain rfl := Option.some.inj (hrow.symm.trans hrow')
    exact absurd hqueued hne
  | adopt i _ _ _ _ => exact ⟨row, hrow, rfl⟩
  | begin i hi => exact ⟨row, hrow, rfl⟩
  | cancel _ => exact ⟨row, hrow, rfl⟩
  | finish i now out hi _ _ =>
    obtain ⟨row', hrow', hrunning⟩ := h.running i _ hi
    obtain rfl := Option.some.inj (hrow.symm.trans hrow')
    exact absurd hrunning hnr
  | drop i hi => exact ⟨row, hrow, rfl⟩
  | sweep now out hrow' hrunning _ _ =>
    obtain rfl := Option.some.inj (hrow.symm.trans hrow')
    exact absurd hrunning hnr

/-! ## The command is started once -/

/-- The command is started at most once, and not before the run is claimed. -/
structure StartedOnce (v : RunView) : Prop where
  sole : v.Sole
  claimed : v.Claimed
  /-- A start is a holder's, or the run is over. -/
  started : v.starts ≠ 0 → (∃ i c, v.holder i = some { begun := true, canceled := c }) ∨
    v.Has (·.terminal)
  unbegun : ∀ i c, v.holder i = some { begun := false, canceled := c } → v.starts = 0
  once : v.starts ≤ 1

theorem StartedOnce.unheld (h : v.StartedOnce) (hrow : ∀ row, v.row = some row →
    row.status = .queued) : v.Unheld ∧ v.starts = 0 := by
  have hu : v.Unheld := by
    intro i
    cases hi : v.holder i with
    | none => rfl
    | some k =>
      obtain ⟨row, hsome, hne⟩ := h.claimed i k hi
      exact absurd (hrow row hsome) hne
  refine ⟨hu, ?_⟩
  by_contra hstarts
  rcases h.started hstarts with ⟨i, c, hi⟩ | ⟨row, hsome, hterminal⟩
  · rw [hu i] at hi
    cases hi
  · rw [hrow row hsome] at hterminal
    exact absurd hterminal (by decide)

theorem StartedOnce.acquire {i : Nat} {c : Bool} (hu : v.Unheld) (hstarts : v.starts = 0)
    {row : SandboxRunRow} {row? : Option SandboxRunRow} (hrow : row? = some row)
    (hne : row.status ≠ .queued) :
    StartedOnce { v with
      row := row?
      holder := Function.update v.holder i (some { canceled := c }) } where
  sole := hu.acquire
  claimed := by
    intro j k hj
    exact ⟨row, hrow, hne⟩
  started hne := absurd hstarts hne
  unbegun _ _ _ := hstarts
  once := hstarts.trans_le (Nat.zero_le 1)

theorem StartedOnce.of_unheld (hu : v.Unheld) (hstarts : v.starts = 0)
    {row? : Option SandboxRunRow} : StartedOnce { v with row := row? } where
  sole := Unheld.sole_of (v := { v with row := row? }) hu
  claimed i k hi := by
    rw [hu i] at hi
    cases hi
  started hne := absurd hstarts hne
  unbegun _ _ _ := hstarts
  once := hstarts.trans_le (Nat.zero_le 1)

theorem StartedOnce.write (h : v.StartedOnce) {row row' : SandboxRunRow}
    (hrow : v.row = some row) (hstatus : row'.status = row.status ∨ row'.status.terminal) :
    StartedOnce { v with row := some row' } where
  sole := h.sole
  claimed i k hi := by
    obtain ⟨held, hheld, hne⟩ := h.claimed i k hi
    obtain rfl := Option.some.inj (hrow.symm.trans hheld)
    refine ⟨row', rfl, ?_⟩
    rcases hstatus with hsame | hterminal
    · rw [hsame]
      exact hne
    · exact (SandboxRunStatus.terminal_iff.1 hterminal).1
  started hstarts := by
    refine (h.started hstarts).imp_right fun ⟨held, hheld, hterminal⟩ => ?_
    obtain rfl := Option.some.inj (hrow.symm.trans hheld)
    refine ⟨row', rfl, ?_⟩
    rcases hstatus with hsame | hterminal'
    · rw [hsame]
      exact hterminal
    · exact hterminal'
  unbegun := h.unbegun
  once := h.once

theorem StartedOnce.step (h : v.StartedOnce) (hstep : Step True unswept v w) :
    w.StartedOnce := by
  cases hstep with
  | touch hrow hout _ => exact h.write hrow (.inl (congrArg RunOutcome.status hout))
  | insert hrow hqueued =>
    obtain ⟨hu, hstarts⟩ := h.unheld fun row hsome => by rw [hrow] at hsome; cases hsome
    exact .of_unheld hu hstarts
  | cancelQueued now hrow hqueued => exact h.write hrow (.inr rfl)
  | claim i now hrow hqueued hi =>
    obtain ⟨hu, hstarts⟩ := h.unheld fun row hsome => by
      obtain rfl := Option.some.inj (hrow.symm.trans hsome)
      exact hqueued
    exact .acquire hu hstarts rfl (show SandboxRunStatus.running ≠ .queued by decide)
  | adopt i hrow hrunning hi hsole =>
    have hu := hsole trivial
    refine .acquire hu ?_ hrow (by rw [hrunning]; decide)
    by_contra hstarts
    rcases h.started hstarts with ⟨j, c, hj⟩ | ⟨row, hsome, hterminal⟩
    · rw [hu j] at hj
      cases hj
    · obtain rfl := Option.some.inj (hrow.symm.trans hsome)
      exact (SandboxRunStatus.terminal_iff.1 hterminal).2 hrunning
  | begin i hi =>
    have hstarts := h.unbegun i _ hi
    refine ⟨h.sole.update hi, fun j k hj => ?_, fun _ => .inl ⟨i, false, ?_⟩, fun j c hj => ?_, ?_⟩
    · exact h.claimed i _ hi
    · exact Function.update_self ..
    · rcases update_eq_some hj with ⟨-, hj⟩ | ⟨hne, hj⟩
      · cases hj
      · exact absurd (h.sole j i _ _ hj hi) hne
    · exact Nat.succ_le_succ (Nat.le_zero.2 hstarts)
  | cancel hcancel =>
    refine ⟨h.sole.cancel hcancel, fun i k hi => ?_, fun hstarts => ?_, fun i c hi => ?_, h.once⟩
    · obtain ⟨c, hi⟩ := holder_of_cancel hcancel hi
      exact h.claimed i _ hi
    · refine (h.started hstarts).imp_left fun ⟨i, c, hi⟩ => ?_
      obtain ⟨d, hi⟩ := cancel_of_holder hcancel hi
      exact ⟨i, d, hi⟩
    · obtain ⟨d, hi⟩ := holder_of_cancel hcancel hi
      exact h.unbegun i d hi
  | finish i now out hi hterminal _ =>
    obtain ⟨row, hrow, -⟩ := h.claimed i _ hi
    have free : ∀ j k, Function.update v.holder i none j ≠ some k := fun j k hj => by
      have hnone : Function.update v.holder i none j = none :=
        @Sole.unheld_release v i _ h.sole hi none 0 j
      rw [hnone] at hj
      cases hj
    refine ⟨h.sole.release, fun j k hj => absurd hj (free j k), fun _ => .inr ?_,
      fun j c hj => absurd hj (free j _), h.once⟩
    exact ⟨row.setOutcome out now, by rw [hrow]; rfl, hterminal⟩
  | drop i hi =>
    refine ⟨h.sole.release, fun j k hj => ?_, fun hne => absurd (h.unbegun i _ hi) hne,
      fun _ _ _ => h.unbegun i _ hi, h.once⟩
    rcases update_eq_some hj with ⟨-, hj⟩ | ⟨-, hj⟩
    · cases hj
    · exact h.claimed j k hj
  | sweep now out hrow hrunning hterminal _ => exact h.write hrow (.inr hterminal)

/-- The run is claimed before it is held, and its command started. -/
structure ClaimedFirst (v : RunView) : Prop where
  claimed : v.Claimed
  started : v.starts ≠ 0 → v.Has (· ≠ .queued)

/-- What has been claimed is not queued again. -/
theorem Step.claimed_stays (h : v.Has (· ≠ .queued)) (hstep : Step sole unswept v w) :
    w.Has (· ≠ .queued) := by
  obtain ⟨row, hrow, hne⟩ := h
  cases hstep with
  | @touch _ row' hrow' hout _ =>
    obtain rfl := Option.some.inj (hrow.symm.trans hrow')
    have hsame : row'.status = row.status := congrArg RunOutcome.status hout
    exact ⟨row', rfl, hsame ▸ hne⟩
  | insert hrow' => rw [hrow] at hrow'; cases hrow'
  | cancelQueued now _ _ => exact ⟨_, rfl, show SandboxRunStatus.canceled ≠ .queued by decide⟩
  | claim i now _ _ _ => exact ⟨_, rfl, show SandboxRunStatus.running ≠ .queued by decide⟩
  | adopt i _ _ _ _ => exact ⟨row, hrow, hne⟩
  | begin i _ => exact ⟨row, hrow, hne⟩
  | cancel _ => exact ⟨row, hrow, hne⟩
  | finish i now out _ hterminal _ =>
    exact ⟨row.setOutcome out now, by rw [hrow]; rfl, (SandboxRunStatus.terminal_iff.1 hterminal).1⟩
  | drop i _ => exact ⟨row, hrow, hne⟩
  | sweep now out _ _ hterminal _ =>
    exact ⟨_, rfl, (SandboxRunStatus.terminal_iff.1 hterminal).1⟩

theorem ClaimedFirst.step (h : v.ClaimedFirst) (hstep : Step sole unswept v w) :
    w.ClaimedFirst := by
  have stays := fun hv : v.Has (· ≠ .queued) => hstep.claimed_stays hv
  cases hstep with
  | touch | insert | cancelQueued =>
    exact ⟨fun i k hi => stays (h.claimed i k hi), fun hs => stays (h.started hs)⟩
  | claim i now hrow _ _ =>
    have hrunning := show SandboxRunStatus.running ≠ .queued by decide
    exact ⟨fun _ _ _ => ⟨_, rfl, hrunning⟩, fun _ => ⟨_, rfl, hrunning⟩⟩
  | adopt i hrow hrunning _ _ =>
    exact ⟨fun _ _ _ => ⟨_, hrow, by rw [hrunning]; decide⟩, h.started⟩
  | begin i hi => exact ⟨fun _ _ _ => h.claimed i _ hi, fun _ => h.claimed i _ hi⟩
  | cancel hcancel =>
    refine ⟨fun i k hi => ?_, h.started⟩
    obtain ⟨c, hi⟩ := holder_of_cancel hcancel hi
    exact h.claimed i _ hi
  | finish i now out hi _ _ =>
    have hclaimed := stays (h.claimed i _ hi)
    exact ⟨fun _ _ _ => hclaimed, fun _ => hclaimed⟩
  | drop i hi => exact ⟨fun _ _ _ => h.claimed i _ hi, h.started⟩
  | sweep now out hrow hrunning _ _ =>
    have hclaimed := stays ⟨_, hrow, by rw [hrunning]; decide⟩
    exact ⟨fun _ _ _ => hclaimed, fun _ => hclaimed⟩

theorem ClaimedFirst.of_queued (h : v.ClaimedFirst) {row : SandboxRunRow}
    (hrow : v.row = some row) (hqueued : row.status = .queued) : v.Unheld ∧ v.starts = 0 := by
  refine ⟨h.claimed.unheld hrow hqueued, ?_⟩
  by_contra hstarts
  obtain ⟨row', hrow', hne⟩ := h.started hstarts
  obtain rfl := Option.some.inj (hrow.symm.trans hrow')
  exact hne hqueued

/-! ## Cancelled runs -/

/-- The cancellation was requested before the run was claimed: no holder has started the
command, and each will write that it was cancelled. -/
structure Withdrawn (v : RunView) : Prop where
  row : ∃ row, v.row = some row ∧ row.cancelRequested ∧
    (row.status = .queued ∨ row.status = .running ∧ ¬ v.Unheld ∨ row.status = .canceled)
  holders : ∀ i h, v.holder i = some h → h = { canceled := true }
  starts : v.starts = 0

theorem not_unheld_update {i : Nat} {row : Option SandboxRunRow} {starts : Nat} :
    ¬ Unheld { row, holder := Function.update v.holder i (some k), starts } := by
  intro hu
  have hi : Function.update v.holder i (some k) i = none := hu i
  rw [Function.update_self] at hi
  cases hi

theorem Withdrawn.step (h : v.Withdrawn) (hstep : Step sole True v w) : w.Withdrawn := by
  obtain ⟨⟨row, hrow, hrequested, hstatus⟩, hholders, hstarts⟩ := h
  cases hstep with
  | @touch _ row' hrow' hout hcancel =>
    obtain rfl := Option.some.inj (hrow.symm.trans hrow')
    refine ⟨⟨row', rfl, hcancel hrequested, ?_⟩, hholders, hstarts⟩
    rw [show row'.status = row.status from congrArg RunOutcome.status hout]
    exact hstatus
  | insert hrow' => rw [hrow] at hrow'; cases hrow'
  | cancelQueued now hrow' hqueued =>
    obtain rfl := Option.some.inj (hrow.symm.trans hrow')
    exact ⟨⟨_, rfl, hrequested, .inr (.inr rfl)⟩, hholders, hstarts⟩
  | claim i now hrow' hqueued hi =>
    obtain rfl := Option.some.inj (hrow.symm.trans hrow')
    refine ⟨⟨_, rfl, hrequested, .inr (.inl ⟨rfl, not_unheld_update⟩)⟩, fun j k hj => ?_, hstarts⟩
    rcases update_eq_some hj with ⟨-, hj⟩ | ⟨-, hj⟩
    · rw [← Option.some.inj hj, hrequested]
    · exact hholders j k hj
  | adopt i hrow' hrunning hi _ =>
    obtain rfl := Option.some.inj (hrow.symm.trans hrow')
    refine ⟨⟨_, hrow, hrequested, .inr (.inl ⟨hrunning, not_unheld_update⟩)⟩, fun j k hj => ?_,
      hstarts⟩
    rcases update_eq_some hj with ⟨-, hj⟩ | ⟨-, hj⟩
    · rw [← Option.some.inj hj, hrequested]
    · exact hholders j k hj
  | begin i hi => cases hholders i _ hi
  | @cancel holder hcancel =>
    -- nobody has started the command, so nobody is told
    have hsame : holder = v.holder := by
      funext i
      rcases hcancel i with hsame | ⟨⟨c, hc⟩, -⟩
      · exact hsame
      · cases hholders i _ hc
    exact ⟨⟨row, hrow, hrequested, hsame ▸ hstatus⟩, hsame ▸ hholders, hstarts⟩
  | finish i now out hi _ hcanceled =>
    obtain rfl := hholders i _ hi
    refine ⟨⟨row.setOutcome out now, by rw [hrow]; rfl, hrequested, .inr (.inr (hcanceled rfl))⟩,
      fun j k hj => ?_, hstarts⟩
    rcases update_eq_some hj with ⟨-, hj⟩ | ⟨-, hj⟩
    · cases hj
    · exact hholders j k hj
  | drop i hi => cases hholders i _ hi
  | sweep now out hrow' hrunning _ hunswept =>
    obtain rfl := Option.some.inj (hrow.symm.trans hrow')
    rw [hrunning] at hstatus
    rcases hstatus with hstatus | ⟨-, hheld⟩ | hstatus
    · cases hstatus
    · exact absurd (hunswept trivial) hheld
    · cases hstatus

/-- A canceled run stays canceled, if each of its holders will write so. -/
theorem Step.canceled_stays (hstep : Step sole unswept v w) (hc : v.Has (· = .canceled))
    (hholders : ∀ i h, v.holder i = some h → h.canceled) : w.Has (· = .canceled) := by
  obtain ⟨row, hrow, hcanceled⟩ := hc
  cases hstep with
  | touch hrow' hout _ =>
    obtain rfl := Option.some.inj (hrow.symm.trans hrow')
    exact ⟨_, rfl, (congrArg RunOutcome.status hout).trans hcanceled⟩
  | insert hrow' => rw [hrow] at hrow'; cases hrow'
  | cancelQueued now _ _ => exact ⟨_, rfl, rfl⟩
  | claim i now hrow' hqueued _ =>
    obtain rfl := Option.some.inj (hrow.symm.trans hrow')
    rw [hcanceled] at hqueued
    cases hqueued
  | adopt | begin | cancel | drop => exact ⟨row, hrow, hcanceled⟩
  | finish i now out hi _ hout =>
    exact ⟨row.setOutcome out now, by rw [hrow]; rfl, hout (hholders i _ hi)⟩
  | sweep now out hrow' hrunning _ _ =>
    obtain rfl := Option.some.inj (hrow.symm.trans hrow')
    rw [hcanceled] at hrunning
    cases hrunning

/-- A withdrawn run that is canceled stays canceled. -/
theorem Withdrawn.canceled_stays (h : v.Withdrawn) (hc : v.Has (· = .canceled))
    (hstep : Step sole unswept v w) : w.Has (· = .canceled) :=
  hstep.canceled_stays hc fun i k hi => by rw [h.holders i k hi]

/-- Whoever lets a withdrawn run go writes that it was canceled. -/
theorem Withdrawn.held_or_canceled (h : v.Withdrawn) (hstep : Step sole unswept v w) {i : Nat}
    (hi : (v.holder i).isSome ∨ v.Has (· = .canceled)) :
    (w.holder i).isSome ∨ w.Has (· = .canceled) := by
  rcases hi with hi | hc
  · have kept : ∀ {j k}, (Function.update v.holder j (some k) i).isSome := by
      intro j k
      by_cases hij : i = j
      · rw [hij, Function.update_self]
        rfl
      · rw [Function.update_of_ne hij]
        exact hi
    cases hstep with
    | touch | insert | cancelQueued | sweep => exact .inl hi
    | claim | adopt | begin => exact .inl kept
    | cancel hcancel =>
      obtain ⟨k, hk⟩ := Option.isSome_iff_exists.1 hi
      obtain ⟨c, hc⟩ := cancel_of_holder hcancel hk
      exact .inl (Option.isSome_iff_exists.2 ⟨_, hc⟩)
    | finish j now out hj hterminal hcanceled =>
      obtain rfl := h.holders j _ hj
      obtain ⟨row, hrow, -⟩ := h.row
      exact .inr ⟨row.setOutcome out now, by rw [hrow]; rfl, hcanceled rfl⟩
    | drop j hj => cases h.holders j _ hj
  · exact .inr (h.canceled_stays hc hstep)

/-- A canceled run that nobody holds stays so. -/
theorem Unheld.canceled_stays (hu : v.Unheld) (hc : v.Has (· = .canceled))
    (hstep : Step sole unswept v w) : w.Unheld ∧ w.Has (· = .canceled) := by
  have free : ∀ {i h}, v.holder i ≠ some h := fun {i h} hi => by
    rw [hu i] at hi
    cases hi
  refine ⟨?_, hstep.canceled_stays hc fun i h hi => absurd hi free⟩
  obtain ⟨row, hrow, hcanceled⟩ := hc
  cases hstep with
  | touch | insert | cancelQueued | sweep => exact hu
  | claim i now hrow' hrow'' _ | adopt i hrow' hrow'' _ _ =>
    obtain rfl := Option.some.inj (hrow.symm.trans hrow')
    rw [hcanceled] at hrow''
    cases hrow''
  | begin i hi | finish i now out hi _ _ | drop i hi => exact absurd hi free
  | cancel hcancel =>
    intro i
    rcases hcancel i with hsame | ⟨⟨c, hc⟩, -⟩
    · exact hsame.trans (hu i)
    · exact absurd hc free

/-- The only holder was told to cancel after the start, or it has written so. -/
structure Stopped (v : RunView) (i : Nat) : Prop where
  sole : v.Sole
  stopped : v.holder i = some { begun := true, canceled := true } ∧ v.Has (· ≠ .queued) ∨
    v.Unheld ∧ v.Has (· = .canceled)

section Stopped

variable {i : Nat}

theorem Stopped.row (h : v.Stopped i) : v.Has (· ≠ .queued) := by
  rcases h.stopped with ⟨-, hrow⟩ | ⟨-, row, hrow, hcanceled⟩
  · exact hrow
  · exact ⟨row, hrow, by rw [hcanceled]; decide⟩

/-- A run that has been stopped is not adopted. -/
theorem Stopped.not_adopted (h : v.Stopped i) (hu : v.Unheld) {row : SandboxRunRow}
    (hrow : v.row = some row) : row.status ≠ .running := by
  rcases h.stopped with ⟨hi, -⟩ | ⟨-, row', hrow', hcanceled⟩
  · rw [hu i] at hi
    cases hi
  · obtain rfl := Option.some.inj (hrow.symm.trans hrow')
    rw [hcanceled]
    decide

/-- Every holder of a stopped run is the one that was told to cancel. -/
theorem Stopped.holder (h : v.Stopped i) {j : Nat} {k : Holder} (hj : v.holder j = some k) :
    k = { begun := true, canceled := true } := by
  rcases h.stopped with ⟨hi, -⟩ | ⟨hu, -⟩
  · obtain rfl := h.sole i j _ _ hi hj
    exact Option.some.inj (hj.symm.trans hi)
  · rw [hu j] at hj
    cases hj

theorem Stopped.step (h : v.Stopped i) (hstep : Step True unswept v w) : w.Stopped i := by
  obtain ⟨held, hheld, hne⟩ := h.row
  cases hstep with
  | @touch row row' hrow hout _ =>
    have hsame : row'.status = row.status := congrArg RunOutcome.status hout
    refine ⟨h.sole, h.stopped.imp (fun ⟨hi, hrow'⟩ => ⟨hi, ?_⟩) fun ⟨hu, hrow'⟩ => ⟨hu, ?_⟩⟩ <;>
    · obtain ⟨r, hr, hp⟩ := hrow'
      obtain rfl := Option.some.inj (hrow.symm.trans hr)
      exact ⟨row', rfl, by rw [hsame]; exact hp⟩
  | insert hrow => rw [hheld] at hrow; cases hrow
  | cancelQueued now hrow hqueued =>
    obtain rfl := Option.some.inj (hheld.symm.trans hrow)
    exact absurd hqueued hne
  | claim j now hrow hqueued hj =>
    obtain rfl := Option.some.inj (hheld.symm.trans hrow)
    exact absurd hqueued hne
  | adopt j hrow hrunning hj hsole => exact absurd hrunning (h.not_adopted (hsole trivial) hrow)
  | begin j hj => cases h.holder hj
  | cancel hcancel =>
    refine ⟨h.sole.cancel hcancel, h.stopped.imp (fun ⟨hi, hrow⟩ => ?_) fun ⟨hu, hrow⟩ => ?_⟩
    · rcases hcancel i with hsame | ⟨-, htrue⟩
      · exact ⟨hsame.trans hi, hrow⟩
      · exact ⟨htrue, hrow⟩
    · refine ⟨fun j => ?_, hrow⟩
      rcases hcancel j with hsame | ⟨⟨c, hc⟩, -⟩
      · exact hsame.trans (hu j)
      · rw [hu j] at hc
        cases hc
  | finish j now out hj _ hcanceled =>
    obtain rfl := h.holder hj
    refine ⟨h.sole.release, .inr ⟨h.sole.unheld_release hj, held.setOutcome out now, ?_,
      hcanceled rfl⟩⟩
    rw [hheld]
    rfl
  | drop j hj => cases h.holder hj
  | sweep now out hrow hrunning hterminal _ =>
    rcases h.stopped with ⟨hi, -⟩ | ⟨hu, -⟩
    · exact ⟨h.sole, .inl ⟨hi, _, rfl, (SandboxRunStatus.terminal_iff.1 hterminal).1⟩⟩
    · exact absurd hrunning (h.not_adopted hu hrow)

end Stopped

end RunView

end AionisCore.Memory
