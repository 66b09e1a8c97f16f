import AionisCore.Lib.Trace
import AionisCore.Util.EmbedQuerySettlement

/-!
# Progress of embedding queries

On a trace on which armed timers fire and batches finish, every request is settled. The rank
of a request is the number of requests that have to leave the queue before it is out.
-/

namespace AionisCore.Util

open Lib

variable {α : Type}

namespace EmbedQueryBatcher

/-- The number of requests that left the queue. -/
def taken (s : EmbedQueryBatcher α) : Nat := s.accepted.length - s.queue.length

variable {opts : EmbedQueryBatcherOptions} {textOf : String → String}
  {Computed : String → List α → Prop} {s s' s'' : EmbedQueryBatcher α} {p : Pending}

section

variable (h : s.Steady opts textOf Computed)

include h

theorem Steady.queue_length_le : s.queue.length ≤ s.accepted.length := h.queued.length_le

theorem Steady.id_lt (hp : p ∈ s.accepted) : p.id < s.accepted.length := by
  have hmem : p.id ∈ s.accepted.map (·.id) := List.mem_map_of_mem hp
  rw [h.numbered] at hmem
  exact List.mem_range.1 hmem

theorem Steady.taken_le (hp : p ∈ s.queue) : s.taken ≤ p.id := by
  obtain ⟨pre, hpre⟩ := h.queued
  obtain ⟨j, hj, rfl⟩ := List.getElem_of_mem hp
  have hget : (s.accepted.map (·.id))[pre.length + j]? = some s.queue[j].id := by
    rw [← hpre, List.getElem?_map, List.getElem?_append_right (Nat.le_add_right _ _),
      Nat.add_sub_cancel_left, List.getElem?_eq_getElem hj]
    rfl
  rw [h.numbered] at hget
  obtain ⟨hlt, hid⟩ := List.getElem?_eq_some_iff.1 hget
  rw [List.getElem_range] at hid
  have hlength : pre.length + s.queue.length = s.accepted.length := by
    rw [← hpre, List.length_append]
  unfold taken
  omega

theorem Steady.queue_ne_nil (hp : p ∈ s.accepted) (htaken : s.taken ≤ p.id) : s.queue ≠ [] := by
  intro hnil
  have hlt := h.id_lt hp
  unfold taken at htaken
  rw [hnil, List.length_nil] at htaken
  omega

end

/-! ## What an event moves -/

/-- A flush takes requests from the head of the queue and starts batches. -/
structure Flushed (s s' : EmbedQueryBatcher α) : Prop where
  accepted : s'.accepted = s.accepted
  queue : s'.queue <:+ s.queue
  settled : ∀ i ∈ s.settled.map (·.1), i ∈ s'.settled.map (·.1)
  batches : ∀ b ∈ s.batches, b ∈ s'.batches

theorem Flushed.refl (s : EmbedQueryBatcher α) : Flushed s s :=
  ⟨rfl, List.suffix_rfl, fun _ hi => hi, fun _ hb => hb⟩

theorem Flushed.trans (h : Flushed s s') (h' : Flushed s' s'') : Flushed s s'' :=
  ⟨h'.accepted.trans h.accepted, h'.queue.trans h.queue, fun i hi => h'.settled i (h.settled i hi),
    fun b hb => h'.batches b (h.batches b hb)⟩

theorem flushed_armTimer (s : EmbedQueryBatcher α) (delay : Nat) :
    Flushed s (s.armTimer delay) := by
  unfold armTimer
  split
  · exact .refl s
  · exact ⟨rfl, List.suffix_rfl, fun _ hi => hi, fun _ hb => hb⟩

theorem flushed_flushOnce (s : EmbedQueryBatcher α) (now : Int) : Flushed s (s.flushOnce now) := by
  have hpicks := picks_pick (P := fun _ _ => True) s now s.maxBatchSize s.queue s.settled
  unfold flushOnce
  dsimp only
  split
  · exact ⟨rfl, hpicks.suffix, fun _ hi => hpicks.grows.keeps hi, fun _ hb => hb⟩
  · exact ⟨rfl, hpicks.suffix, fun _ hi => hpicks.grows.keeps hi,
      fun _ hb => List.mem_append_left _ hb⟩

theorem flushed_flushLoop (clock : Nat → Int) (n : Nat) (s : EmbedQueryBatcher α) :
    Flushed s (flushLoop clock n s) := by
  induction n generalizing s with
  | zero => exact .refl s
  | succ n ih =>
    rw [flushLoop]
    split
    · exact (flushed_flushOnce s (clock n)).trans (ih _)
    · exact .refl s

theorem flushed_flush (s : EmbedQueryBatcher α) (clock : Nat → Int) :
    Flushed s (s.flush clock) := by
  unfold flush
  dsimp only
  split
  · exact (flushed_flushLoop clock _ s).trans (flushed_armTimer _ _)
  · exact flushed_flushLoop clock _ s

/-- With a free slot the head of the queue leaves it. -/
theorem Steady.flush_shrinks (h : s.Steady opts textOf Computed) (clock : Nat → Int)
    (hfree : s.inflightBatches < s.maxInflightBatches) (hne : s.queue ≠ []) :
    (s.flush clock).queue.length < s.queue.length := by
  have hlength : ∃ n, s.queue.length = n + 1 :=
    Nat.exists_eq_succ_of_ne_zero fun hzero => hne (List.length_eq_zero_iff.1 hzero)
  obtain ⟨n, hn⟩ := hlength
  have hloop : (EmbedQueryBatcher.flushLoop clock s.queue.length s).queue.length <
      s.queue.length := by
    rw [hn, EmbedQueryBatcher.flushLoop, if_pos ⟨hfree, hne⟩, ← hn]
    have hrest := (flushed_flushLoop clock n (s.flushOnce (clock n))).queue.length_le
    exact Nat.lt_of_le_of_lt hrest (flushOnce_shrinks h (clock n) hne)
  unfold EmbedQueryBatcher.flush
  dsimp only
  split
  · rw [show (scheduleFlush _).queue = _ from armTimer_queue _ _]
    exact hloop
  · exact hloop

theorem finishBatch_spec (s : EmbedQueryBatcher α) (id : Nat) :
    Flushed { s with
      inflightBatches := s.inflightBatches - 1
      batches := s.batches.filter (·.id ≠ id) } (s.finishBatch id) ∧
    (s.finishBatch id).queue = s.queue ∧
    (s.finishBatch id).inflightBatches = s.inflightBatches - 1 := by
  unfold finishBatch
  dsimp only
  split
  · refine ⟨flushed_armTimer _ _, armTimer_queue _ _, ?_⟩
    unfold scheduleImmediateFlush armTimer
    split <;> rfl
  · exact ⟨.refl _, rfl, rfl⟩

/-- What an event leaves in place. -/
structure Advances (s : EmbedQueryBatcher α) (e : Event α) (s' : EmbedQueryBatcher α) : Prop where
  accepted : ∀ p ∈ s.accepted, p ∈ s'.accepted
  settled : ∀ i ∈ s.settled.map (·.1), i ∈ s'.settled.map (·.1)
  taken : s.taken ≤ s'.taken
  inflight : (∀ clock, e ≠ .fire clock) → s'.inflightBatches ≤ s.inflightBatches
  batches : ∀ b ∈ s.batches, e ≠ .finished b.id →
    ∃ b' ∈ s'.batches, b'.id = b.id ∧ b'.picked = b.picked

theorem advances_setPhase (s : EmbedQueryBatcher α) (id : Nat) (phase : BatchPhase)
    {settled : List (Nat × Settlement α)} (e : Event α)
    (hkeeps : ∀ i ∈ s.settled.map (·.1), i ∈ settled.map (·.1)) :
    Advances s e { s.setPhase id phase with settled } where
  accepted := fun _ hp => hp
  settled := hkeeps
  taken := le_rfl
  inflight := fun _ => le_rfl
  batches := by
    intro b hb _
    refine ⟨_, List.mem_map_of_mem hb, ?_⟩
    split
    · exact ⟨rfl, rfl⟩
    · exact ⟨rfl, rfl⟩

theorem Sound.advances (h : s.Sound opts textOf Computed) {e : Event α}
    (he : Faithful textOf Computed s e) (hstep : s.step e = some s') : Advances s e s' := by
  cases e with
  | enqueue key text now =>
    simp only [EmbedQueryBatcher.step] at hstep
    split at hstep
    · next s₁ hok =>
      obtain rfl := Option.some.inj hstep
      unfold EmbedQueryBatcher.enqueue at hok
      split at hok
      · cases hok
      · obtain rfl := Except.ok.inj hok
        have harm := flushed_armTimer { s with
          queue := s.queue ++ [⟨s.accepted.length, key, text, now⟩]
          accepted := s.accepted ++ [⟨s.accepted.length, key, text, now⟩] } s.maxBatchWaitMs
        have hqueue := armTimer_queue { s with
          queue := s.queue ++ [⟨s.accepted.length, key, text, now⟩]
          accepted := s.accepted ++ [⟨s.accepted.length, key, text, now⟩] } s.maxBatchWaitMs
        refine ⟨fun p hp => ?_, harm.settled, ?_, fun _ => ?_, fun b hb _ =>
          ⟨b, harm.batches b hb, rfl, rfl⟩⟩
        · exact harm.accepted ▸ List.mem_append_left _ hp
        · have hle := h.queue_length_le
          unfold taken scheduleFlush
          dsimp only
          rw [harm.accepted, hqueue, List.length_append, List.length_append]
          omega
        · unfold scheduleFlush armTimer
          split <;> exact le_rfl
    · obtain rfl := Option.some.inj hstep
      exact ⟨fun _ hp => hp, fun _ hi => hi, le_rfl, fun _ => le_rfl,
        fun b hb _ => ⟨b, hb, rfl, rfl⟩⟩
  | fire clock =>
    obtain ⟨delay, -, rfl⟩ := Option.map_eq_some_iff.1 hstep
    have hflush := flushed_flush { s with flushTimer := none } clock
    refine ⟨fun p hp => ?_, hflush.settled, ?_, fun hne => absurd rfl (hne clock),
      fun b hb _ => ⟨b, hflush.batches b hb, rfl, rfl⟩⟩
    · rw [hflush.accepted]
      exact hp
    have hle := hflush.queue.length_le
    unfold taken
    rw [hflush.accepted]
    exact Nat.sub_le_sub_left hle _
  | fulfilled id vectors now =>
    obtain ⟨batch, hb, hstep⟩ := Option.bind_eq_some_iff.1 hstep
    split at hstep
    · obtain rfl := Option.some.inj hstep
      obtain ⟨hg, -⟩ := h.thenHandler hb now (he batch hb)
      exact advances_setPhase s id _ _ fun i hi => hg.keeps hi
    · cases hstep
  | failed id reason =>
    obtain ⟨batch, hb, hstep⟩ := Option.bind_eq_some_iff.1 hstep
    split at hstep
    · obtain rfl := Option.some.inj hstep
      exact advances_setPhase s id _ _ fun i hi => hi
    · cases hstep
  | caught id =>
    obtain ⟨batch, hb, hstep⟩ := Option.bind_eq_some_iff.1 hstep
    split at hstep
    · obtain rfl := Option.some.inj hstep
      obtain ⟨hg, -⟩ := grows_foldl_settle (P := fun _ _ => True)
        (fun _ => .rejected ‹_›) s.settled (fun p hp => List.mem_map_of_mem hp)
        fun _ _ _ _ => trivial
      exact advances_setPhase s id _ _ fun i hi => hg.keeps hi
    · cases hstep
  | finished id =>
    obtain ⟨batch, hb, hstep⟩ := Option.bind_eq_some_iff.1 hstep
    split at hstep
    · obtain rfl := Option.some.inj hstep
      obtain ⟨hflush, hqueue, hinflight⟩ := finishBatch_spec s id
      refine ⟨fun p hp => ?_, hflush.settled, ?_, fun _ => ?_, fun b hb hne => ?_⟩
      · rw [hflush.accepted]
        exact hp
      · unfold taken
        rw [hflush.accepted, hqueue]
      · rw [hinflight]
        exact Nat.sub_le _ _
      · have hid : b.id ≠ id := fun heq => hne (heq ▸ rfl)
        exact ⟨b, hflush.batches b (List.mem_filter.2 ⟨hb, decide_eq_true hid⟩), rfl, rfl⟩
    · cases hstep

/-- A batch that finishes leaves a slot free. -/
theorem Sound.finished_free (h : s.Sound opts textOf Computed) {id : Nat}
    (hstep : s.step (.finished id) = some s') : s'.inflightBatches < s.maxInflightBatches := by
  obtain ⟨batch, hb, hstep⟩ := Option.bind_eq_some_iff.1 hstep
  have hpos := List.length_pos_of_mem (batch?_eq_some h.batchIds hb).1
  have hinflight := h.inflight
  have hle := h.inflight_le
  split at hstep
  · obtain rfl := Option.some.inj hstep
    rw [(finishBatch_spec s id).2.2]
    omega
  · cases hstep

/-- A timer that fires with a free slot takes a request from the queue. -/
theorem Sound.taken_lt_fire (h : s.Sound opts textOf Computed) {clock : Nat → Int}
    (hfree : s.inflightBatches < s.maxInflightBatches) (hne : s.queue ≠ [])
    (hstep : s.step (.fire clock) = some s') : s.taken < s'.taken := by
  obtain ⟨delay, -, rfl⟩ := Option.map_eq_some_iff.1 hstep
  have hsteady : Steady opts textOf Computed { s with flushTimer := none } := { h.toSteady with }
  have hlt := hsteady.flush_shrinks clock hfree hne
  have hle := h.queue_length_le
  unfold taken
  rw [(flushed_flush _ clock).accepted]
  dsimp only at hlt ⊢
  omega

/-! ## Fair traces -/

/-- Every armed timer fires, and every batch finishes: what `runBatch` returns is settled, and
the handlers run. -/
structure Fair (σ : Trace (step (α := α))) : Prop where
  fires : ∀ n, (σ.state n).flushTimer.isSome →
    ∃ m, n ≤ m ∧ ∃ clock, σ.event m = some (.fire clock)
  finishes : ∀ n, ∀ b ∈ (σ.state n).batches,
    ∃ m, n ≤ m ∧ σ.event m = some (.finished b.id)

section Traces

variable {σ : Trace (step (α := α))} (h0 : σ.state 0 = new opts)
  (hfaithful : ∀ n e, σ.event n = some e → Faithful textOf Computed (σ.state n) e)

include h0 hfaithful

theorem sound_trace (n : Nat) : (σ.state n).Sound opts textOf Computed := by
  induction n with
  | zero =>
    rw [h0]
    exact sound_new opts
  | succ n ih =>
    have hnext := σ.next n
    split at hnext
    · rw [hnext]
      exact ih
    · next e he => exact ih.step (hfaithful n e he) hnext

variable {n : Nat}

theorem advances_trace {e : Event α} (he : σ.event n = some e) :
    Advances (σ.state n) e (σ.state (n + 1)) := by
  have hnext := σ.next n
  rw [he] at hnext
  exact (sound_trace h0 hfaithful n).advances (hfaithful n e he) hnext

/-- What every event keeps is kept at the next time, also where nothing happens. -/
theorem next_of_advances {P : EmbedQueryBatcher α → Prop} (hn : P (σ.state n))
    (hstep : ∀ e, σ.event n = some e → Advances (σ.state n) e (σ.state (n + 1)) →
      P (σ.state (n + 1))) : P (σ.state (n + 1)) := by
  cases he : σ.event n with
  | some e => exact hstep e he (advances_trace h0 hfaithful he)
  | none =>
    have hnext := σ.next n
    rw [he] at hnext
    rw [hnext]
    exact hn

variable {p : Pending}

theorem accepted_mono {m : Nat} (h : n ≤ m) (hp : p ∈ (σ.state n).accepted) :
    p ∈ (σ.state m).accepted := by
  induction m, h using Nat.le_induction with
  | base => exact hp
  | succ m _ ih =>
    exact next_of_advances h0 hfaithful (P := fun s => p ∈ s.accepted) ih
      fun _ _ hadv => hadv.accepted p ih

theorem taken_mono {m : Nat} (h : n ≤ m) : (σ.state n).taken ≤ (σ.state m).taken := by
  induction m, h using Nat.le_induction with
  | base => exact le_rfl
  | succ m _ ih =>
    exact next_of_advances h0 hfaithful (P := fun s => (σ.state n).taken ≤ s.taken) ih
      fun _ _ hadv => le_trans ih hadv.taken

/-- A request that is in a batch is settled when the batch finishes. -/
theorem settled_of_batch (hfair : Fair σ) {b : Batch} (hb : b ∈ (σ.state n).batches)
    (hp : p ∈ b.picked) : ∃ m, n ≤ m ∧ p.id ∈ (σ.state m).settled.map (·.1) := by
  obtain ⟨m, hnm, hm⟩ := hfair.finishes n b hb
  obtain ⟨k, hnk, -, hk, b', hb', hid, hpicked⟩ := Trace.exists_first
    (A := fun k => σ.event k = some (.finished b.id))
    (P := fun k => ∃ b' ∈ (σ.state k).batches, b'.id = b.id ∧ b'.picked = b.picked)
    (fun k hP hA => by
      obtain ⟨b₁, hb₁, hid₁, hpicked₁⟩ := hP
      refine next_of_advances h0 hfaithful
        (P := fun s => ∃ b' ∈ s.batches, b'.id = b.id ∧ b'.picked = b.picked)
        ⟨b₁, hb₁, hid₁, hpicked₁⟩ fun e he hadv => ?_
      obtain ⟨b₂, hb₂, hid₂, hpicked₂⟩ := hadv.batches b₁ hb₁ fun heq => hA (by
        rw [he, heq, hid₁])
      exact ⟨b₂, hb₂, hid₂.trans hid₁, hpicked₂.trans hpicked₁⟩) ⟨b, hb, rfl, rfl⟩ hnm hm
  have hsound := sound_trace h0 hfaithful k
  have hnext := σ.next k
  rw [hk] at hnext
  obtain ⟨batch, hbatch, hnext⟩ := Option.bind_eq_some_iff.1 hnext
  obtain ⟨hmem, -, honly⟩ := batch?_eq_some hsound.batchIds hbatch
  split at hnext
  · next hphase =>
    obtain rfl := honly b' hb' hid
    exact ⟨k, hnk, hsound.done b' hmem hphase p (hpicked ▸ hp)⟩
  · cases hnext

/-- While requests wait, the timer fires with a free slot. -/
theorem fires_free (hfair : Fair σ) (hp : p ∈ (σ.state n).accepted) :
    ∃ m, n ≤ m ∧ (p.id < (σ.state m).taken ∨ (∃ clock, σ.event m = some (.fire clock)) ∧
      (σ.state m).inflightBatches < (σ.state m).maxInflightBatches) := by
  have hsound := sound_trace h0 hfaithful
  -- A request that was not taken has an armed timer.
  have harmed : ∀ k, n ≤ k → (σ.state k).taken ≤ p.id →
      ∃ m, k ≤ m ∧ ∃ clock, σ.event m = some (.fire clock) := by
    intro k hk htaken
    have hpk := accepted_mono h0 hfaithful hk hp
    exact hfair.fires k ((hsound k).awake ((hsound k).queue_ne_nil hpk htaken))
  by_cases hn : p.id < (σ.state n).taken
  · exact ⟨n, le_rfl, .inl hn⟩
  obtain ⟨m, hnm, hfire⟩ := harmed n le_rfl (by omega)
  by_cases hfree : (σ.state m).inflightBatches < (σ.state m).maxInflightBatches
  · exact ⟨m, hnm, .inr ⟨hfire, hfree⟩⟩
  -- All slots are taken, so a batch is in flight; once it finishes, its slot stays free.
  have hmax : 1 ≤ (σ.state m).maxInflightBatches := by
    rw [(hsound m).limits.2]
    exact (one_le_limits opts).2
  have hsome : (σ.state m).batches ≠ [] := by
    intro hnil
    have hzero := (hsound m).inflight
    rw [hnil, List.length_nil] at hzero
    omega
  obtain ⟨b, hb⟩ := List.exists_mem_of_ne_nil _ hsome
  obtain ⟨j, hmj, hj⟩ := hfair.finishes m b hb
  have hfreed : (σ.state (j + 1)).inflightBatches < (σ.state (j + 1)).maxInflightBatches := by
    have hnext := σ.next j
    rw [hj] at hnext
    have hlt := (hsound j).finished_free hnext
    rw [(hsound (j + 1)).limits.2, ← (hsound j).limits.2]
    exact hlt
  by_cases hgone : p.id < (σ.state (j + 1)).taken
  · exact ⟨j + 1, by omega, .inl hgone⟩
  obtain ⟨i, hji, hi⟩ := harmed (j + 1) (by omega) (by omega)
  obtain ⟨k, hjk, -, hk, hfree⟩ := Trace.exists_first
    (A := fun k => ∃ clock, σ.event k = some (.fire clock))
    (P := fun k => (σ.state k).inflightBatches < (σ.state k).maxInflightBatches)
    (fun k hP hA => next_of_advances h0 hfaithful
      (P := fun s => s.inflightBatches < s.maxInflightBatches) hP fun e he hadv => by
        have hle := hadv.inflight fun clock heq => hA ⟨clock, heq ▸ he⟩
        rw [(hsound (k + 1)).limits.2, ← (hsound k).limits.2]
        omega) hfreed hji hi
  exact ⟨k, by omega, .inr ⟨hk, hfree⟩⟩

theorem leaves_queue (hfair : Fair σ) (hp : p ∈ (σ.state n).accepted) :
    ∃ m, n ≤ m ∧ p.id < (σ.state m).taken := by
  obtain ⟨m, hnm, -, hm⟩ := Trace.leadsTo_of_rank (σ := σ) (P := fun s => p ∈ s.accepted)
    (Q := fun s => p ∈ s.accepted ∧ p.id < s.taken) (fun s => p.id + 1 - s.taken)
    (fun n hp => by
      obtain ⟨m, hnm, hm⟩ := fires_free h0 hfaithful hfair hp
      have hpm := accepted_mono h0 hfaithful hnm hp
      rcases hm with hm | ⟨⟨clock, hfire⟩, hfree⟩
      · exact ⟨m, hnm, .inl ⟨hpm, hm⟩⟩
      by_cases htaken : p.id < (σ.state m).taken
      · exact ⟨m, hnm, .inl ⟨hpm, htaken⟩⟩
      have hlt : (σ.state m).taken < (σ.state (m + 1)).taken := by
        have hnext := σ.next m
        rw [hfire] at hnext
        have hsound := sound_trace h0 hfaithful m
        exact hsound.taken_lt_fire hfree (hsound.queue_ne_nil hpm (by omega)) hnext
      have hmono := taken_mono h0 hfaithful hnm
      refine ⟨m + 1, by omega, .inr ⟨accepted_mono h0 hfaithful (by omega) hpm, ?_⟩⟩
      omega) n hp
  exact ⟨m, hnm, hm⟩

theorem settled_of_accepted (hfair : Fair σ) (hp : p ∈ (σ.state n).accepted) :
    ∃ m, n ≤ m ∧ p.id ∈ (σ.state m).settled.map (·.1) := by
  obtain ⟨m, hnm, hm⟩ := leaves_queue h0 hfaithful hfair hp
  have hsound := sound_trace h0 hfaithful m
  rcases hsound.covered p (accepted_mono h0 hfaithful hnm hp) with hp | hp | ⟨b, hb, -, hp⟩
  · exact ⟨m, hnm, hp⟩
  · have hle := hsound.taken_le hp
    omega
  · obtain ⟨k, hmk, hk⟩ := settled_of_batch h0 hfaithful hfair hb hp
    exact ⟨k, le_trans hnm hmk, hk⟩

end Traces

/-- A batcher is sound at all times, and on a fair trace every accepted request is settled. -/
theorem settles_once (opts : EmbedQueryBatcherOptions) (textOf : String → String)
    (Computed : String → List α → Prop) (σ : Trace (step (α := α))) (h0 : σ.state 0 = new opts)
    (hfaithful : ∀ n e, σ.event n = some e → Faithful textOf Computed (σ.state n) e) :
    (∀ n, (σ.state n).Sound opts textOf Computed) ∧
      (Fair σ → ∀ n, ∀ p ∈ (σ.state n).accepted,
        ∃ m, n ≤ m ∧ p.id ∈ (σ.state m).settled.map (·.1)) :=
  ⟨sound_trace h0 hfaithful, fun hfair _ _ hp => settled_of_accepted h0 hfaithful hfair hp⟩

def sampleOptions : EmbedQueryBatcherOptions := ⟨8, 5, 1, 16, 1000⟩

/-- A query, its batch and its answer. -/
def sampleEvents : List (Event Nat) :=
  [.enqueue "query" "query" 0, .fire fun _ => 5,
    .fulfilled 0 (some [some (List.replicate 1536 0)]) 7, .finished 0]

theorem isSome_sampleRun : (run step (new sampleOptions) sampleEvents).isSome := by
  decide +kernel

theorem settles_once_sample :
    ((Trace.ofRun (new sampleOptions) sampleEvents isSome_sampleRun).state 4).Sound sampleOptions
      id fun text vector => text = "query" ∧ vector.length = 1536 := by
  refine (settles_once sampleOptions id _ _ rfl ?_).1 4
  intro n e he
  match n, he with
  | 0, he =>
    obtain rfl := Option.some.inj he
    rfl
  | 1, he =>
    obtain rfl := Option.some.inj he
    exact trivial
  | 2, he =>
    obtain rfl := Option.some.inj he
    intro batch hbatch vs hvs x hx v hv
    obtain rfl : ⟨0, [⟨0, "query", "query", 0⟩], .running⟩ = batch := Option.some.inj hbatch
    obtain rfl := Option.some.inj hvs
    obtain rfl := List.mem_singleton.1 hx
    obtain rfl := Option.some.inj hv
    exact ⟨rfl, List.length_replicate⟩
  | 3, he =>
    obtain rfl := Option.some.inj he
    exact trivial

end EmbedQueryBatcher

end AionisCore.Util
