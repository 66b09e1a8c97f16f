import AionisCore.Util.EmbedQueryBatcher

/-!
# Settlement of embedding queries

What holds in every state of a batcher: slots and sizes are respected, a request is settled
once at most and with a vector of its own text, and nobody waits without a timer.
-/

namespace AionisCore.Util

open Lib

variable {α : Type}

namespace EmbedQueryBatcher

/-- Equal keys carry equal texts, and a vector that a batch is answered with was computed for
the text at its place. -/
def Faithful (textOf : String → String) (Computed : String → List α → Prop)
    (s : EmbedQueryBatcher α) : Event α → Prop
  | .enqueue key text _ => text = textOf key
  | .fulfilled id vectors _ => ∀ batch, s.batch? id = some batch → ∀ vs, vectors = some vs →
      ∀ x ∈ batch.texts.zip vs, ∀ v, x.2 = some v → Computed x.1 v
  | _ => True

/-- What holds between events, and in the midst of one. -/
structure Steady (opts : EmbedQueryBatcherOptions) (textOf : String → String)
    (Computed : String → List α → Prop) (s : EmbedQueryBatcher α) : Prop where
  limits : s.maxBatchSize = (new opts : EmbedQueryBatcher α).maxBatchSize ∧
    s.maxInflightBatches = (new opts : EmbedQueryBatcher α).maxInflightBatches
  inflight : s.inflightBatches = s.batches.length
  inflight_le : s.inflightBatches ≤ s.maxInflightBatches
  size_le : ∀ b ∈ s.batches, b.picked.length ≤ s.maxBatchSize
  batchIds : (s.batches.map (·.id)).Nodup
  batch_lt : ∀ b ∈ s.batches, b.id < s.started
  numbered : s.accepted.map (·.id) = List.range s.accepted.length
  texts : ∀ p ∈ s.accepted, p.text = textOf p.key
  /-- Requests leave the queue in order of arrival. -/
  queued : s.queue <:+ s.accepted
  picked : ∀ b ∈ s.batches, ∀ p ∈ b.picked, p ∈ s.accepted
  /-- A request is settled once at most. -/
  once : (s.settled.map (·.1)).Nodup
  /-- A settlement is one of an accepted request, and resolves it to a vector of its text. -/
  answered : ∀ x ∈ s.settled, ∃ p ∈ s.accepted, p.id = x.1 ∧
    ∀ out, x.2 = .resolved out → Computed p.text out.vector
  done : ∀ b ∈ s.batches, b.phase = .settled → ∀ p ∈ b.picked, p.id ∈ s.settled.map (·.1)
  /-- A request that is not settled is in the queue or in a batch that is not done. -/
  covered : ∀ p ∈ s.accepted, p.id ∈ s.settled.map (·.1) ∨ p ∈ s.queue ∨
    ∃ b ∈ s.batches, b.phase ≠ .settled ∧ p ∈ b.picked

/-- What holds between events: moreover nobody is stranded, for a request in the queue has a
timer. -/
structure Sound (opts : EmbedQueryBatcherOptions) (textOf : String → String)
    (Computed : String → List α → Prop) (s : EmbedQueryBatcher α) : Prop
    extends Steady opts textOf Computed s where
  awake : s.queue ≠ [] → s.flushTimer.isSome

variable {opts : EmbedQueryBatcherOptions} {textOf : String → String}
  {Computed : String → List α → Prop} {s s' : EmbedQueryBatcher α}

theorem one_le_limits (opts : EmbedQueryBatcherOptions) :
    1 ≤ (new opts : EmbedQueryBatcher α).maxBatchSize ∧
      1 ≤ (new opts : EmbedQueryBatcher α).maxInflightBatches := by
  unfold new
  dsimp only
  omega

/-! ## The queue and the flush -/

/-- `P` of the settlements of a sound batcher. -/
def Answers (Computed : String → List α → Prop) (accepted : List Pending) (id : Nat)
    (out : EmbedBatchResult α) : Prop :=
  ∀ p ∈ accepted, p.id = id → Computed p.text out.vector

structure Picks (P : Nat → EmbedBatchResult α → Prop) (n : Nat) (queue : List Pending)
    (settled : List (Nat × Settlement α))
    (out : List Pending × List Pending × List (Nat × Settlement α)) : Prop where
  length_le : out.1.length ≤ n
  sub : ∀ p ∈ out.1, p ∈ queue
  suffix : out.2.1 <:+ queue
  shrinks : 0 < n → queue ≠ [] → out.2.1.length < queue.length
  grows : Grows P (queue.map (·.id)) settled out.2.2
  covers : ∀ p ∈ queue, p ∈ out.1 ∨ p ∈ out.2.1 ∨ p.id ∈ out.2.2.map (·.1)

theorem picks_pick {P : Nat → EmbedBatchResult α → Prop} (s : EmbedQueryBatcher α) (now : Int)
    (n : Nat) (queue : List Pending) (settled : List (Nat × Settlement α)) :
    Picks P n queue settled (s.pick now n queue settled) := by
  induction queue generalizing n settled with
  | nil =>
    have hnil : s.pick now n [] settled = ([], [], settled) := by cases n <;> rfl
    rw [hnil]
    exact ⟨Nat.zero_le _, List.forall_mem_nil _, List.suffix_rfl, fun _ h => absurd rfl h, .refl,
      List.forall_mem_nil _⟩
  | cons item queue ih =>
    cases n with
    | zero => exact ⟨le_rfl, List.forall_mem_nil _, List.suffix_rfl, fun h => absurd h (by decide),
        .refl, fun _ hp => .inr (.inl hp)⟩
    | succ n =>
      rw [pick]
      split
      · have h := ih (n + 1) (settle settled item.id
          (.rejected (.batcher (s.timeoutError now item queue.length))))
        have hitem : Grows P ((item :: queue).map (·.id)) settled (settle settled item.id
            (.rejected (.batcher (s.timeoutError now item queue.length)))) :=
          .settle List.mem_cons_self fun _ hres => by cases hres
        refine ⟨h.length_le, fun p hp => List.mem_cons_of_mem _ (h.sub p hp),
          h.suffix.trans (List.suffix_cons _ _), fun _ _ => ?_,
          hitem.trans (h.grows.mono fun i hi => List.mem_cons_of_mem _ hi), ?_⟩
        · exact Nat.lt_succ_of_le h.suffix.length_le
        · rw [List.forall_mem_cons]
          exact ⟨.inr (.inr (h.grows.keeps (mem_settle _ _ _))), h.covers⟩
      · have h := ih n settled
        refine ⟨Nat.succ_le_succ h.length_le, ?_, h.suffix.trans (List.suffix_cons _ _),
          fun _ _ => Nat.lt_succ_of_le h.suffix.length_le,
          h.grows.mono fun i hi => List.mem_cons_of_mem _ hi, ?_⟩
        · exact List.forall_mem_cons.2
            ⟨List.mem_cons_self, fun p hp => List.mem_cons_of_mem _ (h.sub p hp)⟩
        · refine List.forall_mem_cons.2 ⟨.inl List.mem_cons_self, fun p hp => ?_⟩
          rcases h.covers p hp with hp | hp
          · exact .inl (List.mem_cons_of_mem _ hp)
          · exact .inr hp

theorem eq_of_numbered {accepted : List Pending}
    (h : accepted.map (·.id) = List.range accepted.length) {p q : Pending} (hp : p ∈ accepted)
    (hq : q ∈ accepted) (heq : p.id = q.id) : p = q := by
  have hnodup : (accepted.map (·.id)).Nodup := by
    rw [h]
    exact List.nodup_range
  exact List.inj_on_of_nodup_map hnodup hp hq heq

/-- Settlements that answer accepted requests keep the claims about settlements. -/
theorem answered_of_grows {accepted : List Pending} {ids : List Nat}
    {old new : List (Nat × Settlement α)}
    (h : ∀ x ∈ old, ∃ p ∈ accepted, p.id = x.1 ∧
      ∀ out, x.2 = .resolved out → Computed p.text out.vector)
    (hg : Grows (Answers Computed accepted) ids old new)
    (hids : ∀ i ∈ ids, ∃ p ∈ accepted, p.id = i) :
    ∀ x ∈ new, ∃ p ∈ accepted, p.id = x.1 ∧
      ∀ out, x.2 = .resolved out → Computed p.text out.vector := by
  intro x hx
  rcases hg.mem x hx with hx | ⟨hi, hP⟩
  · exact h x hx
  · obtain ⟨p, hp, hpx⟩ := hids _ hi
    exact ⟨p, hp, hpx, fun out hout => hP out hout p hp hpx⟩

theorem armTimer_isSome (s : EmbedQueryBatcher α) (delay : Nat) :
    (s.armTimer delay).flushTimer.isSome := by
  unfold armTimer
  split
  · next h => rw [h]; rfl
  · rfl

theorem armTimer_queue (s : EmbedQueryBatcher α) (delay : Nat) :
    (s.armTimer delay).queue = s.queue := by
  unfold armTimer
  split <;> rfl

theorem Steady.armTimer (h : s.Steady opts textOf Computed) (delay : Nat) :
    (s.armTimer delay).Steady opts textOf Computed := by
  unfold EmbedQueryBatcher.armTimer
  split
  · exact h
  · exact { h with }

theorem Steady.sound_armTimer (h : s.Steady opts textOf Computed) (delay : Nat) :
    (s.armTimer delay).Sound opts textOf Computed :=
  { h.armTimer delay with awake := fun _ => armTimer_isSome s delay }

theorem suffix_concat {xs ys : List Pending} (h : xs <:+ ys) (p : Pending) :
    xs ++ [p] <:+ ys ++ [p] := by
  obtain ⟨pre, rfl⟩ := h
  exact ⟨pre, by rw [List.append_assoc]⟩

theorem Sound.enqueue (h : s.Sound opts textOf Computed) {key text : String} {now : Int}
    (htext : text = textOf key) (hok : s.enqueue key text now = .ok s') :
    s'.Sound opts textOf Computed := by
  unfold EmbedQueryBatcher.enqueue at hok
  split at hok
  · cases hok
  · obtain rfl := Except.ok.inj hok
    let item : Pending := { id := s.accepted.length, key, text, enqueuedAtMs := now }
    have hsteady : Steady opts textOf Computed { s with
        queue := s.queue ++ [item]
        accepted := s.accepted ++ [item] } := { h.toSteady with
      numbered := ?_
      texts := ?_
      queued := suffix_concat h.queued item
      picked := fun b hb p hp => List.mem_append_left _ (h.picked b hb p hp)
      answered := ?_
      covered := ?_ }
    · exact hsteady.sound_armTimer _
    · show (s.accepted ++ [item]).map _ = List.range (s.accepted ++ [item]).length
      rw [List.map_append, h.numbered, List.length_append, List.length_singleton,
        List.range_succ]
      rfl
    · refine List.forall_mem_append.2 ⟨h.texts, fun p hp => ?_⟩
      obtain rfl := List.mem_singleton.1 hp
      exact htext
    · intro x hx
      obtain ⟨p, hp, hanswer⟩ := h.answered x hx
      exact ⟨p, List.mem_append_left _ hp, hanswer⟩
    · refine List.forall_mem_append.2 ⟨fun p hp => ?_, ?_⟩
      · rcases h.covered p hp with hp | hp | hp
        · exact .inl hp
        · exact .inr (.inl (List.mem_append_left _ hp))
        · exact .inr (.inr hp)
      · exact fun p hp => .inr (.inl (List.mem_append_right _ hp))

section

variable (h : s.Steady opts textOf Computed)

include h

theorem flushOnce_shrinks (now : Int) (hne : s.queue ≠ []) :
    (s.flushOnce now).queue.length < s.queue.length := by
  have hpicks := picks_pick (P := fun _ _ => True) s now s.maxBatchSize s.queue s.settled
  have hsize : 0 < s.maxBatchSize := by
    rw [h.limits.1]
    exact (one_le_limits opts).1
  have hshrinks := hpicks.shrinks hsize hne
  unfold flushOnce
  dsimp only
  split
  · exact hshrinks
  · exact hshrinks

theorem Steady.flushOnce (now : Int) (hfree : s.inflightBatches < s.maxInflightBatches) :
    (s.flushOnce now).Steady opts textOf Computed := by
  have hpicks := picks_pick (P := Answers Computed s.accepted) s now s.maxBatchSize s.queue
    s.settled
  unfold EmbedQueryBatcher.flushOnce
  dsimp only
  generalize s.pick now s.maxBatchSize s.queue s.settled = out at hpicks
  obtain ⟨picked, rest, settled⟩ := out
  have hanswered := answered_of_grows h.answered hpicks.grows fun i hi => by
    obtain ⟨p, hp, rfl⟩ := List.mem_map.1 hi
    exact ⟨p, h.queued.subset hp, rfl⟩
  have hcovered : ∀ p ∈ s.accepted, p.id ∈ settled.map (·.1) ∨ p ∈ rest ∨ p ∈ picked ∨
      ∃ b ∈ s.batches, b.phase ≠ .settled ∧ p ∈ b.picked := by
    intro p hp
    rcases h.covered p hp with hp | hp | hp
    · exact .inl (hpicks.grows.keeps hp)
    · rcases hpicks.covers p hp with hp | hp | hp
      · exact .inr (.inr (.inl hp))
      · exact .inr (.inl hp)
      · exact .inl hp
    · exact .inr (.inr (.inr hp))
  have hrest : rest <:+ s.accepted := hpicks.suffix.trans h.queued
  split
  · next hempty =>
    obtain rfl : picked = [] := List.isEmpty_iff.1 hempty
    refine { h with
      queued := hrest
      once := hpicks.grows.nodup h.once
      answered := hanswered
      done := fun b hb hphase p hp => hpicks.grows.keeps (h.done b hb hphase p hp)
      covered := fun p hp => ?_ }
    rcases hcovered p hp with hp | hp | hp | hp
    · exact .inl hp
    · exact .inr (.inl hp)
    · cases hp
    · exact .inr (.inr hp)
  · refine { h with
      inflight := ?_
      inflight_le := hfree
      size_le := ?_
      batchIds := ?_
      batch_lt := ?_
      queued := hrest
      picked := ?_
      once := hpicks.grows.nodup h.once
      answered := hanswered
      done := ?_
      covered := fun p hp => ?_ }
    · show s.inflightBatches + 1 = (s.batches ++ [_]).length
      rw [List.length_append, h.inflight]
      rfl
    · refine List.forall_mem_append.2 ⟨h.size_le, fun b hb => ?_⟩
      obtain rfl := List.mem_singleton.1 hb
      exact hpicks.length_le
    · show ((s.batches ++ [_]).map _).Nodup
      rw [List.map_append, List.nodup_append]
      refine ⟨h.batchIds, List.nodup_singleton _, fun i hi j hj heq => ?_⟩
      obtain ⟨b, hb, rfl⟩ := List.mem_map.1 hi
      obtain rfl := List.mem_singleton.1 hj
      exact absurd heq (Nat.ne_of_lt (h.batch_lt b hb))
    · refine List.forall_mem_append.2
        ⟨fun b hb => Nat.lt_succ_of_lt (h.batch_lt b hb), fun b hb => ?_⟩
      obtain rfl := List.mem_singleton.1 hb
      exact Nat.lt_succ_self _
    · refine List.forall_mem_append.2 ⟨h.picked, fun b hb p hp => ?_⟩
      obtain rfl := List.mem_singleton.1 hb
      exact h.queued.subset (hpicks.sub p hp)
    · refine List.forall_mem_append.2
        ⟨fun b hb hphase p hp => hpicks.grows.keeps (h.done b hb hphase p hp),
          fun b hb hphase => ?_⟩
      obtain rfl := List.mem_singleton.1 hb
      cases hphase
    · rcases hcovered p hp with hp | hp | hp | ⟨b, hb, hopen⟩
      · exact .inl hp
      · exact .inr (.inl hp)
      · refine .inr (.inr ⟨_, List.mem_append_right _ List.mem_cons_self, ?_, hp⟩)
        exact fun hphase => by cases hphase
      · exact .inr (.inr ⟨b, List.mem_append_left _ hb, hopen⟩)

/-- The loop ends with an empty queue or without a free slot. -/
theorem Steady.flushLoop {n : Nat} (clock : Nat → Int) (hn : s.queue.length ≤ n) :
    (flushLoop clock n s).Steady opts textOf Computed ∧
      ((EmbedQueryBatcher.flushLoop clock n s).queue ≠ [] →
        (EmbedQueryBatcher.flushLoop clock n s).maxInflightBatches ≤
          (EmbedQueryBatcher.flushLoop clock n s).inflightBatches) := by
  induction n generalizing s with
  | zero =>
    have hnil : s.queue = [] := List.length_eq_zero_iff.1 (Nat.le_zero.1 hn)
    exact ⟨h, fun hne => absurd hnil hne⟩
  | succ n ih =>
    rw [EmbedQueryBatcher.flushLoop]
    split
    · next hcond =>
      have hlt := flushOnce_shrinks h (clock n) hcond.2
      exact ih (h.flushOnce (clock n) hcond.1) (by omega)
    · next hcond =>
      refine ⟨h, fun hne => ?_⟩
      by_contra hfree
      exact hcond ⟨by omega, hne⟩

theorem Steady.flush (clock : Nat → Int) : (s.flush clock).Sound opts textOf Computed := by
  obtain ⟨hsteady, hfull⟩ := h.flushLoop clock le_rfl
  unfold EmbedQueryBatcher.flush
  dsimp only
  split
  · exact hsteady.sound_armTimer _
  · next hcond => exact { hsteady with awake := fun hne => absurd ⟨hne, hfull hne⟩ hcond }

end

/-! ## The handlers of a batch -/

variable {id : Nat} {batch : Batch}

theorem batch?_eq_some (h : (s.batches.map (·.id)).Nodup) (hb : s.batch? id = some batch) :
    batch ∈ s.batches ∧ batch.id = id ∧
      ∀ b ∈ s.batches, b.id = id → b = batch := by
  have hmem := List.mem_of_find?_eq_some hb
  have hid : batch.id = id := by simpa using List.find?_some hb
  exact ⟨hmem, hid, fun b hb' heq => List.inj_on_of_nodup_map h hb' hmem (heq.trans hid.symm)⟩

/-- A batch enters a phase, with the settlements of some of its requests. -/
theorem Sound.setPhase (h : s.Sound opts textOf Computed) (hb : s.batch? id = some batch)
    {phase : BatchPhase} {settled : List (Nat × Settlement α)}
    (hg : Grows (Answers Computed s.accepted) (batch.picked.map (·.id)) s.settled settled)
    (hdone : phase = .settled → ∀ p ∈ batch.picked, p.id ∈ settled.map (·.1)) :
    { s.setPhase id phase with settled }.Sound opts textOf Computed := by
  obtain ⟨hmem, rfl, honly⟩ := batch?_eq_some h.batchIds hb
  have hids : (s.batches.map fun b => if b.id = batch.id then { b with phase } else b).map
      (·.id) = s.batches.map (·.id) := by
    rw [List.map_map]
    refine List.map_congr_left fun b _ => ?_
    dsimp only [Function.comp_apply]
    split <;> rfl
  have hall : ∀ {Q : Batch → Prop}, (∀ b ∈ s.batches, Q b) → (∀ b, Q b → Q { b with phase }) →
      ∀ b ∈ s.batches.map fun b => if b.id = batch.id then { b with phase } else b, Q b := by
    intro Q hQ hset
    refine List.forall_mem_map.2 fun b hmem => ?_
    split
    · exact hset b (hQ b hmem)
    · exact hQ b hmem
  refine { h with
    inflight := ?_
    size_le := hall h.size_le fun _ hb => hb
    batchIds := hids ▸ h.batchIds
    batch_lt := hall h.batch_lt fun _ hb => hb
    picked := hall h.picked fun _ hb => hb
    once := hg.nodup h.once
    answered := ?_
    done := ?_
    covered := fun p hp => ?_ }
  · show s.inflightBatches = (s.batches.map _).length
    rw [List.length_map, h.inflight]
  · refine answered_of_grows h.answered hg fun i hi => ?_
    obtain ⟨p, hp, rfl⟩ := List.mem_map.1 hi
    exact ⟨p, h.picked batch hmem p hp, rfl⟩
  · refine List.forall_mem_map.2 fun b hb' => ?_
    split
    · next hid =>
      obtain rfl := honly b hb' hid
      exact hdone
    · exact fun hphase p hp => hg.keeps (h.done b hb' hphase p hp)
  · rcases h.covered p hp with hp | hp | ⟨b, hb', hopen, hpb⟩
    · exact .inl (hg.keeps hp)
    · exact .inr (.inl hp)
    · by_cases hid : b.id = batch.id
      · obtain rfl := honly b hb' hid
        by_cases hphase : phase = .settled
        · exact .inl (hdone hphase p hpb)
        · refine .inr (.inr ⟨{ b with phase }, List.mem_map.2 ⟨b, hb', if_pos rfl⟩, hphase, hpb⟩)
      · exact .inr (.inr ⟨b, List.mem_map.2 ⟨b, hb', if_neg hid⟩, hopen, hpb⟩)

/-- The loop over the groups answers with the vectors of their texts. -/
theorem resolveGroups_spec {P : Nat → EmbedBatchResult α → Prop} {ids : List Nat}
    {groups : List (String × List Pending)} {texts : List String}
    {vectors : List (Option (List α))} (now : Int) (batchSize : Nat)
    (settled : List (Nat × Settlement α))
    (hgroups : List.Forall₂ (fun g t => t = textOf g.1 ∧ ∀ p ∈ g.2, p.key = g.1) groups texts)
    (hlength : vectors.length = texts.length)
    (hcomputed : ∀ x ∈ texts.zip vectors, ∀ v, x.2 = some v → Computed x.1 v)
    (hids : ∀ g ∈ groups, ∀ p ∈ g.2, p.id ∈ ids)
    (hP : ∀ g ∈ groups, ∀ p ∈ g.2, ∀ out : EmbedBatchResult α,
      Computed (textOf p.key) out.vector → P p.id out) :
    Grows P ids settled (resolveGroups now batchSize groups vectors settled).1 ∧
      ((resolveGroups now batchSize groups vectors settled).2 = .settled → ∀ g ∈ groups,
        ∀ p ∈ g.2, p.id ∈ (resolveGroups now batchSize groups vectors settled).1.map (·.1)) := by
  induction hgroups generalizing vectors settled with
  | nil => exact ⟨.refl, fun _ => List.forall_mem_nil _⟩
  | @cons g t groups texts hg hgroups ih =>
    obtain ⟨key, items⟩ := g
    cases vectors with
    | nil => cases hlength
    | cons vec vectors =>
      rw [List.zip_cons_cons, List.forall_mem_cons] at hcomputed
      rw [List.forall_mem_cons] at hids hP
      rw [resolveGroups]
      split
      · next hvec =>
        obtain ⟨v, rfl, -⟩ := Option.map_eq_some_iff.1 hvec
        obtain ⟨hresolve, hall⟩ := grows_foldl_settle (P := P)
          (fun p => .resolved {
            vector := v
            queueWaitMs := now - p.enqueuedAtMs
            batchSize }) settled hids.1 fun p hp res hres => by
          obtain rfl := Settlement.resolved.inj hres
          refine hP.1 p hp _ ?_
          rw [hg.2 p hp, ← hg.1]
          exact hcomputed.1 v rfl
        obtain ⟨hrest, hdone⟩ := ih _ (Nat.succ.inj hlength) hcomputed.2 hids.2 hP.2
        refine ⟨hresolve.trans hrest, fun hphase => ?_⟩
        rw [List.forall_mem_cons]
        exact ⟨fun p hp => hrest.keeps (hall p hp), hdone hphase⟩
      · exact ⟨.refl, fun hphase => by cases hphase⟩

theorem Sound.thenHandler (h : s.Sound opts textOf Computed) (hb : s.batch? id = some batch)
    {vectors : BatchVectors α} (now : Int)
    (hcomputed : ∀ vs, vectors = some vs → ∀ x ∈ batch.texts.zip vs, ∀ v, x.2 = some v →
      Computed x.1 v) :
    Grows (Answers Computed s.accepted) (batch.picked.map (·.id)) s.settled
        (thenHandler now batch vectors s.settled).1 ∧
      ((EmbedQueryBatcher.thenHandler now batch vectors s.settled).2 = .settled →
        ∀ p ∈ batch.picked,
          p.id ∈ (EmbedQueryBatcher.thenHandler now batch vectors s.settled).1.map (·.1)) := by
  obtain ⟨hmem, -, -⟩ := batch?_eq_some h.batchIds hb
  have htexts : ∀ p ∈ batch.picked, p.text = textOf p.key :=
    fun p hp => h.texts p (h.picked batch hmem p hp)
  unfold EmbedQueryBatcher.thenHandler
  split
  · next vs =>
    split
    · next hlength =>
      have hsub : ∀ g ∈ batch.groups, ∀ p ∈ g.2, p ∈ batch.picked :=
        fun g hg p hp => mem_groupsAndTexts.1 ⟨g, hg, hp⟩
      obtain ⟨hgrows, hdone⟩ := resolveGroups_spec (P := Answers Computed s.accepted) now
        batch.texts.length s.settled (grouped_groupsAndTexts htexts) hlength (hcomputed vs rfl)
        (fun g hg p hp => List.mem_map_of_mem (hsub g hg p hp))
        fun g hg p hp out hout q hq hid => by
          have hp' := h.picked batch hmem p (hsub g hg p hp)
          obtain rfl := eq_of_numbered h.numbered hq hp' hid
          rw [h.texts q hq]
          exact hout
      refine ⟨hgrows, fun hphase p hp => ?_⟩
      obtain ⟨g, hg, hpg⟩ := mem_groupsAndTexts.2 hp
      exact hdone hphase g hg p hpg
    · exact ⟨.refl, fun hphase => by cases hphase⟩
  · exact ⟨.refl, fun hphase => by cases hphase⟩

theorem length_filter_ne {batches : List Batch} (h : (batches.map (·.id)).Nodup)
    (hmem : batch ∈ batches) : (batches.filter (·.id ≠ batch.id)).length + 1 = batches.length := by
  induction batches with
  | nil => cases hmem
  | cons b batches ih =>
    rw [List.map_cons, List.nodup_cons] at h
    by_cases hb : b.id = batch.id
    · have hrest : batches.filter (·.id ≠ batch.id) = batches := by
        refine List.filter_eq_self.2 fun c hc => decide_eq_true fun hid => h.1 ?_
        rw [hb, ← hid]
        exact List.mem_map_of_mem hc
      rw [List.filter_cons_of_neg (by simpa using hb), hrest, List.length_cons]
    · have hmem : batch ∈ batches := by
        rcases List.mem_cons.1 hmem with rfl | hmem
        · exact absurd rfl hb
        · exact hmem
      rw [List.filter_cons_of_pos (by simpa using hb), List.length_cons, List.length_cons,
        ih h.2 hmem]

theorem Sound.finishBatch (h : s.Sound opts textOf Computed) (hb : s.batch? id = some batch)
    (hphase : batch.phase = .settled) : (s.finishBatch id).Sound opts textOf Computed := by
  obtain ⟨hmem, rfl, honly⟩ := batch?_eq_some h.batchIds hb
  have hlength : (s.batches.filter (·.id ≠ batch.id)).length + 1 = s.batches.length := by
    exact length_filter_ne h.batchIds hmem
  have hsub : (s.batches.filter (·.id ≠ batch.id)).Sublist s.batches := List.filter_sublist
  have hsteady : Steady opts textOf Computed { s with
      inflightBatches := s.inflightBatches - 1
      batches := s.batches.filter (·.id ≠ batch.id) } := { h.toSteady with
    inflight := by
      show s.inflightBatches - 1 = (s.batches.filter _).length
      rw [h.inflight]
      omega
    inflight_le := (Nat.sub_le _ _).trans h.inflight_le
    size_le := fun b hb => h.size_le b (hsub.subset hb)
    batchIds := h.batchIds.sublist (hsub.map _)
    batch_lt := fun b hb => h.batch_lt b (hsub.subset hb)
    picked := fun b hb => h.picked b (hsub.subset hb)
    done := fun b hb => h.done b (hsub.subset hb)
    covered := by
      intro p hp
      rcases h.covered p hp with hp | hp | ⟨b, hb, hopen, hpb⟩
      · exact .inl hp
      · exact .inr (.inl hp)
      · refine .inr (.inr ⟨b, List.mem_filter.2 ⟨hb, ?_⟩, hopen, hpb⟩)
        refine decide_eq_true fun hid => hopen ?_
        rw [honly b hb hid, hphase] }
  unfold EmbedQueryBatcher.finishBatch
  dsimp only
  split
  · exact hsteady.sound_armTimer 0
  · next hempty => exact { hsteady with awake := fun hne => absurd hne hempty }

/-! ## Every event -/

theorem sound_new (opts : EmbedQueryBatcherOptions) :
    (new opts : EmbedQueryBatcher α).Sound opts textOf Computed where
  limits := ⟨rfl, rfl⟩
  inflight := rfl
  inflight_le := Nat.zero_le _
  size_le := List.forall_mem_nil _
  batchIds := List.nodup_nil
  batch_lt := List.forall_mem_nil _
  numbered := rfl
  texts := List.forall_mem_nil _
  queued := List.suffix_rfl
  picked := List.forall_mem_nil _
  once := List.nodup_nil
  answered := List.forall_mem_nil _
  done := List.forall_mem_nil _
  covered := List.forall_mem_nil _
  awake := fun hne => absurd rfl hne

theorem Sound.step (h : s.Sound opts textOf Computed) {e : Event α}
    (he : Faithful textOf Computed s e) (hstep : s.step e = some s') :
    s'.Sound opts textOf Computed := by
  cases e with
  | enqueue key text now =>
    simp only [EmbedQueryBatcher.step] at hstep
    split at hstep
    · next s₁ hok =>
      obtain rfl := Option.some.inj hstep
      exact h.enqueue he hok
    · exact Option.some.inj hstep ▸ h
  | fire clock =>
    obtain ⟨delay, -, rfl⟩ := Option.map_eq_some_iff.1 hstep
    have hsteady : Steady opts textOf Computed { s with flushTimer := none } := { h.toSteady with }
    exact hsteady.flush clock
  | fulfilled id vectors now =>
    obtain ⟨batch, hb, hstep⟩ := Option.bind_eq_some_iff.1 hstep
    split at hstep
    · obtain rfl := Option.some.inj hstep
      obtain ⟨hg, hdone⟩ := h.thenHandler hb now (he batch hb)
      exact h.setPhase hb hg hdone
    · cases hstep
  | failed id reason =>
    obtain ⟨batch, hb, hstep⟩ := Option.bind_eq_some_iff.1 hstep
    split at hstep
    · obtain rfl := Option.some.inj hstep
      exact h.setPhase hb .refl fun hphase => by cases hphase
    · cases hstep
  | caught id =>
    obtain ⟨batch, hb, hstep⟩ := Option.bind_eq_some_iff.1 hstep
    split at hstep
    · obtain rfl := Option.some.inj hstep
      obtain ⟨hg, hdone⟩ := grows_foldl_settle (P := Answers Computed s.accepted)
        (fun _ => .rejected ‹_›) s.settled (fun p hp => List.mem_map_of_mem hp)
        fun _ _ _ hres => by cases hres
      exact h.setPhase hb hg fun _ => hdone
    · cases hstep
  | finished id =>
    obtain ⟨batch, hb, hstep⟩ := Option.bind_eq_some_iff.1 hstep
    split at hstep
    · next hphase =>
      obtain rfl := Option.some.inj hstep
      exact h.finishBatch hb hphase
    · cases hstep

end EmbedQueryBatcher

end AionisCore.Util
