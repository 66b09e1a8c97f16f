import AionisCore.Lib.OrderedMap
import AionisCore.Util.InflightGate

/-!
# The batcher of embedding queries

Requests wait in a queue that one timer flushes. A flush rejects the requests that waited
too long and starts batches of the others as long as slots are free. A batch asks for one
vector for each of its keys; its handlers run one after the other: `then` resolves the
requests, `catch` rejects what `then` or the batch itself failed with, and `finally` frees
the slot.
-/

namespace AionisCore.Util

open Lib

structure EmbedQueryBatcherOptions where
  maxBatchSize : ℚ
  maxBatchWaitMs : ℚ
  maxInflightBatches : ℚ
  maxQueue : ℚ
  queueTimeoutMs : ℚ

/-- A request that `enqueue` accepted, numbered in order of arrival. -/
structure Pending where
  id : Nat
  key : String
  text : String
  enqueuedAtMs : Int
  deriving DecidableEq, Repr

inductive EmbedQueryBatcherErrorCode where
  | queueFull
  | queueTimeout
  deriving DecidableEq, Repr

/-- `queue_full`, or `queue_timeout` with the time waited. -/
structure EmbedQueryBatcherError where
  code : EmbedQueryBatcherErrorCode
  message : String
  queued : Nat
  inflightBatches : Nat
  /-- `max_queue` and `max_inflight_batches`. -/
  limits : Option (Nat × Nat) := none
  /-- `wait_ms` and `queue_timeout_ms`. -/
  waited : Option (Int × Nat) := none
  deriving DecidableEq, Repr

/-- What a request is rejected with: a time-out, an error of `then`, or the reason of
`runBatch`. -/
inductive RejectReason where
  | batcher (error : EmbedQueryBatcherError)
  | error (message : String)
  | thrown (reason : String)
  deriving DecidableEq, Repr

structure EmbedBatchResult (α : Type) where
  vector : List α
  queueWaitMs : Int
  batchSize : Nat
  deriving DecidableEq, Repr

/-- How the promise of a request is settled. -/
inductive Settlement (α : Type) where
  | resolved (out : EmbedBatchResult α)
  | rejected (err : RejectReason)
  deriving DecidableEq, Repr

/-- What `runBatch` resolves to; `none` stands for a value that is no array. -/
abbrev BatchVectors (α : Type) := Option (List (Option (List α)))

/-- The handler of a batch that runs next. -/
inductive BatchPhase where
  | running
  | failed (err : RejectReason)
  | settled
  deriving DecidableEq, Repr

structure Batch where
  id : Nat
  picked : List Pending
  phase : BatchPhase
  deriving DecidableEq, Repr

structure EmbedQueryBatcher (α : Type) where
  maxBatchSize : Nat
  maxBatchWaitMs : Nat
  maxInflightBatches : Nat
  maxQueue : Nat
  queueTimeoutMs : Nat
  queue : List Pending := []
  inflightBatches : Nat := 0
  /-- The delay of the timer that is armed. -/
  flushTimer : Option Nat := none
  /-- The batches whose `finally` did not run. -/
  batches : List Batch := []
  /-- The number of batches started. -/
  started : Nat := 0
  accepted : List Pending := []
  settled : List (Nat × Settlement α) := []

variable {α : Type}

def EmbedQueryBatcher.new (opts : EmbedQueryBatcherOptions) : EmbedQueryBatcher α where
  maxBatchSize := (max 1 (trunc opts.maxBatchSize)).toNat
  maxBatchWaitMs := (max 0 (trunc opts.maxBatchWaitMs)).toNat
  maxInflightBatches := (max 1 (trunc opts.maxInflightBatches)).toNat
  maxQueue := (max 1 (trunc opts.maxQueue)).toNat
  queueTimeoutMs := (max 1 (trunc opts.queueTimeoutMs)).toNat

/-- A promise is settled by the first call of `resolve` or `reject`. -/
def settle (settled : List (Nat × Settlement α)) (id : Nat) (out : Settlement α) :
    List (Nat × Settlement α) :=
  if id ∈ settled.map (·.1) then settled else settled ++ [(id, out)]

def rejectAll (settled : List (Nat × Settlement α)) (items : List Pending) (err : RejectReason) :
    List (Nat × Settlement α) :=
  items.foldl (fun settled item => settle settled item.id (.rejected err)) settled

/-! ## Groups -/

/-- A request joins the group of its key, or opens one and adds its text. -/
def addToGroup (acc : List (String × List Pending) × List String) (item : Pending) :
    List (String × List Pending) × List String :=
  match OrderedMap.getEntry item.key acc.1 with
  | some g => (OrderedMap.setEntry item.key (g ++ [item]) acc.1, acc.2)
  | none => (OrderedMap.setEntry item.key [item] acc.1, acc.2 ++ [item.text])

def groupsAndTexts (picked : List Pending) : List (String × List Pending) × List String :=
  picked.foldl addToGroup ([], [])

def Batch.groups (batch : Batch) : List (String × List Pending) := (groupsAndTexts batch.picked).1

def Batch.texts (batch : Batch) : List String := (groupsAndTexts batch.picked).2

namespace EmbedQueryBatcher

/-! ## The queue -/

def armTimer (s : EmbedQueryBatcher α) (delay : Nat) : EmbedQueryBatcher α :=
  match s.flushTimer with
  | some _ => s
  | none => { s with flushTimer := some delay }

def scheduleFlush (s : EmbedQueryBatcher α) : EmbedQueryBatcher α := s.armTimer s.maxBatchWaitMs

def scheduleImmediateFlush (s : EmbedQueryBatcher α) : EmbedQueryBatcher α := s.armTimer 0

def enqueue (s : EmbedQueryBatcher α) (key text : String) (now : Int) :
    Except EmbedQueryBatcherError (EmbedQueryBatcher α) :=
  if s.maxQueue ≤ s.queue.length then
    .error {
      code := .queueFull
      message := "embed queue is full"
      queued := s.queue.length
      inflightBatches := s.inflightBatches
      limits := some (s.maxQueue, s.maxInflightBatches) }
  else
    let item := { id := s.accepted.length, key, text, enqueuedAtMs := now }
    .ok (scheduleFlush { s with queue := s.queue ++ [item], accepted := s.accepted ++ [item] })

/-- The error of a request that left the queue too late, with `queued` requests behind it. -/
def timeoutError (s : EmbedQueryBatcher α) (now : Int) (item : Pending) (queued : Nat) :
    EmbedQueryBatcherError where
  code := .queueTimeout
  message := "embed queue timeout"
  queued
  inflightBatches := s.inflightBatches
  waited := some (now - item.enqueuedAtMs, s.queueTimeoutMs)

/-- The inner loop of `flush`: what is picked, and what is left in the queue. -/
def pick (s : EmbedQueryBatcher α) (now : Int) :
    Nat → List Pending → List (Nat × Settlement α) → List Pending × List Pending ×
      List (Nat × Settlement α)
  | 0, queue, settled => ([], queue, settled)
  | _ + 1, [], settled => ([], [], settled)
  | n + 1, item :: queue, settled =>
    if s.queueTimeoutMs < now - item.enqueuedAtMs then
      pick s now (n + 1) queue
        (settle settled item.id (.rejected (.batcher (s.timeoutError now item queue.length))))
    else
      let (picked, rest, settled) := pick s now n queue settled
      (item :: picked, rest, settled)

/-- One round of `flush`. -/
def flushOnce (s : EmbedQueryBatcher α) (now : Int) : EmbedQueryBatcher α :=
  let (picked, rest, settled) := s.pick now s.maxBatchSize s.queue s.settled
  let s := { s with queue := rest, settled }
  if picked.isEmpty then s
  else { s with
    inflightBatches := s.inflightBatches + 1
    batches := s.batches ++ [{ id := s.started, picked, phase := .running }]
    started := s.started + 1 }

/-- The outer loop of `flush`, for as many rounds as there are requests at most. -/
def flushLoop (clock : Nat → Int) : Nat → EmbedQueryBatcher α → EmbedQueryBatcher α
  | 0, s => s
  | n + 1, s =>
    if s.inflightBatches < s.maxInflightBatches ∧ s.queue ≠ [] then
      flushLoop clock n (s.flushOnce (clock n))
    else s

def flush (s : EmbedQueryBatcher α) (clock : Nat → Int) : EmbedQueryBatcher α :=
  let s := flushLoop clock s.queue.length s
  if s.queue ≠ [] ∧ s.maxInflightBatches ≤ s.inflightBatches then s.scheduleFlush else s

/-! ## The handlers of a batch -/

/-- The loop of `then` over the groups and their vectors. It stops at a vector of a wrong
length, and leaves what it resolved. -/
def resolveGroups (now : Int) (batchSize : Nat) :
    List (String × List Pending) → List (Option (List α)) → List (Nat × Settlement α) →
      List (Nat × Settlement α) × BatchPhase
  | (key, items) :: groups, vec :: vectors, settled =>
    if vec.map List.length = some 1536 then
      let resolved := items.foldl (fun settled item => settle settled item.id (.resolved {
        vector := vec.getD []
        queueWaitMs := now - item.enqueuedAtMs
        batchSize })) settled
      resolveGroups now batchSize groups vectors resolved
    else
      let got := (vec.map fun v => toString v.length).getD "non-array"
      (settled, .failed (.error
        s!"embed batch vector dim mismatch for key={key}: expected=1536 got={got}"))
  | _, _, settled => (settled, .settled)

/-- `then`: there has to be a vector for each text. -/
def thenHandler (now : Int) (batch : Batch) (vectors : BatchVectors α)
    (settled : List (Nat × Settlement α)) : List (Nat × Settlement α) × BatchPhase :=
  match vectors with
  | some vs =>
    if vs.length = batch.texts.length then
      resolveGroups now batch.texts.length batch.groups vs settled
    else (settled, .failed (.error
      s!"embed batch result mismatch: vectors={vs.length} texts={batch.texts.length}"))
  | none => (settled, .failed (.error
      s!"embed batch result mismatch: vectors=non-array texts={batch.texts.length}"))

def setPhase (s : EmbedQueryBatcher α) (id : Nat) (phase : BatchPhase) : EmbedQueryBatcher α :=
  { s with batches := s.batches.map fun b => if b.id = id then { b with phase } else b }

/-- `finally`. -/
def finishBatch (s : EmbedQueryBatcher α) (id : Nat) : EmbedQueryBatcher α :=
  let s := { s with
    inflightBatches := s.inflightBatches - 1
    batches := s.batches.filter (·.id ≠ id) }
  if s.queue ≠ [] then s.scheduleImmediateFlush else s

/-! ## Events -/

inductive Event (α : Type) where
  | enqueue (key text : String) (now : Int)
  /-- The timer fires; the clock is read in every round of the flush. -/
  | fire (clock : Nat → Int)
  | fulfilled (batch : Nat) (vectors : BatchVectors α) (now : Int)
  | failed (batch : Nat) (reason : String)
  | caught (batch : Nat)
  | finished (batch : Nat)

def batch? (s : EmbedQueryBatcher α) (id : Nat) : Option Batch := s.batches.find? (·.id = id)

/-- One event. A call of `enqueue` that throws changes nothing; only an armed timer fires, and
the handlers of a batch run in their order. -/
def step (s : EmbedQueryBatcher α) : Event α → Option (EmbedQueryBatcher α)
  | .enqueue key text now =>
    match s.enqueue key text now with
    | .ok s' => some s'
    | .error _ => some s
  | .fire clock =>
    s.flushTimer.map fun _ => flush { s with flushTimer := none } clock
  | .fulfilled id vectors now =>
    (s.batch? id).bind fun batch =>
      if batch.phase = .running then
        let (settled, phase) := thenHandler now batch vectors s.settled
        some { s.setPhase id phase with settled }
      else none
  | .failed id reason =>
    (s.batch? id).bind fun batch =>
      if batch.phase = .running then some (s.setPhase id (.failed (.thrown reason))) else none
  | .caught id =>
    (s.batch? id).bind fun batch =>
      match batch.phase with
      | .failed err =>
        some { s.setPhase id .settled with settled := rejectAll s.settled batch.picked err }
      | _ => none
  | .finished id =>
    (s.batch? id).bind fun batch =>
      if batch.phase = .settled then some (s.finishBatch id) else none

end EmbedQueryBatcher

/-! ## Settlements -/

variable {old new mid : List (Nat × Settlement α)} {ids : List Nat}
  {P : Nat → EmbedBatchResult α → Prop}

/-- Settlements of some of the ids are added, and what is resolved to satisfies `P`. -/
structure Grows (P : Nat → EmbedBatchResult α → Prop) (ids : List Nat)
    (old new : List (Nat × Settlement α)) : Prop where
  nodup : (old.map (·.1)).Nodup → (new.map (·.1)).Nodup
  sub : ∀ x ∈ old, x ∈ new
  mem : ∀ x ∈ new, x ∈ old ∨ x.1 ∈ ids ∧ ∀ out, x.2 = .resolved out → P x.1 out

namespace Grows

theorem refl : Grows P ids old old where
  nodup := id
  sub := fun _ hx => hx
  mem := fun _ hx => .inl hx

theorem trans (h : Grows P ids old mid) (h' : Grows P ids mid new) : Grows P ids old new where
  nodup := fun hn => h'.nodup (h.nodup hn)
  sub := fun x hx => h'.sub x (h.sub x hx)
  mem := by
    intro x hx
    rcases h'.mem x hx with hx | hx
    · exact h.mem x hx
    · exact .inr hx

theorem mono {ids' : List Nat} (h : Grows P ids old new) (hids : ∀ i ∈ ids, i ∈ ids') :
    Grows P ids' old new where
  nodup := h.nodup
  sub := h.sub
  mem := by
    intro x hx
    rcases h.mem x hx with hx | ⟨hi, hP⟩
    · exact .inl hx
    · exact .inr ⟨hids _ hi, hP⟩

theorem keeps (h : Grows P ids old new) {i : Nat} (hi : i ∈ old.map (·.1)) :
    i ∈ new.map (·.1) := by
  obtain ⟨x, hx, rfl⟩ := List.mem_map.1 hi
  exact List.mem_map_of_mem (h.sub x hx)

theorem settle {i : Nat} {out : Settlement α} (hi : i ∈ ids)
    (hP : ∀ res, out = .resolved res → P i res) : Grows P ids old (settle old i out) := by
  unfold Util.settle
  split
  · exact refl
  · next hnew =>
    refine ⟨fun hn => ?_, fun x hx => List.mem_append_left _ hx, fun x hx => ?_⟩
    · rw [List.map_append, List.nodup_append]
      refine ⟨hn, List.nodup_singleton _, fun a ha b hb heq => hnew ?_⟩
      obtain rfl := List.mem_singleton.1 hb
      exact heq ▸ ha
    · rcases List.mem_append.1 hx with hx | hx
      · exact .inl hx
      · obtain rfl := List.mem_singleton.1 hx
        exact .inr ⟨hi, hP⟩

end Grows

theorem mem_settle (settled : List (Nat × Settlement α)) (i : Nat) (out : Settlement α) :
    i ∈ (settle settled i out).map (·.1) := by
  unfold settle
  split
  · next h => exact h
  · rw [List.map_append]
    exact List.mem_append_right _ List.mem_cons_self

/-- Every request of a list is settled, each in its own way. -/
theorem grows_foldl_settle {items : List Pending} (out : Pending → Settlement α)
    (old : List (Nat × Settlement α)) (hids : ∀ p ∈ items, p.id ∈ ids)
    (hP : ∀ p ∈ items, ∀ res, out p = .resolved res → P p.id res) :
    Grows P ids old (items.foldl (fun settled p => settle settled p.id (out p)) old) ∧
      ∀ p ∈ items, p.id ∈
        (items.foldl (fun settled p => settle settled p.id (out p)) old).map (·.1) := by
  induction items generalizing old with
  | nil => exact ⟨.refl, fun p hp => by cases hp⟩
  | cons q items ih =>
    rw [List.forall_mem_cons] at hids hP
    obtain ⟨hgrows, hall⟩ := @ih (settle old q.id (out q)) hids.2 hP.2
    refine ⟨(Grows.settle hids.1 hP.1).trans hgrows, ?_⟩
    rw [List.forall_mem_cons]
    exact ⟨hgrows.keeps (mem_settle old q.id (out q)), hall⟩

/-! ## Groups of equal keys -/

/-- A text for each group, and the requests of a group have its key. -/
def Grouped (textOf : String → String) (acc : List (String × List Pending) × List String) : Prop :=
  List.Forall₂ (fun g t => t = textOf g.1 ∧ ∀ p ∈ g.2, p.key = g.1) acc.1 acc.2

theorem forall₂_setEntry {β γ : Type} {R : String × β → γ → Prop} {es : List (String × β)}
    {ts : List γ} {k : String} {a b : β} (h : List.Forall₂ R es ts)
    (ha : OrderedMap.getEntry k es = some a) (hR : ∀ t, R (k, a) t → R (k, b) t) :
    List.Forall₂ R (OrderedMap.setEntry k b es) ts := by
  induction h with
  | nil => cases ha
  | @cons e t es ts he hes ih =>
    rw [OrderedMap.getEntry] at ha
    rw [OrderedMap.setEntry]
    split at ha
    · next hk =>
      obtain ⟨k', a'⟩ := e
      obtain rfl : k' = k := hk
      obtain rfl := Option.some.inj ha
      rw [if_pos rfl]
      exact .cons (hR t he) hes
    · next hk =>
      rw [if_neg hk]
      exact .cons he (ih ha)

theorem grouped_addToGroup {textOf : String → String}
    {acc : List (String × List Pending) × List String} {item : Pending}
    (h : Grouped textOf acc) (htext : item.text = textOf item.key) :
    Grouped textOf (addToGroup acc item) := by
  unfold addToGroup Grouped at *
  split
  · next g hg =>
    refine forall₂_setEntry h hg fun t ht => ⟨ht.1, fun p hp => ?_⟩
    rcases List.mem_append.1 hp with hp | hp
    · exact ht.2 p hp
    · obtain rfl := List.mem_singleton.1 hp
      rfl
  · next hg =>
    dsimp only
    rw [OrderedMap.setEntry_of_none hg]
    refine List.rel_append h (.cons ⟨htext, fun p hp => ?_⟩ .nil)
    obtain rfl := List.mem_singleton.1 hp
    rfl

theorem mem_addToGroup {acc : List (String × List Pending) × List String} {item p : Pending} :
    (∃ g ∈ (addToGroup acc item).1, p ∈ g.2) ↔ (∃ g ∈ acc.1, p ∈ g.2) ∨ p = item := by
  unfold addToGroup
  split
  · next g hg =>
    obtain ⟨pre, post, hsplit, hset⟩ := OrderedMap.exists_split hg
    dsimp only
    rw [hset, hsplit]
    simp only [List.mem_append, List.mem_cons, List.not_mem_nil, or_false, or_and_right,
      exists_or, exists_eq_left]
    grind
  · next hg =>
    dsimp only
    rw [OrderedMap.setEntry_of_none hg]
    simp only [List.mem_append, List.mem_cons, List.not_mem_nil, or_false, or_and_right,
      exists_or, exists_eq_left]

theorem grouped_groupsAndTexts {textOf : String → String} {picked : List Pending}
    (h : ∀ p ∈ picked, p.text = textOf p.key) : Grouped textOf (groupsAndTexts picked) := by
  have hfold : ∀ acc, Grouped textOf acc → Grouped textOf (picked.foldl addToGroup acc) := by
    induction picked with
    | nil => exact fun acc hacc => hacc
    | cons p picked ih =>
      intro acc hacc
      rw [List.forall_mem_cons] at h
      exact ih h.2 _ (grouped_addToGroup hacc h.1)
  exact hfold _ .nil

theorem mem_groupsAndTexts {picked : List Pending} {p : Pending} :
    (∃ g ∈ (groupsAndTexts picked).1, p ∈ g.2) ↔ p ∈ picked := by
  have hfold : ∀ acc, (∃ g ∈ (picked.foldl addToGroup acc).1, p ∈ g.2) ↔
      (∃ g ∈ acc.1, p ∈ g.2) ∨ p ∈ picked := by
    induction picked with
    | nil => simp
    | cons q picked ih =>
      intro acc
      rw [List.foldl_cons, ih, mem_addToGroup, List.mem_cons, or_assoc]
  rw [groupsAndTexts, hfold]
  simp

end AionisCore.Util
