import AionisCore.Lib.Run
import Mathlib.Algebra.Order.Floor.Defs
import Mathlib.Data.Rat.Floor
import Mathlib.Data.List.Perm.Basic

/-!
# The gate on requests in flight

A gate hands out at most `maxInflight` tokens. An `acquire` without a free slot waits in
a queue of at most `maxQueue` waiters, each with a timer. A release hands its slot to the
head waiter, or frees it. The system around the gate is the live timers, the tokens its
clients hold and the calls of `resolve` and `reject`.
-/

namespace AionisCore.Util

open Lib

/-- `Math.trunc`. -/
def trunc (x : ℚ) : Int := if 0 ≤ x then ⌊x⌋ else ⌈x⌉

structure InflightGateOptions where
  maxInflight : ℚ
  maxQueue : ℚ
  queueTimeoutMs : ℚ

/-- A waiter stands for the `acquire` that enqueued it, numbered in order of arrival. -/
structure Waiter where
  acquire : Nat
  enqueuedAtMs : Int
  deriving DecidableEq, Repr

structure InflightGate where
  maxInflight : Nat
  maxQueue : Nat
  queueTimeoutMs : Nat
  inflight : Nat := 0
  queue : List Waiter := []
  deriving DecidableEq, Repr

structure GateStats where
  inflight : Nat
  queued : Nat
  maxInflight : Nat
  maxQueue : Nat
  deriving DecidableEq, Repr

def InflightGate.new (opts : InflightGateOptions) : InflightGate where
  maxInflight := (max 1 (trunc opts.maxInflight)).toNat
  maxQueue := (max 0 (trunc opts.maxQueue)).toNat
  queueTimeoutMs := (max 1 (trunc opts.queueTimeoutMs)).toNat

def InflightGate.stats (gate : InflightGate) : GateStats where
  inflight := gate.inflight
  queued := gate.queue.length
  maxInflight := gate.maxInflight
  maxQueue := gate.maxQueue

inductive InflightGateErrorCode where
  | queueFull
  | queueTimeout
  deriving DecidableEq, Repr

structure InflightGateError where
  code : InflightGateErrorCode
  message : String
  details : GateStats
  waitMs : Option Int := none
  queueTimeoutMs : Option Nat := none
  deriving DecidableEq, Repr

/-- A call of `resolve` or of `reject` for an `acquire`. -/
inductive Outcome where
  | token (waitMs : Int)
  | error (error : InflightGateError)
  deriving DecidableEq, Repr

def Outcome.isToken : Outcome → Bool
  | .token _ => true
  | .error _ => false

/-- A token with the `acquire` it answers and its `released` flag. -/
structure InflightGateToken where
  acquire : Nat
  waitMs : Int
  released : Bool := false
  deriving DecidableEq, Repr

structure GateSystem where
  gate : InflightGate
  /-- The number of `acquire` calls so far. -/
  acquires : Nat := 0
  /-- The waiters whose timers are set. -/
  timers : List Waiter := []
  /-- The tokens handed out, in order. -/
  tokens : List InflightGateToken := []
  /-- The calls of `resolve` and `reject`, in order. -/
  settled : List (Nat × Outcome) := []
  deriving DecidableEq, Repr

/-- `makeToken`, resolved to the caller of an `acquire`. -/
def GateSystem.makeToken (s : GateSystem) (acquire : Nat) (waitMs : Int) : GateSystem :=
  { s with
    tokens := s.tokens ++ [{ acquire, waitMs }]
    settled := s.settled ++ [(acquire, .token waitMs)] }

def GateSystem.reject (s : GateSystem) (acquire : Nat) (error : InflightGateError) :
    GateSystem :=
  { s with settled := s.settled ++ [(acquire, .error error)] }

/-- `acquire` at the time `now`. -/
def GateSystem.acquire (s : GateSystem) (now : Int) : GateSystem :=
  let called := { s with acquires := s.acquires + 1 }
  if s.gate.inflight < s.gate.maxInflight then
    GateSystem.makeToken
      { called with gate := { s.gate with inflight := s.gate.inflight + 1 } } s.acquires 0
  else if s.gate.maxQueue ≤ s.gate.queue.length then
    called.reject s.acquires {
      code := .queueFull
      message := "inflight queue is full"
      details := s.gate.stats }
  else
    let waiter := { acquire := s.acquires, enqueuedAtMs := now }
    { called with
      gate := { s.gate with queue := s.gate.queue ++ [waiter] }
      timers := s.timers ++ [waiter] }

/-- `releaseSlot`: the slot goes to the head waiter, whose timer is cleared. -/
def GateSystem.releaseSlot (s : GateSystem) (now : Int) : GateSystem :=
  match s.gate.queue with
  | next :: rest =>
    GateSystem.makeToken
      { s with gate := { s.gate with queue := rest }, timers := s.timers.erase next }
      next.acquire (now - next.enqueuedAtMs)
  | [] => { s with gate := { s.gate with inflight := s.gate.inflight - 1 } }

/-- `release` of the token at a place in the list of tokens. -/
def GateSystem.release (s : GateSystem) (i : Nat) (now : Int) : Option GateSystem :=
  match s.tokens[i]? with
  | none => none
  | some token =>
    if token.released then some s
    else some (GateSystem.releaseSlot
      { s with tokens := s.tokens.set i { token with released := true } } now)

/-- The timer of a waiter fires: the waiter leaves the queue, wherever it stands in it. -/
def GateSystem.fire (s : GateSystem) (waiter : Waiter) (now : Int) : GateSystem :=
  let gate := { s.gate with queue := s.gate.queue.erase waiter }
  GateSystem.reject { s with gate, timers := s.timers.erase waiter } waiter.acquire {
    code := .queueTimeout
    message := "timed out while waiting for inflight slot"
    details := gate.stats
    waitMs := some (now - waiter.enqueuedAtMs)
    queueTimeoutMs := some s.gate.queueTimeoutMs }

/-- Only a timer that is set can fire. -/
def GateSystem.timeout (s : GateSystem) (waiter : Waiter) (now : Int) : Option GateSystem :=
  if waiter ∈ s.timers then some (s.fire waiter now) else none

inductive GateEvent where
  | acquire (now : Int)
  | release (i : Nat) (now : Int)
  | timeout (waiter : Waiter) (now : Int)
  deriving DecidableEq, Repr

/-- One event; a token that was not handed out is not released, and a timer that is not set
does not fire. -/
def GateSystem.step (s : GateSystem) : GateEvent → Option GateSystem
  | .acquire now => some (s.acquire now)
  | .release i now => s.release i now
  | .timeout waiter now => s.timeout waiter now

/-! ## The balance of a gate -/

/-- What holds between the gate, its clients and its timers. -/
structure GateSystem.Balanced (opts : InflightGateOptions) (s : GateSystem) : Prop where
  limits : s.gate.maxInflight = (InflightGate.new opts).maxInflight ∧
    s.gate.maxQueue = (InflightGate.new opts).maxQueue
  /-- The tokens held are the slots counted. -/
  held : s.tokens.countP (!·.released) = s.gate.stats.inflight
  inflight_le : s.gate.stats.inflight ≤ s.gate.maxInflight
  queued_le : s.gate.stats.queued ≤ s.gate.maxQueue
  /-- Nobody waits for a free slot. -/
  full : s.gate.queue ≠ [] → s.gate.inflight = s.gate.maxInflight
  timers : s.timers = s.gate.queue
  /-- Tokens go out in order of arrival, and every waiter came after all of them. -/
  order : (s.tokens.map (·.acquire) ++ s.gate.queue.map (·.acquire)).Pairwise (· < ·)
  /-- The tokens handed out are the calls of `resolve`. -/
  resolved : (s.settled.filter (·.2.isToken)).map (·.1) = s.tokens.map (·.acquire)
  /-- Every `acquire` is settled once or waits once. -/
  once : (s.settled.map (·.1) ++ s.gate.queue.map (·.acquire)).Perm (List.range s.acquires)

variable {opts : InflightGateOptions} {s : GateSystem}

namespace GateSystem.Balanced

theorem new (opts : InflightGateOptions) : Balanced opts { gate := .new opts } where
  limits := ⟨rfl, rfl⟩
  held := rfl
  inflight_le := Nat.zero_le _
  queued_le := Nat.zero_le _
  full := fun h => absurd rfl h
  timers := rfl
  order := List.Pairwise.nil
  resolved := rfl
  once := List.Perm.refl _

theorem lt_acquires (h : s.Balanced opts) :
    ∀ n ∈ s.tokens.map (·.acquire) ++ s.gate.queue.map (·.acquire), n < s.acquires := by
  intro n hn
  refine List.mem_range.1 (h.once.subset ?_)
  rcases List.mem_append.1 hn with hn | hn
  · rw [← h.resolved] at hn
    obtain ⟨x, hx, rfl⟩ := List.mem_map.1 hn
    exact List.mem_append_left _ (List.mem_map_of_mem (List.mem_filter.1 hx).1)
  · exact List.mem_append_right _ hn

theorem pairwise_concat {α : Type} {r : α → α → Prop} {xs : List α} {a : α}
    (h : xs.Pairwise r) (ha : ∀ x ∈ xs, r x a) : (xs ++ [a]).Pairwise r := by
  refine List.pairwise_append.2 ⟨h, List.pairwise_singleton _ _, ?_⟩
  intro x hx b hb
  obtain rfl := List.mem_singleton.1 hb
  exact ha x hx

theorem perm_range_succ {xs ys : List Nat} {n : Nat} (h : (xs ++ ys).Perm (List.range n)) :
    (xs ++ [n] ++ ys).Perm (List.range (n + 1)) := by
  rw [List.range_succ, List.append_assoc]
  exact (List.perm_append_comm.append_left xs).trans
    ((List.append_assoc xs ys [n]) ▸ h.append_right [n])

section

variable (h : s.Balanced opts)

include h

theorem order_fresh (hempty : s.gate.queue = []) :
    (s.tokens.map (·.acquire) ++ [s.acquires]).Pairwise (· < ·) := by
  have hlt := h.lt_acquires
  have hord := h.order
  rw [hempty, List.map_nil, List.append_nil] at hord hlt
  exact pairwise_concat hord hlt

theorem acquire (now : Int) : (s.acquire now).Balanced opts := by
  have hheld : s.tokens.countP (!·.released) = s.gate.inflight := h.held
  have hle : s.gate.inflight ≤ s.gate.maxInflight := h.inflight_le
  unfold GateSystem.acquire
  by_cases hfree : s.gate.inflight < s.gate.maxInflight
  · rw [if_pos hfree]
    -- a free slot means an empty queue, so no waiter is passed over
    have hempty : s.gate.queue = [] := by
      by_contra hne
      exact absurd (h.full hne) (by omega)
    exact {
      limits := h.limits
      held := by
        show (s.tokens ++ [_]).countP _ = s.gate.inflight + 1
        rw [List.countP_append, hheld]
        rfl
      inflight_le := hfree
      queued_le := h.queued_le
      full := fun hne => absurd hempty hne
      timers := h.timers
      order := by
        show ((s.tokens ++ [_]).map _ ++ s.gate.queue.map _).Pairwise _
        rw [hempty, List.map_append, List.map_nil, List.append_nil]
        exact h.order_fresh hempty
      resolved := by
        show ((s.settled ++ [_]).filter _).map _ = (s.tokens ++ [_]).map _
        rw [List.filter_append, List.map_append, List.map_append, h.resolved]
        rfl
      once := by
        show ((s.settled ++ [_]).map _ ++ s.gate.queue.map _).Perm _
        rw [List.map_append]
        exact perm_range_succ h.once }
  · rw [if_neg hfree]
    by_cases hroom : s.gate.maxQueue ≤ s.gate.queue.length
    · rw [if_pos hroom]
      exact { h with
        resolved := by
          show ((s.settled ++ [_]).filter _).map _ = _
          rw [List.filter_append, List.map_append, h.resolved]
          exact List.append_nil _
        once := by
          show ((s.settled ++ [_]).map _ ++ _).Perm _
          rw [List.map_append]
          exact perm_range_succ h.once }
    · rw [if_neg hroom]
      exact { h with
        queued_le := by
          show (s.gate.queue ++ [_]).length ≤ s.gate.maxQueue
          rw [List.length_append, List.length_singleton]
          omega
        full := fun _ => show s.gate.inflight = s.gate.maxInflight by omega
        timers := congrArg (· ++ [_]) h.timers
        order := by
          show (_ ++ (s.gate.queue ++ [_]).map _).Pairwise _
          rw [List.map_append, ← List.append_assoc]
          exact pairwise_concat h.order h.lt_acquires
        once := by
          show (_ ++ (s.gate.queue ++ [_]).map _).Perm (List.range (s.acquires + 1))
          rw [List.map_append, ← List.append_assoc, List.range_succ]
          exact h.once.append_right _ }

/-- What a system is like once a token is marked as released and its slot not yet passed on. -/
theorem releaseSlot {now : Int} {tokens : List InflightGateToken}
    (hcount : tokens.countP (!·.released) + 1 = s.gate.inflight)
    (hmap : tokens.map (·.acquire) = s.tokens.map (·.acquire)) :
    (GateSystem.releaseSlot { s with tokens } now).Balanced opts := by
  have hle : s.gate.inflight ≤ s.gate.maxInflight := h.inflight_le
  have hqueued : s.gate.queue.length ≤ s.gate.maxQueue := h.queued_le
  unfold GateSystem.releaseSlot
  split
  · next next rest hqueue =>
    have hqueue : s.gate.queue = next :: rest := hqueue
    have hfull := h.full (by rw [hqueue]; exact List.cons_ne_nil _ _)
    exact {
      limits := h.limits
      held := by
        show (tokens ++ [_]).countP _ = s.gate.inflight
        rw [List.countP_append, ← hcount]
        rfl
      inflight_le := hle
      queued_le := by
        show rest.length ≤ s.gate.maxQueue
        rw [hqueue, List.length_cons] at hqueued
        omega
      full := fun _ => hfull
      timers := by
        show s.timers.erase next = rest
        rw [h.timers, hqueue, List.erase_cons_head]
      order := by
        show ((tokens ++ [_]).map _ ++ rest.map _).Pairwise _
        have hord := h.order
        rw [hqueue] at hord
        rw [List.map_append, hmap, List.append_assoc]
        exact hord
      resolved := by
        show ((s.settled ++ [_]).filter _).map _ = (tokens ++ [_]).map _
        rw [List.filter_append, List.map_append, List.map_append, h.resolved, hmap]
        rfl
      once := by
        show ((s.settled ++ [_]).map _ ++ rest.map _).Perm _
        have honce := h.once
        rw [hqueue] at honce
        rw [List.map_append, List.append_assoc]
        exact honce }
  · next hqueue =>
    have hqueue : s.gate.queue = [] := hqueue
    exact { h with
      held := by
        show tokens.countP _ = s.gate.inflight - 1
        omega
      inflight_le := show s.gate.inflight - 1 ≤ s.gate.maxInflight by omega
      full := fun hne => absurd hqueue hne
      order := by
        show (tokens.map _ ++ _).Pairwise _
        rw [hmap]
        exact h.order
      resolved := h.resolved.trans hmap.symm }

theorem release {i : Nat} {now : Int} {s' : GateSystem}
    (hr : s.release i now = some s') : s'.Balanced opts := by
  unfold GateSystem.release at hr
  cases htoken : s.tokens[i]? with
  | none =>
    rw [htoken] at hr
    cases hr
  | some token =>
    rw [htoken] at hr
    obtain ⟨hi, hget⟩ := List.getElem?_eq_some_iff.1 htoken
    by_cases hrel : token.released = true
    · simp only [hrel, if_true] at hr
      exact Option.some.inj hr ▸ h
    · simp only [hrel] at hr
      obtain rfl := Option.some.inj hr
      refine h.releaseSlot ?_ ?_
      · have hheld : s.tokens.countP (!·.released) = s.gate.inflight := h.held
        have hpos : 0 < s.tokens.countP (!·.released) :=
          List.countP_pos_iff.2 ⟨token, hget ▸ List.getElem_mem hi, by simpa using hrel⟩
        rw [List.countP_set hi, hget, hheld]
        simp only [hrel, Bool.not_false, if_true, Bool.not_true, Bool.false_eq_true, if_false]
        omega
      · have hsame : (s.tokens.map (·.acquire))[i]? = some token.acquire := by
          rw [List.getElem?_map, htoken, Option.map_some]
        obtain ⟨hj, hval⟩ := List.getElem?_eq_some_iff.1 hsame
        rw [List.map_set, ← hval, List.set_getElem_self]

theorem fire {waiter : Waiter} (hw : waiter ∈ s.timers) (now : Int) :
    (s.fire waiter now).Balanced opts := by
  have hmem : waiter ∈ s.gate.queue := h.timers ▸ hw
  have hsub : (s.gate.queue.erase waiter).Sublist s.gate.queue := List.erase_sublist
  exact {
    limits := h.limits
    held := h.held
    inflight_le := h.inflight_le
    queued_le := Nat.le_trans hsub.length_le h.queued_le
    full := fun hne => h.full (List.ne_nil_of_mem hmem)
    timers := by
      show s.timers.erase waiter = s.gate.queue.erase waiter
      rw [h.timers]
    order := h.order.sublist ((List.Sublist.refl _).append (hsub.map _))
    resolved := by
      show ((s.settled ++ [_]).filter _).map _ = _
      rw [List.filter_append, List.map_append, h.resolved]
      exact List.append_nil _
    once := by
      show ((s.settled ++ [_]).map _ ++ (s.gate.queue.erase waiter).map _).Perm _
      rw [List.map_append, List.append_assoc]
      have hperm := (List.perm_cons_erase hmem).map (·.acquire)
      exact (hperm.symm.append_left _).trans h.once }

theorem step {e : GateEvent} {s' : GateSystem} (hstep : s.step e = some s') : s'.Balanced opts := by
  cases e with
  | acquire now => exact Option.some.inj hstep ▸ h.acquire now
  | release i now => exact h.release hstep
  | timeout waiter now =>
    simp only [GateSystem.step, GateSystem.timeout] at hstep
    by_cases hw : waiter ∈ s.timers
    · rw [if_pos hw] at hstep
      exact Option.some.inj hstep ▸ h.fire hw now
    · rw [if_neg hw] at hstep
      cases hstep

end

end GateSystem.Balanced

/-! ## Every interleaving -/

/-- Under every interleaving of calls, releases and timers the gate stays balanced and no
`acquire` is settled twice. -/
theorem balanced_run {events : List GateEvent}
    (h : run GateSystem.step { gate := .new opts } events = some s) :
    s.Balanced opts ∧ (s.settled.map (·.1)).Nodup := by
  have hs : s.Balanced opts :=
    run_invariant (fun _ _ _ hs hstep => hs.step hstep) (.new opts) h
  refine ⟨hs, ?_⟩
  have hnodup := hs.once.nodup_iff.2 List.nodup_range
  exact (List.nodup_append.1 hnodup).1

def contendedOptions : InflightGateOptions where
  maxInflight := 1
  maxQueue := 1
  queueTimeoutMs := 100

/-- The second caller waits and the third is turned away; the slot passes to the second, the
double release changes nothing, and the fourth gives up. -/
def contendedEvents : List GateEvent :=
  [.acquire 0, .acquire 1, .acquire 2, .release 0 5, .release 0 6, .acquire 7,
    .timeout { acquire := 3, enqueuedAtMs := 7 } 107, .release 1 200]

theorem contendedEvents_balanced :
    ∃ s, run GateSystem.step { gate := .new contendedOptions } contendedEvents = some s ∧
      s.Balanced contendedOptions ∧ (s.settled.map (·.1)).Nodup := by
  have hrun : (run GateSystem.step { gate := .new contendedOptions }
      contendedEvents).isSome = true := by
    decide +kernel
  obtain ⟨s, hs⟩ := Option.isSome_iff_exists.1 hrun
  exact ⟨s, hs, balanced_run hs⟩

end AionisCore.Util
