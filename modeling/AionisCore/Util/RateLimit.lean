import Mathlib.Algebra.Order.Floor.Defs
import Mathlib.Data.Rat.Floor
import Mathlib.Logic.Function.Basic
import Mathlib.Tactic.Linarith
import Mathlib.Tactic.Ring

/-!
# The rate limiter

A limiter has a bucket of tokens for every key. A check takes its cost out of the bucket of its
key, which fills again at `rate` tokens a second up to `burst`. Every so many checks the buckets
that nobody has looked at for `ttlMs` are dropped, and a dropped bucket comes back full.
-/

namespace AionisCore.Util

/-- The numbers of the options; `none` is a number that is not finite. -/
structure TokenBucketOptions where
  ratePerSec : Option ℚ
  burst : Option ℚ
  ttlMs : ℚ
  sweepEveryN : ℚ

inductive RateLimitResult where
  | allowed (remaining : ℚ)
  | refused (retryAfterMs : Int)
  deriving DecidableEq, Repr

structure Bucket where
  tokens : ℚ
  lastRefillMs : ℚ
  lastSeenMs : ℚ
  deriving DecidableEq, Repr

/-- What the constructor sets once. -/
structure TokenBucketLimiter where
  rate : ℚ
  burst : ℚ
  ttlMs : ℚ
  sweepEveryN : ℚ
  rate_pos : 0 < rate
  burst_pos : 0 < burst

/-- The buckets, and how many checks there have been. -/
structure LimiterState where
  buckets : String → Option Bucket := fun _ => none
  sweeps : Nat := 0

/-- The error is its text, which ends in the number. -/
def TokenBucketLimiter.new (opts : TokenBucketOptions) :
    Except (String × Option ℚ) TokenBucketLimiter :=
  match opts.ratePerSec with
  | none => .error ("TokenBucketLimiter: rate_per_sec must be >0; got ", none)
  | some rate =>
    if hrate : rate ≤ 0 then
      .error ("TokenBucketLimiter: rate_per_sec must be >0; got ", some rate)
    else match opts.burst with
    | none => .error ("TokenBucketLimiter: burst must be >0; got ", none)
    | some burst =>
      if hburst : burst ≤ 0 then
        .error ("TokenBucketLimiter: burst must be >0; got ", some burst)
      else .ok {
        rate, burst
        ttlMs := max 1000 opts.ttlMs
        sweepEveryN := max 1 opts.sweepEveryN
        rate_pos := not_le.1 hrate
        burst_pos := not_le.1 hburst }

/-- A cost that is not a positive number counts as one. -/
def normalCost : Option ℚ → ℚ
  | none => 1
  | some cost => if cost ≤ 0 then 1 else cost

namespace TokenBucketLimiter

variable (limiter : TokenBucketLimiter)

def sweep (nowMs : ℚ) (buckets : String → Option Bucket) : String → Option Bucket := fun k =>
  (buckets k).filter fun b => ¬ nowMs - b.lastSeenMs > limiter.ttlMs

/-- Counts the check, and sweeps when it is the turn. -/
def count (nowMs : ℚ) (state : LimiterState) : LimiterState :=
  let sweeps := state.sweeps + 1
  -- `sweeps % sweepEveryN === 0`
  if (sweeps / limiter.sweepEveryN).isInt then ⟨limiter.sweep nowMs state.buckets, sweeps⟩
  else ⟨state.buckets, sweeps⟩

/-- The bucket with the tokens of the time since its last refill. -/
def refill (nowMs : ℚ) (b : Bucket) : Bucket :=
  let dtMs := max 0 (nowMs - b.lastRefillMs)
  let b := if dtMs > 0 then
      { b with tokens := min limiter.burst (b.tokens + dtMs / 1000 * limiter.rate)
               lastRefillMs := nowMs }
    else b
  { b with lastSeenMs := nowMs }

def check (key : String) (cost : Option ℚ) (nowMs : ℚ) (state : LimiterState) :
    RateLimitResult × LimiterState :=
  if key = "" then (.allowed limiter.burst, state)
  else
    let cost := normalCost cost
    let state := limiter.count nowMs state
    let b := limiter.refill nowMs ((state.buckets key).getD ⟨limiter.burst, nowMs, nowMs⟩)
    if cost ≤ b.tokens then
      let b := { b with tokens := b.tokens - cost }
      (.allowed ⌊b.tokens⌋, { state with buckets := Function.update state.buckets key (some b) })
    else
      let missing := cost - b.tokens
      let sec := missing / limiter.rate
      (.refused (max 1 ⌈sec * 1000⌉),
        { state with buckets := Function.update state.buckets key (some b) })

end TokenBucketLimiter

/-! ## Histories -/

structure Check where
  key : String
  cost : Option ℚ
  nowMs : ℚ

def RateLimitResult.IsAllowed : RateLimitResult → Prop
  | .allowed _ => True
  | .refused _ => False

instance (result : RateLimitResult) : Decidable result.IsAllowed :=
  match result with
  | .allowed _ => isTrue trivial
  | .refused _ => isFalse id

namespace TokenBucketLimiter

variable (limiter : TokenBucketLimiter)

/-- What a check answers. -/
def answer (state : LimiterState) (c : Check) : RateLimitResult :=
  (limiter.check c.key c.cost c.nowMs state).1

/-- The state after some checks. -/
def after (state : LimiterState) : List Check → LimiterState
  | [] => state
  | c :: cs => after (limiter.check c.key c.cost c.nowMs state).2 cs

/-- What a check takes from the bucket of a key. -/
def charged (key : String) (state : LimiterState) (c : Check) : ℚ :=
  if c.key = key ∧ (limiter.answer state c).IsAllowed then normalCost c.cost else 0

/-- The total cost admitted for a key from `t₁` to `t₂`. -/
def admitted (key : String) (t₁ t₂ : ℚ) (state : LimiterState) : List Check → ℚ
  | [] => 0
  | c :: cs =>
    (if t₁ ≤ c.nowMs ∧ c.nowMs ≤ t₂ then limiter.charged key state c else 0) +
      admitted key t₁ t₂ (limiter.check c.key c.cost c.nowMs state).2 cs

/-- The tokens that a check of the key at `t` would find without a sweep. -/
def available (key : String) (state : LimiterState) (t : ℚ) : ℚ :=
  match state.buckets key with
  | none => limiter.burst
  | some b => min limiter.burst (b.tokens + (t - b.lastRefillMs) / 1000 * limiter.rate)

/-- The next check, at `nowMs`, drops the bucket of the key only if it is full again. -/
def SparedNow (key : String) (state : LimiterState) (nowMs : ℚ) : Prop :=
  ∀ b, state.buckets key = some b → (limiter.count nowMs state).buckets key = none →
    limiter.burst ≤ limiter.available key state nowMs

/-- No sweep on the way drops the bucket of the key before it is full again. -/
def Spared (key : String) (state : LimiterState) : List Check → Prop
  | [] => True
  | c :: cs => (c.key ≠ "" → limiter.SparedNow key state c.nowMs) ∧
    Spared key (limiter.check c.key c.cost c.nowMs state).2 cs

/-- Holds of the bucket of a key from its last check, at `t` at the latest. -/
structure Kept (t : ℚ) (b : Bucket) : Prop where
  nonneg : 0 ≤ b.tokens
  le_burst : b.tokens ≤ limiter.burst
  seen : b.lastSeenMs = b.lastRefillMs
  le_now : b.lastRefillMs ≤ t

/-- The bucket of the key, if there is one, is as the checks up to `t` leave it. -/
def Inv (key : String) (t : ℚ) (state : LimiterState) : Prop :=
  ∀ b, state.buckets key = some b → limiter.Kept t b

variable {limiter} {key : String} {state : LimiterState} {t u : ℚ}

theorem normalCost_pos (cost : Option ℚ) : 0 < normalCost cost := by
  unfold normalCost
  split
  · exact one_pos
  · split
    · exact one_pos
    · next hpos => exact not_le.1 hpos

/-! ## The tokens of a key -/

theorem available_le_burst : limiter.available key state t ≤ limiter.burst := by
  unfold available
  split
  · exact le_rfl
  · exact min_le_left ..

theorem refill_nonneg (h : t ≤ u) : 0 ≤ (u - t) / 1000 * limiter.rate :=
  mul_nonneg (div_nonneg (sub_nonneg.2 h) (by norm_num)) limiter.rate_pos.le

theorem available_later (h : t ≤ u) : limiter.available key state u =
    min limiter.burst (limiter.available key state t + (u - t) / 1000 * limiter.rate) := by
  have hfill : 0 ≤ (u - t) / 1000 * limiter.rate := refill_nonneg h
  unfold available
  split
  · exact (min_eq_left (le_add_of_nonneg_right hfill)).symm
  · next b hb =>
    have hsum : b.tokens + (u - b.lastRefillMs) / 1000 * limiter.rate =
        b.tokens + (t - b.lastRefillMs) / 1000 * limiter.rate + (u - t) / 1000 * limiter.rate := by
      ring
    rw [hsum]
    rcases le_total limiter.burst (b.tokens + (t - b.lastRefillMs) / 1000 * limiter.rate) with
      hfull | hroom
    · rw [min_eq_left hfull, min_eq_left (le_add_of_nonneg_right hfill)]
      exact min_eq_left (hfull.trans (le_add_of_nonneg_right hfill))
    · rw [min_eq_right hroom]

theorem available_le_later (h : t ≤ u) : limiter.available key state u ≤
    limiter.available key state t + (u - t) / 1000 * limiter.rate := by
  rw [available_later h]
  exact min_le_right ..

/-- A refilled bucket. -/
theorem Kept.refill {b : Bucket} (h : limiter.Kept t b) (htu : t ≤ u) : limiter.refill u b =
    ⟨min limiter.burst (b.tokens + (u - b.lastRefillMs) / 1000 * limiter.rate), u, u⟩ := by
  have hnow : b.lastRefillMs ≤ u := h.le_now.trans htu
  unfold TokenBucketLimiter.refill
  rw [max_eq_right (sub_nonneg.2 hnow)]
  dsimp only
  split
  · rfl
  · next hsame =>
    have hequal : u = b.lastRefillMs := by linarith
    rw [← hequal, sub_self, zero_div, zero_mul, add_zero, min_eq_right h.le_burst, hequal]

/-! ## Sweeps -/

theorem buckets_count (limiter : TokenBucketLimiter) (key : String) (state : LimiterState)
    (nowMs : ℚ) : (limiter.count nowMs state).buckets key = state.buckets key ∨
    (limiter.count nowMs state).buckets key = none := by
  unfold count sweep
  dsimp only
  split
  · dsimp only
    cases hb : state.buckets key with
    | none => exact .inl rfl
    | some b =>
      rw [Option.filter_some]
      split
      · exact .inl rfl
      · exact .inr rfl
  · exact .inl rfl

theorem Inv.count (h : limiter.Inv key t state) (nowMs : ℚ) :
    limiter.Inv key t (limiter.count nowMs state) := by
  intro b hb
  rcases buckets_count limiter key state nowMs with hsame | hnone
  · exact h b (hsame ▸ hb)
  · rw [hnone] at hb
    cases hb

theorem available_congr {state' : LimiterState} (h : state'.buckets key = state.buckets key) :
    limiter.available key state' t = limiter.available key state t := by
  unfold available
  rw [h]

theorem available_le_count (nowMs : ℚ) :
    limiter.available key state t ≤ limiter.available key (limiter.count nowMs state) t := by
  rcases buckets_count limiter key state nowMs with hsame | hnone
  · exact (available_congr hsame).ge
  · refine available_le_burst.trans (le_of_eq ?_)
    unfold available
    rw [hnone]

theorem SparedNow.available_count {nowMs : ℚ} (h : limiter.SparedNow key state nowMs) :
    limiter.available key (limiter.count nowMs state) nowMs =
      limiter.available key state nowMs := by
  rcases buckets_count limiter key state nowMs with hsame | hnone
  · exact available_congr hsame
  · cases hb : state.buckets key with
    | none => exact available_congr (hnone.trans hb.symm)
    | some b =>
      exact le_antisymm (available_le_burst.trans (h b hb hnone)) (available_le_count nowMs)

/-! ## One check -/

section Check

variable {c : Check}

/-- The tokens that a check finds in the bucket of its key. -/
def found (limiter : TokenBucketLimiter) (state : LimiterState) (c : Check) : ℚ :=
  limiter.available c.key (limiter.count c.nowMs state) c.nowMs

section

variable (h : limiter.Inv c.key t state) (hnow : t ≤ c.nowMs)

include h hnow

theorem refill_found : limiter.refill c.nowMs (((limiter.count c.nowMs state).buckets c.key).getD
      ⟨limiter.burst, c.nowMs, c.nowMs⟩) = ⟨limiter.found state c, c.nowMs, c.nowMs⟩ := by
  unfold found available
  cases hb : (limiter.count c.nowMs state).buckets c.key with
  | none => simp [TokenBucketLimiter.refill]
  | some b => exact (h.count c.nowMs b hb).refill hnow

/-- The answer and the new buckets of a check. -/
theorem check_eq (hkey : c.key ≠ "") : limiter.check c.key c.cost c.nowMs state =
      if normalCost c.cost ≤ limiter.found state c then
        (.allowed ⌊limiter.found state c - normalCost c.cost⌋, {
          limiter.count c.nowMs state with
          buckets := Function.update (limiter.count c.nowMs state).buckets c.key
            (some ⟨limiter.found state c - normalCost c.cost, c.nowMs, c.nowMs⟩) })
      else
        (.refused (max 1 ⌈(normalCost c.cost - limiter.found state c) / limiter.rate * 1000⌉), {
          limiter.count c.nowMs state with
          buckets := Function.update (limiter.count c.nowMs state).buckets c.key
            (some ⟨limiter.found state c, c.nowMs, c.nowMs⟩) }) := by
  unfold check
  rw [if_neg hkey]
  dsimp only
  rw [refill_found h hnow]

theorem isAllowed_iff (hkey : c.key ≠ "") :
    (limiter.answer state c).IsAllowed ↔ normalCost c.cost ≤ limiter.found state c := by
  unfold answer
  rw [check_eq h hnow hkey]
  split
  · next hle => exact iff_of_true trivial hle
  · next hlt => exact iff_of_false id hlt

end

theorem charged_nonneg : 0 ≤ limiter.charged key state c := by
  unfold charged
  split
  · exact (normalCost_pos c.cost).le
  · exact le_rfl

/-- A check leaves the bucket of its key with what it found less what it took. -/
theorem bucket_check (h : limiter.Inv c.key t state) (hnow : t ≤ c.nowMs) (hkey : c.key ≠ "") :
    (limiter.check c.key c.cost c.nowMs state).2.buckets c.key =
      some ⟨limiter.found state c - limiter.charged c.key state c, c.nowMs, c.nowMs⟩ := by
  unfold charged
  simp only [isAllowed_iff h hnow hkey, true_and]
  rw [check_eq h hnow hkey]
  split
  · exact Function.update_self ..
  · rw [sub_zero]
    exact Function.update_self ..

theorem bucket_check_of_ne (hne : c.key ≠ key) (hkey : c.key ≠ "") :
    (limiter.check c.key c.cost c.nowMs state).2.buckets key =
      (limiter.count c.nowMs state).buckets key := by
  unfold check
  rw [if_neg hkey]
  dsimp only
  split
  · exact Function.update_of_ne hne.symm ..
  · exact Function.update_of_ne hne.symm ..

theorem check_empty (hkey : c.key = "") :
    (limiter.check c.key c.cost c.nowMs state).2 = state := by
  unfold check
  rw [if_pos hkey]

theorem charged_of_ne (hne : c.key ≠ key) : limiter.charged key state c = 0 :=
  if_neg fun h => hne h.1

theorem found_nonneg (h : limiter.Inv c.key t state) (hnow : t ≤ c.nowMs) :
    0 ≤ limiter.found state c := by
  unfold found available
  cases hb : (limiter.count c.nowMs state).buckets c.key with
  | none => exact limiter.burst_pos.le
  | some b =>
    have hkept := h.count c.nowMs b hb
    exact le_min limiter.burst_pos.le
      (add_nonneg hkept.nonneg (refill_nonneg (hkept.le_now.trans hnow)))

theorem charged_le_found (h : limiter.Inv c.key t state) (hnow : t ≤ c.nowMs)
    (hkey : c.key ≠ "") : limiter.charged c.key state c ≤ limiter.found state c := by
  unfold charged
  split
  · next hallowed => exact (isAllowed_iff h hnow hkey).1 hallowed.2
  · exact found_nonneg h hnow

section

variable (h : limiter.Inv key t state) (hnow : t ≤ c.nowMs)

include h hnow

theorem Inv.check : limiter.Inv key c.nowMs (limiter.check c.key c.cost c.nowMs state).2 := by
  have hlater : ∀ b, limiter.Kept t b → limiter.Kept c.nowMs b := fun b hb =>
    ⟨hb.nonneg, hb.le_burst, hb.seen, hb.le_now.trans hnow⟩
  intro b hb
  by_cases hempty : c.key = ""
  · rw [check_empty hempty] at hb
    exact hlater b (h b hb)
  by_cases hne : c.key = key
  · subst hne
    rw [bucket_check h hnow hempty, Option.some.injEq] at hb
    subst hb
    exact ⟨sub_nonneg.2 (charged_le_found h hnow hempty),
      (sub_le_self _ charged_nonneg).trans available_le_burst, rfl, le_rfl⟩
  · rw [bucket_check_of_ne hne hempty] at hb
    exact hlater b (h.count c.nowMs b hb)

/-- What a check leaves for the key. -/
theorem available_check (hkey : key ≠ "") (hempty : c.key ≠ "") :
    limiter.available key (limiter.check c.key c.cost c.nowMs state).2 c.nowMs =
      limiter.available key (limiter.count c.nowMs state) c.nowMs -
        limiter.charged key state c := by
  by_cases hne : c.key = key
  · subst hne
    have hle : limiter.found state c - limiter.charged c.key state c ≤ limiter.burst :=
      (sub_le_self _ charged_nonneg).trans available_le_burst
    rw [available, bucket_check h hnow hkey]
    dsimp only
    rw [sub_self, zero_div, zero_mul, add_zero, min_eq_right hle]
    rfl
  · rw [available_congr (bucket_check_of_ne hne hempty), charged_of_ne hne, sub_zero]

/-- A check takes no more than it is charged for. -/
theorem le_available_check (hkey : key ≠ "") :
    limiter.available key state c.nowMs - limiter.charged key state c ≤
      limiter.available key (limiter.check c.key c.cost c.nowMs state).2 c.nowMs := by
  by_cases hempty : c.key = ""
  · rw [check_empty hempty, charged_of_ne (hempty.trans_ne hkey.symm), sub_zero]
  · rw [available_check h hnow hkey hempty]
    exact sub_le_sub_right (available_le_count c.nowMs) _

/-- A check that spares the key leaves no more than it was not charged for. -/
theorem available_check_le (hkey : key ≠ "")
    (hspared : c.key ≠ "" → limiter.SparedNow key state c.nowMs) :
    limiter.available key (limiter.check c.key c.cost c.nowMs state).2 c.nowMs ≤
      limiter.available key state c.nowMs - limiter.charged key state c := by
  by_cases hempty : c.key = ""
  · rw [check_empty hempty, charged_of_ne (hempty.trans_ne hkey.symm), sub_zero]
  · rw [available_check h hnow hkey hempty, (hspared hempty).available_count]

end

end Check

/-! ## All checks -/

section Checks

variable {cs : List Check} {t₁ t₂ : ℚ}

theorem Inv.mono (h : limiter.Inv key t state) (htu : t ≤ u) : limiter.Inv key u state :=
  fun b hb => ⟨(h b hb).nonneg, (h b hb).le_burst, (h b hb).seen, (h b hb).le_now.trans htu⟩

theorem inv_empty : limiter.Inv key t {} := fun _ hb => nomatch hb

theorem Inv.after (h : limiter.Inv key t state)
    (hsorted : cs.Pairwise fun c d => c.nowMs ≤ d.nowMs) (hfrom : ∀ c ∈ cs, t ≤ c.nowMs)
    (htu : t ≤ u) (hto : ∀ c ∈ cs, c.nowMs ≤ u) :
    limiter.Inv key u (limiter.after state cs) := by
  induction cs generalizing state t with
  | nil => exact h.mono htu
  | cons c cs ih =>
    obtain ⟨hnext, hsorted⟩ := List.pairwise_cons.1 hsorted
    exact ih (h.check (hfrom c List.mem_cons_self)) hsorted hnext (hto c List.mem_cons_self)
      fun d hd => hto d (List.mem_cons_of_mem c hd)

theorem admitted_nonneg : 0 ≤ limiter.admitted key t₁ t₂ state cs := by
  induction cs generalizing state with
  | nil => exact le_rfl
  | cons c cs ih =>
    refine add_nonneg ?_ ih
    split
    · exact charged_nonneg
    · exact le_rfl

theorem admitted_eq_zero (h : ∀ c ∈ cs, t₂ < c.nowMs) :
    limiter.admitted key t₁ t₂ state cs = 0 := by
  induction cs generalizing state with
  | nil => rfl
  | cons c cs ih =>
    rw [admitted, if_neg fun hin => (h c List.mem_cons_self).not_ge hin.2, zero_add]
    exact ih fun d hd => h d (List.mem_cons_of_mem c hd)

theorem Inv.available_nonneg (h : limiter.Inv key t state) : 0 ≤ limiter.available key state t := by
  unfold available
  split
  · exact limiter.burst_pos.le
  · next b hb =>
    exact le_min limiter.burst_pos.le (add_nonneg (h b hb).nonneg (refill_nonneg (h b hb).le_now))

section

variable (hkey : key ≠ "") (h : limiter.Inv key t state)

include hkey h

/-- From `t` on the key gets what it has at `t`, and what comes in until the end. -/
theorem admitted_le_available (ht : t ≤ t₂)
    (hsorted : cs.Pairwise fun c d => c.nowMs ≤ d.nowMs) (hfrom : ∀ c ∈ cs, t ≤ c.nowMs)
    (hspared : limiter.Spared key state cs) : limiter.admitted key t₁ t₂ state cs ≤
      limiter.available key state t + (t₂ - t) / 1000 * limiter.rate := by
  induction cs generalizing state t with
  | nil => exact add_nonneg h.available_nonneg (refill_nonneg ht)
  | cons c cs ih =>
    obtain ⟨hnext, hsorted⟩ := List.pairwise_cons.1 hsorted
    have hnow := hfrom c List.mem_cons_self
    by_cases hend : c.nowMs ≤ t₂
    · have hrest := ih (h.check hnow) hend hsorted hnext hspared.2
      have hleft := available_check_le h hnow hkey hspared.1
      have hfill : limiter.available key state c.nowMs ≤ limiter.available key state t +
        (c.nowMs - t) / 1000 * limiter.rate := available_le_later hnow
      have hsplit : (t₂ - t) / 1000 * limiter.rate =
          (t₂ - c.nowMs) / 1000 * limiter.rate + (c.nowMs - t) / 1000 * limiter.rate := by
        ring
      have hterm : (if t₁ ≤ c.nowMs ∧ c.nowMs ≤ t₂ then limiter.charged key state c else 0) ≤
          limiter.charged key state c := by
        split
        · exact le_rfl
        · exact charged_nonneg
      rw [admitted]
      linarith
    · rw [admitted_eq_zero fun d hd => ?_]
      · exact add_nonneg h.available_nonneg (refill_nonneg ht)
      · rcases List.mem_cons.1 hd with rfl | hd
        · exact not_le.1 hend
        · exact (not_le.1 hend).trans_le (hnext d hd)

theorem admitted_le
    (hsorted : cs.Pairwise fun c d => c.nowMs ≤ d.nowMs) (hfrom : ∀ c ∈ cs, t ≤ c.nowMs)
    (hspared : limiter.Spared key state cs) (hstart : t ≤ t₁) (hwindow : t₁ ≤ t₂) :
    limiter.admitted key t₁ t₂ state cs ≤
      limiter.burst + (t₂ - t₁) / 1000 * limiter.rate := by
  induction cs generalizing state t with
  | nil => exact add_nonneg limiter.burst_pos.le (refill_nonneg hwindow)
  | cons c cs ih =>
    by_cases hbefore : c.nowMs < t₁
    · obtain ⟨hnext, hsorted⟩ := List.pairwise_cons.1 hsorted
      rw [admitted, if_neg fun hin => hbefore.not_ge hin.1, zero_add]
      exact ih (h.check (hfrom c List.mem_cons_self)) hsorted hnext hspared.2 hbefore.le
    · -- the window begins before the next check
      have hfirst := not_lt.1 hbefore
      refine (admitted_le_available hkey (h.mono hstart) hwindow hsorted (fun d hd => ?_)
        hspared).trans (add_le_add_left available_le_burst _)
      rcases List.mem_cons.1 hd with rfl | hd
      · exact hfirst
      · exact hfirst.trans ((List.pairwise_cons.1 hsorted).1 d hd)

/-- While the key is not charged its bucket fills at least as if nothing happened. -/
theorem available_le_after
    (hsorted : cs.Pairwise fun c d => c.nowMs ≤ d.nowMs) (hfrom : ∀ c ∈ cs, t ≤ c.nowMs)
    (hto : ∀ c ∈ cs, c.nowMs ≤ u) (hwindow : ∀ c ∈ cs, t₁ ≤ c.nowMs ∧ c.nowMs ≤ t₂)
    (hfree : limiter.admitted key t₁ t₂ state cs = 0) :
    limiter.available key state u ≤ limiter.available key (limiter.after state cs) u := by
  induction cs generalizing state t with
  | nil => exact le_rfl
  | cons c cs ih =>
    obtain ⟨hnext, hsorted⟩ := List.pairwise_cons.1 hsorted
    have hnow := hfrom c List.mem_cons_self
    have hend := hto c List.mem_cons_self
    rw [admitted, if_pos (hwindow c List.mem_cons_self)] at hfree
    obtain ⟨hfree, hrest⟩ := (add_eq_zero_iff_of_nonneg charged_nonneg admitted_nonneg).1 hfree
    have hleft := le_available_check h hnow hkey
    rw [hfree, sub_zero] at hleft
    refine le_trans ?_ (ih (h.check hnow) hsorted hnext
      (fun d hd => hto d (List.mem_cons_of_mem c hd))
      (fun d hd => hwindow d (List.mem_cons_of_mem c hd)) hrest)
    rw [available_later hend, available_later hend]
    exact min_le_min_left _ (add_le_add_left hleft _)

end

end Checks

/-- A bucket that is not refilled within the idle time is the only one that a sweep loses. -/
theorem Inv.sparedNow {nowMs : ℚ} (h : limiter.Inv key t state)
    (hidle : limiter.burst ≤ limiter.ttlMs / 1000 * limiter.rate) :
    limiter.SparedNow key state nowMs := by
  intro b hb hnone
  unfold TokenBucketLimiter.count sweep at hnone
  dsimp only at hnone
  split at hnone
  · dsimp only at hnone
    rw [hb, Option.filter_some] at hnone
    split at hnone
    · cases hnone
    · next hold =>
      have hkept := h b hb
      have hpast : limiter.ttlMs < nowMs - b.lastRefillMs := by
        rw [← hkept.seen]
        exact not_le.1 fun hle => hold (decide_eq_true (not_lt.2 hle))
      have hmore : limiter.ttlMs / 1000 * limiter.rate ≤
          (nowMs - b.lastRefillMs) / 1000 * limiter.rate :=
        mul_le_mul_of_nonneg_right (by linarith) limiter.rate_pos.le
      rw [available, hb]
      exact le_min le_rfl (by linarith [hkept.nonneg])
  · rw [hb] at hnone
    cases hnone

/-- Where a bucket fills up within the idle time, every key is spared. -/
theorem Inv.spared {cs : List Check} (h : limiter.Inv key t state)
    (hsorted : cs.Pairwise fun c d => c.nowMs ≤ d.nowMs) (hfrom : ∀ c ∈ cs, t ≤ c.nowMs)
    (hidle : limiter.burst ≤ limiter.ttlMs / 1000 * limiter.rate) :
    limiter.Spared key state cs := by
  induction cs generalizing state t with
  | nil => trivial
  | cons c cs ih =>
    obtain ⟨hnext, hsorted⟩ := List.pairwise_cons.1 hsorted
    have hnow := hfrom c List.mem_cons_self
    exact ⟨fun _ => h.sparedNow hidle, ih (h.check hnow) hsorted hnext⟩

/-! ## What the limiter admits -/

theorem after_append (cs ds : List Check) :
    limiter.after state (cs ++ ds) = limiter.after (limiter.after state cs) ds := by
  induction cs generalizing state with
  | nil => rfl
  | cons c cs ih => exact ih

/-- A refused check is admitted after the time it was told. -/
theorem Inv.isAllowed_later {cs : List Check} {cost : Option ℚ} {now later : ℚ} {w : Int}
    (h : limiter.Inv key t state) (hkey : key ≠ "") (hnow : t ≤ now)
    (hcost : normalCost cost ≤ limiter.burst)
    (hrefused : limiter.answer state ⟨key, cost, now⟩ = .refused w)
    (hsorted : cs.Pairwise fun c d => c.nowMs ≤ d.nowMs)
    (hwindow : ∀ c ∈ cs, now ≤ c.nowMs ∧ c.nowMs ≤ later) (hlater : now + w ≤ later)
    (hfree : limiter.admitted key now later (limiter.check key cost now state).2 cs = 0) :
    (limiter.answer (limiter.after (limiter.check key cost now state).2 cs)
      ⟨key, cost, later⟩).IsAllowed := by
  have hchecked : limiter.Inv key now (limiter.check key cost now state).2 :=
    h.check (c := ⟨key, cost, now⟩) hnow
  -- the time the check was told is long enough for what it missed
  unfold answer at hrefused
  rw [check_eq (c := ⟨key, cost, now⟩) h hnow hkey] at hrefused
  split at hrefused
  · cases hrefused
  next hshort =>
  obtain rfl := RateLimitResult.refused.inj hrefused
  have hwait : (normalCost cost - limiter.found state ⟨key, cost, now⟩) / limiter.rate * 1000 ≤
      later - now := by
    refine (Int.le_ceil _).trans (le_trans ?_ (le_sub_iff_add_le'.2 hlater))
    exact_mod_cast le_max_right 1 _
  have hnonneg : now ≤ later := by
    have hone : (1 : ℚ) ≤ ((max 1 ⌈(normalCost cost - limiter.found state ⟨key, cost, now⟩) /
        limiter.rate * 1000⌉ : Int) : ℚ) := by exact_mod_cast le_max_left 1 _
    linarith
  have hmissing : normalCost cost - limiter.found state ⟨key, cost, now⟩ ≤
      (later - now) / 1000 * limiter.rate := by
    have hscaled := mul_le_mul_of_nonneg_right hwait limiter.rate_pos.le
    rw [div_mul_eq_mul_div, div_mul_cancel₀ _ limiter.rate_pos.ne'] at hscaled
    linarith
  -- nothing was taken, so the bucket holds what the check found
  have hcharged : limiter.charged key state ⟨key, cost, now⟩ = 0 :=
    if_neg fun hand => hshort ((isAllowed_iff (c := ⟨key, cost, now⟩) h hnow hkey).1 hand.2)
  have hleft := available_check (c := ⟨key, cost, now⟩) h hnow hkey hkey
  rw [hcharged, sub_zero] at hleft
  have hkept := available_le_after (u := later) hkey hchecked hsorted
    (fun c hc => (hwindow c hc).1) (fun c hc => (hwindow c hc).2) hwindow hfree
  have hinv := hchecked.after hsorted (fun c hc => (hwindow c hc).1) hnonneg
    fun c hc => (hwindow c hc).2
  refine (isAllowed_iff (c := ⟨key, cost, later⟩) hinv le_rfl hkey).2 ?_
  refine le_trans ?_ (hkept.trans (available_le_count later))
  rw [available_later hnonneg, hleft]
  exact le_min hcost (by unfold found at hmissing; linarith)

end TokenBucketLimiter

/-- For a key with a name the limiter admits a burst and what comes in at the rate, as long as
no sweep drops the bucket of the key before it is full, and a refusal says when to come again. -/
theorem tokenBucketLimiter_admits (limiter : TokenBucketLimiter) (key : String)
    (hkey : key ≠ "") :
    (∀ (cs : List Check) (t₁ t₂ : ℚ), (cs.Pairwise fun c d => c.nowMs ≤ d.nowMs) →
      limiter.Spared key {} cs → t₁ ≤ t₂ →
      limiter.admitted key t₁ t₂ {} cs ≤ limiter.burst + limiter.rate * ((t₂ - t₁) / 1000)) ∧
    (limiter.burst ≤ limiter.rate * (limiter.ttlMs / 1000) →
      ∀ cs : List Check, (cs.Pairwise fun c d => c.nowMs ≤ d.nowMs) →
        limiter.Spared key {} cs) ∧
    ∀ (before between : List Check) (cost : Option ℚ) (now later : ℚ) (w : Int),
      ((before ++ Check.mk key cost now :: between ++ [Check.mk key cost later]).Pairwise
        fun c d => c.nowMs ≤ d.nowMs) →
      normalCost cost ≤ limiter.burst →
      limiter.answer (limiter.after {} before) ⟨key, cost, now⟩ = .refused w →
      limiter.admitted key now later
        (limiter.after {} (before ++ [⟨key, cost, now⟩])) between = 0 →
      now + w ≤ later →
      (limiter.answer (limiter.after {} (before ++ ⟨key, cost, now⟩ :: between))
        ⟨key, cost, later⟩).IsAllowed := by
  have hfirst : ∀ cs : List Check, (cs.Pairwise fun c d => c.nowMs ≤ d.nowMs) →
      ∃ t, ∀ c ∈ cs, t ≤ c.nowMs := by
    intro cs hsorted
    cases cs with
    | nil => exact ⟨0, nofun⟩
    | cons c cs =>
      refine ⟨c.nowMs, fun d hd => ?_⟩
      rcases List.mem_cons.1 hd with rfl | hd
      · exact le_rfl
      · exact (List.pairwise_cons.1 hsorted).1 d hd
  refine ⟨fun cs t₁ t₂ hsorted hspared hwindow => ?_, fun hidle cs hsorted => ?_,
    fun before between cost now later w hsorted hcost hrefused hfree hlater => ?_⟩
  · obtain ⟨t, ht⟩ := hfirst cs hsorted
    rw [mul_comm]
    exact TokenBucketLimiter.admitted_le hkey (TokenBucketLimiter.inv_empty (t := min t t₁))
      hsorted (fun c hc => (min_le_left ..).trans (ht c hc)) hspared (min_le_right ..) hwindow
  · obtain ⟨t, ht⟩ := hfirst cs hsorted
    rw [mul_comm] at hidle
    exact TokenBucketLimiter.inv_empty.spared hsorted ht hidle
  · obtain ⟨t, ht⟩ := hfirst _ hsorted
    rw [List.append_assoc, List.pairwise_append] at hsorted
    obtain ⟨hbefore, hrest, hcross⟩ := hsorted
    rw [List.cons_append, List.pairwise_cons, List.pairwise_append] at hrest
    obtain ⟨hnow, hbetween, -, hend⟩ := hrest
    have hinv : limiter.Inv key now (limiter.after {} before) := by
      refine TokenBucketLimiter.inv_empty.after hbefore (t := t) (fun c hc => ht c (by simp [hc]))
        (ht ⟨key, cost, now⟩ (by simp)) fun c hc => hcross c hc _ List.mem_cons_self
    rw [TokenBucketLimiter.after_append] at hfree ⊢
    exact hinv.isAllowed_later hkey le_rfl hcost hrefused hbetween
      (fun c hc => ⟨hnow c (List.mem_append_left _ hc), hend c hc _ List.mem_cons_self⟩)
      hlater hfree

/-- Two tokens, one a second, and a sweep before every check. -/
def smallLimiter : TokenBucketLimiter where
  rate := 1
  burst := 2
  ttlMs := 1000
  sweepEveryN := 1
  rate_pos := one_pos
  burst_pos := two_pos

/-- The empty key is not limited, a key whose bucket is dropped gets a second burst, and a cost
that counts as one is refused for ever where one is more than the burst. -/
theorem empty_dropped_and_normalized :
    (let cs : List Check := [⟨"", some 2, 0⟩, ⟨"", some 2, 0⟩]
     cs.Pairwise (fun c d => c.nowMs ≤ d.nowMs) ∧
      smallLimiter.burst + smallLimiter.rate * ((0 - 0) / 1000) <
        smallLimiter.admitted "" 0 0 {} cs) ∧
    (let cs : List Check := [⟨"k", some 2, 0⟩, ⟨"k", some 2, 1001⟩]
     cs.Pairwise (fun c d => c.nowMs ≤ d.nowMs) ∧
      smallLimiter.burst + smallLimiter.rate * ((1001 - 0) / 1000) <
        smallLimiter.admitted "k" 0 1001 {} cs) ∧
    (let limiter := { smallLimiter with burst := 1 / 2, burst_pos := by norm_num }
     (-1 : ℚ) ≤ limiter.burst ∧ limiter.answer {} ⟨"k", some (-1), 0⟩ = .refused 500 ∧
      limiter.answer (limiter.after {} [⟨"k", some (-1), 0⟩]) ⟨"k", some (-1), 500⟩ =
        .refused 500) := by
  decide +kernel

/-- Two checks of one key, the second refused until the first burst is back. -/
theorem tokenBucketLimiter_admits_two :
    let limiter := { smallLimiter with ttlMs := 2000 }
    limiter.admitted "k" 0 500 {} [⟨"k", some 2, 0⟩, ⟨"k", some 2, 500⟩] ≤
      limiter.burst + limiter.rate * ((500 - 0) / 1000) ∧
    (limiter.answer (limiter.after {} [⟨"k", some 2, 0⟩, ⟨"k", some 2, 500⟩])
      ⟨"k", some 2, 2000⟩).IsAllowed := by
  have hadmits := tokenBucketLimiter_admits { smallLimiter with ttlMs := 2000 } "k" (by decide)
  have hsorted : ([⟨"k", some 2, 0⟩, ⟨"k", some 2, 500⟩] : List Check).Pairwise
      fun c d => c.nowMs ≤ d.nowMs := by decide +kernel
  have hspared := hadmits.2.1 (by decide +kernel) _ hsorted
  exact ⟨hadmits.1 _ 0 500 hsorted hspared (by decide +kernel),
    hadmits.2.2 [⟨"k", some 2, 0⟩] [] (some 2) 500 2000 1500 (by decide +kernel)
      (by decide +kernel) (by decide +kernel) (by decide +kernel) (by decide +kernel)⟩

end AionisCore.Util
