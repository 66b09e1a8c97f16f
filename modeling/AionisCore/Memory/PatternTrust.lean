import AionisCore.Memory.PatternAnchorSchema

/-!
# Trust in a tool pattern over its history

A pattern is trusted while its counter-evidence is answered by enough distinct
successful runs. `Ledger` counts the events themselves; the anchor keeps capped
lists of run ids and a counter. On the events that `Kept` admits the two agree at
every point of a run.
-/

namespace AionisCore.Memory

open Lib Lib.JsString

/-! ## The ledger -/

/-- What the events on an anchor add up to. -/
structure Ledger where
  /-- The distinct run ids of the positive events, oldest first. -/
  seen : List String := []
  negatives : Nat := 0
  /-- How many run ids had been seen when the last negative event arrived. -/
  base : Nat := 0
  deriving DecidableEq, Repr

namespace Ledger

def see (l : Ledger) (runId : Option String) : Ledger :=
  match runId with
  | none => l
  | some r => if r ∈ l.seen then l else { l with seen := l.seen ++ [r] }

def contest (l : Ledger) : Ledger :=
  { l with negatives := l.negatives + 1, base := l.seen.length }

/-- The run ids first seen since the last negative event. -/
def fresh (l : Ledger) : List String := l.seen.drop l.base

/-- A negative event that finds no anchor is not one on it. -/
def record (l : Option Ledger) (e : PatternFeedback) : Option Ledger :=
  match e.feedbackOutcome with
  | .positive => some ((l.getD {}).see e.decision.runId)
  | .negative => l.map contest

end Ledger

def ledger (es : List PatternFeedback) : Option Ledger := es.foldl Ledger.record none

/-- The anchor's lists can tell whether the run id is a fresh one: it is read as it is
written, and if the cap dropped it that was after the last negative event. -/
def Ledger.Counts (l : Ledger) (r : String) : Prop :=
  Plain r ∧ (r ∈ l.seen.take maxObservedRunIds ∨ r ∉ l.seen ∨ r ∈ l.fresh)

/-- The anchor keeps count of the event. Sixteen runs can answer thirteen negative events. -/
def Kept (opts : Util.TextPolicy) (l : Option Ledger) (e : PatternFeedback) : Prop :=
  (e.feedbackOutcome = .negative → ∀ k ∈ l, k.negatives < 13) ∧
    (e.feedbackOutcome = .positive → ∀ r ∈ e.decision.runId, (l.getD {}).Counts r ∧
      (l = none → opts.piiRedaction → opts.redactPII r = r))

def KeptRun (opts : Util.TextPolicy) (l : Option Ledger) : List PatternFeedback → Prop
  | [] => True
  | e :: es => Kept opts l e ∧ KeptRun opts (Ledger.record l e) es

instance (l : Ledger) (r : String) : Decidable (l.Counts r) := inferInstanceAs (Decidable (_ ∧ _))

instance (opts : Util.TextPolicy) (l : Option Ledger) (e : PatternFeedback) :
    Decidable (Kept opts l e) := inferInstanceAs (Decidable (_ ∧ _))

instance decidableKeptRun (opts : Util.TextPolicy) :
    ∀ (l : Option Ledger) (es : List PatternFeedback), Decidable (KeptRun opts l es)
  | _, [] => .isTrue trivial
  | l, e :: es =>
    have := decidableKeptRun opts (Ledger.record l e) es
    inferInstanceAs (Decidable (_ ∧ _))

/-- The anchor's state is the one its history calls for. -/
structure Tracked (es : List PatternFeedback) (l : Ledger) (a : MemoryAnchorV1) : Prop where
  trusted_iff : a.credibilityState = some .trusted ↔ a.patternState = some .stable
  stable_iff : a.patternState = some .stable ↔ ∃ p, a.promotion = some p ∧
    p.counterEvidenceOpen = false ∧ p.requiredDistinctRuns + l.negatives ≤ l.seen.length
  two_fresh : a.credibilityState = some .trusted → ∀ pre e post, es = pre ++ e :: post →
    e.feedbackOutcome = .negative → ∀ k ∈ ledger pre, k.seen.length + 2 ≤ l.seen.length
  again : ∀ p, a.promotion = some p → p.requiredDistinctRuns + l.negatives ≤ l.seen.length →
    (l.negatives = 0 ∨ 2 ≤ l.fresh.length) → a.credibilityState = some .trusted

/-! ## The ledger of a run -/

namespace Ledger

structure Ok (l : Ledger) : Prop where
  nodup : l.seen.Nodup
  base_le : l.base ≤ l.seen.length
  base_zero : l.negatives = 0 → l.base = 0

@[simp] theorem see_negatives (l : Ledger) (runId : Option String) :
    (l.see runId).negatives = l.negatives := by
  unfold see
  split
  · rfl
  · split <;> rfl

@[simp] theorem see_base (l : Ledger) (runId : Option String) : (l.see runId).base = l.base := by
  unfold see
  split
  · rfl
  · split <;> rfl

theorem seen_see (l : Ledger) (runId : Option String) : l.seen <+: (l.see runId).seen := by
  unfold see
  split
  · exact List.prefix_refl _
  · split
    · exact List.prefix_refl _
    · exact List.prefix_append _ _

theorem ok_see {l : Ledger} (h : l.Ok) (runId : Option String) : (l.see runId).Ok where
  nodup := by
    unfold see
    split
    · exact h.nodup
    · split
      · exact h.nodup
      · next hr =>
        refine List.nodup_append.2 ⟨h.nodup, by simp, ?_⟩
        intro x hx y hy heq
        exact hr (List.mem_singleton.1 hy ▸ heq ▸ hx)
  base_le := by
    have := (seen_see l runId).length_le
    have := h.base_le
    rw [see_base]
    omega
  base_zero h0 := by
    rw [see_negatives] at h0
    rw [see_base, h.base_zero h0]

theorem ok_contest {l : Ledger} (h : l.Ok) : l.contest.Ok where
  nodup := h.nodup
  base_le := Nat.le_refl _
  base_zero h0 := absurd h0 (Nat.succ_ne_zero _)

theorem ok_empty : ({} : Ledger).Ok := ⟨List.nodup_nil, Nat.le_refl _, fun _ => rfl⟩

theorem ok_record {l : Option Ledger} (h : ∀ k ∈ l, k.Ok) (e : PatternFeedback) :
    ∀ k ∈ record l e, k.Ok := by
  intro k hk
  unfold record at hk
  split at hk
  · obtain rfl := Option.some.inj hk
    cases l with
    | none => exact ok_see ok_empty _
    | some l => exact ok_see (h l rfl) _
  · obtain ⟨l', hl', rfl⟩ := Option.map_eq_some_iff.1 hk
    exact ok_contest (h l' hl')

/-- The runs seen by a negative event stay below the base of every later ledger. -/
theorem base_foldl {l k : Ledger} {n : Nat} (hok : l.Ok) (hn : n ≤ l.base ∧ 0 < l.negatives)
    (es : List PatternFeedback) (hk : es.foldl record (some l) = some k) :
    n ≤ k.base ∧ 0 < k.negatives := by
  induction es generalizing l with
  | nil => exact Option.some.inj hk ▸ hn
  | cons e es ih =>
    rw [List.foldl_cons] at hk
    cases ho : e.feedbackOutcome with
    | positive =>
      rw [record, ho] at hk
      exact ih (ok_see hok _) (by rwa [see_base, see_negatives]) hk
    | negative =>
      rw [record, ho] at hk
      exact ih (ok_contest hok) ⟨Nat.le_trans hn.1 hok.base_le, Nat.succ_pos _⟩ hk

end Ledger

theorem ok_ledger (es : List PatternFeedback) : ∀ k ∈ ledger es, k.Ok := by
  have hgen : ∀ l : Option Ledger, (∀ k ∈ l, k.Ok) → ∀ k ∈ es.foldl Ledger.record l, k.Ok := by
    induction es with
    | nil => exact fun l h => h
    | cons e es ih => exact fun l h => ih _ (Ledger.ok_record h e)
  exact hgen none fun k hk => by cases hk

theorem seen_le_base {pre post : List PatternFeedback} {e : PatternFeedback} {k l : Ledger}
    (he : e.feedbackOutcome = .negative) (hk : ledger pre = some k)
    (hl : ledger (pre ++ e :: post) = some l) : k.seen.length ≤ l.base ∧ 0 < l.negatives := by
  unfold ledger at hk hl
  rw [List.foldl_append, hk, List.foldl_cons, Ledger.record, he] at hl
  exact Ledger.base_foldl (Ledger.ok_contest (ok_ledger pre k hk)) ⟨Nat.le_refl _, Nat.succ_pos _⟩
    post hl

/-! ## What the anchor keeps of the ledger -/

namespace Ledger

/-- The post-contest runs the anchor keeps. -/
def post (l : Ledger) : List String :=
  if l.negatives = 0 then [] else l.fresh.take maxObservedRunIds

/-- The counter-evidence is not answered yet. -/
def isOpen (l : Ledger) : Bool :=
  l.negatives ≠ 0 && !(stablePatternMinDistinctRuns + l.negatives ≤
    (l.seen.take maxObservedRunIds).length && contestedRevalidationMinFreshRuns ≤ l.post.length)

def state (l : Ledger) : PatternState :=
  if !l.isOpen && stablePatternMinDistinctRuns + l.negatives ≤
    (l.seen.take maxObservedRunIds).length then .stable else .provisional

end Ledger

/-- What `buildPatternAnchor` reads off the stored anchor is what the ledger says. -/
structure Reads (l : Ledger) (existing : Option MemoryAnchorV1) : Prop where
  ok : l.Ok
  plain : ∀ r ∈ l.seen, Plain r
  bound : l.negatives ≤ 13
  observed : existingObservedRunIds existing = l.seen.take maxObservedRunIds
  required : requiredDistinctRuns existing = stablePatternMinDistinctRuns
  counter : existingCounterEvidenceCount existing = l.negatives
  post : observedPostContestRunIds existing = l.post
  isOpen : ((existingPromotion existing).map (·.counterEvidenceOpen)).getD false = l.isOpen

theorem reads_none : Reads {} none where
  ok := Ledger.ok_empty
  plain := by simp
  bound := Nat.zero_le _
  observed := rfl
  required := rfl
  counter := rfl
  post := rfl
  isOpen := rfl

section Step

variable {l : Ledger} {existing : Option MemoryAnchorV1} {args : PatternFeedback}

theorem nextObservedRunIds_positive (h : Reads l existing)
    (hpos : args.feedbackOutcome = .positive) (hplain : ∀ r ∈ args.decision.runId, Plain r) :
    nextObservedRunIds args existing =
      (l.see args.decision.runId).seen.take maxObservedRunIds := by
  simp only [nextObservedRunIds, hpos, h.observed]
  cases hr : args.decision.runId with
  | none =>
    rw [Option.toList_none, List.append_nil, uniqueStrings_of_plain
      (fun x hx => h.plain x (List.mem_of_mem_take hx))
      (h.ok.nodup.sublist (List.take_sublist _ _)),
      List.take_take, Nat.min_self, Ledger.see]
  | some r =>
    rw [Option.toList_some, uniqueStrings_take_concat h.plain h.ok.nodup (hplain r hr), Ledger.see]
    split <;> rfl

/-- A run id that counts is new to the kept list when it is first seen now, or was since the
last negative event. -/
theorem postContestObservedRunIds_positive (h : Reads l existing)
    (hpos : args.feedbackOutcome = .positive) (hcounts : ∀ r ∈ args.decision.runId, l.Counts r) :
    postContestObservedRunIds args existing = (l.see args.decision.runId).post := by
  simp only [postContestObservedRunIds, hpos, h.counter, h.post]
  by_cases hN : l.negatives = 0
  · rw [if_neg (by omega), Ledger.post, Ledger.post, Ledger.see_negatives, if_pos hN, if_pos hN]
  · have hsome : existing.isNone = false := by
      cases existing with
      | none => exact absurd h.counter.symm hN
      | some a => rfl
    have hfresh : ∀ x ∈ l.fresh, Plain x := fun x hx => h.plain x (List.mem_of_mem_drop hx)
    have hdup : l.fresh.Nodup := h.ok.nodup.sublist (List.drop_sublist _ _)
    have hpost : l.post = l.fresh.take maxObservedRunIds := if_neg hN
    have hpost' : ∀ r, (l.see r).post = (l.see r).fresh.take maxObservedRunIds :=
      fun r => if_neg (by rwa [Ledger.see_negatives])
    rw [hpost', hpost]
    cases hr : args.decision.runId with
    | none =>
      rw [if_neg (by simp [hasNewDistinctRun, hr, hsome]), Ledger.see]
    | some r =>
      obtain ⟨hplain, hseen⟩ := hcounts r hr
      have hnew : hasNewDistinctRun args existing = true ↔ r ∉ l.seen.take maxObservedRunIds := by
        have hne : (some r).filter (· ≠ "") = some r := by simp [Option.filter, hplain.2]
        simp only [hasNewDistinctRun, hpos, hr, hne, h.observed]
        simp
      rw [Option.toList_some, uniqueStrings_take_concat hfresh hdup hplain, Ledger.see]
      by_cases hmem : r ∈ l.seen
      · rw [if_pos hmem]
        split
        · next hcond =>
          have : r ∈ l.fresh := by
            rcases hseen with hkept | hunseen | hfr
            · exact absurd hkept (hnew.1 hcond.2)
            · exact absurd hmem hunseen
            · exact hfr
          rw [if_pos this]
        · rfl
      · have hbase := h.ok.base_le
        rw [if_neg hmem, if_pos ⟨by omega, hnew.2 fun hx => hmem (List.mem_of_mem_take hx)⟩,
          if_neg (show r ∉ l.fresh from fun hx => hmem (List.mem_of_mem_drop hx))]
        simp only [Ledger.fresh, List.drop_append_of_le_length hbase]

theorem Ledger.post_length_mono (l : Ledger) (runId : Option String) :
    l.post.length ≤ (l.see runId).post.length := by
  have hseen := (Ledger.seen_see l runId).length_le
  simp only [Ledger.post, Ledger.fresh, Ledger.see_negatives, Ledger.see_base]
  split
  · exact Nat.le_refl _
  · simp only [List.length_take, List.length_drop]
    omega

theorem counterEvidenceOpen_positive (h : Reads l existing)
    (hpos : args.feedbackOutcome = .positive) (hcounts : ∀ r ∈ args.decision.runId, l.Counts r) :
    counterEvidenceOpen args existing = (l.see args.decision.runId).isOpen := by
  have hcount : nextCounterEvidenceCount args existing = l.negatives := by
    simp [nextCounterEvidenceCount, hpos, h.counter]
  have hseen := (Ledger.seen_see l args.decision.runId).length_le
  have hpost := Ledger.post_length_mono l args.decision.runId
  simp only [counterEvidenceOpen, hpos, runsSuffice, revalidationFloorSatisfied, hcount,
    distinctRunCount, h.required, h.isOpen,
    nextObservedRunIds_positive h hpos fun r hr => (hcounts r hr).1,
    postContestObservedRunIds_positive h hpos hcounts]
  simp only [Ledger.isOpen, Ledger.see_negatives, List.length_take]
  -- what answered the counter-evidence before still does
  by_cases hN : l.negatives = 0
  · simp [hN]
  · by_cases hruns : stablePatternMinDistinctRuns + l.negatives ≤
        min maxObservedRunIds (l.see args.decision.runId).seen.length
    · by_cases hfloor : contestedRevalidationMinFreshRuns ≤
          (l.see args.decision.runId).post.length
      · simp [hN, hruns, hfloor]
      · simp [hN, hfloor, show ¬ contestedRevalidationMinFreshRuns ≤ l.post.length by omega]
    · simp [hN, hruns, show ¬ stablePatternMinDistinctRuns + l.negatives ≤
        min maxObservedRunIds l.seen.length by omega]

/-- The stored anchor is what the ledger says. -/
structure Follows (l : Ledger) (a : MemoryAnchorV1) : Prop extends Reads l (some a) where
  state : a.patternState = some l.state
  trusted_iff : a.credibilityState = some .trusted ↔ a.patternState = some .stable
  promotion : ∃ p, a.promotion = some p ∧ p.requiredDistinctRuns = stablePatternMinDistinctRuns ∧
    p.counterEvidenceOpen = l.isOpen

theorem follows_baseAnchor {l' : Ledger} (hok : l'.Ok) (hplain : ∀ r ∈ l'.seen, Plain r)
    (hbound : l'.negatives ≤ 13)
    (hobserved : nextObservedRunIds args existing = l'.seen.take maxObservedRunIds)
    (hrequired : requiredDistinctRuns existing = stablePatternMinDistinctRuns)
    (hcounter : nextCounterEvidenceCount args existing = l'.negatives)
    (hpost : postContestObservedRunIds args existing = l'.post)
    (hopen : counterEvidenceOpen args existing = l'.isOpen) :
    Follows l' (baseAnchor args existing) where
  ok := hok
  plain := hplain
  bound := hbound
  observed := by
    show uniqueStrings (nextObservedRunIds args existing) maxObservedRunIds = _
    rw [hobserved, uniqueStrings_of_plain (fun x hx => hplain x (List.mem_of_mem_take hx))
      (hok.nodup.sublist (List.take_sublist _ _)), List.take_take, Nat.min_self]
  required := by
    show max stablePatternMinDistinctRuns (max 1 (requiredDistinctRuns existing)) = _
    rw [hrequired]
    rfl
  counter := hcounter
  post := by
    show uniqueStrings (postContestObservedRunIds args existing) maxObservedRunIds = _
    rw [hpost, Ledger.post, Ledger.fresh]
    split
    · rfl
    · rw [uniqueStrings_of_plain
        (fun x hx => hplain x (List.mem_of_mem_drop (List.mem_of_mem_take hx)))
        (hok.nodup.sublist ((List.take_sublist _ _).trans (List.drop_sublist _ _))),
        List.take_take, Nat.min_self]
  isOpen := hopen
  state := by
    show some (patternState args existing) = _
    simp only [patternState, runsSuffice, hopen, hrequired, hcounter, distinctRunCount,
      hobserved, Ledger.state, Bool.and_eq_true, decide_eq_true_eq]
  trusted_iff := by
    show some (credibilityState args existing) = _ ↔ some (patternState args existing) = _
    rw [Option.some_inj, Option.some_inj]
    exact credibilityState_eq_trusted
  promotion := by
    refine ⟨basePromotion args existing, rfl, ?_, hopen⟩
    show max 1 (requiredDistinctRuns existing) = _
    rw [hrequired]
    rfl

theorem follows_positive (h : Reads l existing) (hpos : args.feedbackOutcome = .positive)
    (hcounts : ∀ r ∈ args.decision.runId, l.Counts r) :
    Follows (l.see args.decision.runId) (baseAnchor args existing) := by
  refine follows_baseAnchor (Ledger.ok_see h.ok _) ?_ (by rw [Ledger.see_negatives]; exact h.bound)
    (nextObservedRunIds_positive h hpos fun r hr => (hcounts r hr).1) h.required ?_
    (postContestObservedRunIds_positive h hpos hcounts)
    (counterEvidenceOpen_positive h hpos hcounts)
  · intro x hx
    unfold Ledger.see at hx
    split at hx
    · exact h.plain x hx
    · next r hr =>
      split at hx
      · exact h.plain x hx
      · rcases List.mem_append.1 hx with hx | hx
        · exact h.plain x hx
        · exact List.mem_singleton.1 hx ▸ (hcounts r hr).1
  · simp [nextCounterEvidenceCount, hpos, h.counter]

theorem follows_negative (h : Reads l existing) (hneg : args.feedbackOutcome = .negative)
    (hbound : l.negatives < 13) : Follows l.contest (baseAnchor args existing) := by
  have hpost : l.contest.post = [] := by simp [Ledger.post, Ledger.fresh, Ledger.contest]
  refine follows_baseAnchor (Ledger.ok_contest h.ok) h.plain hbound ?_ h.required ?_ ?_ ?_
  · simp only [nextObservedRunIds, hneg]
    exact h.observed
  · simp [nextCounterEvidenceCount, hneg, h.counter, Ledger.contest]
  · rw [hpost]
    simp only [postContestObservedRunIds, hneg]
  · simp only [counterEvidenceOpen, hneg, Ledger.isOpen, hpost]
    simp [Ledger.contest, contestedRevalidationMinFreshRuns]

/-- The creating event, stored with its texts redacted. -/
theorem follows_created {opts : Util.TextPolicy} (hpos : args.feedbackOutcome = .positive)
    (hcounts : ∀ r ∈ args.decision.runId, ({} : Ledger).Counts r)
    (hredact : ∀ r ∈ args.decision.runId, opts.piiRedaction → opts.redactPII r = r) :
    Follows (({} : Ledger).see args.decision.runId) (storedAnchor opts (baseAnchor args none)) := by
  have h := follows_positive reads_none hpos hcounts
  unfold storedAnchor
  split
  · next hpii =>
    have hobserved := nextObservedRunIds_positive reads_none hpos fun r hr => (hcounts r hr).1
    have hmap : (nextObservedRunIds args none).map opts.redactPII =
        nextObservedRunIds args none := by
      refine (List.map_congr_left fun x hx => ?_).trans (List.map_id' _)
      rw [hobserved] at hx
      have hx := List.mem_of_mem_take hx
      cases hr : args.decision.runId with
      | none => simp [hr, Ledger.see] at hx
      | some r =>
        obtain rfl : x = r := by simpa [hr, Ledger.see] using hx
        exact hredact x hr hpii
    have hpost : postContestObservedRunIds args none = [] := by
      rw [postContestObservedRunIds_positive reads_none hpos hcounts, Ledger.post,
        Ledger.see_negatives]
      rfl
    obtain ⟨p, hp, hrequired, hopen⟩ := h.promotion
    obtain rfl : basePromotion args none = p := Option.some.inj hp
    refine { h with
      observed := ?_
      post := ?_
      promotion := ⟨_, rfl, hrequired, hopen⟩ }
    · show uniqueStrings ((nextObservedRunIds args none).map opts.redactPII) maxObservedRunIds = _
      rw [hmap]
      exact h.observed
    · show uniqueStrings ((postContestObservedRunIds args none).map opts.redactPII)
        maxObservedRunIds = _
      rw [hpost, Ledger.post, Ledger.see_negatives]
      rfl
  · exact h

end Step

/-! ## Runs -/

/-- The ledger and the stored anchor start together and stay in step. -/
def Matched : Option Ledger → Option MemoryAnchorV1 → Prop
  | none, none => True
  | some l, some a => Follows l a
  | _, _ => False

theorem matched_step {opts : Util.TextPolicy} {l : Option Ledger} {s s' : Option MemoryAnchorV1}
    {e : PatternFeedback} (h : Matched l s) (hkept : Kept opts l e)
    (hstep : writePatternAnchor opts none s e = some s') : Matched (Ledger.record l e) s' := by
  cases s with
  | none =>
    obtain rfl : l = none := by
      cases l with
      | none => rfl
      | some l => exact h.elim
    cases ho : e.feedbackOutcome with
    | negative =>
      obtain rfl : s' = none := by simpa [writePatternAnchor, ho, eq_comm] using hstep
      simp [Ledger.record, ho, Matched]
    | positive =>
      obtain ⟨a, ha, rfl⟩ := (writePatternAnchor_none ho).1 hstep
      obtain ⟨-, rfl⟩ := buildPatternAnchor_none.1 ha
      have hcreate := hkept.2 ho
      rw [Ledger.record, ho]
      exact follows_created ho (fun r hr => (hcreate r hr).1) fun r hr => (hcreate r hr).2 rfl
  | some stored =>
    cases l with
    | none => exact h.elim
    | some l =>
      obtain ⟨-, a, ha, rfl⟩ := writePatternAnchor_some.1 hstep
      obtain ⟨-, rfl⟩ := buildPatternAnchor_none.1 ha
      have hreads : Reads l (some stored) := h.toReads
      cases ho : e.feedbackOutcome with
      | negative =>
        rw [Ledger.record, ho]
        exact follows_negative hreads ho (hkept.1 ho l rfl)
      | positive =>
        rw [Ledger.record, ho]
        exact follows_positive hreads ho fun r hr => (hkept.2 ho r hr).1

theorem matched_run {opts : Util.TextPolicy} {l : Option Ledger} {s t : Option MemoryAnchorV1}
    {es : List PatternFeedback} (h : Matched l s) (hkept : KeptRun opts l es)
    (hrun : run (writePatternAnchor opts none) s es = some t) :
    Matched (es.foldl Ledger.record l) t := by
  induction es generalizing l s with
  | nil => exact Option.some.inj hrun ▸ h
  | cons e es ih =>
    obtain ⟨s', hs', hrun⟩ := run_cons.1 hrun
    exact ih (matched_step h hkept.1 hs') hkept.2 hrun

/-- Runs that answer all counter-evidence close it, and nothing else does. -/
theorem Ledger.state_eq_stable {l : Ledger} :
    l.state = .stable ↔ l.isOpen = false ∧
      stablePatternMinDistinctRuns + l.negatives ≤ l.seen.length := by
  have hcap : stablePatternMinDistinctRuns + l.negatives ≤ (l.seen.take maxObservedRunIds).length →
      stablePatternMinDistinctRuns + l.negatives ≤ l.seen.length := by
    rw [List.length_take]
    omega
  unfold Ledger.state
  split
  · next h =>
    simp only [Bool.and_eq_true, Bool.not_eq_true', decide_eq_true_eq] at h
    exact iff_of_true rfl ⟨h.1, hcap h.2⟩
  · next h =>
    refine iff_of_false (by simp) fun ⟨hopen, hruns⟩ => h ?_
    simp only [Bool.and_eq_true, Bool.not_eq_true', decide_eq_true_eq]
    refine ⟨hopen, ?_⟩
    by_cases hN : l.negatives = 0
    · rw [List.length_take, hN]
      simp only [hN] at hruns
      exact Nat.le_min.2 ⟨by decide, hruns⟩
    · simp only [Ledger.isOpen, hN, ne_eq, not_false_eq_true, decide_true, Bool.true_and,
        Bool.not_eq_false', Bool.and_eq_true, decide_eq_true_eq] at hopen
      exact hopen.1

theorem Ledger.isOpen_eq_false {l : Ledger} :
    l.isOpen = false ↔ l.negatives = 0 ∨ (stablePatternMinDistinctRuns + l.negatives ≤
      min maxObservedRunIds l.seen.length ∧ 2 ≤ min maxObservedRunIds l.fresh.length) := by
  by_cases hN : l.negatives = 0
  · simp [Ledger.isOpen, hN]
  · simp [Ledger.isOpen, hN, Ledger.post, contestedRevalidationMinFreshRuns]

theorem Follows.tracked {l : Ledger} {a : MemoryAnchorV1} {es : List PatternFeedback}
    (h : Follows l a) (hes : ledger es = some l) : Tracked es l a := by
  obtain ⟨p, hp, hrequired, hopen⟩ := h.promotion
  have hstable : a.patternState = some .stable ↔ l.state = .stable := by
    rw [h.state, Option.some_inj]
  refine ⟨h.trusted_iff, ?_, ?_, ?_⟩
  · rw [hstable, Ledger.state_eq_stable]
    constructor
    · exact fun hl => ⟨p, hp, hopen.trans hl.1, by rw [hrequired]; exact hl.2⟩
    · rintro ⟨q, hq, hqopen, hruns⟩
      obtain rfl : p = q := Option.some.inj (hp.symm.trans hq)
      rw [hrequired] at hruns
      exact ⟨hopen.symm.trans hqopen, hruns⟩
  · intro htrusted pre e post hsplit hneg k hk
    have hl := (Ledger.state_eq_stable.1 (hstable.1 (h.trusted_iff.1 htrusted))).1
    subst hsplit
    obtain ⟨hbase, hN⟩ := seen_le_base hneg hk hes
    rcases Ledger.isOpen_eq_false.1 hl with hzero | ⟨-, hfresh⟩
    · omega
    · have : l.fresh.length = l.seen.length - l.base := List.length_drop
      omega
  · intro q hq hruns hfresh
    obtain rfl : p = q := Option.some.inj (hp.symm.trans hq)
    rw [hrequired] at hruns
    refine h.trusted_iff.2 (hstable.2 (Ledger.state_eq_stable.2 ⟨?_, hruns⟩))
    have hbound := h.bound
    rw [Ledger.isOpen_eq_false]
    rcases hfresh with hzero | hfresh
    · exact .inl hzero
    · refine .inr ⟨Nat.le_min.2 ⟨?_, hruns⟩, Nat.le_min.2 ⟨by decide, hfresh⟩⟩
      show 3 + l.negatives ≤ 16
      omega

theorem tracked_of_keptRun {opts : Util.TextPolicy} {es : List PatternFeedback}
    {s : Option MemoryAnchorV1} (hrun : run (writePatternAnchor opts none) none es = some s)
    (hkept : KeptRun opts none es) : ∀ a ∈ s, ∃ l, ledger es = some l ∧ Tracked es l a := by
  intro a ha
  have hmatched := matched_run (l := none) (s := none) trivial hkept hrun
  rw [Option.mem_def.1 ha] at hmatched
  cases hl : ledger es with
  | none =>
    unfold ledger at hl
    rw [hl] at hmatched
    exact hmatched.elim
  | some l =>
    have hfold := hl
    unfold ledger at hfold
    rw [hfold] at hmatched
    exact ⟨l, rfl, Follows.tracked hmatched hl⟩

/-! ## Concrete histories -/

def noRedaction : Util.TextPolicy := ⟨8000, false, id⟩

/-- Feedback on the choice of `rg`, from one run or from none. -/
def rgFeedback (outcome : PatternFeedbackOutcome) (runId : Option String) : PatternFeedback where
  patternSignature := "sig"
  selectedTool := "rg"
  candidates := ["rg"]
  decision := ⟨"d", runId, "t", none⟩
  feedbackCommitId := "c"
  feedbackOutcome := outcome

theorem rgFeedback_fits {outcome : PatternFeedbackOutcome} {runId : Option String}
    (h : runId.all (fits 256)) : (rgFeedback outcome runId).Fits where
  taskCue := by simp [rgFeedback]
  taskSignature := show fits 256 "tools_select:unspecified-task" by decide +kernel
  taskFamily := rfl
  errorSignature := rfl
  errorFamily := rfl
  patternSignature := show fits 256 "sig" by decide +kernel
  selectedTool := show fits 128 "rg" by decide +kernel
  candidates := show listFits 64 128 ["rg"] by decide +kernel
  sourceRuleIds := by simp [rgFeedback]
  decisionId := show fits 256 "d" by decide +kernel
  runId := h
  createdAt := show "t" ≠ "" by decide
  commitId := by simp [rgFeedback]
  feedbackCommitId := show fits 256 "c" by decide +kernel

def rgRuns (events : List (PatternFeedbackOutcome × Option String)) : List PatternFeedback :=
  events.map fun e => rgFeedback e.1 e.2

theorem rgRuns_run {events : List (PatternFeedbackOutcome × Option String)}
    (h : events.all fun e => e.2.all (fits 256)) :
    run (writePatternAnchor noRedaction none) none (rgRuns events) =
      some ((rgRuns events).foldl recorded none) := by
  refine run_of_fits rfl (fun e he => ?_) (by simp)
  obtain ⟨x, hx, rfl⟩ := List.mem_map.1 he
  exact rgFeedback_fits (List.all_eq_true.1 h x hx)

/-- Three runs, a failure, and two more runs. -/
def contestedRuns : List PatternFeedback :=
  rgRuns [(.positive, some "a"), (.positive, some "b"), (.positive, some "c"), (.negative, none),
    (.positive, some "d"), (.positive, some "e")]

theorem contestedRuns_tracked : ∃ a, contestedRuns.foldl recorded none = some a ∧
    a.credibilityState = some .trusted ∧
    ∃ l, ledger contestedRuns = some l ∧ Tracked contestedRuns l a :=
  ⟨_, rfl, by decide +kernel,
    tracked_of_keptRun (rgRuns_run (by decide +kernel)) (by decide +kernel) _ rfl⟩

/-- The same three runs under padded ids, a failure, the first two again, and a new one. -/
def paddedRuns : List PatternFeedback :=
  rgRuns [(.positive, some " a"), (.positive, some " b"), (.positive, some " c"),
    (.negative, none), (.positive, some " a"), (.positive, some " b"), (.positive, some "d")]

/-- The padded ids are compared as they come with the list that keeps them trimmed, so repeated
runs count as fresh. -/
theorem paddedRuns_not_tracked : ∃ a l,
    run (writePatternAnchor noRedaction none) none paddedRuns = some (some a) ∧
    ledger paddedRuns = some l ∧ a.credibilityState = some .trusted ∧ l.negatives = 1 ∧
    l.fresh = ["d"] ∧ ¬ Tracked paddedRuns l a := by
  refine ⟨_, ⟨[" a", " b", " c", "d"], 1, 3⟩, rgRuns_run (by decide +kernel), by decide +kernel,
    by decide +kernel, rfl, rfl, ?_⟩
  intro h
  have htrusted := h.two_fresh (by decide +kernel) (paddedRuns.take 3)
    (rgFeedback .negative none) (paddedRuns.drop 4) rfl rfl ⟨[" a", " b", " c"], 0, 0⟩
    (by decide +kernel)
  exact absurd htrusted (by decide)

end AionisCore.Memory
