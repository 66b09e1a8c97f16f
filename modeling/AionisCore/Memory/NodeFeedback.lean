import AionisCore.Lib.JsString
import AionisCore.Lib.Json
import Mathlib.Algebra.Order.Floor.Ring
import Mathlib.Data.Rat.Floor

/-!
# Feedback on a node

`computeFeedbackUpdatedNodeState` and `resolveNodeLifecycleSignals`: the slots a
feedback call writes. The priority, forgetting and relocation resolvers only
contribute scores and two derived slots; the development holds for any of them.
Numbers are exact.
-/

namespace AionisCore.Memory

open Lib Lib.JsString

inductive NodeFeedbackOutcome where
  | positive
  | negative
  | neutral
  deriving DecidableEq, Repr

def NodeFeedbackOutcome.name : NodeFeedbackOutcome → String
  | positive => "positive"
  | negative => "negative"
  | neutral => "neutral"

structure PriorityArgs where
  type : String
  tier : Option String
  title : Option String
  textSummary : Option String
  slots : Json.Fields
  salience : Option ℚ := none
  importance : Option ℚ := none
  confidence : Option ℚ := none
  referenceTime : Option String := none

structure PriorityProfile where
  salience : ℚ
  importance : ℚ
  confidence : ℚ

structure RelocationArgs where
  forgetting : Json
  slots : Json.Fields
  rawRef : Option String
  evidenceRef : Option String

structure LifecycleResolvers where
  resolveNodePriorityProfile : PriorityArgs → PriorityProfile
  resolveSemanticForgettingDecision : PriorityArgs → Json
  resolveArchiveRelocationPlan : RelocationArgs → Json

/-- The value of a string of decimal digits. -/
def digitsValue (cs : List Char) : Nat := cs.foldl (fun n c => 10 * n + (c.toNat - '0'.toNat)) 0

def asNonNegativeInt : Option Json → Nat
  | some (.num q) => ⌊q⌋.toNat
  | some (.str s) =>
    let cs := (trim s).toList
    if cs ≠ [] ∧ cs.all Char.isDigit then digitsValue cs else 0
  | _ => 0

/-- `-?[0-9]+(\.[0-9]+)?` as a number. -/
def decimalValue (cs : List Char) : Option ℚ :=
  let negative := cs.head? = some '-'
  let body := if negative then cs.tail else cs
  let whole := body.takeWhile Char.isDigit
  let rest := body.dropWhile Char.isDigit
  let sign : ℚ := if negative then -1 else 1
  if whole = [] then none
  else match rest with
    | [] => some (sign * digitsValue whole)
    | '.' :: digits =>
      if digits ≠ [] ∧ digits.all Char.isDigit then
        some (sign * (digitsValue whole + digitsValue digits / 10 ^ digits.length))
      else none
    | _ => none

def clampUnit (q : ℚ) : ℚ := max (-1) (min 1 q)

def asFeedbackQuality : Option Json → ℚ
  | some (.num q) => clampUnit q
  | some (.str s) => ((decimalValue (trim s).toList).map clampUnit).getD 0
  | _ => 0

def normalizeReason (value : Option String) : Option String :=
  (value.map trim).filter (· ≠ "")

/-- `Number(q.toFixed(4))`: ties are rounded away from zero. -/
def toFixed4 (q : ℚ) : ℚ :=
  let digits : ℚ := ⌊|q| * 10000 + 1 / 2⌋ / 10000
  if q < 0 then -digits else digits

/-- `s ?? null`. -/
def textOrNull : Option String → Json
  | some s => .str s
  | none => .null

structure MergeNodeFeedbackSlotsArgs where
  slots : Option Json.Fields := none
  outcome : NodeFeedbackOutcome
  runId : Option String
  reason : Option String
  inputSha256 : String
  source : String
  timestamp : String

/-- `1` where the outcomes agree. -/
def increment (outcome counted : NodeFeedbackOutcome) : Nat := if outcome = counted then 1 else 0

def nextFeedbackQuality (outcome : NodeFeedbackOutcome) (prevQuality : ℚ) : ℚ :=
  match outcome with
  | .neutral => prevQuality
  | .positive => clampUnit (8 / 10 * prevQuality + 2 / 10)
  | .negative => clampUnit (8 / 10 * prevQuality - 2 / 10)

/-- The fields a feedback sets, from the counters it found. -/
def feedbackFields (args : MergeNodeFeedbackSlotsArgs) (prevPos prevNeg : Nat) (prevQuality : ℚ) :
    Json.Fields :=
  [("feedback_positive", .num (prevPos + increment args.outcome .positive : Nat)),
    ("feedback_negative", .num (prevNeg + increment args.outcome .negative : Nat)),
    ("feedback_quality", .num (toFixed4 (nextFeedbackQuality args.outcome prevQuality))),
    ("last_feedback_outcome", .str args.outcome.name),
    ("last_feedback_at", .str args.timestamp),
    ("last_feedback_run_id", textOrNull args.runId),
    ("last_feedback_reason", textOrNull (normalizeReason args.reason)),
    ("last_feedback_input_sha256", .str args.inputSha256),
    ("last_feedback_source", .str args.source)]

def mergeNodeFeedbackSlots (args : MergeNodeFeedbackSlotsArgs) : Json.Fields :=
  let slots := args.slots.getD []
  Json.spread slots (feedbackFields args (asNonNegativeInt (Json.get slots "feedback_positive"))
    (asNonNegativeInt (Json.get slots "feedback_negative"))
    (asFeedbackQuality (Json.get slots "feedback_quality")))

structure FeedbackNodeSnapshot where
  type : String
  tier : Option String
  title : Option String
  textSummary : Option String
  slots : Option Json.Fields

structure NodeState where
  slots : Json.Fields
  salience : ℚ
  importance : ℚ
  confidence : ℚ

/-- The node is read for the profile only: its slots are not among the arguments of the merge. -/
def computeFeedbackUpdatedNodeState (resolvers : LifecycleResolvers) (node : FeedbackNodeSnapshot)
    (feedback : MergeNodeFeedbackSlotsArgs) : NodeState :=
  let slots := mergeNodeFeedbackSlots feedback
  let profile := resolvers.resolveNodePriorityProfile
    ⟨node.type, node.tier, node.title, node.textSummary, slots, none, none, none, none⟩
  ⟨slots, profile.salience, profile.importance, profile.confidence⟩

structure ResolveNodeLifecycleSignalsArgs where
  type : String
  tier : Option String
  title : Option String
  textSummary : Option String
  slots : Option Json.Fields
  salience : Option ℚ
  importance : Option ℚ
  confidence : Option ℚ
  rawRef : Option String
  evidenceRef : Option String
  referenceTime : Option String

def resolveNodeLifecycleSignals (resolvers : LifecycleResolvers)
    (args : ResolveNodeLifecycleSignalsArgs) : NodeState :=
  let slots := args.slots.getD []
  let tier := some (args.tier.getD "hot")
  let profile := resolvers.resolveNodePriorityProfile
    ⟨args.type, tier, args.title, args.textSummary, slots, args.salience, args.importance,
      args.confidence, args.referenceTime⟩
  let forgetting := resolvers.resolveSemanticForgettingDecision
    ⟨args.type, tier, args.title, args.textSummary, slots, some profile.salience,
      some profile.importance, some profile.confidence, args.referenceTime⟩
  let slots := Json.set slots "semantic_forgetting_v1" forgetting
  let plan := resolvers.resolveArchiveRelocationPlan
    ⟨forgetting, slots, args.rawRef, args.evidenceRef⟩
  ⟨Json.set slots "archive_relocation_v1" plan, profile.salience, profile.importance,
    profile.confidence⟩

/-! ## Which slots are written -/

/-- The fields of a feedback, the activation time and the two derived slots. -/
def isFeedbackSlot (k : String) : Bool :=
  "feedback_".toList.isPrefixOf k.toList || "last_feedback_".toList.isPrefixOf k.toList ||
    k == "last_activated_at" || k == "semantic_forgetting_v1" || k == "archive_relocation_v1"

variable {k : String}

theorem get_eq_none {r : Json.Fields} (h : ∀ f ∈ r, f.1 ≠ k) : Json.get r k = none := by
  induction r with
  | nil => rfl
  | cons f r ih =>
    rw [Json.get_cons, if_neg (h f List.mem_cons_self).symm]
    exact ih fun g hg => h g (List.mem_cons_of_mem _ hg)

theorem isFeedbackSlot_feedbackFields {args : MergeNodeFeedbackSlotsArgs} {p m : Nat} {q : ℚ} :
    ∀ f ∈ feedbackFields args p m q, isFeedbackSlot f.1 = true := by
  simp only [feedbackFields, List.forall_mem_cons]
  refine ⟨?_, ?_, ?_, ?_, ?_, ?_, ?_, ?_, ?_, by simp⟩ <;> decide

theorem get_mergeNodeFeedbackSlots {args : MergeNodeFeedbackSlotsArgs}
    (hk : isFeedbackSlot k = false) :
    Json.get (mergeNodeFeedbackSlots args) k = Json.get (args.slots.getD []) k := by
  rw [mergeNodeFeedbackSlots, Json.get_spread, get_eq_none, Option.none_or]
  rintro f hf rfl
  rw [isFeedbackSlot_feedbackFields f hf] at hk
  cases hk

/-- A merge counts its outcome on top of the counter it is given. -/
theorem get_mergeNodeFeedbackSlots_positive (args : MergeNodeFeedbackSlotsArgs) :
    Json.get (mergeNodeFeedbackSlots args) "feedback_positive" =
      some (.num (asNonNegativeInt (Json.get (args.slots.getD []) "feedback_positive") +
        increment args.outcome .positive : Nat)) := by
  rw [mergeNodeFeedbackSlots, Json.get_spread]
  simp [feedbackFields]

theorem get_mergeNodeFeedbackSlots_negative (args : MergeNodeFeedbackSlotsArgs) :
    Json.get (mergeNodeFeedbackSlots args) "feedback_negative" =
      some (.num (asNonNegativeInt (Json.get (args.slots.getD []) "feedback_negative") +
        increment args.outcome .negative : Nat)) := by
  rw [mergeNodeFeedbackSlots, Json.get_spread]
  simp [feedbackFields]

/-- The resolvers write two slots of their own. -/
theorem get_resolveNodeLifecycleSignals {resolvers : LifecycleResolvers}
    {args : ResolveNodeLifecycleSignalsArgs} (hf : k ≠ "semantic_forgetting_v1")
    (ha : k ≠ "archive_relocation_v1") :
    Json.get (resolveNodeLifecycleSignals resolvers args).slots k =
      Json.get (args.slots.getD []) k := by
  unfold resolveNodeLifecycleSignals
  rw [Json.get_set_of_ne ha, Json.get_set_of_ne hf]

theorem asNonNegativeInt_natCast (n : Nat) : asNonNegativeInt (some (.num n)) = n := by
  simp [asNonNegativeInt]

end AionisCore.Memory
