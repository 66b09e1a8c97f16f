import AionisCore.Memory.RulesEvaluate
import Mathlib.Tactic.Linarith
import Mathlib.Tactic.Ring

/-!
# The rank of a rule

`readRuleRankMeta` makes one number of a rule's priority, its weighted evidence and the number of
paths its condition is about. The number is a sum with the weights 1000, 100 and 1.
-/

namespace AionisCore.Memory

open Lib Lib.JsString Store

/-! ## The paths of a condition -/

/-- `if (prefix) s.add(prefix)`. -/
def pathHere (path : String) : List String := if path = "" then [] else [path]

def nextPath (path k : String) : String := if path = "" then k else path ++ "." ++ k

mutual

/-- The paths that `collectConditionPaths` adds to its set, in order. -/
def addedPaths (path : String) : Json → List String
  | .null => []
  | .obj [] => pathHere path
  | .obj (f :: fields) => addedByField path f ++ addedByFields path fields
  | .arr _ => pathHere path
  | .bool _ => pathHere path
  | .num _ => pathHere path
  | .str _ => pathHere path

def addedByFields (path : String) : List (String × Json) → List String
  | [] => []
  | f :: fields => addedByField path f ++ addedByFields path fields

def addedByField (path : String) : String × Json → List String
  | (k, v) =>
    if k = "$and" ∨ k = "$or" then addedByOperand path v
    else if k = "$not" then addedPaths path v
    else if "$".toList.isPrefixOf k.toList then pathHere path
    else addedPaths (nextPath path k) v

/-- `if (Array.isArray(v)) for (const p of v) collectConditionPaths(p, prefix, s)`. -/
def addedByOperand (path : String) : Json → List String
  | .arr patterns => addedByItems path patterns
  | _ => []

def addedByItems (path : String) : List Json → List String
  | [] => []
  | p :: patterns => addedPaths path p ++ addedByItems path patterns

end

def collectConditionPaths (pattern : Json) : List String := (addedPaths "" pattern).eraseDups

/-! ## The rank -/

/-- `Math.trunc(q)`. -/
def mathTrunc (q : ℚ) : ℤ := if 0 ≤ q then q.floor else q.ceil

def clampInt (v : JsNumber) (lo hi fallback : ℤ) : ℤ :=
  match v with
  | .finite q => max lo (min hi (mathTrunc q))
  | _ => fallback

def clampNum (v : JsNumber) (lo hi fallback : ℚ) : ℚ :=
  match v with
  | .finite q => max lo (min hi q)
  | _ => fallback

structure RuleRankMeta where
  score : ℚ
  evidenceScore : ℤ
  priority : ℤ
  weight : ℚ
  specificity : ℕ
  conditionPaths : List String

section Rank

variable (host : RuleHost) (row : LiteRuleCandidateRow)

/-- `meta?.[k] ?? slots?.[k] ?? fallback`. -/
def rankSetting (k : String) (fallback : ℚ) : JsNumber :=
  let record := (Json.asRecord (Json.get row.ruleSlots "rule_meta")).getD []
  match Json.orElse (Json.get record k) (Json.orElse (Json.get row.ruleSlots k) none) with
  | some v => host.number v
  | none => .finite fallback

def readRuleRankMeta : RuleRankMeta :=
  let evidence : ℤ := row.positiveCount - row.negativeCount
  let priority := clampInt (rankSetting host row "priority" 0) (-100) 100 0
  let weight := clampNum (rankSetting host row "weight" 1) 0 2 1
  let conditionPaths := sortStrings (collectConditionPaths (.obj row.ifJson))
  let specificity := conditionPaths.length
  { score := priority * 1000 + evidence * 100 * weight + specificity
    evidenceScore := evidence
    priority
    weight
    specificity
    conditionPaths }

end Rank

/-! ## The documented order -/

namespace RuleRankMeta

variable {m m' : RuleRankMeta}

def weightedEvidence (m : RuleRankMeta) : ℚ := m.evidenceScore * m.weight

/-- Priority dominates weighted evidence, which dominates specificity. -/
def Outranks (m m' : RuleRankMeta) : Prop :=
  m'.priority < m.priority ∨ m'.priority = m.priority ∧
    (m'.weightedEvidence < m.weightedEvidence ∨
      m'.weightedEvidence = m.weightedEvidence ∧ m'.specificity < m.specificity)

/-- The scores stand in the documented order. -/
def Ordered (m m' : RuleRankMeta) : Prop :=
  (m'.score < m.score ↔ m.Outranks m') ∧ (m.score < m'.score ↔ m'.Outranks m)

/-- What `m'` has ahead in the lesser parts does not make up for what it lacks in a greater one. -/
structure Unreached (m m' : RuleRankMeta) : Prop where
  priority : m'.priority < m.priority →
    100 * (m'.weightedEvidence - m.weightedEvidence) + ((m'.specificity : ℚ) - m.specificity) <
      1000 * ((m.priority : ℚ) - m'.priority)
  evidence : m'.priority = m.priority → m'.weightedEvidence < m.weightedEvidence →
    (m'.specificity : ℚ) - m.specificity < 100 * (m.weightedEvidence - m'.weightedEvidence)

/-- The score is the sum that the code computes. -/
def Summed (m : RuleRankMeta) : Prop :=
  m.score = 1000 * m.priority + 100 * m.weightedEvidence + m.specificity

section

variable (hm : m.Summed) (hm' : m'.Summed)

include hm hm'

theorem score_lt_of_outranks (hun : m.Unreached m') (h : m.Outranks m') : m'.score < m.score := by
  rw [Summed] at hm hm'
  rw [hm, hm']
  rcases h with hp | ⟨hp, he | ⟨he, hs⟩⟩
  · linarith [hun.priority hp]
  · have hreach := hun.evidence hp he
    rw [hp]
    linarith
  · have hs' : (m'.specificity : ℚ) < m.specificity := by exact_mod_cast hs
    rw [hp, he]
    linarith

theorem unreached_of_score (h : m.Outranks m' → m'.score < m.score) : m.Unreached m' := by
  rw [Summed] at hm hm'
  rw [hm, hm'] at h
  constructor
  · intro hp
    linarith [h (.inl hp)]
  · intro hp he
    have hscore := h (.inr ⟨hp, .inl he⟩)
    rw [hp] at hscore
    linarith

theorem score_eq_of_not_outranks (h : ¬ m.Outranks m')
    (h' : ¬ m'.Outranks m) : m.score = m'.score := by
  simp only [Outranks, not_or, not_and, not_lt] at h h'
  have hp : m.priority = m'.priority := le_antisymm h.1 h'.1
  have he : m.weightedEvidence = m'.weightedEvidence :=
    le_antisymm (h.2 hp.symm).1 (h'.2 hp).1
  have hs : m.specificity = m'.specificity :=
    le_antisymm ((h.2 hp.symm).2 he.symm) ((h'.2 hp).2 he)
  rw [Summed] at hm hm'
  rw [hm, hm', hp, he, hs]

theorem ordered_iff : m.Ordered m' ↔ m.Unreached m' ∧ m'.Unreached m := by
  constructor
  · rintro ⟨hscore, hscore'⟩
    exact ⟨unreached_of_score hm hm' hscore.2, unreached_of_score hm' hm hscore'.2⟩
  · rintro ⟨hun, hun'⟩
    have hiff : ∀ {m m' : RuleRankMeta}, m.Summed → m'.Summed → m.Unreached m' →
        m'.Unreached m → (m'.score < m.score ↔ m.Outranks m') := by
      intro m m' hm hm' hun hun'
      refine ⟨fun hlt => ?_, score_lt_of_outranks hm hm' hun⟩
      by_contra hnot
      by_cases hout : m'.Outranks m
      · exact lt_asymm hlt (score_lt_of_outranks hm' hm hun' hout)
      · exact hlt.ne (score_eq_of_not_outranks hm' hm hout hnot)
    exact ⟨hiff hm hm' hun hun', hiff hm' hm hun' hun⟩

end

end RuleRankMeta

theorem readRuleRankMeta_summed (host : RuleHost) (row : LiteRuleCandidateRow) :
    (readRuleRankMeta host row).Summed := by
  unfold RuleRankMeta.Summed RuleRankMeta.weightedEvidence readRuleRankMeta
  push_cast
  ring

/-- A rule without a condition. -/
def rankedRule (priority : ℚ) (positiveCount : Nat) : LiteRuleCandidateRow where
  ruleNodeId := "r"
  state := "active"
  ruleScope := "global"
  targetAgentId := none
  targetTeamId := none
  ruleMemoryLane := .sharedLane
  ruleOwnerAgentId := none
  ruleOwnerTeamId := none
  ifJson := []
  thenJson := []
  exceptionsJson := []
  positiveCount := positiveCount
  negativeCount := 0
  ruleCommitId := "c"
  ruleSummary := none
  ruleSlots := [("priority", .num priority)]
  updatedAt := "1"

end AionisCore.Memory
