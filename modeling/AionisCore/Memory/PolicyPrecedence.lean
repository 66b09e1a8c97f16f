import AionisCore.Lib.Slots
import AionisCore.Memory.PolicyMerge
import AionisCore.Memory.RuleRank
import AionisCore.Memory.ToolPolicy
import Mathlib.Data.String.Basic

/-!
# Precedence among matched rules

`evaluateRules` reports the active rules by falling score and merges their patches by rising score.
Between equal scores the smaller id comes first both times, so that the rule reported first is not
the one merged last.
-/

namespace AionisCore.Memory

open Lib Lib.Json

/-! ## Evaluation -/

/-- A matched active rule with its rank. -/
structure ActiveRule where
  ruleNodeId : String
  commitId : String
  rank : RuleRankMeta
  thenPatch : Json.Fields

namespace ActiveRule

def toPolicyRule (r : ActiveRule) : PolicyRule where
  ruleNodeId := r.ruleNodeId
  state := "active"
  commitId := r.commitId
  thenPatch := r.thenPatch

/-- A list of names in a tool patch. -/
def toolNames (tool : Json.Fields) (k : String) : Option (List String) :=
  (asArray (get tool k)).map fun _ => textsOf (get tool k)

/-- `r.then_patch.tool ?? null`. -/
def tool (r : ActiveRule) : Option ToolPolicyPatch :=
  (asRecord (get r.thenPatch "tool")).map fun tool => {
    allow := toolNames tool "allow"
    deny := toolNames tool "deny"
    prefer := toolNames tool "prefer" }

def toMatchedRule (r : ActiveRule) : MatchedRule where
  ruleNodeId := r.ruleNodeId
  score := r.rank.score
  evidenceScore := some r.rank.evidenceScore
  priority := some r.rank.priority
  weight := some r.rank.weight
  specificity := some r.rank.specificity
  tool := r.tool

/-- The value that the rule sets a path to. -/
def value (r : ActiveRule) (keys : List String) : Option Json := r.toPolicyRule.value keys

end ActiveRule

def toolJson (tool : ToolPolicyPatch) : Json :=
  let names (k : String) (v : Option (List String)) : Json.Fields :=
    Json.optional k (v.map fun names => .arr (names.map .str))
  .obj (names "allow" tool.allow ++ names "deny" tool.deny ++ names "prefer" tool.prefer)

/-- `policy.tool = tool`. -/
def withTool (policy : Json) (tool : ToolPolicyPatch) : Json :=
  match policy with
  | .obj fields => .obj (Json.set fields "tool" (toolJson tool))
  | v => v

/-- What `evaluateRules` says of the active rules. -/
structure ActiveEvaluation where
  active : List ActiveRule
  policy : Json
  sources : List PolicySource
  conflicts : List PolicyConflict
  toolExplain : ToolPolicyExplain

section Evaluation

variable (localeCompare : String → String → Int)

/-- `a.rank.score - b.rank.score || a.rule_node_id.localeCompare(b.rule_node_id)` is not
positive. -/
def scoreAsc (scoreA scoreB : ℚ) (idA idB : String) : Prop :=
  scoreA < scoreB ∨ scoreA = scoreB ∧ localeCompare idA idB ≤ 0

instance (x y : ℚ) (a b : String) : Decidable (scoreAsc localeCompare x y a b) :=
  inferInstanceAs (Decidable (_ ∨ _))

/-- The rules as they are reported. -/
def activeOrder (rules : List ActiveRule) : List ActiveRule :=
  rules.insertionSort fun a b =>
    scoreDesc localeCompare a.rank.score b.rank.score a.ruleNodeId b.ruleNodeId

/-- The rules as they are merged. -/
def mergeOrder (rules : List ActiveRule) : List ActiveRule :=
  rules.insertionSort fun a b =>
    scoreAsc localeCompare a.rank.score b.rank.score a.ruleNodeId b.ruleNodeId

/-- The rules merged in this order. -/
def mergedPolicy (rules : List ActiveRule) : AppliedPolicy :=
  buildAppliedPolicy (rules.map (·.toPolicyRule))

def evaluateActive (rules : List ActiveRule) : ActiveEvaluation :=
  let applied := mergedPolicy (mergeOrder localeCompare rules)
  let tool := computeEffectiveToolPolicy localeCompare (rules.map (·.toMatchedRule))
  { active := activeOrder localeCompare rules
    policy := withTool applied.policy tool.tool
    sources := applied.sources
    conflicts := applied.conflicts
    toolExplain := tool.explain }

end Evaluation

/-! ## Precedence -/

section Precedence

variable (localeCompare : String → String → Int) (rules : List ActiveRule)

/-- The rule reported first among those that set a path. -/
def firstSetter (keys : List String) : Option ActiveRule :=
  (activeOrder localeCompare rules).find? fun r => (r.value keys).isSome

/-- Whatever sets the path sets it to a scalar, and more than one rule does. -/
structure SharedScalarPath (keys : List String) : Prop where
  scalar : ∀ r ∈ rules, ∀ v, r.value keys = some v → isScalar v = true
  shared : 2 ≤ (rules.filter fun r => (r.value keys).isSome).length

/-- The rule reported first wins at every scalar path that rules share and is named in every
conflict, in whatever order the rules come from the store. -/
structure PrecedenceKept : Prop where
  value : ∀ keys, SharedScalarPath rules keys → ∀ d, firstSetter localeCompare rules keys = some d →
    valueAt (evaluateActive localeCompare rules).policy keys = d.value keys
  conflict : ∀ c ∈ (evaluateActive localeCompare rules).conflicts,
    (firstSetter localeCompare rules c.keys).map (·.ruleNodeId) = some c.winnerRuleNodeId
  order : ∀ rules', rules'.Perm rules →
    evaluateActive localeCompare rules' = evaluateActive localeCompare rules

/-- No rule that sets the path has a higher score. -/
def Top (keys : List String) (r : ActiveRule) : Prop :=
  ∀ r' ∈ rules, (r'.value keys).isSome = true → r'.rank.score ≤ r.rank.score

/-- The rules of the highest score among those that set the path agree on it, and so do the rest. -/
def AlikeAt (keys : List String) : Prop :=
  ∀ r ∈ rules, ∀ r' ∈ rules, ∀ v v', r.value keys = some v → r'.value keys = some v' →
    (Top rules keys r ↔ Top rules keys r') → Alike v v'

/-- At every path the rules fall into two groups by score that agree each within itself, and no
scalar path that rules share lies below a value of the higher group that is no record. -/
structure Concordant : Prop where
  alike : ∀ keys, AlikeAt rules keys
  unblocked : ∀ front k rest, SharedScalarPath rules (front ++ k :: rest) → ∀ r ∈ rules, ∀ u,
    r.value front = some u → Top rules front r → isRecord u = true

/-- What `localeCompare` is known for. -/
structure LocaleOrder : Prop where
  total : ∀ a b, localeCompare a b ≤ 0 ∨ localeCompare b a ≤ 0
  trans : ∀ a b c, localeCompare a b ≤ 0 → localeCompare b c ≤ 0 → localeCompare a c ≤ 0

/-- What holds of matched rules: the ids are keys that `localeCompare` tells apart, and the patches
are objects that passed the schema. -/
structure MatchedRules : Prop where
  ids : (rules.map (·.ruleNodeId)).Nodup
  told : ∀ r ∈ rules, ∀ r' ∈ rules, localeCompare r.ruleNodeId r'.ruleNodeId ≤ 0 →
    localeCompare r'.ruleNodeId r.ruleNodeId ≤ 0 → r.ruleNodeId = r'.ruleNodeId
  valid : ∀ r ∈ rules, PolicyPatchValid r.thenPatch = true
  distinct : ∀ r ∈ rules, Distinct (.obj r.thenPatch)

end Precedence

/-! ## The two orders -/

section Orders

variable {localeCompare : String → String → Int} {rules rules' pre post : List ActiveRule}
  {r s d : ActiveRule} {keys : List String}

theorem LocaleOrder.refl (h : LocaleOrder localeCompare) (a : String) : localeCompare a a ≤ 0 :=
  (h.total a a).elim id id

section Ranking

variable {α : Type} {R : ℚ → ℚ → Prop} [IsStrictTotalOrder ℚ R] {score : α → ℚ}
  {name : α → String} {le : α → α → Prop} [DecidableRel le]

section

variable (h : LocaleOrder localeCompare)
  (hle : ∀ a b, le a b ↔ R (score a) (score b) ∨
    score a = score b ∧ localeCompare (name a) (name b) ≤ 0)

include h hle

theorem insertionSort_ranked (l : List α) : (l.insertionSort le).Pairwise le := by
  have htotal : Std.Total le := by
    refine ⟨fun a b => ?_⟩
    rw [hle, hle]
    rcases trichotomous_of R (score a) (score b) with hlt | heq | hlt
    · exact .inl (.inl hlt)
    · exact (h.total (name a) (name b)).imp (fun hle => .inr ⟨heq, hle⟩)
        fun hle => .inr ⟨heq.symm, hle⟩
    · exact .inr (.inl hlt)
  have htrans : IsTrans α le := by
    refine ⟨fun a b c hab hbc => ?_⟩
    rw [hle] at hab hbc ⊢
    rcases hab with hab | ⟨hab, hcmp⟩
    · rcases hbc with hbc | ⟨hbc, -⟩
      · exact .inl (IsTrans.trans _ _ _ hab hbc)
      · exact .inl (hbc ▸ hab)
    · rcases hbc with hbc | ⟨hbc, hcmp'⟩
      · exact .inl (hab ▸ hbc)
      · exact .inr ⟨hab.trans hbc, h.trans _ _ _ hcmp hcmp'⟩
  exact List.pairwise_insertionSort le l

/-- Where the names are told apart, the order before the sort does not matter. -/
theorem insertionSort_ranked_perm {l l' : List α} (hperm : l'.Perm l)
    (htie : ∀ a ∈ l, ∀ b ∈ l, localeCompare (name a) (name b) ≤ 0 →
      localeCompare (name b) (name a) ≤ 0 → a = b) :
    l'.insertionSort le = l.insertionSort le := by
  refine List.Perm.eq_of_pairwise (fun a b ha hb hab hba => ?_) (insertionSort_ranked h hle l')
    (insertionSort_ranked h hle l)
    ((List.perm_insertionSort _ _).trans (hperm.trans (List.perm_insertionSort _ _).symm))
  have ha := hperm.subset ((List.mem_insertionSort le).1 ha)
  have hb := (List.mem_insertionSort le).1 hb
  rw [hle] at hab hba
  rcases hab with hab | ⟨heq, hab⟩
  · rcases hba with hba | ⟨heq, -⟩
    · exact absurd hba (asymm hab)
    · rw [heq] at hab
      exact absurd hab (irrefl _)
  · rcases hba with hba | ⟨-, hba⟩
    · rw [heq] at hba
      exact absurd hba (irrefl _)
    · exact htie a ha b hb hab hba

end

end Ranking

theorem activeOrder_pairwise (h : LocaleOrder localeCompare) (rules : List ActiveRule) :
    (activeOrder localeCompare rules).Pairwise fun a b =>
      scoreDesc localeCompare a.rank.score b.rank.score a.ruleNodeId b.ruleNodeId :=
  insertionSort_ranked (R := (· > ·)) h (fun _ _ => Iff.rfl) rules

theorem mergeOrder_pairwise (h : LocaleOrder localeCompare) (rules : List ActiveRule) :
    (mergeOrder localeCompare rules).Pairwise fun a b =>
      scoreAsc localeCompare a.rank.score b.rank.score a.ruleNodeId b.ruleNodeId :=
  insertionSort_ranked (R := (· < ·)) h (fun _ _ => Iff.rfl) rules

theorem mem_activeOrder : r ∈ activeOrder localeCompare rules ↔ r ∈ rules :=
  List.mem_insertionSort _

theorem mem_mergeOrder : r ∈ mergeOrder localeCompare rules ↔ r ∈ rules :=
  List.mem_insertionSort _

theorem MatchedRules.eq_of_id (h : MatchedRules localeCompare rules) (hr : r ∈ rules)
    (hs : s ∈ rules) (hid : r.ruleNodeId = s.ruleNodeId) : r = s :=
  List.inj_on_of_nodup_map h.ids hr hs hid

/-- Rules that neither order puts apart are one rule. -/
theorem MatchedRules.eq_of_tie (h : MatchedRules localeCompare rules) (hr : r ∈ rules)
    (hs : s ∈ rules) (hrs : localeCompare r.ruleNodeId s.ruleNodeId ≤ 0)
    (hsr : localeCompare s.ruleNodeId r.ruleNodeId ≤ 0) : r = s :=
  h.eq_of_id hr hs (h.told r hr s hs hrs hsr)

/-- The evaluation does not depend on the order in which the rules come. -/
theorem evaluateActive_perm (h : LocaleOrder localeCompare) (hm : MatchedRules localeCompare rules)
    (hperm : rules'.Perm rules) :
    evaluateActive localeCompare rules' = evaluateActive localeCompare rules := by
  have hactive : activeOrder localeCompare rules' = activeOrder localeCompare rules :=
    insertionSort_ranked_perm (R := (· > ·)) h (fun _ _ => Iff.rfl) hperm
      fun a ha b hb => hm.eq_of_tie ha hb
  have hmerge : mergeOrder localeCompare rules' = mergeOrder localeCompare rules :=
    insertionSort_ranked_perm (R := (· < ·)) h (fun _ _ => Iff.rfl) hperm
      fun a ha b hb => hm.eq_of_tie ha hb
  have hrank : rankRules localeCompare (rules'.map (·.toMatchedRule)) =
      rankRules localeCompare (rules.map (·.toMatchedRule)) := by
    refine insertionSort_ranked_perm (R := (· > ·)) h (fun _ _ => Iff.rfl) (hperm.map _)
      fun a ha b hb hab hba => ?_
    obtain ⟨r, hr, rfl⟩ := List.mem_map.1 ha
    obtain ⟨s, hs, rfl⟩ := List.mem_map.1 hb
    rw [hm.eq_of_tie hr hs hab hba]
  have htool : computeEffectiveToolPolicy localeCompare (rules'.map (·.toMatchedRule)) =
      computeEffectiveToolPolicy localeCompare (rules.map (·.toMatchedRule)) := by
    unfold computeEffectiveToolPolicy collect
    rw [hrank]
  simp only [evaluateActive, hactive, hmerge, htool]

/-- The first setter is of the highest score, and of the first id among these. -/
theorem firstSetter_eq_some (h : LocaleOrder localeCompare)
    (hm : MatchedRules localeCompare rules) :
    firstSetter localeCompare rules keys = some d ↔
      d ∈ rules ∧ (d.value keys).isSome = true ∧ Top rules keys d ∧
        ∀ r ∈ rules, (r.value keys).isSome = true → r.rank.score = d.rank.score →
          localeCompare d.ruleNodeId r.ruleNodeId ≤ 0 := by
  have hleast : ∀ {d}, firstSetter localeCompare rules keys = some d →
      d ∈ rules ∧ (d.value keys).isSome = true ∧ Top rules keys d ∧
        ∀ r ∈ rules, (r.value keys).isSome = true → r.rank.score = d.rank.score →
          localeCompare d.ruleNodeId r.ruleNodeId ≤ 0 := by
    intro d hd
    obtain ⟨hset, front, back, hsplit, hfront⟩ := List.find?_eq_some_iff_append.1 hd
    have hsorted := activeOrder_pairwise h rules
    rw [hsplit] at hsorted
    have hback := (List.pairwise_cons.1 (List.pairwise_append.1 hsorted).2.1).1
    have hrel : ∀ r ∈ rules, (r.value keys).isSome = true →
        scoreDesc localeCompare d.rank.score r.rank.score d.ruleNodeId r.ruleNodeId := by
      intro r hr hr'
      have hmem : r ∈ activeOrder localeCompare rules := mem_activeOrder.2 hr
      rw [hsplit] at hmem
      rcases List.mem_append.1 hmem with hmem | hmem
      · have hnot := hfront r hmem
        rw [hr'] at hnot
        cases hnot
      · rcases List.mem_cons.1 hmem with rfl | hmem
        · exact .inr ⟨rfl, h.refl _⟩
        · exact hback r hmem
    refine ⟨mem_activeOrder.1 (List.mem_of_find?_eq_some hd), hset, fun r hr hr' => ?_,
      fun r hr hr' hscore => ?_⟩
    · exact (hrel r hr hr').elim (fun hlt => hlt.le) fun heq => heq.1.ge
    · exact (hrel r hr hr').elim (fun hlt => absurd hscore hlt.ne) fun heq => heq.2
  refine ⟨hleast, fun ⟨hd, hset, htop, hid⟩ => ?_⟩
  cases hfind : firstSetter localeCompare rules keys with
  | none => exact absurd hset (by simpa using List.find?_eq_none.1 hfind d (mem_activeOrder.2 hd))
  | some d' =>
    obtain ⟨hd', hset', htop', hid'⟩ := hleast hfind
    have hscore : d'.rank.score = d.rank.score := le_antisymm (htop d' hd' hset') (htop' d hd hset)
    rw [hm.eq_of_tie hd' hd (hid' d hd hset hscore.symm) (hid d' hd' hset' hscore)]

end Orders

/-! ## The merge of ranked rules -/

section Lists

variable {α : Type} {l : List α} {a b : α}

theorem eq_or_before (ha : a ∈ l) (hb : b ∈ l) :
    a = b ∨ (∃ pre post, l = pre ++ b :: post ∧ a ∈ pre) ∨
      ∃ pre post, l = pre ++ a :: post ∧ b ∈ pre := by
  obtain ⟨pre, post, rfl⟩ := List.append_of_mem hb
  rcases List.mem_append.1 ha with ha | ha
  · exact .inr (.inl ⟨pre, post, rfl, ha⟩)
  · rcases List.mem_cons.1 ha with rfl | ha
    · exact .inl rfl
    · obtain ⟨mid, post, rfl⟩ := List.append_of_mem ha
      exact .inr (.inr ⟨pre ++ b :: mid, post, by simp, by simp⟩)

end Lists

section Merged

variable {pre post l : List ActiveRule} {r : ActiveRule} {keys : List String} {b v : Json}

theorem map_toPolicyRule_split {pre' post' : List PolicyRule} {r' : PolicyRule}
    (h : l.map (·.toPolicyRule) = pre' ++ r' :: post') :
    ∃ pre r post, l = pre ++ r :: post ∧ pre.map (·.toPolicyRule) = pre' ∧
      r.toPolicyRule = r' ∧ post.map (·.toPolicyRule) = post' := by
  obtain ⟨pre, rest, rfl, hpre, hrest⟩ := List.map_eq_append_iff.1 h
  obtain ⟨r, post, rfl, hr, hpost⟩ := List.map_eq_cons_iff.1 hrest
  exact ⟨pre, r, post, rfl, hpre, hr, hpost⟩

theorem distinct_map (h : ∀ s ∈ l, Distinct (.obj s.thenPatch)) :
    ∀ s ∈ l.map (·.toPolicyRule), Distinct (.obj s.thenPatch) := by
  intro s hs
  obtain ⟨s', hs', rfl⟩ := List.mem_map.1 hs
  exact h s' hs'

theorem merged_last_setter (hl : ∀ s ∈ l, Distinct (.obj s.thenPatch)) (hkeys : keys ≠ [])
    (h : valueAt (mergedPolicy l).policy keys = some b) :
    ∃ pre r post v, l = pre ++ r :: post ∧ r.value keys = some v ∧ Alike b v ∧
      ∀ s ∈ post, s.value keys = none := by
  obtain ⟨pre', r', post', v, hsplit, hv, halike, hpost⟩ :=
    exists_last_setter (distinct_map hl) hkeys h
  obtain ⟨pre, r, post, rfl, rfl, rfl, rfl⟩ := map_toPolicyRule_split hsplit
  exact ⟨pre, r, post, v, rfl, hv, halike, fun s hs => hpost _ (List.mem_map_of_mem hs)⟩

theorem merged_of_last_setter (hl : ∀ s ∈ pre ++ r :: post, Distinct (.obj s.thenPatch))
    (hv : r.value keys = some v)
    (hpost : ∀ s ∈ post, s.value keys = none ∧ blocks (.obj s.thenPatch) keys = false) :
    ∃ b, valueAt (mergedPolicy (pre ++ r :: post)).policy keys = some b ∧ Alike b v := by
  have hl' := distinct_map hl
  rw [List.map_append, List.map_cons] at hl'
  rw [mergedPolicy, List.map_append, List.map_cons]
  refine policy_of_last_setter hl' hv fun s hs => ?_
  obtain ⟨s', hs', rfl⟩ := List.mem_map.1 hs
  exact hpost s' hs'

theorem merged_of_blocked (hl : ∀ s ∈ pre ++ r :: post, Distinct (.obj s.thenPatch))
    (hblocks : blocks (.obj r.thenPatch) keys = true) (hpost : ∀ s ∈ post, s.value keys = none) :
    valueAt (mergedPolicy (pre ++ r :: post)).policy keys = none := by
  have hl' := distinct_map hl
  rw [List.map_append, List.map_cons] at hl'
  rw [mergedPolicy, List.map_append, List.map_cons]
  refine policy_of_blocked hl' hblocks fun s hs => ?_
  obtain ⟨s', hs', rfl⟩ := List.mem_map.1 hs
  exact hpost s' hs'

theorem mem_merged_conflicts {c : PolicyConflict} (hl : ∀ s ∈ l, Distinct (.obj s.thenPatch)) :
    c ∈ (mergedPolicy l).conflicts ↔
      ∃ pre r post, l = pre ++ r :: post ∧ c.winnerRuleNodeId = r.ruleNodeId ∧
        ClashAt (mergedPolicy pre).policy (.obj r.thenPatch) c.keys := by
  rw [mergedPolicy, mem_conflicts_iff (distinct_map hl)]
  constructor
  · rintro ⟨pre', r', post', hsplit, hwinner, hclash⟩
    obtain ⟨pre, r, post, rfl, rfl, rfl, rfl⟩ := map_toPolicyRule_split hsplit
    exact ⟨pre, r, post, rfl, hwinner, hclash⟩
  · rintro ⟨pre, r, post, rfl, hwinner, hclash⟩
    exact ⟨pre.map ActiveRule.toPolicyRule, r.toPolicyRule, post.map ActiveRule.toPolicyRule,
      by rw [List.map_append, List.map_cons], hwinner, hclash⟩

theorem isRecord_merged : isRecord (mergedPolicy l).policy = true := by
  rcases List.eq_nil_or_concat l with rfl | ⟨l, r, rfl⟩
  · rfl
  · rw [mergedPolicy, List.concat_eq_append, List.map_append, List.map_singleton,
      buildAppliedPolicy_concat, AppliedPolicy.add]
    exact mergeDeep_alike.isRecord_eq.trans rfl

end Merged

/-! ## Where precedence is kept -/

section Kept

variable {localeCompare : String → String → Int} {rules pre post : List ActiveRule}
  {r s : ActiveRule} {keys front rest : List String} {k : String}

theorem Top.mono (h : Top rules keys r) (hle : r.rank.score ≤ s.rank.score) : Top rules keys s :=
  fun r' hr' hset => (h r' hr' hset).trans hle

/-- A rule that sets a path, and one with something else on the way, are of different groups. -/
theorem top_differs (halike : AlikeAt rules front) (hr : r ∈ rules) (hs : s ∈ rules)
    (hset : (r.value (front ++ k :: rest)).isSome = true) {u : Json}
    (hu : s.value front = some u) (hrecord : isRecord u = false) :
    ¬ (Top rules front r ↔ Top rules front s) := by
  intro htop
  obtain ⟨w, hw⟩ := Option.isSome_iff_exists.1 hset
  obtain ⟨v, hv⟩ := exists_valueAt_of_append hw
  have hrec := isRecord_of_valueAt hw hv
  rw [(halike r hr s hs v u hv hu htop).isRecord_eq, hrecord] at hrec
  cases hrec

/-- The rules merged before one have no higher score, and those with its score no larger id. -/
theorem scoreAsc_of_split (h : LocaleOrder localeCompare)
    (hsplit : mergeOrder localeCompare rules = pre ++ r :: post) :
    (∀ s ∈ pre, scoreAsc localeCompare s.rank.score r.rank.score s.ruleNodeId r.ruleNodeId) ∧
      ∀ s ∈ post, scoreAsc localeCompare r.rank.score s.rank.score r.ruleNodeId s.ruleNodeId := by
  have hsorted := mergeOrder_pairwise h rules
  rw [hsplit, List.pairwise_append, List.pairwise_cons] at hsorted
  exact ⟨fun s hs => hsorted.2.2 s hs r List.mem_cons_self, hsorted.2.1.1⟩

theorem scoreAsc_le {x y : ℚ} {a b : String} (h : scoreAsc localeCompare x y a b) : x ≤ y :=
  h.elim le_of_lt fun heq => heq.1.le

theorem mem_of_split (hsplit : mergeOrder localeCompare rules = pre ++ r :: post) :
    ∀ s ∈ pre ++ r :: post, s ∈ rules := by
  intro s hs
  rw [← hsplit] at hs
  exact mem_mergeOrder.1 hs

/-- Between two setters of one group nothing gets in the way of the path, provided that at the
beginnings of the path the groups agree. -/
theorem not_blocks_between (halike : ∀ front k rest, keys = front ++ k :: rest →
      AlikeAt rules front) {j r s : ActiveRule} (hj : j ∈ rules) (hr : r ∈ rules) (hs : s ∈ rules)
    (hjset : (j.value keys).isSome = true) (hrset : (r.value keys).isSome = true)
    (hjs : j.rank.score ≤ s.rank.score) (hsr : s.rank.score ≤ r.rank.score) :
    blocks (.obj s.thenPatch) keys = false := by
  by_contra hblocks
  rw [Bool.not_eq_false] at hblocks
  obtain ⟨front, k, rest, u, rfl, hu, hrecord⟩ := blocks_iff.1 hblocks
  have halike := halike front k rest rfl
  have hjtop := top_differs halike hj hs hjset hu hrecord
  have hrtop := top_differs halike hr hs hrset hu hrecord
  have hstop : Top rules front s := by
    by_contra hnot
    exact hjtop (iff_of_false (fun htop => hnot (htop.mono hjs)) hnot)
  exact hrtop (iff_of_true (hstop.mono hsr) hstop)

section Respected

variable (h : LocaleOrder localeCompare) (hm : MatchedRules localeCompare rules)
  (hconflict : ∀ c ∈ (evaluateActive localeCompare rules).conflicts,
    (firstSetter localeCompare rules c.keys).map (·.ruleNodeId) = some c.winnerRuleNodeId)

include h hm hconflict

/-- If every conflict names the first setter, a setter is alike to the one before it in its
group. -/
theorem alike_of_adjacent
    (halike : ∀ front k rest, keys = front ++ k :: rest → AlikeAt rules front)
    {mid : List ActiveRule} {j : ActiveRule}
    (hsplit : mergeOrder localeCompare rules = (pre ++ j :: mid) ++ r :: post) {v w : Json}
    (hj : j.value keys = some v) (hr : r.value keys = some w)
    (hmid : ∀ s ∈ mid, s.value keys = none) (htop : Top rules keys j ↔ Top rules keys r) :
    Alike v w := by
  have hmem := mem_of_split hsplit
  have hjmem : j ∈ rules := hmem j (by simp)
  have hrmem : r ∈ rules := hmem r (by simp)
  have hjset : (j.value keys).isSome = true := by rw [hj]; rfl
  have hrset : (r.value keys).isSome = true := by rw [hr]; rfl
  obtain ⟨hbefore, -⟩ := scoreAsc_of_split h hsplit
  have hsplit' : mergeOrder localeCompare rules = pre ++ j :: (mid ++ r :: post) := by
    rw [hsplit]
    simp
  obtain ⟨-, hafter⟩ := scoreAsc_of_split h hsplit'
  obtain ⟨b, hb, hbv⟩ := @merged_of_last_setter pre mid j keys v
    (fun s hs => hm.distinct s (hmem s (List.mem_append_left _ hs))) hj fun s hs =>
      ⟨hmid s hs, not_blocks_between halike hjmem hrmem (hmem s (by simp [hs])) hjset hrset
        (scoreAsc_le (hafter s (by simp [hs]))) (scoreAsc_le (hbefore s (by simp [hs])))⟩
  by_contra hnot
  have hclash : ClashAt (mergedPolicy (pre ++ j :: mid)).policy (.obj r.thenPatch) keys :=
    ⟨b, w, hb, hr, fun hbw => hnot (hbv.symm.trans hbw)⟩
  have hentry : (⟨keys, r.ruleNodeId⟩ : PolicyConflict) ∈
      (evaluateActive localeCompare rules).conflicts :=
    (mem_merged_conflicts fun s hs => hm.distinct s (mem_mergeOrder.1 hs)).2
      ⟨pre ++ j :: mid, r, post, hsplit, rfl, hclash⟩
  obtain ⟨d, hd, hid⟩ := Option.map_eq_some_iff.1 (hconflict _ hentry)
  obtain ⟨hdmem, -, hdtop, hdfirst⟩ := (firstSetter_eq_some h hm).1 hd
  obtain rfl : d = r := hm.eq_of_id hdmem hrmem hid
  have hscore : j.rank.score = d.rank.score :=
    le_antisymm (hdtop j hjmem hjset) (htop.2 hdtop d hrmem hrset)
  have hjd : localeCompare j.ruleNodeId d.ruleNodeId ≤ 0 :=
    (hbefore j (by simp)).elim (fun hlt => absurd hscore hlt.ne) And.right
  have heq : j = d := hm.eq_of_tie hjmem hrmem hjd (hdfirst j hjmem hjset hscore)
  have hnodup : (mergeOrder localeCompare rules).Nodup :=
    (List.perm_insertionSort _ _).nodup_iff.2 (List.Nodup.of_map _ hm.ids)
  rw [hsplit, heq] at hnodup
  simp [List.nodup_append] at hnodup

/-- And so all setters of a group are alike. -/
theorem alike_of_before
    (halike : ∀ front k rest, keys = front ++ k :: rest → AlikeAt rules front) (n : Nat) :
    ∀ pre r post, pre.length ≤ n → mergeOrder localeCompare rules = pre ++ r :: post →
      ∀ w, r.value keys = some w → ∀ s ∈ pre, ∀ v, s.value keys = some v →
        (Top rules keys s ↔ Top rules keys r) → Alike v w := by
  induction n with
  | zero =>
    intro pre r post hn _ w _ s hs
    rw [List.length_eq_zero_iff.1 (Nat.le_zero.1 hn)] at hs
    cases hs
  | succ n ih =>
    intro pre r post hn hsplit w hr s hs v hv htop
    obtain ⟨pre, j, mid, rfl, hjset, hmid⟩ := @Slots.exists_last ActiveRule
      (fun j => (j.value keys).isSome = true) pre ⟨s, hs, by rw [hv]; rfl⟩
    have hmid : ∀ s ∈ mid, s.value keys = none := fun s hs => by simpa using hmid s hs
    obtain ⟨u, hj⟩ := Option.isSome_iff_exists.1 hjset
    have hsplit' : mergeOrder localeCompare rules = pre ++ j :: (mid ++ r :: post) := by
      rw [hsplit]
      simp
    have hsj : s = j ∨ s ∈ pre := by
      rcases List.mem_append.1 hs with hs | hs
      · exact .inr hs
      · rcases List.mem_cons.1 hs with rfl | hs
        · exact .inl rfl
        · rw [hmid s hs] at hv
          cases hv
    have hjr : Top rules keys j ↔ Top rules keys r := by
      obtain ⟨hbefore, -⟩ := scoreAsc_of_split h hsplit
      refine ⟨fun hj => hj.mono (scoreAsc_le (hbefore j (by simp))), fun hr => ?_⟩
      rcases hsj with rfl | hs
      · exact htop.2 hr
      · exact (htop.2 hr).mono (scoreAsc_le ((scoreAsc_of_split h hsplit').1 s hs))
    have huw : Alike u w := alike_of_adjacent h hm hconflict halike hsplit hj hr hmid hjr
    rcases hsj with rfl | hs
    · obtain rfl := Option.some.inj (hv.symm.trans hj)
      exact huw
    · have hlength : pre.length ≤ n := by
        simp only [List.length_append, List.length_cons] at hn
        omega
      exact (ih pre j _ hlength hsplit' u hj s hs v hv (htop.trans hjr.symm)).trans huw

theorem alikeAt_of_conflicts (n : Nat) : ∀ keys, keys.length ≤ n → AlikeAt rules keys := by
  induction n with
  | zero =>
    intro keys hn r hr r' hr' v v' hv hv' _
    rw [List.length_eq_zero_iff.1 (Nat.le_zero.1 hn)] at hv hv'
    obtain rfl := Option.some.inj hv
    obtain rfl := Option.some.inj hv'
    exact .inl ⟨rfl, rfl⟩
  | succ n ih =>
    intro keys hn r hr r' hr' v v' hv hv' htop
    have halike : ∀ front k rest, keys = front ++ k :: rest → AlikeAt rules front := by
      rintro front k rest rfl
      refine ih front ?_
      simp only [List.length_append, List.length_cons] at hn
      omega
    rcases eq_or_before (mem_mergeOrder.2 hr : r ∈ mergeOrder localeCompare rules)
        (mem_mergeOrder.2 hr') with rfl | ⟨pre, post, hsplit, hmem⟩ | ⟨pre, post, hsplit, hmem⟩
    · obtain rfl := Option.some.inj (hv.symm.trans hv')
      exact .refl v
    · exact alike_of_before h hm hconflict halike pre.length pre r' post le_rfl hsplit v' hv'
        r hmem v hv htop
    · exact (alike_of_before h hm hconflict halike pre.length pre r post le_rfl hsplit v hv
        r' hmem v' hv' htop.symm).symm

end Respected

/-! ## Values -/

/-- A scalar is no value of the tool policy. -/
theorem not_tool_of_scalar (hvalid : PolicyPatchValid r.thenPatch = true) {v : Json}
    (hv : r.value ("tool" :: rest) = some v) : isScalar v = false := by
  rw [PolicyPatchValid, Bool.and_eq_true, Bool.and_eq_true] at hvalid
  have htool := hvalid.1.2
  have hv' : (get r.thenPatch "tool").bind (valueAt · rest) = some v := hv
  obtain ⟨tool, hget, hv'⟩ := Option.bind_eq_some_iff.1 hv'
  rw [hget] at htool
  cases tool with
  | obj fields =>
    cases rest with
    | nil =>
      obtain rfl := Option.some.inj hv'
      rfl
    | cons k rest =>
      rw [valueAt] at hv'
      obtain ⟨names, hnames, hv'⟩ := Option.bind_eq_some_iff.1 hv'
      rw [ToolPolicyValid, Bool.and_eq_true, List.all_eq_true] at htool
      have hk : k ∈ ["allow", "deny", "prefer"] := by
        have hstrict := List.all_eq_true.1 htool.1 _ (mem_of_get hnames)
        simpa using hstrict
      have hlist := htool.2 k hk
      rw [hnames] at hlist
      cases names with
      | arr xs =>
        cases rest with
        | nil =>
          obtain rfl := Option.some.inj hv'
          rfl
        | cons k rest => cases hv'
      | _ => cases hlist
  | _ => cases htool

/-- The tool policy takes no place but its own. -/
theorem valueAt_withTool {policy : Json} {tool : ToolPolicyPatch} (hkeys : keys.head? ≠ some "tool")
    (hne : keys ≠ []) : valueAt (withTool policy tool) keys = valueAt policy keys := by
  cases keys with
  | nil => exact absurd rfl hne
  | cons k keys =>
    have hk : k ≠ "tool" := fun hk => hkeys (congrArg some hk)
    cases policy with
    | obj fields => rw [withTool, valueAt, get_set_of_ne hk, valueAt]
    | _ => rfl

theorem exists_setter (hshared : SharedScalarPath rules keys) :
    ∃ r ∈ rules, (r.value keys).isSome = true := by
  obtain ⟨r, hr⟩ := List.exists_mem_of_length_pos (lt_of_lt_of_le (by decide) hshared.shared)
  exact ⟨r, (List.mem_filter.1 hr).1, (List.mem_filter.1 hr).2⟩

/-- Where rules share a scalar path, the policy has there what the merge makes of it. -/
theorem evaluate_value (hm : MatchedRules localeCompare rules)
    (hshared : SharedScalarPath rules keys) :
    valueAt (evaluateActive localeCompare rules).policy keys =
      valueAt (mergedPolicy (mergeOrder localeCompare rules)).policy keys := by
  obtain ⟨r, hr, hset⟩ := exists_setter hshared
  obtain ⟨v, hv⟩ := Option.isSome_iff_exists.1 hset
  have hscalar := hshared.scalar r hr v hv
  refine valueAt_withTool ?_ ?_
  · intro hhead
    obtain ⟨rest, rfl⟩ : ∃ rest, keys = "tool" :: rest := by
      cases keys with
      | nil => cases hhead
      | cons k rest => exact ⟨rest, by rw [Option.some.inj hhead]⟩
    rw [not_tool_of_scalar (hm.valid r hr) hv] at hscalar
    cases hscalar
  · rintro rfl
    obtain rfl := Option.some.inj hv
    cases hscalar

section

variable (h : LocaleOrder localeCompare)

include h

/-- The last setter in the merge is of the higher group. -/
theorem top_of_last (hsplit : mergeOrder localeCompare rules = pre ++ r :: post)
    (hpost : ∀ s ∈ post, s.value keys = none) : Top rules keys r := by
  intro s hs hset
  have hmem : s ∈ mergeOrder localeCompare rules := mem_mergeOrder.2 hs
  rw [hsplit] at hmem
  rcases List.mem_append.1 hmem with hmem | hmem
  · exact scoreAsc_le ((scoreAsc_of_split h hsplit).1 s hmem)
  · rcases List.mem_cons.1 hmem with rfl | hmem
    · exact le_rfl
    · rw [hpost s hmem] at hset
      cases hset

/-- A higher rule that sets a beginning of a shared path to no record takes the path away. -/
theorem unblocked_of_kept (hm : MatchedRules localeCompare rules)
    (hkept : PrecedenceKept localeCompare rules) (halike : ∀ keys, AlikeAt rules keys)
    (hshared : SharedScalarPath rules (front ++ k :: rest)) (hr : r ∈ rules) {u : Json}
    (hu : r.value front = some u) (htop : Top rules front r) : isRecord u = true := by
  by_contra hrecord
  rw [Bool.not_eq_true] at hrecord
  have hblocks : blocks (.obj r.thenPatch) (front ++ k :: rest) = true :=
    blocks_iff.2 ⟨front, k, rest, u, rfl, hu, hrecord⟩
  obtain ⟨pre, post, hsplit⟩ := List.append_of_mem
    (mem_mergeOrder.2 hr : r ∈ mergeOrder localeCompare rules)
  have hmem := mem_of_split hsplit
  have hpost : ∀ s ∈ post, s.value (front ++ k :: rest) = none := by
    intro s hs
    by_contra hset
    rw [← ne_eq, Option.ne_none_iff_isSome] at hset
    have hdiffers := top_differs (halike front) (hmem s (by simp [hs])) hr hset hu hrecord
    exact hdiffers (iff_of_true
      (htop.mono (scoreAsc_le ((scoreAsc_of_split h hsplit).2 s hs))) htop)
  have hnone := merged_of_blocked (fun s hs => hm.distinct s (hmem s hs)) hblocks hpost
  rw [← hsplit, ← evaluate_value hm hshared] at hnone
  obtain ⟨s, hs, hset⟩ := exists_setter hshared
  cases hfirst : firstSetter localeCompare rules (front ++ k :: rest) with
  | none =>
    have hnot := List.find?_eq_none.1 hfirst s (mem_activeOrder.2 hs)
    exact hnot hset
  | some d =>
    have hvalue := hkept.value _ hshared d hfirst
    have hdset := ((firstSetter_eq_some h hm).1 hfirst).2.1
    rw [← hvalue, hnone] at hdset
    cases hdset

theorem Concordant.value (hm : MatchedRules localeCompare rules)
    (hc : Concordant rules) (hshared : SharedScalarPath rules keys) {d : ActiveRule}
    (hd : firstSetter localeCompare rules keys = some d) :
    valueAt (evaluateActive localeCompare rules).policy keys = d.value keys := by
  obtain ⟨s, hs, hset⟩ := exists_setter hshared
  obtain ⟨pre, r, post, hsplit, hrset, hpost⟩ := @Slots.exists_last ActiveRule
    (fun r => (r.value keys).isSome = true) (mergeOrder localeCompare rules)
    ⟨s, mem_mergeOrder.2 hs, hset⟩
  have hpost : ∀ s ∈ post, s.value keys = none := fun s hs => by simpa using hpost s hs
  have hmem := mem_of_split hsplit
  have hr : r ∈ rules := hmem r (by simp)
  obtain ⟨v, hv⟩ := Option.isSome_iff_exists.1 hrset
  have hopen : ∀ s ∈ post, blocks (.obj s.thenPatch) keys = false := by
    intro s hs
    by_contra hblocks
    rw [Bool.not_eq_false] at hblocks
    obtain ⟨front, k, rest, u, rfl, hu, hrecord⟩ := blocks_iff.1 hblocks
    have hs' : s ∈ rules := hmem s (by simp [hs])
    have hdiffers := top_differs (hc.alike front) hr hs' hrset hu hrecord
    have hstop : Top rules front s := by
      by_contra hnot
      exact hdiffers (iff_of_false (fun htop =>
        hnot (htop.mono (scoreAsc_le ((scoreAsc_of_split h hsplit).2 s hs)))) hnot)
    rw [hc.unblocked front k rest hshared s hs' u hu hstop] at hrecord
    cases hrecord
  obtain ⟨b, hb, halike⟩ := merged_of_last_setter (fun s hs => hm.distinct s (hmem s hs)) hv
    fun s hs => ⟨hpost s hs, hopen s hs⟩
  obtain ⟨hdmem, hdset, hdtop, -⟩ := (firstSetter_eq_some h hm).1 hd
  obtain ⟨w, hw⟩ := Option.isSome_iff_exists.1 hdset
  have hvw := hc.alike keys r hr d hdmem v w hv hw
    (iff_of_true (top_of_last h hsplit hpost) hdtop)
  rw [evaluate_value hm hshared, hsplit, hb, hw,
    ← halike.symm.eq_of_isScalar (hshared.scalar r hr v hv),
    hvw.eq_of_isScalar (hshared.scalar r hr v hv)]

theorem Concordant.conflict (hm : MatchedRules localeCompare rules)
    (hc : Concordant rules) {c : PolicyConflict}
    (hmem : c ∈ (evaluateActive localeCompare rules).conflicts) :
    (firstSetter localeCompare rules c.keys).map (·.ruleNodeId) = some c.winnerRuleNodeId := by
  have hdistinct : ∀ s ∈ mergeOrder localeCompare rules, Distinct (.obj s.thenPatch) :=
    fun s hs => hm.distinct s (mem_mergeOrder.1 hs)
  obtain ⟨pre, r, post, hsplit, hwinner, hclash⟩ := (mem_merged_conflicts hdistinct).1 hmem
  obtain ⟨b, w, hb, hw, hnot⟩ := hclash
  have hall := mem_of_split hsplit
  have hr : r ∈ rules := hall r (by simp)
  have hkeys : c.keys ≠ [] := by
    intro hnil
    rw [hnil] at hb hw
    obtain rfl := Option.some.inj hb
    obtain rfl := Option.some.inj hw
    exact hnot (.inl ⟨isRecord_merged, rfl⟩)
  obtain ⟨front, j, mid, v, rfl, hj, hbv, hmid⟩ := merged_last_setter
    (fun s hs => hm.distinct s (hall s (List.mem_append_left _ hs))) hkeys hb
  have hjmem : j ∈ rules := hall j (by simp)
  obtain ⟨hbefore, hafter⟩ := scoreAsc_of_split h hsplit
  have hjr := scoreAsc_le (hbefore j (by simp))
  have hdiffers : ¬ (Top rules c.keys j ↔ Top rules c.keys r) := fun htop =>
    hnot (hbv.trans (hc.alike c.keys j hjmem r hr v w hj hw htop))
  have hjtop : ¬ Top rules c.keys j := fun htop =>
    hdiffers (iff_of_true htop (htop.mono hjr))
  have hrtop : Top rules c.keys r := by
    by_contra hnot
    exact hdiffers (iff_of_false hjtop hnot)
  have hrset : (r.value c.keys).isSome = true := by rw [show r.value c.keys = some w from hw]; rfl
  have hfirst : firstSetter localeCompare rules c.keys = some r := by
    refine (firstSetter_eq_some h hm).2 ⟨hr, hrset, hrtop, fun s hs hset hscore => ?_⟩
    have hsmem : s ∈ mergeOrder localeCompare rules := mem_mergeOrder.2 hs
    rw [hsplit] at hsmem
    rcases List.mem_append.1 hsmem with hsmem | hsmem
    · -- Setters before `r` are not of its group.
      have hsj : s.rank.score ≤ j.rank.score := by
        have hsplit' : mergeOrder localeCompare rules = front ++ j :: (mid ++ r :: post) := by
          rw [hsplit]
          simp
        rcases List.mem_append.1 hsmem with hsmem | hsmem
        · exact scoreAsc_le ((scoreAsc_of_split h hsplit').1 s hsmem)
        · rcases List.mem_cons.1 hsmem with rfl | hsmem
          · exact le_rfl
          · rw [hmid s hsmem] at hset
            cases hset
      exact absurd (hrtop.mono (hscore ▸ hsj)) hjtop
    · rcases List.mem_cons.1 hsmem with rfl | hsmem
      · exact h.refl _
      · exact (hafter s hsmem).elim (fun hlt => absurd hscore.symm hlt.ne) And.right
  rw [hfirst, hwinner]
  rfl

end

end Kept

/-! ## A tie -/

/-- A rule of rank 0 that sets the output format. -/
def formatRule (ruleNodeId format : String) : ActiveRule where
  ruleNodeId
  commitId := "c"
  rank := readRuleRankMeta sampleRuleHost (rankedRule 0 0)
  thenPatch := [("output", .obj [("format", .str format)])]

/-- A collation of sample ids. -/
def sampleCompare (a b : String) : Int := if a < b then -1 else if a = b then 0 else 1

theorem sampleCompare_le {a b : String} : sampleCompare a b ≤ 0 ↔ a ≤ b := by
  unfold sampleCompare
  split
  · next h => exact iff_of_true (by decide) h.le
  · next h =>
    split
    · next heq => exact iff_of_true le_rfl heq.le
    · next hne => exact iff_of_false (by decide) fun hle => h (lt_of_le_of_ne hle hne)

theorem sampleCompare_order : LocaleOrder sampleCompare where
  total a b := by
    rw [sampleCompare_le, sampleCompare_le]
    exact le_total a b
  trans a b c hab hbc := by
    rw [sampleCompare_le] at hab hbc ⊢
    exact hab.trans hbc

end AionisCore.Memory
