import Mathlib.Data.List.Sort
import Mathlib.Data.Rat.Defs
import Mathlib.Algebra.Order.Ring.Rat

/-!
# The effective tool policy

`computeEffectiveToolPolicy` merges the tool patches of the matched rules: the
effective allow list is the intersection of the non-empty allow lists, the deny
list is their union, and the prefer list takes first occurrences in descending
score. `explain` reports who contributed what. `String.prototype.localeCompare`
depends on the host's collation and is a parameter.
-/

namespace AionisCore.Memory

/-- The `tool` part of a policy patch. -/
structure ToolPolicyPatch where
  allow : Option (List String) := none
  deny : Option (List String) := none
  prefer : Option (List String) := none
  deriving DecidableEq, Repr

/-- `z.array(z.string().min(1)).max(100).optional()`. -/
def toolListOk (xs : Option (List String)) : Bool :=
  xs.all fun l => l.length ≤ 100 && l.all (· != "")

/-- What the schema `ToolPolicy` accepts. -/
def ToolPolicyPatch.SchemaValid (p : ToolPolicyPatch) : Prop :=
  toolListOk p.allow && toolListOk p.deny && toolListOk p.prefer

instance (p : ToolPolicyPatch) : Decidable p.SchemaValid :=
  inferInstanceAs (Decidable (_ = true))

/-- `...(xs.length > 0 ? { key: xs } : {})`. -/
def someIfNonempty (xs : List String) : Option (List String) := if xs = [] then none else some xs

@[simp] theorem getD_someIfNonempty (xs : List String) : (someIfNonempty xs).getD [] = xs := by
  unfold someIfNonempty
  split
  · next h => rw [h, Option.getD_none]
  · rw [Option.getD_some]

/-- A matched rule as `computeEffectiveToolPolicy` receives it. -/
structure MatchedRule where
  ruleNodeId : String
  score : ℚ
  evidenceScore : Option ℚ := none
  priority : Option ℚ := none
  weight : Option ℚ := none
  specificity : Option ℚ := none
  tool : Option ToolPolicyPatch := none
  deriving DecidableEq

namespace MatchedRule

def allow (r : MatchedRule) : List String := (r.tool.bind (·.allow)).getD []

def deny (r : MatchedRule) : List String := (r.tool.bind (·.deny)).getD []

def prefer (r : MatchedRule) : List String := (r.tool.bind (·.prefer)).getD []

end MatchedRule

/-- `uniq`, `uniqKeepOrder`: the non-empty strings at their first occurrence. -/
def uniq (xs : List String) : List String := (xs.filter (· ≠ "")).eraseDups

@[simp] theorem mem_uniq {x : String} {xs : List String} : x ∈ uniq xs ↔ x ∈ xs ∧ x ≠ "" := by
  simp [uniq, List.mem_eraseDups]

theorem uniq_eq_nil {xs : List String} : uniq xs = [] ↔ ∀ x ∈ xs, x = "" := by
  simp [List.eq_nil_iff_forall_not_mem]

/-- `Set.prototype.add` on a set listed in insertion order. -/
def setAdd (s : List String) (x : String) : List String := if x ∈ s then s else s ++ [x]

theorem mem_foldl_setAdd {x : String} (xs : List String) :
    ∀ s : List String, x ∈ xs.foldl setAdd s ↔ x ∈ s ∨ x ∈ xs := by
  induction xs with
  | nil => simp
  | cons y ys ih =>
    intro s
    rw [List.foldl_cons, ih]
    by_cases hy : y ∈ s
    · rw [setAdd, if_pos hy, List.mem_cons]
      constructor
      · rintro (h | h)
        · exact .inl h
        · exact .inr (.inr h)
      · rintro (h | rfl | h)
        · exact .inl h
        · exact .inl hy
        · exact .inr h
    · simp [setAdd, hy, or_assoc]

structure Contribution where
  ruleNodeId : String
  score : ℚ
  evidenceScore : ℚ
  priority : ℚ
  weight : ℚ
  specificity : ℚ
  allowN : Nat
  denyN : Nat
  preferN : Nat
  firstPrefer : Option String
  deriving DecidableEq

structure AllowSet where
  ruleNodeId : String
  score : ℚ
  set : List String
  deriving DecidableEq

structure AllowDetail where
  ruleNodeId : String
  score : ℚ
  allowN : Nat
  deriving DecidableEq

structure TopChoice where
  ruleNodeId : String
  score : ℚ
  firstPrefer : Option String
  deriving DecidableEq

inductive ConflictCode where
  | allowIntersection
  | allowIntersectionEmpty
  | preferCompetingTopChoice
  deriving DecidableEq, Repr

inductive ConflictDetails where
  | allowSets (xs : List AllowDetail)
  | topChoices (xs : List TopChoice)
  deriving DecidableEq

structure Conflict where
  code : ConflictCode
  message : String
  details : ConflictDetails
  winnerRuleNodeId : Option String
  deriving DecidableEq

/-- `explain.winners`: records from a tool to a rule, in insertion order. -/
structure Winners where
  preferByTool : List (String × String)
  denyByTool : List (String × String)
  deriving DecidableEq

structure ToolPolicyExplain where
  notes : List String
  contributions : List Contribution
  winners : Winners
  conflicts : List Conflict
  deriving DecidableEq

structure EffectiveToolPolicy where
  tool : ToolPolicyPatch
  explain : ToolPolicyExplain
  deriving DecidableEq

/-- The keys every plain object inherits: `t in record` holds and `record[t]` is truthy. -/
def objectPrototypeKeys : List String :=
  ["constructor", "toString", "toLocaleString", "valueOf", "hasOwnProperty", "isPrototypeOf",
    "propertyIsEnumerable", "__proto__", "__defineGetter__", "__defineSetter__",
    "__lookupGetter__", "__lookupSetter__"]

/-- The accumulators of the loop over the rules. -/
structure PolicyAcc where
  contributions : List Contribution := []
  winnersPrefer : List (String × String) := []
  winnersDeny : List (String × String × ℚ) := []
  allowSets : List AllowSet := []
  denyUnion : List String := []
  preferOrder : List String := []

/-- `if (!cur || r.score > cur.score) winnersDeny[t] = …`. -/
def recordDeny (r : MatchedRule) (winners : List (String × String × ℚ)) (t : String) :
    List (String × String × ℚ) :=
  match winners.lookup t with
  | some cur =>
    if cur.2 < r.score then
      winners.map fun w => if w.1 = t then (t, r.ruleNodeId, r.score) else w
    else winners
  | none =>
    -- an inherited property is truthy, and comparing the score with its `score` is false
    if t ∈ objectPrototypeKeys then winners else winners ++ [(t, r.ruleNodeId, r.score)]

/-- `if (!(t in winnersPrefer)) winnersPrefer[t] = r.rule_node_id`. -/
def recordPrefer (r : MatchedRule) (winners : List (String × String)) (t : String) :
    List (String × String) :=
  if (winners.lookup t).isSome ∨ t ∈ objectPrototypeKeys then winners
  else winners ++ [(t, r.ruleNodeId)]

/-- The body of the loop over the rules. -/
def PolicyAcc.visit (acc : PolicyAcc) (r : MatchedRule) : PolicyAcc :=
  let allow := uniq r.allow
  let deny := uniq r.deny
  let prefer := uniq r.prefer
  if allow = [] ∧ deny = [] ∧ prefer = [] then acc
  else
    { contributions := acc.contributions ++
        [{ ruleNodeId := r.ruleNodeId, score := r.score,
           evidenceScore := r.evidenceScore.getD 0, priority := r.priority.getD 0,
           weight := r.weight.getD 1, specificity := r.specificity.getD 0,
           allowN := allow.length, denyN := deny.length, preferN := prefer.length,
           firstPrefer := prefer.head? }]
      allowSets := if allow = [] then acc.allowSets
        else acc.allowSets ++ [⟨r.ruleNodeId, r.score, allow⟩]
      denyUnion := deny.foldl setAdd acc.denyUnion
      winnersDeny := deny.foldl (recordDeny r) acc.winnersDeny
      winnersPrefer := prefer.foldl (recordPrefer r) acc.winnersPrefer
      preferOrder := acc.preferOrder ++ prefer }

/-- The intersection of the allow sets. -/
def interSets : List AllowSet → List String
  | [] => []
  | a :: as => as.foldl (fun inter b => inter.filter (· ∈ b.set)) a.set

def allowDetails (sets : List AllowSet) : List AllowDetail :=
  sets.map fun x => ⟨x.ruleNodeId, x.score, x.set.length⟩

section Collation

variable (localeCompare : String → String → Int)

/-- `sorted`. -/
def sorted (xs : List String) : List String :=
  xs.insertionSort fun a b => localeCompare a b ≤ 0

/-- `b.score - a.score || a.rule_node_id.localeCompare(b.rule_node_id)` is not positive. -/
def scoreDesc (scoreA scoreB : ℚ) (idA idB : String) : Prop :=
  scoreB < scoreA ∨ scoreA = scoreB ∧ localeCompare idA idB ≤ 0

instance (x y : ℚ) (a b : String) : Decidable (scoreDesc localeCompare x y a b) :=
  inferInstanceAs (Decidable (_ ∨ _))

/-- The rules in the order the loop visits them. -/
def rankRules (rules : List MatchedRule) : List MatchedRule :=
  rules.insertionSort fun a b => scoreDesc localeCompare a.score b.score a.ruleNodeId b.ruleNodeId

def collect (rules : List MatchedRule) : PolicyAcc :=
  (rankRules localeCompare rules).foldl PolicyAcc.visit {}

/-- The conflict among rules with different first preferences. -/
def preferConflicts (contributions : List Contribution) : List Conflict :=
  let topChoices := (contributions.map fun c => TopChoice.mk c.ruleNodeId c.score c.firstPrefer)
    |>.filter fun x => x.firstPrefer.any (· != "")
  let distinctTop := uniq (topChoices.filterMap (·.firstPrefer))
  let ranked := topChoices.insertionSort fun a b =>
    scoreDesc localeCompare a.score b.score a.ruleNodeId b.ruleNodeId
  if 1 < distinctTop.length then
    ranked.head?.toList.map fun winner =>
      { code := .preferCompetingTopChoice
        message := "multiple matched rules propose different top preferred tools; " ++
          s!"highest-rank rule wins priority (winner={winner.ruleNodeId})"
        details := .topChoices topChoices
        winnerRuleNodeId := some winner.ruleNodeId }
  else []

/-- The conflicts reported about the allow sets and their intersection `allowOut`. -/
def allowConflicts (sets : List AllowSet) (allowOut : List String) : List Conflict :=
  { code := .allowIntersection
    message := s!"effective allowlist is intersection of {sets.length} rule allowlists " ++
      s!"(size={allowOut.length})"
    details := .allowSets (allowDetails sets)
    winnerRuleNodeId := none } ::
  if allowOut = [] then
    [{ code := .allowIntersectionEmpty
       message := "allowlist intersection is empty; " ++
         "tool selection may require strict=false fallback or rule changes"
       details := .allowSets (allowDetails sets)
       winnerRuleNodeId := none }]
  else []

def computeEffectiveToolPolicy (rules : List MatchedRule) : EffectiveToolPolicy :=
  let acc := collect localeCompare rules
  let allowOut :=
    if acc.allowSets = [] then none else some (sorted localeCompare (interSets acc.allowSets))
  let denyOut := sorted localeCompare acc.denyUnion
  let preferOut := uniq acc.preferOrder
  { tool :=
      { allow := allowOut
        deny := someIfNonempty denyOut
        prefer := someIfNonempty preferOut }
    explain :=
      { notes := [if acc.allowSets = [] then
            "no matched rule sets tool.allow; allowlist not enforced."
          else
            "tool.allow present on >=1 matched rule; effective allowlist is the " ++
              "intersection across those rules."]
        contributions := acc.contributions
        winners :=
          { preferByTool := acc.winnersPrefer
            denyByTool := acc.winnersDeny.map fun w => (w.1, w.2.1) }
        conflicts := (match allowOut with
            | some out => allowConflicts acc.allowSets out
            | none => []) ++ preferConflicts localeCompare acc.contributions } }

end Collation

/-! ## What the loop collects -/

/-- The allow set a rule contributes. -/
def allowSetOf (r : MatchedRule) : Option AllowSet :=
  if uniq r.allow = [] then none else some ⟨r.ruleNodeId, r.score, uniq r.allow⟩

theorem visit_allowSets (acc : PolicyAcc) (r : MatchedRule) :
    (acc.visit r).allowSets = acc.allowSets ++ (allowSetOf r).toList := by
  unfold PolicyAcc.visit allowSetOf
  by_cases ha : uniq r.allow = []
  · simp only [ha, true_and, if_true, Option.toList_none, List.append_nil]
    split <;> rfl
  · simp [ha]

variable {t : String}

theorem mem_visit_denyUnion (acc : PolicyAcc) (r : MatchedRule) :
    t ∈ (acc.visit r).denyUnion ↔ t ∈ acc.denyUnion ∨ t ∈ uniq r.deny := by
  unfold PolicyAcc.visit
  by_cases h : uniq r.allow = [] ∧ uniq r.deny = [] ∧ uniq r.prefer = []
  · simp only [h, and_self, if_true, List.not_mem_nil, or_false]
  · simp only [h, if_false]
    exact mem_foldl_setAdd _ _

theorem foldl_visit_allowSets (rs : List MatchedRule) : ∀ acc : PolicyAcc,
    (rs.foldl PolicyAcc.visit acc).allowSets = acc.allowSets ++ rs.filterMap allowSetOf := by
  induction rs with
  | nil => simp
  | cons r rs ih =>
    intro acc
    rw [List.foldl_cons, ih, visit_allowSets, List.append_assoc]
    cases h : allowSetOf r <;> simp [h]

theorem mem_foldl_visit_denyUnion (rs : List MatchedRule) : ∀ acc : PolicyAcc,
    t ∈ (rs.foldl PolicyAcc.visit acc).denyUnion ↔
      t ∈ acc.denyUnion ∨ ∃ r ∈ rs, t ∈ uniq r.deny := by
  induction rs with
  | nil => simp
  | cons r rs ih =>
    intro acc
    rw [List.foldl_cons, ih, mem_visit_denyUnion]
    simp [or_assoc]

theorem mem_foldl_inter (as : List AllowSet) : ∀ inter : List String,
    t ∈ as.foldl (fun inter b => inter.filter (· ∈ b.set)) inter ↔
      t ∈ inter ∧ ∀ b ∈ as, t ∈ b.set := by
  induction as with
  | nil => simp
  | cons a as ih =>
    intro inter
    rw [List.foldl_cons, ih]
    simp [and_assoc]

theorem mem_interSets {sets : List AllowSet} :
    t ∈ interSets sets ↔ sets ≠ [] ∧ ∀ a ∈ sets, t ∈ a.set := by
  cases sets with
  | nil => simp [interSets]
  | cons a as => simp [interSets, mem_foldl_inter]

/-! ## The merged policy -/

/-- Some rule has a non-empty allow list. -/
def HasAllowlist (rules : List MatchedRule) : Prop := ∃ r ∈ rules, r.allow ≠ []

/-- `t` is on the allow list of every rule that has a non-empty one. -/
def AllowedByAll (rules : List MatchedRule) (t : String) : Prop :=
  ∀ r ∈ rules, r.allow ≠ [] → t ∈ r.allow

/-- `t` is on the deny list of some rule. -/
def DeniedBySome (rules : List MatchedRule) (t : String) : Prop := ∃ r ∈ rules, t ∈ r.deny

/-- Every tool patch among the rules passed the schema. -/
def SchemaValidRules (rules : List MatchedRule) : Prop :=
  ∀ r ∈ rules, ∀ p ∈ r.tool, p.SchemaValid

instance (rules : List MatchedRule) : Decidable (HasAllowlist rules) :=
  inferInstanceAs (Decidable (∃ r ∈ rules, r.allow ≠ []))

instance (rules : List MatchedRule) (t : String) : Decidable (AllowedByAll rules t) :=
  inferInstanceAs (Decidable (∀ r ∈ rules, r.allow ≠ [] → t ∈ r.allow))

instance (rules : List MatchedRule) (t : String) : Decidable (DeniedBySome rules t) :=
  inferInstanceAs (Decidable (∃ r ∈ rules, t ∈ r.deny))

instance (rules : List MatchedRule) : Decidable (SchemaValidRules rules) :=
  inferInstanceAs (Decidable (∀ r ∈ rules, ∀ p ∈ r.tool, p.SchemaValid))

theorem ne_empty_of_toolListOk {xs : Option (List String)} (h : toolListOk xs = true)
    (ht : t ∈ xs.getD []) : t ≠ "" := by
  cases xs with
  | none => simp at ht
  | some l =>
    simp only [toolListOk, Option.all_some, Bool.and_eq_true, List.all_eq_true] at h
    simpa using h.2 t ht

/-- A schema-valid tool patch holds no empty string. -/
theorem SchemaValidRules.ne_empty {rules : List MatchedRule} (hv : SchemaValidRules rules)
    {r : MatchedRule} (hr : r ∈ rules) (ht : t ∈ r.allow ∨ t ∈ r.deny ∨ t ∈ r.prefer) : t ≠ "" := by
  cases htool : r.tool with
  | none => simp [MatchedRule.allow, MatchedRule.deny, MatchedRule.prefer, htool] at ht
  | some p =>
    have hp := hv r hr p (by simp [htool])
    simp only [ToolPolicyPatch.SchemaValid, Bool.and_eq_true] at hp
    simp only [MatchedRule.allow, MatchedRule.deny, MatchedRule.prefer, htool,
      Option.bind_some] at ht
    rcases ht with ht | ht | ht
    · exact ne_empty_of_toolListOk hp.1.1 ht
    · exact ne_empty_of_toolListOk hp.1.2 ht
    · exact ne_empty_of_toolListOk hp.2 ht

theorem SchemaValidRules.uniq_allow_eq_nil {rules : List MatchedRule}
    (hv : SchemaValidRules rules) {r : MatchedRule} (hr : r ∈ rules) :
    uniq r.allow = [] ↔ r.allow = [] := by
  rw [uniq_eq_nil]
  constructor
  · intro h
    rw [List.eq_nil_iff_forall_not_mem]
    exact fun t ht => hv.ne_empty hr (.inl ht) (h t ht)
  · intro h t ht
    simp [h] at ht

section Collation

variable (localeCompare : String → String → Int) {t : String} {rules : List MatchedRule}

@[simp] theorem mem_sorted {xs : List String} :
    t ∈ sorted localeCompare xs ↔ t ∈ xs := List.mem_insertionSort _

@[simp] theorem mem_rankRules {r : MatchedRule} :
    r ∈ rankRules localeCompare rules ↔ r ∈ rules := List.mem_insertionSort _

theorem collect_allowSets (rules : List MatchedRule) :
    (collect localeCompare rules).allowSets =
      (rankRules localeCompare rules).filterMap allowSetOf := by
  simp [collect, foldl_visit_allowSets]

theorem mem_collect_allowSets {a : AllowSet} :
    a ∈ (collect localeCompare rules).allowSets ↔ ∃ r ∈ rules, allowSetOf r = some a := by
  simp [collect_allowSets]

theorem collect_allowSets_eq_nil (hv : SchemaValidRules rules) :
    (collect localeCompare rules).allowSets = [] ↔ ¬ HasAllowlist rules := by
  rw [List.eq_nil_iff_forall_not_mem]
  simp only [mem_collect_allowSets, HasAllowlist, not_exists, not_and, not_not]
  constructor
  · intro h r hr
    by_contra hne
    exact h ⟨_, _, uniq r.allow⟩ r hr
      (by rw [allowSetOf, if_neg (mt (hv.uniq_allow_eq_nil hr).1 hne)])
  · intro h a r hr hs
    simp [allowSetOf, h r hr, uniq_eq_nil] at hs

theorem effective_allow (rules : List MatchedRule) :
    (computeEffectiveToolPolicy localeCompare rules).tool.allow =
      if (collect localeCompare rules).allowSets = [] then none
      else some (sorted localeCompare (interSets (collect localeCompare rules).allowSets)) := rfl

theorem effective_deny (rules : List MatchedRule) :
    (computeEffectiveToolPolicy localeCompare rules).tool.deny =
      someIfNonempty (sorted localeCompare (collect localeCompare rules).denyUnion) := rfl

theorem mem_effective_deny (hv : SchemaValidRules rules) :
    t ∈ (computeEffectiveToolPolicy localeCompare rules).tool.deny.getD [] ↔
      DeniedBySome rules t := by
  have hmem : t ∈ (collect localeCompare rules).denyUnion ↔ DeniedBySome rules t := by
    simp only [collect, mem_foldl_visit_denyUnion, mem_rankRules, mem_uniq, DeniedBySome]
    constructor
    · rintro (h | ⟨r, hr, ht, -⟩)
      · simp at h
      · exact ⟨r, hr, ht⟩
    · rintro ⟨r, hr, ht⟩
      exact .inr ⟨r, hr, ht, hv.ne_empty hr (.inr (.inl ht))⟩
  rw [effective_deny, getD_someIfNonempty, mem_sorted, hmem]

theorem mem_effective_allow (hv : SchemaValidRules rules) :
    t ∈ (computeEffectiveToolPolicy localeCompare rules).tool.allow.getD [] ↔
      HasAllowlist rules ∧ AllowedByAll rules t := by
  have hset : (∀ a ∈ (collect localeCompare rules).allowSets, t ∈ a.set) ↔
      AllowedByAll rules t := by
    simp only [mem_collect_allowSets, AllowedByAll]
    constructor
    · intro h r hr hne
      have hu := mt (hv.uniq_allow_eq_nil hr).1 hne
      exact (mem_uniq.1 (h ⟨_, _, uniq r.allow⟩ ⟨r, hr, by rw [allowSetOf, if_neg hu]⟩)).1
    · rintro h a ⟨r, hr, hs⟩
      unfold allowSetOf at hs
      split at hs
      · cases hs
      · next hu =>
        obtain rfl := Option.some.inj hs
        have ht := h r hr (mt (hv.uniq_allow_eq_nil hr).2 hu)
        exact mem_uniq.2 ⟨ht, hv.ne_empty hr (.inl ht)⟩
  have hnil := collect_allowSets_eq_nil localeCompare hv
  rw [effective_allow]
  split
  · next h => simp [hnil.1 h]
  · next h =>
    rw [Option.getD_some, mem_sorted, mem_interSets, hset]
    simp [not_not.1 (mt hnil.2 h), h]

end Collation

end AionisCore.Memory
