import AionisCore.Memory.ToolPolicy
import AionisCore.Util.Http

/-!
# Tool selection under a policy

`applyToolPolicy` filters the candidates by the allow and deny lists of a
policy patch and orders what is left by preference. With `strict` an empty
result raises `no_tools_allowed`; without it the allow list is dropped when
allow and deny together leave nothing. The second half reads the decision back
to the rules the patch was merged from.
-/

namespace AionisCore.Memory

open AionisCore.Util

/-- The part of a policy patch that tool selection reads. -/
structure PolicyPatch where
  tool : Option ToolPolicyPatch := none

inductive DenyReason where
  | denyList
  | notInAllowList
  | controlProfile
  deriving DecidableEq, Repr

structure DeniedTool where
  name : String
  reason : DenyReason
  deriving DecidableEq, Repr

inductive FallbackReason where
  | none
  | allowlistFilteredAll
  | denyFilteredAll
  deriving DecidableEq, Repr

inductive EffectiveMode where
  | allowAndDeny
  | denyOnly
  deriving DecidableEq, Repr

structure Fallback where
  applied : Bool
  reason : FallbackReason
  note : String
  effectiveMode : EffectiveMode
  deriving DecidableEq, Repr

structure ToolDecision where
  candidates : List String
  allowed : List String
  denied : List DeniedTool
  preferred : List String
  ordered : List String
  selected : Option String
  fallback : Fallback
  deriving DecidableEq, Repr

/-- The details of a `no_tools_allowed` error. -/
structure FilterCounts where
  candidates : Nat
  allow : Nat
  deny : Nat
  deriving DecidableEq, Repr

/-- Why `applyAllowDeny` turns a candidate away, if it does. -/
def denyReason (allowSet : Option (List String)) (deny : List String) (useAllow : Bool)
    (c : String) : Option DenyReason :=
  if c ∈ deny then some .denyList
  else if useAllow ∧ ∃ s ∈ allowSet, c ∉ s then some .notInAllowList
  else none

/-- `applyAllowDeny`: the allowed candidates and the denied ones with their reasons. -/
def applyAllowDeny (candidates : List String) (allowSet : Option (List String))
    (deny : List String) (useAllow : Bool) : List String × List DeniedTool :=
  (candidates.filter fun c => denyReason allowSet deny useAllow c = none,
   candidates.filterMap fun c => (denyReason allowSet deny useAllow c).map (DeniedTool.mk c))

/-- The allow, deny and prefer lists `applyToolPolicy` reads out of a patch. -/
def PolicyPatch.allow (p : PolicyPatch) : List String := uniq ((p.tool.bind (·.allow)).getD [])

def PolicyPatch.deny (p : PolicyPatch) : List String := uniq ((p.tool.bind (·.deny)).getD [])

def PolicyPatch.prefer (p : PolicyPatch) : List String := uniq ((p.tool.bind (·.prefer)).getD [])

/-- `allow.length > 0 ? new Set(allow) : null`. -/
def PolicyPatch.allowSet (p : PolicyPatch) : Option (List String) :=
  if p.allow = [] then none else some p.allow

/-- Whether the allow list is given up after the first pass. -/
def dropsAllow (candidates : List String) (p : PolicyPatch) (strict : Bool) : Bool :=
  !strict && (applyAllowDeny candidates p.allowSet p.deny true).1.isEmpty && p.allowSet.isSome

/-- The filter result the decision is built from: the first pass or the fallback. -/
def filterCandidates (candidates : List String) (p : PolicyPatch) (strict : Bool) :
    List String × List DeniedTool :=
  applyAllowDeny candidates p.allowSet p.deny (!dropsAllow candidates p strict)

/-- The fallback annotation of a decision. -/
def fallbackOf (candidates : List String) (p : PolicyPatch) (strict : Bool) : Fallback :=
  if !strict && (filterCandidates candidates p strict).1.isEmpty then
    { applied := true
      reason := .denyFilteredAll
      note := "denylist eliminated all candidates; no tool can be selected"
      effectiveMode := .denyOnly }
  else if dropsAllow candidates p strict then
    { applied := true
      reason := .allowlistFilteredAll
      note := "allowlist eliminated all candidates; falling back to deny-only " ++
        "(ignore tool.allow) because strict=false"
      effectiveMode := .denyOnly }
  else
    { applied := false
      reason := .none
      note := "no fallback applied"
      effectiveMode := if p.allowSet.isSome then .allowAndDeny else .denyOnly }

/-- The error of a strict call that no candidate survives. -/
def noToolsAllowed (candidates : List String) (p : PolicyPatch) : HttpError FilterCounts :=
  badRequest "no_tools_allowed"
    (if p.allowSet.isSome then "no candidates remain after allow/deny filters"
     else "no candidates remain after deny filters")
    ⟨candidates.length, p.allow.length, p.deny.length⟩

/-- The decision over the filtered candidates: preferred tools first, then the others in order. -/
def toolDecision (candidates : List String) (p : PolicyPatch) (strict : Bool) : ToolDecision :=
  let allowed := (filterCandidates candidates p strict).1
  let preferred := p.prefer.filter (· ∈ allowed)
  let ordered := preferred ++ allowed.filter (· ∉ preferred)
  { candidates, allowed, preferred, ordered
    denied := (filterCandidates candidates p strict).2
    selected := ordered.head?
    fallback := fallbackOf candidates p strict }

def applyToolPolicy (candidatesIn : List String) (patch : PolicyPatch) (strict : Bool) :
    Except (HttpError FilterCounts) ToolDecision :=
  if strict ∧ (filterCandidates (uniq candidatesIn) patch strict).1 = [] then
    .error (noToolsAllowed (uniq candidatesIn) patch)
  else
    .ok (toolDecision (uniq candidatesIn) patch strict)

/-! ## What a decision allows -/

/-- `c` passes the deny list and, where one is present, the allow list. -/
def PolicyPatch.Admits (p : PolicyPatch) (c : String) : Prop :=
  c ∉ p.deny ∧ (p.allow = [] ∨ c ∈ p.allow)

variable {p : PolicyPatch} {c : String}

theorem denyReason_eq_none {useAllow : Bool} :
    denyReason p.allowSet p.deny useAllow c = none ↔
      c ∉ p.deny ∧ (useAllow = true → p.allow = [] ∨ c ∈ p.allow) := by
  unfold denyReason PolicyPatch.allowSet
  by_cases hd : c ∈ p.deny
  · simp [hd]
  · by_cases ha : p.allow = [] <;> simp [hd, ha]

theorem mem_applyAllowDeny {candidates : List String} {useAllow : Bool} :
    c ∈ (applyAllowDeny candidates p.allowSet p.deny useAllow).1 ↔
      c ∈ candidates ∧ c ∉ p.deny ∧ (useAllow = true → p.allow = [] ∨ c ∈ p.allow) := by
  rw [applyAllowDeny, List.mem_filter, decide_eq_true_eq, denyReason_eq_none]

variable {strict : Bool}

/-- The allow list is dropped when it is present, the call is lenient and no candidate passes. -/
theorem dropsAllow_iff {candidates : List String} :
    dropsAllow candidates p strict = true ↔
      strict = false ∧ p.allow ≠ [] ∧ ∀ c ∈ candidates, ¬ p.Admits c := by
  have hempty : (applyAllowDeny candidates p.allowSet p.deny true).1.isEmpty = true ↔
      ∀ c ∈ candidates, ¬ p.Admits c := by
    rw [List.isEmpty_iff, List.eq_nil_iff_forall_not_mem]
    simp only [mem_applyAllowDeny, PolicyPatch.Admits, true_implies, not_and]
  have hsome : p.allowSet.isSome = true ↔ p.allow ≠ [] := by
    unfold PolicyPatch.allowSet
    split <;> simp [*]
  unfold dropsAllow
  rw [Bool.and_eq_true, Bool.and_eq_true, hempty, hsome, Bool.not_eq_true']
  tauto

theorem mem_filterCandidates {candidates : List String} :
    c ∈ (filterCandidates candidates p strict).1 ↔
      c ∈ candidates ∧ c ∉ p.deny ∧
        (p.allow = [] ∨ c ∈ p.allow ∨ strict = false ∧ ∀ b ∈ candidates, ¬ p.Admits b) := by
  rw [filterCandidates, mem_applyAllowDeny, Bool.not_eq_true', ← Bool.not_eq_true,
    dropsAllow_iff]
  tauto

/-- A strict pass keeps the candidates the patch admits. -/
theorem mem_filterCandidates_strict {candidates : List String} :
    c ∈ (filterCandidates candidates p true).1 ↔ c ∈ candidates ∧ p.Admits c := by
  simp [mem_filterCandidates, PolicyPatch.Admits]

/-- A call returns unless it is strict and nothing is left. -/
theorem applyToolPolicy_ok {candidatesIn : List String} {d : ToolDecision} :
    applyToolPolicy candidatesIn p strict = .ok d ↔
      ¬(strict = true ∧ (filterCandidates (uniq candidatesIn) p strict).1 = []) ∧
        d = toolDecision (uniq candidatesIn) p strict := by
  unfold applyToolPolicy
  split
  · next h => exact iff_of_false (by simp) fun hc => hc.1 h
  · next h => rw [Except.ok.injEq, eq_comm]; exact (and_iff_right h).symm

theorem applyToolPolicy_error {candidatesIn : List String} {e : HttpError FilterCounts} :
    applyToolPolicy candidatesIn p strict = .error e ↔
      (strict = true ∧ (filterCandidates (uniq candidatesIn) p strict).1 = []) ∧
        e = noToolsAllowed (uniq candidatesIn) p := by
  unfold applyToolPolicy
  split
  · next h => rw [Except.error.injEq, eq_comm]; exact (and_iff_right h).symm
  · next h => exact iff_of_false (by simp) fun hc => h hc.1

theorem mem_ordered {candidates : List String} {t : String} :
    t ∈ (toolDecision candidates p strict).ordered ↔
      t ∈ (toolDecision candidates p strict).allowed := by
  simp only [toolDecision, List.mem_append, List.mem_filter, decide_eq_true_eq]
  tauto

theorem selected_mem_ordered {candidates : List String} {t : String}
    (ht : (toolDecision candidates p strict).selected = some t) :
    t ∈ (toolDecision candidates p strict).ordered := List.mem_of_head? ht

/-! ## Selection against the rules -/

/-- On every non-empty allow list and on no deny list. -/
def Qualifies (rules : List MatchedRule) (t : String) : Prop :=
  AllowedByAll rules t ∧ ¬ DeniedBySome rules t

/-- Every tool a decision allows, orders or selects satisfies `P`. -/
structure ToolDecision.All (d : ToolDecision) (P : String → Prop) : Prop where
  allowed : ∀ t ∈ d.allowed, P t
  ordered : ∀ t ∈ d.ordered, P t
  selected : ∀ t ∈ d.selected, P t

theorem toolDecision_all {candidates : List String} {P : String → Prop}
    (h : ∀ t ∈ (filterCandidates candidates p strict).1, P t) :
    (toolDecision candidates p strict).All P :=
  ⟨h, fun t ht => h t (mem_ordered.1 ht),
    fun t ht => h t (mem_ordered.1 (selected_mem_ordered (Option.mem_def.1 ht)))⟩

section Soundness

variable (localeCompare : String → String → Int) (rules : List MatchedRule)
  (candidates : List String)

/-- The patch the selection receives. -/
def effectivePatch : PolicyPatch := ⟨some (computeEffectiveToolPolicy localeCompare rules).tool⟩

/-- Strict selection returns qualifying tools only, and raises when no candidate qualifies. -/
structure StrictSound : Prop where
  sound : ∀ d, applyToolPolicy candidates (effectivePatch localeCompare rules) true = .ok d →
    d.All (Qualifies rules)
  raises : (∀ c ∈ candidates, ¬ Qualifies rules c) →
    ∃ e, applyToolPolicy candidates (effectivePatch localeCompare rules) true = .error e ∧
      e.code = "no_tools_allowed"

/-- Lenient selection respects the deny lists and leaves the allow lists only when they filter
out every candidate. -/
structure LenientSound : Prop where
  sound : ∀ d, applyToolPolicy candidates (effectivePatch localeCompare rules) false = .ok d →
    d.All fun t => ¬ DeniedBySome rules t
  drops : ∀ d, applyToolPolicy candidates (effectivePatch localeCompare rules) false = .ok d →
    (∃ t ∈ d.allowed, ¬ AllowedByAll rules t) → ∀ c ∈ candidates, ¬ AllowedByAll rules c

/-- The allow lists have a tool in common, if there are any and a candidate is left to filter. -/
def AllowlistsMeet : Prop :=
  HasAllowlist rules → (∃ t, AllowedByAll rules t) ∨
    ∀ c ∈ candidates, c ≠ "" → DeniedBySome rules c

/-- The deny lists do not take the last candidate the allow lists let through while another
candidate is left. -/
def DenySparesAllowed : Prop :=
  (∃ c ∈ candidates, AllowedByAll rules c ∧ DeniedBySome rules c) →
    (∃ c ∈ candidates, Qualifies rules c) ∨ ∀ c ∈ candidates, c ≠ "" → DeniedBySome rules c

variable {localeCompare rules candidates} (hv : SchemaValidRules rules)

theorem not_hasAllowlist_allowed (hl : ¬ HasAllowlist rules) (t : String) :
    AllowedByAll rules t :=
  fun r hr hne => absurd ⟨r, hr, hne⟩ hl

include hv

variable {t c : String}

theorem mem_effectivePatch_deny :
    t ∈ (effectivePatch localeCompare rules).deny ↔ DeniedBySome rules t := by
  rw [PolicyPatch.deny, mem_uniq]
  simp only [effectivePatch, Option.bind_some, mem_effective_deny localeCompare hv]
  exact and_iff_left_of_imp fun ⟨r, hr, ht⟩ => hv.ne_empty hr (.inr (.inl ht))

theorem AllowedByAll.ne_empty (hl : HasAllowlist rules) (ht : AllowedByAll rules t) : t ≠ "" := by
  obtain ⟨r, hr, hne⟩ := hl
  exact hv.ne_empty hr (.inl (ht r hr hne))

theorem mem_effectivePatch_allow :
    t ∈ (effectivePatch localeCompare rules).allow ↔
      HasAllowlist rules ∧ AllowedByAll rules t := by
  rw [PolicyPatch.allow, mem_uniq]
  simp only [effectivePatch, Option.bind_some, mem_effective_allow localeCompare hv]
  exact and_iff_left_of_imp fun ⟨hl, ht⟩ => AllowedByAll.ne_empty hv hl ht

/-- The selector sees no allow list when the allow lists have no tool in common. -/
theorem effectivePatch_allow_eq_nil :
    (effectivePatch localeCompare rules).allow = [] ↔
      (HasAllowlist rules → ¬ ∃ t, AllowedByAll rules t) := by
  rw [List.eq_nil_iff_forall_not_mem]
  simp only [mem_effectivePatch_allow hv, not_and, not_exists]
  exact ⟨fun h hl t => h t hl, fun h t hl => h hl t⟩

/-- What the merged patch admits: disjoint allow lists act like no allow list. -/
theorem effectivePatch_admits :
    (effectivePatch localeCompare rules).Admits c ↔
      ¬ DeniedBySome rules c ∧
        (AllowedByAll rules c ∨ HasAllowlist rules ∧ ¬ ∃ t, AllowedByAll rules t) := by
  rw [PolicyPatch.Admits, mem_effectivePatch_deny hv, effectivePatch_allow_eq_nil hv,
    mem_effectivePatch_allow hv]
  by_cases hl : HasAllowlist rules
  · simp only [hl, true_implies, true_and, or_comm]
  · simp [hl, not_hasAllowlist_allowed hl]

theorem mem_strict :
    c ∈ (filterCandidates (uniq candidates) (effectivePatch localeCompare rules) true).1 ↔
      (c ∈ candidates ∧ c ≠ "") ∧ ¬ DeniedBySome rules c ∧
        (AllowedByAll rules c ∨ HasAllowlist rules ∧ ¬ ∃ t, AllowedByAll rules t) := by
  rw [mem_filterCandidates_strict, mem_uniq, effectivePatch_admits hv]

theorem strictSound_iff :
    StrictSound localeCompare rules candidates ↔ AllowlistsMeet rules candidates := by
  constructor
  · rintro ⟨hsound, -⟩ hl
    by_contra! hc
    obtain ⟨hno, c, hcand, hne, hden⟩ := hc
    have hmem : c ∈ (filterCandidates (uniq candidates)
        (effectivePatch localeCompare rules) true).1 :=
      (mem_strict hv).2 ⟨⟨hcand, hne⟩, hden, .inr ⟨hl, fun ⟨t, ht⟩ => hno t ht⟩⟩
    have hok : applyToolPolicy candidates (effectivePatch localeCompare rules) true =
        .ok (toolDecision (uniq candidates) (effectivePatch localeCompare rules) true) :=
      applyToolPolicy_ok.2 ⟨fun h => List.ne_nil_of_mem hmem h.2, rfl⟩
    exact hno c ((hsound _ hok).allowed c hmem).1
  · intro hmeet
    have hq : ∀ c ∈ (filterCandidates (uniq candidates)
        (effectivePatch localeCompare rules) true).1, Qualifies rules c := by
      intro c hc
      obtain ⟨⟨hcand, hne⟩, hden, hall | ⟨hl, hno⟩⟩ := (mem_strict hv).1 hc
      · exact ⟨hall, hden⟩
      · rcases hmeet hl with hex | hdeny
        · exact absurd hex hno
        · exact absurd (hdeny c hcand hne) hden
    refine ⟨fun d hd => ?_, fun hnone => ⟨_, applyToolPolicy_error.2 ⟨⟨rfl, ?_⟩, rfl⟩, rfl⟩⟩
    · rw [(applyToolPolicy_ok.1 hd).2]
      exact toolDecision_all hq
    · rw [List.eq_nil_iff_forall_not_mem]
      exact fun c hc => hnone c ((mem_strict hv).1 hc).1.1 (hq c hc)

theorem mem_lenient :
    c ∈ (filterCandidates (uniq candidates) (effectivePatch localeCompare rules) false).1 ↔
      (c ∈ candidates ∧ c ≠ "") ∧ ¬ DeniedBySome rules c ∧
        (AllowedByAll rules c ∨ HasAllowlist rules ∧
          ((¬ ∃ t, AllowedByAll rules t) ∨ ∀ b ∈ candidates, ¬ Qualifies rules b)) := by
  rw [mem_filterCandidates, mem_uniq, mem_effectivePatch_deny hv, effectivePatch_allow_eq_nil hv,
    mem_effectivePatch_allow hv]
  by_cases hl : HasAllowlist rules
  · by_cases hex : ∃ t, AllowedByAll rules t
    · have hadm : ∀ b, (effectivePatch localeCompare rules).Admits b ↔ Qualifies rules b := by
        intro b
        rw [effectivePatch_admits hv, Qualifies]
        simp [hex, and_comm]
      have hnone : (∀ b ∈ uniq candidates, ¬ (effectivePatch localeCompare rules).Admits b) ↔
          ∀ b ∈ candidates, ¬ Qualifies rules b := by
        simp only [hadm, mem_uniq]
        exact ⟨fun h b hb hq => h b ⟨hb, AllowedByAll.ne_empty hv hl hq.1⟩ hq,
          fun h b hb => h b hb.1⟩
      simp only [hnone, hl, hex, true_implies, true_and, not_true_eq_false, false_or]
    · simp [hl, hex]
  · simp [hl, not_hasAllowlist_allowed hl]

theorem lenientSound_iff :
    LenientSound localeCompare rules candidates ↔ DenySparesAllowed rules candidates := by
  have hok : ∀ d, applyToolPolicy candidates (effectivePatch localeCompare rules) false = .ok d ↔
      d = toolDecision (uniq candidates) (effectivePatch localeCompare rules) false :=
    fun d => applyToolPolicy_ok.trans (and_iff_right (by simp))
  constructor
  · rintro ⟨-, hdrops⟩ ⟨c, hcand, hall, hden⟩
    by_contra! hc
    obtain ⟨hno, b, hb, hbne, hbden⟩ := hc
    by_cases hball : AllowedByAll rules b
    · exact hno b hb ⟨hball, hbden⟩
    · have hl : HasAllowlist rules := by
        by_contra hl
        exact hball (not_hasAllowlist_allowed hl b)
      have hmem : b ∈ (filterCandidates (uniq candidates)
          (effectivePatch localeCompare rules) false).1 :=
        (mem_lenient hv).2 ⟨⟨hb, hbne⟩, hbden, .inr ⟨hl, .inr hno⟩⟩
      exact hdrops _ ((hok _).2 rfl) ⟨b, hmem, hball⟩ c hcand hall
  · intro hspare
    refine ⟨fun d hd => ?_, fun d hd ⟨t, ht, htall⟩ c hcand hall => ?_⟩
    · rw [(hok d).1 hd]
      exact toolDecision_all fun t ht => ((mem_lenient hv).1 ht).2.1
    · rw [(hok d).1 hd] at ht
      obtain ⟨⟨htc, htne⟩, htden, hta | ⟨-, hno | hno⟩⟩ := (mem_lenient hv).1 ht
      · exact htall hta
      · exact hno ⟨c, hall⟩
      · by_cases hden : DeniedBySome rules c
        · rcases hspare ⟨c, hcand, hall, hden⟩ with ⟨b, hb, hq⟩ | hdeny
          · exact hno b hb hq
          · exact htden (hdeny t htc htne)
        · exact hno c hcand ⟨hall, hden⟩

/-- Selection agrees with the rules exactly when the allow lists meet and the deny lists do not
take the last allowed candidate while another one is left. -/
theorem toolSelection_sound_iff :
    StrictSound localeCompare rules candidates ∧ LenientSound localeCompare rules candidates ↔
      AllowlistsMeet rules candidates ∧ DenySparesAllowed rules candidates :=
  and_congr (strictSound_iff hv) (lenientSound_iff hv)

end Soundness

/-- Two rules whose allow lists have no tool in common. -/
def disjointRules : List MatchedRule :=
  [{ ruleNodeId := "r1", score := 2, tool := some { allow := some ["read"] } },
   { ruleNodeId := "r2", score := 1, tool := some { allow := some ["write"] } }]

/-- Code point order. -/
def codePointCompare (a b : String) : Int :=
  match compare (a.toList.map Char.toNat) (b.toList.map Char.toNat) with
  | .lt => -1
  | .eq => 0
  | .gt => 1

theorem toolSelection_sound_iff_disjoint :
    StrictSound codePointCompare disjointRules ["read"] ∧
        LenientSound codePointCompare disjointRules ["read"] ↔
      AllowlistsMeet disjointRules ["read"] ∧ DenySparesAllowed disjointRules ["read"] :=
  toolSelection_sound_iff (by decide)

/-- Under disjoint allow lists a strict call selects a tool that no rule allows. -/
theorem strict_selects_unlisted :
    SchemaValidRules disjointRules ∧ (∀ r ∈ disjointRules, r.allow ≠ [] ∧ "rm" ∉ r.allow) ∧
      (∃ d, applyToolPolicy ["rm"] (effectivePatch codePointCompare disjointRules) true = .ok d ∧
        d.selected = some "rm") ∧
      ¬ (StrictSound codePointCompare disjointRules ["rm"] ∧
        LenientSound codePointCompare disjointRules ["rm"]) := by
  have hrun : applyToolPolicy ["rm"] (effectivePatch codePointCompare disjointRules) true =
      .ok (toolDecision ["rm"] (effectivePatch codePointCompare disjointRules) true) := by rfl
  refine ⟨by decide, by decide, ⟨_, hrun, by decide⟩, fun h => ?_⟩
  have hq := (h.1.sound _ hrun).allowed "rm" (by decide)
  exact absurd hq.1 (by decide)

end AionisCore.Memory
