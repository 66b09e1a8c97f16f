import AionisCore.Store.EmbeddedSnapshot
import Mathlib.Algebra.Order.Ring.Rat

/-!
# Sound records of the embedded runtime

A sound record is one that the loading of a snapshot reads back as it is, but for the
exceptions and the commit of a rule. Every call leaves sound records only.
-/

namespace AionisCore.Store

open Lib Lib.JsString Lib.StableSort Memory

variable {host : EmbeddedHost}

/-! ## Records that read back as they are -/

/-- A time that `normalizeIso` leaves as it is. -/
def Iso (host : EmbeddedHost) (time : String) : Prop :=
  Plain time ∧ (host.dateParse time).isSome

theorem IsoTime.iso (now : IsoTime host) : Iso host now.text := ⟨now.plain, now.finite⟩

variable {raw : Option Json}

theorem iso_normalizeIso {fallback : String} (h : Iso host fallback) :
    Iso host (normalizeIso host raw fallback) := by
  unfold normalizeIso
  split
  · split
    · exact h
    · next s hs =>
      split
      · next hparse => exact ⟨⟨trimmed_trim s, hs⟩, hparse⟩
      · exact h
  · exact h

theorem Iso.normalizeIso_self {time fallback : String} (h : Iso host time) :
    normalizeIso host (some (.str time)) fallback = time := by
  obtain ⟨⟨htrim, hne⟩, hparse⟩ := h
  have htrim : trim time = time := htrim
  show (if trim time = "" then fallback
    else if (host.dateParse (trim time)).isSome then trim time else fallback) = time
  rw [htrim, if_neg hne, if_pos hparse]

structure EmbeddedRuleDef.Sound (host : EmbeddedHost) (d : EmbeddedRuleDef) : Prop where
  updated : Iso host d.updatedAt
  positive : 0 ≤ d.positiveCount
  negative : 0 ≤ d.negativeCount
  ifJson : Json.orElse (some d.ifJson) none = some d.ifJson
  thenJson : Json.orElse (some d.thenJson) none = some d.thenJson

structure EmbeddedDecision.Sound (host : EmbeddedHost) (d : EmbeddedDecision) : Prop where
  created : Iso host d.createdAt
  id : d.id ≠ ""
  scope : d.scope ≠ ""
  selectedTool : ∀ tool, d.selectedTool = some tool → Plain tool
  candidates : ∀ c ∈ d.candidatesJson, Plain c
  distinct : d.candidatesJson.Nodup
  sourceRuleIds : ∀ c ∈ d.sourceRuleIds, Plain c
  metadata : Json.orElse (some d.metadataJson) none = some d.metadataJson

structure EmbeddedRuleFeedback.Sound (host : EmbeddedHost) (f : EmbeddedRuleFeedback) : Prop where
  created : Iso host f.createdAt
  id : f.id ≠ ""
  scope : f.scope ≠ ""
  ruleNodeId : f.ruleNodeId ≠ ""

variable {o : Option String} {s k : String}

theorem ne_of_given (h : given o = some s) : o = some s ∧ s ≠ "" := by
  unfold given at h
  obtain ⟨hs, hne⟩ := Option.filter_eq_some_iff.1 h
  exact ⟨hs, of_decide_eq_true hne⟩

variable {row : Json.Fields}

theorem stringField_orNull (h : Json.get row k = some (Json.orNull o)) : stringField row k = o := by
  unfold stringField
  rw [h]
  cases o <;> rfl

theorem plain_of_mem_stringItems (h : s ∈ stringItems raw) : Plain s := by
  unfold stringItems at h
  obtain ⟨hmem, hne⟩ := List.mem_filter.1 h
  obtain ⟨v, -, rfl⟩ := List.mem_map.1 hmem
  have hne := of_decide_eq_true hne
  unfold trimmedItem at hne ⊢
  split at hne
  · exact ⟨trimmed_trim _, hne⟩
  · exact absurd rfl hne

theorem stringItems_strings {xs : List String} (h : ∀ x ∈ xs, Plain x) :
    stringItems (some (.arr (xs.map .str))) = xs := by
  have hmap : (xs.map Json.str).map trimmedItem = xs := by
    rw [List.map_map]
    exact (List.map_congr_left fun x hx => (h x hx).1).trans (List.map_id xs)
  show ((xs.map Json.str).map trimmedItem).filter (· ≠ "") = xs
  rw [hmap]
  exact List.filter_eq_self.2 fun x hx => decide_eq_true (h x hx).2

theorem plain_of_mem_candidates (h : s ∈ normalizeCandidates raw) : Plain s :=
  plain_of_mem_stringItems (List.mem_eraseDups.1 h)

theorem normalizeCandidates_strings {xs : List String} (h : ∀ x ∈ xs, Plain x) (hnd : xs.Nodup) :
    normalizeCandidates (some (.arr (xs.map .str))) = xs := by
  unfold normalizeCandidates
  rw [stringItems_strings h, eraseDups_of_nodup hnd]

theorem plain_of_normalizeToolName {tool : String} (h : normalizeToolName raw = some tool) :
    Plain tool := by
  unfold normalizeToolName at h
  split at h
  · obtain ⟨htool, hne⟩ := ne_of_given h
    obtain rfl := Option.some.inj htool
    exact ⟨trimmed_trim _, hne⟩
  · cases h

theorem normalizeToolName_orNull (h : ∀ tool, o = some tool → Plain tool) :
    normalizeToolName (some (Json.orNull o)) = o := by
  cases o with
  | none => rfl
  | some tool =>
    obtain ⟨htrim, hne⟩ := h tool rfl
    have htrim : trim tool = tool := htrim
    show given (some (trim tool)) = some tool
    rw [htrim, given_of_ne hne]

theorem normalizeRuleState_name (s : RuleState) : normalizeRuleState (some (.str s.name)) = s := by
  cases s <;> decide +kernel

theorem normalizeRuleScope_name (s : RuleScope) : normalizeRuleScope (some (.str s.name)) = s := by
  cases s <;> decide +kernel

theorem normalizeRuleOutcome_name (o : RuleOutcome) :
    normalizeRuleOutcome (some (.str o.name)) = o := by
  cases o <;> decide +kernel

theorem normalizeRuleSource_name (s : RuleSource) :
    normalizeRuleSource (some (.str s.name)) = s := by
  cases s <;> decide +kernel

theorem count_num {q : ℚ} (h : 0 ≤ q) : count host (some (.num q)) = q := max_eq_right h

theorem count_nonneg (raw : Option Json) : 0 ≤ count host raw := by
  unfold count
  cases number host raw with
  | none => exact le_rfl
  | some q => exact le_max_left 0 q

/-- What loading makes of the JSON of a rule definition. -/
def restoredRuleDef (linkedNode : Option EmbeddedNode) (d : EmbeddedRuleDef) : EmbeddedRuleDef :=
  { d with
    exceptionsJson := .arr ((Json.asArray (some d.exceptionsJson)).getD [])
    commitId := (d.commitId.filter (trim · ≠ "")).or (linkedNode.bind (·.commitId)) }

/-- `slots[k] ?? d` where the field is there and not null. -/
theorem slotOrElse_of_get {v d : Json} (h : Json.get row k = some v)
    (hv : Json.orElse (some v) none = some v) : EmbeddedRuntime.slotOrElse row k d = v := by
  unfold EmbeddedRuntime.slotOrElse
  rw [h, hv, Option.getD_some]

theorem loadedRuleDef_json {d : EmbeddedRuleDef} (hd : d.Sound host) (now : String)
    (linkedNode : Option EmbeddedNode) :
    loadedRuleDef host now linkedNode d.json = restoredRuleDef linkedNode d := by
  have hagent : stringField d.json "target_agent_id" = d.targetAgentId := stringField_orNull rfl
  have hteam : stringField d.json "target_team_id" = d.targetTeamId := stringField_orNull rfl
  have hcommit : stringField d.json "commit_id" = d.commitId := stringField_orNull rfl
  have hif : EmbeddedRuntime.slotOrElse d.json "if_json" (.obj []) = d.ifJson :=
    slotOrElse_of_get rfl hd.ifJson
  have hthen : EmbeddedRuntime.slotOrElse d.json "then_json" (.obj []) = d.thenJson :=
    slotOrElse_of_get rfl hd.thenJson
  have hstate : normalizeRuleState (Json.get d.json "state") = d.state := normalizeRuleState_name _
  have hscope : normalizeRuleScope (Json.get d.json "rule_scope") = d.ruleScope :=
    normalizeRuleScope_name _
  have hpositive : count host (Json.get d.json "positive_count") = d.positiveCount :=
    count_num hd.positive
  have hnegative : count host (Json.get d.json "negative_count") = d.negativeCount :=
    count_num hd.negative
  have hupdated : normalizeIso host (Json.get d.json "updated_at")
      ((linkedNode.map (·.updatedAt)).getD now) = d.updatedAt := hd.updated.normalizeIso_self
  unfold loadedRuleDef restoredRuleDef filledField
  rw [hagent, hteam, hcommit, hif, hthen, hstate, hscope, hpositive, hnegative, hupdated]
  rfl

theorem loadedDecision_json {d : EmbeddedDecision} (hd : d.Sound host) (now : String) :
    loadedDecision host now d.scope d.id d.json = d := by
  have hrun : stringField d.json "run_id" = d.runId := stringField_orNull rfl
  have htool : normalizeToolName (Json.get d.json "selected_tool") = d.selectedTool :=
    normalizeToolName_orNull hd.selectedTool
  have hcandidates : normalizeCandidates (Json.get d.json "candidates_json") = d.candidatesJson :=
    normalizeCandidates_strings hd.candidates hd.distinct
  have hsources : stringItems (Json.get d.json "source_rule_ids") = d.sourceRuleIds :=
    stringItems_strings hd.sourceRuleIds
  have hmetadata : EmbeddedRuntime.slotOrElse d.json "metadata_json" (.obj []) = d.metadataJson :=
    slotOrElse_of_get rfl hd.metadata
  have hcreated : normalizeIso host (Json.get d.json "created_at") now = d.createdAt :=
    hd.created.normalizeIso_self
  have hcommit : stringField d.json "commit_id" = d.commitId := stringField_orNull rfl
  unfold loadedDecision
  rw [hrun, htool, hcandidates, hsources, hmetadata, hcreated, hcommit]
  rfl

theorem loadedFeedback_json {f : EmbeddedRuleFeedback} (hf : f.Sound host) (now : String) :
    loadedFeedback host now f.json = some f := by
  have hscope : given (stringField f.json "scope") = some f.scope := given_of_ne hf.scope
  have hid : given (stringField f.json "id") = some f.id := given_of_ne hf.id
  have hrule : given (stringField f.json "rule_node_id") = some f.ruleNodeId :=
    given_of_ne hf.ruleNodeId
  have hrun : stringField f.json "run_id" = f.runId := stringField_orNull rfl
  have houtcome : normalizeRuleOutcome (Json.get f.json "outcome") = f.outcome :=
    normalizeRuleOutcome_name _
  have hnote : stringField f.json "note" = f.note := stringField_orNull rfl
  have hsource : normalizeRuleSource (Json.get f.json "source") = f.source :=
    normalizeRuleSource_name _
  have hdecision : stringField f.json "decision_id" = f.decisionId := stringField_orNull rfl
  have hcommit : stringField f.json "commit_id" = f.commitId := stringField_orNull rfl
  have hcreated : normalizeIso host (Json.get f.json "created_at") now = f.createdAt :=
    hf.created.normalizeIso_self
  unfold loadedFeedback
  rw [hscope, hid, hrule, hrun, houtcome, hnote, hsource, hdecision, hcommit, hcreated]
  rfl

/-! ## Sound runtimes -/

/-- The rule definitions stand under their keys, and name a commit or the commit of their node. -/
def RulesSound (host : EmbeddedHost) (nodes : OrderedMap String EmbeddedNode)
    (ruleDefs : OrderedMap String EmbeddedRuleDef) : Prop :=
  ruleDefs.Keyed EmbeddedRuleDef.key ∧ ∀ k d, ruleDefs.get k = some d → d.Sound host ∧
    ∀ c, d.commitId = some c → trim c ≠ "" ∨ (nodes.get k).bind (·.commitId) = some c

def DecisionsSound (host : EmbeddedHost) (decisions : OrderedMap String EmbeddedDecision) : Prop :=
  decisions.Keyed EmbeddedDecision.key ∧ ∀ k d, decisions.get k = some d → d.Sound host

structure EmbeddedRuntime.Sound (host : EmbeddedHost) (r : EmbeddedRuntime) : Prop where
  nodes : r.nodes.Keyed EmbeddedNode.key
  edges : r.edgesByUnique.Keyed EmbeddedEdge.key
  rules : RulesSound host r.nodes r.ruleDefs
  decisions : DecisionsSound host r.executionDecisionsById
  decisionCount : r.executionDecisionsById.values.length ≤ 10000
  feedback : ∀ f ∈ r.ruleFeedback, f.Sound host
  feedbackCount : r.ruleFeedback.length ≤ 20000
  auditCount : r.audit.length ≤ 5000

theorem RulesSound.of_nodes {nodes nodes' : OrderedMap String EmbeddedNode}
    {ruleDefs : OrderedMap String EmbeddedRuleDef} (h : RulesSound host nodes ruleDefs)
    (hnodes : ∀ k n, nodes.get k = some n →
      ∃ n', nodes'.get k = some n' ∧ n'.commitId = n.commitId) :
    RulesSound host nodes' ruleDefs := by
  refine ⟨h.1, fun k d hd => ⟨(h.2 k d hd).1, fun c hc => ?_⟩⟩
  rcases (h.2 k d hd).2 c hc with hne | hnode
  · exact .inl hne
  · obtain ⟨n, hn, hcommit⟩ := Option.bind_eq_some_iff.1 hnode
    obtain ⟨n', hn', heq⟩ := hnodes k n hn
    exact .inr (Option.bind_eq_some_iff.2 ⟨n', hn', heq.trans hcommit⟩)

theorem RulesSound.set {nodes : OrderedMap String EmbeddedNode}
    {ruleDefs : OrderedMap String EmbeddedRuleDef} {key : String} {d : EmbeddedRuleDef}
    (h : RulesSound host nodes ruleDefs) (hkey : d.key = key) (hd : d.Sound host)
    (hcommit : ∀ c, d.commitId = some c →
      trim c ≠ "" ∨ (nodes.get key).bind (·.commitId) = some c) :
    RulesSound host nodes (ruleDefs.set key d) := by
  refine ⟨h.1.set hkey, fun k e he => ?_⟩
  rw [OrderedMap.get_set] at he
  split at he
  · next hk =>
    obtain rfl := Option.some.inj he
    rw [hk]
    exact ⟨hd, hcommit⟩
  · exact h.2 k e he

theorem DecisionsSound.set {decisions : OrderedMap String EmbeddedDecision} {key : String}
    {d : EmbeddedDecision} (h : DecisionsSound host decisions) (hkey : d.key = key)
    (hd : d.Sound host) : DecisionsSound host (decisions.set key d) := by
  refine ⟨h.1.set hkey, fun k e he => ?_⟩
  rw [OrderedMap.get_set] at he
  split at he
  · exact Option.some.inj he ▸ hd
  · exact h.2 k e he

theorem orElse_getD {v : Option Json} {d : Json} (hd : Json.orElse (some d) none = some d) :
    Json.orElse (some ((Json.orElse v none).getD d)) none = some ((Json.orElse v none).getD d) := by
  cases v with
  | none => exact hd
  | some v =>
    cases v with
    | null => exact hd
    | bool | num | str | arr | obj => rfl

theorem orElse_slotOrElse {d : Json} (hd : Json.orElse (some d) none = some d) :
    Json.orElse (some (EmbeddedRuntime.slotOrElse row k d)) none =
      some (EmbeddedRuntime.slotOrElse row k d) := orElse_getD hd

theorem length_lastOf_le {α : Type} (n : Nat) (xs : List α) : (lastOf n xs).length ≤ n := by
  unfold lastOf
  rw [List.length_drop]
  omega

theorem lastOf_of_length_le {α : Type} {n : Nat} {xs : List α} (h : xs.length ≤ n) :
    lastOf n xs = xs := by
  unfold lastOf
  rw [Nat.sub_eq_zero_of_le h, List.drop_zero]

theorem mem_of_mem_lastOf {α : Type} {n : Nat} {xs : List α} {a : α} (h : a ∈ lastOf n xs) :
    a ∈ xs := List.mem_of_mem_drop h

namespace EmbeddedRuntime

variable {r : EmbeddedRuntime} {now commitId : String} {row : Json.Fields}

theorem sound_empty : Sound host {} where
  nodes := OrderedMap.keyed_empty
  edges := OrderedMap.keyed_empty
  rules := ⟨OrderedMap.keyed_empty, fun _ _ h => nomatch h⟩
  decisions := ⟨OrderedMap.keyed_empty, fun _ _ h => nomatch h⟩
  decisionCount := Nat.zero_le _
  feedback := fun _ h => nomatch h
  feedbackCount := Nat.zero_le _
  auditCount := Nat.zero_le _

theorem Sound.applyNode {autoEmbed : Bool} (hnow : Iso host now) (hr : r.Sound host)
    (n : PreparedNode) : (applyNode autoEmbed now commitId r n).Sound host := by
  unfold EmbeddedRuntime.applyNode
  dsimp only
  split
  · exact hr
  · next hnew =>
    have hnew := OrderedMap.not_has_iff.1 (eq_false_of_ne_true hnew)
    have hnodes := hr.nodes.set (k := nodeKey n.scope n.id)
      (a := plannedRecord autoEmbed now commitId n) rfl
    have hrules : RulesSound host
        (r.nodes.set (nodeKey n.scope n.id) (plannedRecord autoEmbed now commitId n))
        r.ruleDefs := by
      refine hr.rules.of_nodes fun k m hm => ⟨m, ?_, rfl⟩
      rw [OrderedMap.get_set_of_ne, hm]
      rintro rfl
      rw [hnew] at hm
      cases hm
    split
    · refine ⟨hnodes, hr.edges, hrules.set rfl ?_ ?_, hr.decisions, hr.decisionCount, hr.feedback,
        hr.feedbackCount, hr.auditCount⟩
      · exact ⟨hnow, le_rfl, le_rfl, orElse_slotOrElse rfl, orElse_slotOrElse rfl⟩
      · rintro c hc
        obtain rfl := Option.some.inj hc
        exact .inr (by rw [OrderedMap.get_set_self]; rfl)
    · exact ⟨hnodes, hr.edges, hrules, hr.decisions, hr.decisionCount, hr.feedback,
        hr.feedbackCount, hr.auditCount⟩

theorem Sound.applyEdge (hr : r.Sound host) (e : PreparedEdge) :
    (applyEdge now commitId r e).Sound host :=
  ⟨hr.nodes, hr.edges.set rfl, hr.rules, hr.decisions, hr.decisionCount, hr.feedback,
    hr.feedbackCount, hr.auditCount⟩

/-- What each of the calls for a list of rows keeps, the calls keep. -/
theorem foldl_sound {ι : Type} {f : EmbeddedRuntime → ι → EmbeddedRuntime}
    {P : EmbeddedRuntime → Prop} (hf : ∀ r i, P r → P (f r i)) (is : List ι) :
    ∀ r, P r → P (is.foldl f r) := by
  induction is with
  | nil => exact fun _ h => h
  | cons i is ih => exact fun r h => ih (f r i) (hf r i h)

theorem Sound.applyWrite {autoEmbed : Bool} (hnow : Iso host now) (hr : r.Sound host)
    (nodes : List PreparedNode) (edges : List PreparedEdge) :
    (applyWrite autoEmbed now commitId r nodes edges).Sound host :=
  foldl_sound (fun _ e h => h.applyEdge e) edges _
    (foldl_sound (fun _ n h => h.applyNode hnow n) nodes r hr)

theorem syncedDecision_sound {scope id : String} {existing : Option EmbeddedDecision}
    (hnow : Iso host now) (hscope : scope ≠ "") (hid : id ≠ "")
    (hexisting : ∀ d, existing = some d → d.Sound host) :
    (syncedDecision host now existing scope id row).Sound host where
  created := iso_normalizeIso (by
    cases existing with
    | none => exact hnow
    | some d => exact (hexisting d rfl).created)
  id := hid
  scope := hscope
  selectedTool := fun _ => plain_of_normalizeToolName
  candidates := fun _ => plain_of_mem_candidates
  distinct := nodup_eraseDups _
  sourceRuleIds := by
    intro c hc
    have hc : c ∈ if (Json.asArray (Json.get row "source_rule_ids")).isSome then
        stringItems (Json.get row "source_rule_ids")
      else (existing.map (·.sourceRuleIds)).getD [] := hc
    split at hc
    · exact plain_of_mem_stringItems hc
    · cases existing with
      | none => cases hc
      | some d => exact (hexisting d rfl).sourceRuleIds c hc
  metadata := orElse_getD rfl

theorem syncDecision_spec (hnow : Iso host now) (row : Json.Fields)
    (hr : DecisionsSound host r.executionDecisionsById) :
    ∃ decisions, syncDecision host now r row = { r with executionDecisionsById := decisions } ∧
      DecisionsSound host decisions := by
  unfold syncDecision
  split
  · next scope id hscope hid =>
    refine ⟨_, rfl, hr.set rfl ?_⟩
    exact syncedDecision_sound hnow (ne_of_given hscope).2 (ne_of_given hid).2
      fun d hd => hr.2 _ d hd
  · exact ⟨_, rfl, hr⟩

theorem foldl_syncDecision_spec (hnow : Iso host now) (rows : List Json.Fields) :
    ∀ r : EmbeddedRuntime, DecisionsSound host r.executionDecisionsById → ∃ decisions,
      rows.foldl (syncDecision host now) r = { r with executionDecisionsById := decisions } ∧
        DecisionsSound host decisions := by
  induction rows with
  | nil => exact fun r hr => ⟨_, rfl, hr⟩
  | cons row rows ih =>
    intro r hr
    obtain ⟨decisions, hstep, hsound⟩ := syncDecision_spec hnow row hr
    rw [List.foldl_cons, hstep]
    exact ih _ hsound

theorem trimDecisions_spec (hr : DecisionsSound host r.executionDecisionsById) :
    ∃ decisions, trimDecisions host r = { r with executionDecisionsById := decisions } ∧
      DecisionsSound host decisions ∧ decisions.values.length ≤ 10000 := by
  unfold trimDecisions
  split
  · refine ⟨_, rfl, ⟨fun k d hd => ?_, fun k d hd => ?_⟩, ?_⟩
    · rw [OrderedMap.get_filter] at hd
      split at hd
      · exact hr.1 k d hd
      · cases hd
    · rw [OrderedMap.get_filter] at hd
      split at hd
      · exact hr.2 k d hd
      · cases hd
    · generalize hkeep : (r.executionDecisionsById.values.mergeSort (decisionsDesc host)).take
        10000 = keep
      have hlength : keep.length ≤ 10000 := by
        rw [← hkeep]
        exact List.length_take_le _ _
      have hsub : ((r.executionDecisionsById.filter fun k =>
          decide (k ∈ keep.map (·.key))).entries.map (·.1)) ⊆ keep.map (·.key) := by
        intro k hk
        obtain ⟨e, he, rfl⟩ := List.mem_map.1 hk
        exact of_decide_eq_true (List.mem_filter.1 he).2
      have hle := (List.subperm_of_subset (OrderedMap.nodup _) hsub).length_le
      rw [List.length_map, List.length_map] at hle
      unfold OrderedMap.values
      rw [List.length_map]
      exact Nat.le_trans hle hlength
  · next hle => exact ⟨_, rfl, hr, Nat.le_of_not_lt hle⟩

theorem Sound.syncExecutionDecisions (hnow : Iso host now) (hr : r.Sound host)
    (rows : List Json.Fields) : (syncExecutionDecisions host now r rows).Sound host := by
  unfold EmbeddedRuntime.syncExecutionDecisions
  split
  · exact hr
  · obtain ⟨decisions, hfold, hsound⟩ := foldl_syncDecision_spec hnow rows r hr.decisions
    rw [hfold]
    obtain ⟨kept, htrim, hkept, hcount⟩ := @trimDecisions_spec host
      { r with executionDecisionsById := decisions } hsound
    rw [htrim]
    exact ⟨hr.nodes, hr.edges, hr.rules, hkept, hcount, hr.feedback, hr.feedbackCount,
      hr.auditCount⟩

theorem feedbackRow_sound {row : Json.Fields × String} {f : EmbeddedRuleFeedback}
    (hnow : Iso host row.2) (h : feedbackRow host row = some f) : f.Sound host := by
  unfold feedbackRow at h
  obtain ⟨scope, hscope, h⟩ := Option.bind_eq_some_iff.1 h
  obtain ⟨id, hid, h⟩ := Option.bind_eq_some_iff.1 h
  obtain ⟨ruleNodeId, hrule, h⟩ := Option.bind_eq_some_iff.1 h
  obtain rfl := Option.some.inj h
  exact ⟨iso_normalizeIso hnow, (ne_of_given hid).2, (ne_of_given hscope).2,
    (ne_of_given hrule).2⟩

theorem Sound.appendRuleFeedback (hr : r.Sound host) {rows : List (Json.Fields × String)}
    (hrows : ∀ row ∈ rows, Iso host row.2) : (appendRuleFeedback host r rows).Sound host := by
  unfold EmbeddedRuntime.appendRuleFeedback
  refine ⟨hr.nodes, hr.edges, hr.rules, hr.decisions, hr.decisionCount, fun f hf => ?_, ?_,
    hr.auditCount⟩
  · dsimp only at hf
    rcases List.mem_append.1 (mem_of_mem_lastOf hf) with hf | hf
    · exact hr.feedback f hf
    · obtain ⟨row, hrow, hf⟩ := List.mem_filterMap.1 hf
      exact feedbackRow_sound (hrows row hrow) hf
  · dsimp only
    exact length_lastOf_le _ _

theorem syncedRuleDef_sound {scope ruleNodeId updatedAt : String} (hupdated : Iso host updatedAt) :
    (syncedRuleDef host scope ruleNodeId updatedAt row).Sound host where
  updated := hupdated
  positive := count_nonneg _
  negative := count_nonneg _
  ifJson := orElse_slotOrElse rfl
  thenJson := orElse_slotOrElse rfl

theorem ne_of_filledField {k c : String} (h : filledField row k = some c) :
    trim c ≠ "" := of_decide_eq_true (Option.filter_eq_some_iff.1 h).2

theorem Sound.syncRuleDef {touch : Bool} (hnow : Iso host now) (hr : r.Sound host)
    (row : Json.Fields) : (syncRuleDef host touch now r row).Sound host := by
  unfold EmbeddedRuntime.syncRuleDef
  split
  · next scope ruleNodeId hscope hid =>
    dsimp only
    generalize hkey : nodeKey scope ruleNodeId = key
    have hupdated : Iso host (normalizeIso host (Json.get row "updated_at") now) :=
      iso_normalizeIso hnow
    generalize normalizeIso host (Json.get row "updated_at") now = updatedAt at hupdated
    have hrules := hr.rules.set (d := syncedRuleDef host scope ruleNodeId updatedAt row) hkey
      (syncedRuleDef_sound hupdated) fun c hc => .inl (ne_of_filledField hc)
    cases hnode : r.nodes.get key with
    | none => exact ⟨hr.nodes, hr.edges, hrules, hr.decisions, hr.decisionCount, hr.feedback,
        hr.feedbackCount, hr.auditCount⟩
    | some n =>
      dsimp only
      split
      · have htouch : (touchNode updatedAt n).key = n.key ∧
            (touchNode updatedAt n).commitId = n.commitId := by
          unfold touchNode
          split <;> exact ⟨rfl, rfl⟩
        refine ⟨hr.nodes.set (htouch.1.trans (hr.nodes key n hnode)), hr.edges,
          hrules.of_nodes fun k m hm => ?_, hr.decisions, hr.decisionCount, hr.feedback,
          hr.feedbackCount, hr.auditCount⟩
        rw [OrderedMap.get_set]
        split
        · next hk =>
          subst hk
          obtain rfl := Option.some.inj (hnode.symm.trans hm)
          exact ⟨_, rfl, htouch.2⟩
        · exact ⟨m, hm, rfl⟩
      · exact ⟨hr.nodes, hr.edges, hrules, hr.decisions, hr.decisionCount, hr.feedback,
          hr.feedbackCount, hr.auditCount⟩
  · exact hr

theorem Sound.syncRuleDefs {touch : Bool} (hnow : Iso host now) (hr : r.Sound host)
    (rows : List Json.Fields) : (syncRuleDefs host touch now r rows).Sound host :=
  foldl_sound (fun _ row h => h.syncRuleDef hnow row) rows r hr

theorem Sound.insertRecallAudit (hr : r.Sound host) (params : RecallAuditInsertParams) :
    (insertRecallAudit now r params).Sound host := by
  unfold EmbeddedRuntime.insertRecallAudit
  refine ⟨hr.nodes, hr.edges, hr.rules, hr.decisions, hr.decisionCount, hr.feedback,
    hr.feedbackCount, ?_⟩
  dsimp only
  exact length_lastOf_le _ _

end EmbeddedRuntime

end AionisCore.Store
