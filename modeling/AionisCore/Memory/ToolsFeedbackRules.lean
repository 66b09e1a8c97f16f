import AionisCore.Memory.EmbeddedMirror
import AionisCore.Memory.RulesEvaluate
import AionisCore.Store.SnapshotRestore

/-!
# Rule counters of tool feedback

`toolSelectionFeedback` counts the outcome for the rules it attributes it to, and gives the
rows that the store returns for them to the runtime. Of a call that is not rejected before, the
model has what it does to rule definitions: its other writes are of nodes that are no rules.
-/

namespace AionisCore.Memory

open Lib Lib.JsString Lib.Table Util Store

inductive FeedbackTarget where
  | tool
  | all
  deriving DecidableEq, Repr

/-- A call, with the times at which the store and the runtime take it. `resolveTenantScope`
returns no empty scope key. -/
structure ToolsFeedbackCall where
  scope : String
  scopeGiven : scope ≠ ""
  outcome : RuleOutcome
  context : Option Json
  includeShadow : Bool := false
  rulesLimit : Nat := 50
  target : FeedbackTarget := .tool
  storeNow : String
  runtimeNow : String

def isToolTouched (paths : List String) : Bool :=
  paths.any fun p => p = "tool" || "tool.".toList.isPrefixOf p.toList

def uniqueRuleIds (ids : List String) : List String := distinctStrings ids

/-- The rules to which a call attributes its outcome. -/
def attributedRules (rules : RuleHost) (t : LiteTables) (call : ToolsFeedbackCall) : List String :=
  let sources := appliedSources rules call.context call.includeShadow
    (t.listRuleCandidates call.scope call.rulesLimit)
  uniqueRuleIds ((sources.filter fun s => call.target = .all || isToolTouched s.touchedPaths).map
    (·.ruleNodeId))

/-- The row for `syncRuleDefs`. -/
def ruleSyncRow (scope : String) (row : LiteRuleCandidateRow) : Json.Fields :=
  [("scope", .str scope), ("rule_node_id", .str row.ruleNodeId), ("state", .str row.state),
    ("rule_scope", .str row.ruleScope), ("target_agent_id", Json.orNull row.targetAgentId),
    ("target_team_id", Json.orNull row.targetTeamId), ("if_json", .obj row.ifJson),
    ("then_json", .obj row.thenJson), ("exceptions_json", .arr row.exceptionsJson),
    ("positive_count", .num row.positiveCount), ("negative_count", .num row.negativeCount),
    ("commit_id", .str row.ruleCommitId), ("updated_at", .str row.updatedAt)]

section Calls

variable (host : EmbeddedHost) (rules : RuleHost)

/-- The rows that `updateRuleFeedbackAggregates` returns, and the tables after it. -/
def feedbackRows (s : MirrorState) (call : ToolsFeedbackCall) :
    List LiteRuleCandidateRow × LiteTables :=
  s.store.updateRuleFeedbackAggregates call.scope call.outcome (attributedRules rules s.store call)
    call.storeNow

def toolSelectionFeedback (s : MirrorState) (call : ToolsFeedbackCall) : MirrorState :=
  let (updatedRows, store) := feedbackRows rules s call
  { store
    runtime :=
      if updatedRows.isEmpty then s.runtime
      else EmbeddedRuntime.syncRuleDefs host false call.runtimeNow s.runtime
        (updatedRows.map (ruleSyncRow call.scope)) }

def feedbackStep (s : MirrorState) (call : ToolsFeedbackCall) : Option MirrorState :=
  some (toolSelectionFeedback host rules s call)

end Calls

/-! ## What is claimed of a call -/

/-- The runtime has a definition where the store has one. Rules have UUIDs. -/
structure SameRules (s : MirrorState) : Prop where
  unique : Unique LiteRuleDefRow.key s.store.ruleDefs
  uuids : ∀ d ∈ s.store.ruleDefs, isUuid d.ruleNodeId = true
  keys : ∀ k, (s.runtime.ruleDefs.get k).isSome ↔ ∃ d ∈ s.store.ruleDefs, d.key = k

/-- Every definition of the runtime has the counters of the store. -/
def SameCounts (s : MirrorState) : Prop :=
  ∀ k e, s.runtime.ruleDefs.get k = some e → ∃ d ∈ s.store.ruleDefs, d.key = k ∧
    e.positiveCount = d.positiveCount ∧ e.negativeCount = d.negativeCount

/-- The rows that are returned are those of the rules that were updated. -/
def ReturnsUpdated (rules : RuleHost) (s : MirrorState) (call : ToolsFeedbackCall) : Prop :=
  ∀ id, id ∈ (feedbackRows rules s call).1.map (·.ruleNodeId) ↔
    id ∈ attributedRules rules s.store call

/-- A definition that `listRuleCandidates` can return for a scope. -/
def RuleCandidate (t : LiteTables) (scope : String) (d : LiteRuleDefRow) : Prop :=
  d.scope = scope ∧ (t.ruleNode d).isSome ∧ d.isCandidate

instance (t : LiteTables) (scope : String) (d : LiteRuleDefRow) :
    Decidable (RuleCandidate t scope d) := inferInstanceAs (Decidable (_ ∧ _))

/-- No rule of the scope that the outcome is not attributed to comes before one that it is. -/
def AttributedFirst (rules : RuleHost) (s : MirrorState) (call : ToolsFeedbackCall) : Prop :=
  ∀ d ∈ s.store.ruleDefs, ∀ e ∈ s.store.ruleDefs,
    RuleCandidate s.store call.scope d → RuleCandidate s.store call.scope e →
    d.ruleNodeId ∈ attributedRules rules s.store call →
    e.ruleNodeId ∉ attributedRules rules s.store call → d.newestFirst e

instance (rules : RuleHost) (s : MirrorState) (call : ToolsFeedbackCall) :
    Decidable (AttributedFirst rules s call) :=
  inferInstanceAs (Decidable (∀ d ∈ _, ∀ e ∈ _, _ → _ → _ → _ → _))

/-! ## The counters -/

section Counters

variable {outcome : RuleOutcome} {now scope : String} {ids : List String} {d : LiteRuleDefRow}

/-- What a definition keeps. -/
structure SameRule (d d' : LiteRuleDefRow) : Prop where
  ruleNodeId : d'.ruleNodeId = d.ruleNodeId
  scope : d'.scope = d.scope
  state : d'.state = d.state
  createdAt : d'.createdAt = d.createdAt

theorem addRuleFeedback_same (id : String) :
    SameRule d (addRuleFeedback outcome now scope id d) := by
  unfold addRuleFeedback
  split <;> exact ⟨rfl, rfl, rfl, rfl⟩

/-- A definition after all updates of a call. -/
def countedRule (outcome : RuleOutcome) (now scope : String) (ids : List String)
    (d : LiteRuleDefRow) : LiteRuleDefRow :=
  ids.foldl (fun d id => addRuleFeedback outcome now scope id d) d

theorem foldl_map_addRuleFeedback (defs : List LiteRuleDefRow) :
    ids.foldl (fun defs id => defs.map (addRuleFeedback outcome now scope id)) defs =
      defs.map (countedRule outcome now scope ids) := by
  induction ids generalizing defs with
  | nil => exact (List.map_id _).symm
  | cons id ids ih =>
    rw [List.foldl_cons, ih, List.map_map]
    rfl

theorem countedRule_same : SameRule d (countedRule outcome now scope ids d) := by
  unfold countedRule
  induction ids generalizing d with
  | nil => exact ⟨rfl, rfl, rfl, rfl⟩
  | cons id ids ih =>
    rw [List.foldl_cons]
    have h := @addRuleFeedback_same outcome now scope d id
    have h' := @ih (addRuleFeedback outcome now scope id d)
    exact ⟨h'.ruleNodeId.trans h.ruleNodeId, h'.scope.trans h.scope, h'.state.trans h.state,
      h'.createdAt.trans h.createdAt⟩

theorem countedRule_other (h : ¬ (d.scope = scope ∧ d.ruleNodeId ∈ ids)) :
    countedRule outcome now scope ids d = d := by
  unfold countedRule
  induction ids with
  | nil => rfl
  | cons id ids ih =>
    have hid : addRuleFeedback outcome now scope id d = d := by
      refine if_neg ?_
      rintro ⟨hscope, rfl⟩
      exact h ⟨hscope, List.mem_cons_self⟩
    rw [List.foldl_cons, hid]
    exact ih fun hids => h ⟨hids.1, List.mem_cons_of_mem _ hids.2⟩

end Counters

/-! ## Candidates -/

section Candidates

variable {t t' : LiteTables} {scope : String} {limit : Nat}

/-- The candidates of a scope in their order. -/
def orderedCandidates (t : LiteTables) (scope : String) : List LiteRuleDefRow :=
  (t.orderedRuleDefs scope).filter (·.isCandidate)

theorem mem_orderedCandidates {d : LiteRuleDefRow} :
    d ∈ orderedCandidates t scope ↔ d ∈ t.ruleDefs ∧ RuleCandidate t scope d := by
  unfold orderedCandidates LiteTables.orderedRuleDefs RuleCandidate
  rw [List.mem_filter, List.mem_insertionSort, List.mem_filter, decide_eq_true_iff]
  simp only [and_assoc]

/-- One definition before another one. -/
def Before (d e : LiteRuleDefRow) : Prop := d.newestFirst e ∧ d.ruleNodeId ≠ e.ruleNodeId

theorem before_asymm (d e : LiteRuleDefRow) (h : Before d e) : ¬ Before e d := by
  rintro ⟨h' | ⟨heq, hle⟩, -⟩
  · rcases h.1 with hlt | ⟨heq, -⟩
    · exact lt_asymm hlt h'
    · exact absurd heq (ne_of_lt h')
  · rcases h.1 with hlt | ⟨-, hle'⟩
    · exact absurd heq (ne_of_lt hlt)
    · exact h.2 (le_antisymm hle' hle)

theorem newestFirst_total (d e : LiteRuleDefRow) : d.newestFirst e ∨ e.newestFirst d := by
  rcases lt_trichotomy d.createdAt e.createdAt with h | h | h
  · exact .inr (.inl h)
  · rcases le_total d.ruleNodeId e.ruleNodeId with hid | hid
    · exact .inl (.inr ⟨h, hid⟩)
    · exact .inr (.inr ⟨h.symm, hid⟩)
  · exact .inl (.inl h)

theorem newestFirst_trans {d e f : LiteRuleDefRow} (h : d.newestFirst e) (h' : e.newestFirst f) :
    d.newestFirst f := by
  rcases h with h | ⟨h, hid⟩
  · rcases h' with h' | ⟨h', -⟩
    · exact .inl (lt_trans h' h)
    · exact .inl (h' ▸ h)
  · rcases h' with h' | ⟨h', hid'⟩
    · exact .inl (h ▸ h')
    · exact .inr ⟨h.trans h', le_trans hid hid'⟩

theorem orderedCandidates_unique (h : Unique LiteRuleDefRow.key t.ruleDefs) :
    Unique (·.ruleNodeId) (orderedCandidates t scope) := by
  have hperm := List.perm_insertionSort LiteRuleDefRow.newestFirst
    (t.ruleDefs.filter fun d => d.scope = scope ∧ (t.ruleNode d).isSome)
  have hkeys : Unique LiteRuleDefRow.key (orderedCandidates t scope) := by
    unfold orderedCandidates LiteTables.orderedRuleDefs
    exact Unique.filter (((hperm.map _).nodup_iff).2 h.filter)
  have hids : (orderedCandidates t scope).map LiteRuleDefRow.key =
      ((orderedCandidates t scope).map (·.ruleNodeId)).map (nodeKey scope) := by
    rw [List.map_map]
    refine List.map_congr_left fun d hd => ?_
    have hscope : d.scope = scope := (mem_orderedCandidates.1 hd).2.1
    rw [LiteRuleDefRow.key, hscope]
    rfl
  unfold Table.Unique at hkeys
  rw [hids] at hkeys
  exact List.Nodup.of_map _ hkeys

theorem orderedCandidates_pairwise (h : Unique LiteRuleDefRow.key t.ruleDefs) :
    (orderedCandidates t scope).Pairwise Before := by
  have : Std.Total LiteRuleDefRow.newestFirst := ⟨newestFirst_total⟩
  have : IsTrans _ LiteRuleDefRow.newestFirst := ⟨fun _ _ _ => newestFirst_trans⟩
  have hsorted : (orderedCandidates t scope).Pairwise LiteRuleDefRow.newestFirst :=
    (List.pairwise_insertionSort _ _).filter _
  have hids : (orderedCandidates t scope).Pairwise fun d e => d.ruleNodeId ≠ e.ruleNodeId :=
    List.pairwise_map.1 (orderedCandidates_unique h)
  exact hsorted.and hids

theorem filterMap_ids {l : List LiteRuleDefRow} (h : ∀ d ∈ l, (t.ruleNode d).isSome) :
    (l.filterMap fun d => (t.ruleNode d).map (ruleCandidateRow d)).map (·.ruleNodeId) =
      l.map (·.ruleNodeId) := by
  induction l with
  | nil => rfl
  | cons d l ih =>
    rw [List.forall_mem_cons] at h
    obtain ⟨n, hn⟩ := Option.isSome_iff_exists.1 h.1
    have hrow : (t.ruleNode d).map (ruleCandidateRow d) = some (ruleCandidateRow d n) := by
      rw [hn, Option.map_some]
    rw [List.filterMap_cons, hrow]
    exact congrArg (d.ruleNodeId :: ·) (ih h.2)

theorem listRuleCandidates_ids :
    (t.listRuleCandidates scope limit).map (·.ruleNodeId) =
      ((orderedCandidates t scope).take limit).map (·.ruleNodeId) :=
  filterMap_ids fun _ hd => (mem_orderedCandidates.1 (List.mem_of_mem_take hd)).2.2.1

theorem mem_listRuleCandidates {row : LiteRuleCandidateRow}
    (h : row ∈ t.listRuleCandidates scope limit) :
    ∃ d ∈ t.ruleDefs, RuleCandidate t scope d ∧ ∃ n, row = ruleCandidateRow d n := by
  obtain ⟨d, hd, hrow⟩ := List.mem_filterMap.1 h
  obtain ⟨n, -, rfl⟩ := Option.map_eq_some_iff.1 hrow
  obtain ⟨hmem, hcandidate⟩ := mem_orderedCandidates.1 (List.mem_of_mem_take hd)
  exact ⟨d, hmem, hcandidate, n, rfl⟩

end Candidates

/-! ## Which rows are returned -/

section Returned

variable {rules : RuleHost} {s : MirrorState} {call : ToolsFeedbackCall}

theorem attributedRules_nodup : (attributedRules rules s.store call).Nodup :=
  nodup_eraseDups _

theorem exists_of_attributed (h : SameRules s) {id : String}
    (hid : id ∈ attributedRules rules s.store call) :
    ∃ d ∈ s.store.ruleDefs, RuleCandidate s.store call.scope d ∧ d.ruleNodeId = id := by
  obtain ⟨⟨raw, hraw, htrim⟩, -⟩ := mem_distinctStrings.1 hid
  obtain ⟨source, hsource, rfl⟩ := List.mem_map.1 hraw
  have hsource := List.mem_of_mem_filter hsource
  have hsource : source ∈ (s.store.listRuleCandidates call.scope call.rulesLimit).filterMap
      (policySource rules call.context) := by
    rcases List.mem_append.1 hsource with hsource | hsource
    · exact List.mem_of_mem_filter hsource
    · split at hsource
      · exact List.mem_of_mem_filter hsource
      · cases hsource
  obtain ⟨row, hrow, hpolicy⟩ := List.mem_filterMap.1 hsource
  obtain ⟨d, hd, hcandidate, n, rfl⟩ := mem_listRuleCandidates hrow
  have hsourceId : source.ruleNodeId = d.ruleNodeId := by
    unfold policySource at hpolicy
    split at hpolicy
    · obtain rfl := Option.some.inj hpolicy
      rfl
    · cases hpolicy
  refine ⟨d, hd, hcandidate, ?_⟩
  rw [← htrim, hsourceId]
  exact (plain_of_isUuid (h.uuids d hd)).1.symm

theorem feedbackRows_tables : (feedbackRows rules s call).2.ruleDefs = s.store.ruleDefs.map
      (countedRule call.outcome call.storeNow call.scope (attributedRules rules s.store call)) ∧
    (feedbackRows rules s call).2.nodes = s.store.nodes :=
  ⟨foldl_map_addRuleFeedback _, rfl⟩

theorem countedRule_key {outcome : RuleOutcome} {now scope : String} {ids : List String}
    (d : LiteRuleDefRow) : (countedRule outcome now scope ids d).key = d.key := by
  have hsame := @countedRule_same outcome now scope ids d
  rw [LiteRuleDefRow.key, hsame.scope, hsame.ruleNodeId, LiteRuleDefRow.key]

theorem feedbackRows_unique (h : SameRules s) :
    Unique LiteRuleDefRow.key (feedbackRows rules s call).2.ruleDefs := by
  rw [feedbackRows_tables.1]
  exact h.unique.map countedRule_key

theorem ruleCandidate_counted {d : LiteRuleDefRow} {scope : String} :
    RuleCandidate (feedbackRows rules s call).2 scope (countedRule call.outcome call.storeNow
        call.scope (attributedRules rules s.store call) d) ↔
      RuleCandidate s.store scope d := by
  have hsame := @countedRule_same call.outcome call.storeNow call.scope
    (attributedRules rules s.store call) d
  unfold RuleCandidate LiteTables.ruleNode LiteRuleDefRow.isCandidate
  rw [feedbackRows_tables.2, hsame.ruleNodeId, hsame.scope, hsame.state]

theorem returned_ids : (feedbackRows rules s call).1.map (·.ruleNodeId) =
    (((orderedCandidates (feedbackRows rules s call).2 call.scope).take
      (max 1 (attributedRules rules s.store call).length)).map (·.ruleNodeId)).filter
        (· ∈ attributedRules rules s.store call) := by
  rw [← listRuleCandidates_ids, List.filter_map]
  rfl

/-- The definitions to which the outcome was attributed, in their order. -/
def attributedCandidates (rules : RuleHost) (s : MirrorState) (call : ToolsFeedbackCall) :
    List LiteRuleDefRow :=
  (orderedCandidates (feedbackRows rules s call).2 call.scope).filter fun d =>
    d.ruleNodeId ∈ attributedRules rules s.store call

theorem mem_attributedCandidates {d : LiteRuleDefRow} : d ∈ attributedCandidates rules s call ↔
    d ∈ orderedCandidates (feedbackRows rules s call).2 call.scope ∧
      d.ruleNodeId ∈ attributedRules rules s.store call := by
  rw [attributedCandidates, List.mem_filter, decide_eq_true_iff]

theorem attributedCandidates_ids (h : SameRules s) :
    ((attributedCandidates rules s call).map (·.ruleNodeId)).Perm
      (attributedRules rules s.store call) := by
  have hunique : Unique (·.ruleNodeId) (attributedCandidates rules s call) :=
    (orderedCandidates_unique (feedbackRows_unique h)).filter
  refine (List.perm_ext_iff_of_nodup hunique attributedRules_nodup).2 fun id => ?_
  rw [List.mem_map]
  constructor
  · rintro ⟨d, hd, rfl⟩
    exact (mem_attributedCandidates.1 hd).2
  · intro hid
    obtain ⟨d, hd, hcandidate, rfl⟩ := exists_of_attributed h hid
    have hsame := @countedRule_same call.outcome call.storeNow call.scope
      (attributedRules rules s.store call) d
    refine ⟨_, mem_attributedCandidates.2 ⟨mem_orderedCandidates.2 ⟨?_,
      ruleCandidate_counted.2 hcandidate⟩, ?_⟩, hsame.ruleNodeId⟩
    · rw [feedbackRows_tables.1]
      exact List.mem_map_of_mem hd
    · rw [hsame.ruleNodeId]
      exact hid

theorem returnsUpdated_iff_subset (h : SameRules s) : ReturnsUpdated rules s call ↔
    attributedCandidates rules s call ⊆
      (orderedCandidates (feedbackRows rules s call).2 call.scope).take
        (max 1 (attributedRules rules s.store call).length) := by
  unfold ReturnsUpdated
  rw [returned_ids]
  simp only [List.mem_filter, decide_eq_true_iff]
  constructor
  · intro hall d hd
    obtain ⟨hmem, hid⟩ := mem_attributedCandidates.1 hd
    obtain ⟨e, he, heid⟩ := List.mem_map.1 ((hall d.ruleNodeId).2 hid).1
    have heq := (orderedCandidates_unique (feedbackRows_unique h)).eq
      (List.mem_of_mem_take he) hmem heid
    exact heq ▸ he
  · intro hsub id
    refine ⟨And.right, fun hid => ⟨?_, hid⟩⟩
    obtain ⟨d, hd, rfl⟩ := List.mem_map.1 ((attributedCandidates_ids h).mem_iff.2 hid)
    exact List.mem_map_of_mem (hsub hd)

/-- The order is that of the definitions before they are counted. -/
theorem attributedFirst_iff : AttributedFirst rules s call ↔
    ∀ a ∈ attributedCandidates rules s call,
      ∀ b ∈ orderedCandidates (feedbackRows rules s call).2 call.scope,
        b ∉ attributedCandidates rules s call → Before a b := by
  have hsame := @countedRule_same call.outcome call.storeNow call.scope
    (attributedRules rules s.store call)
  have horder : ∀ d e, (countedRule call.outcome call.storeNow call.scope
      (attributedRules rules s.store call) d).newestFirst (countedRule call.outcome call.storeNow
        call.scope (attributedRules rules s.store call) e) ↔ d.newestFirst e := by
    intro d e
    unfold LiteRuleDefRow.newestFirst
    rw [hsame.createdAt, hsame.createdAt, hsame.ruleNodeId, hsame.ruleNodeId]
  constructor
  · intro h a ha b hb hnot
    obtain ⟨hamem, haid⟩ := mem_attributedCandidates.1 ha
    have hbid : b.ruleNodeId ∉ attributedRules rules s.store call := fun hid =>
      hnot (mem_attributedCandidates.2 ⟨hb, hid⟩)
    obtain ⟨hadef, hacandidate⟩ := mem_orderedCandidates.1 hamem
    obtain ⟨hbdef, hbcandidate⟩ := mem_orderedCandidates.1 hb
    rw [feedbackRows_tables.1] at hadef hbdef
    obtain ⟨d, hd, rfl⟩ := List.mem_map.1 hadef
    obtain ⟨e, he, rfl⟩ := List.mem_map.1 hbdef
    refine ⟨(horder d e).2 ?_, fun hids => hbid (hids ▸ haid)⟩
    rw [hsame.ruleNodeId] at haid hbid
    exact h d hd e he (ruleCandidate_counted.1 hacandidate) (ruleCandidate_counted.1 hbcandidate)
      haid hbid
  · intro h d hd e he hdcandidate hecandidate hdid heid
    have hmem : ∀ d ∈ s.store.ruleDefs, RuleCandidate s.store call.scope d →
        countedRule call.outcome call.storeNow call.scope (attributedRules rules s.store call) d ∈
          orderedCandidates (feedbackRows rules s call).2 call.scope := by
      intro d hd hcandidate
      refine mem_orderedCandidates.2 ⟨?_, ruleCandidate_counted.2 hcandidate⟩
      rw [feedbackRows_tables.1]
      exact List.mem_map_of_mem hd
    refine (horder d e).1 (h _ (mem_attributedCandidates.2 ⟨hmem d hd hdcandidate, ?_⟩) _
      (hmem e he hecandidate) fun hattributed => heid ?_).1
    · rw [hsame.ruleNodeId]
      exact hdid
    · have hid := (mem_attributedCandidates.1 hattributed).2
      rwa [hsame.ruleNodeId] at hid

theorem returnsUpdated_iff (h : SameRules s) :
    ReturnsUpdated rules s call ↔ AttributedFirst rules s call := by
  have hlength : (attributedRules rules s.store call).length =
      (attributedCandidates rules s call).length := by
    rw [← (attributedCandidates_ids h).length_eq, List.length_map]
  rw [returnsUpdated_iff_subset h, attributedFirst_iff]
  by_cases hnone : attributedCandidates rules s call = []
  · rw [hnone]
    exact iff_of_true (List.nil_subset _) (fun a ha => absurd ha List.not_mem_nil)
  · have hpos := List.length_pos_iff.2 hnone
    have hmax : max 1 (attributedRules rules s.store call).length =
        (attributedCandidates rules s call).length := by omega
    have hunique : Unique (·.ruleNodeId) (attributedCandidates rules s call) :=
      (orderedCandidates_unique (feedbackRows_unique h)).filter
    rw [hmax]
    exact Query.subset_take_length_iff before_asymm
      (orderedCandidates_pairwise (feedbackRows_unique h)) (List.Nodup.of_map _ hunique)
      fun _ hd => List.mem_of_mem_filter hd

end Returned

/-! ## What the runtime takes over -/

section Synced

variable {host : EmbeddedHost} {rules : RuleHost} {s : MirrorState} {call : ToolsFeedbackCall}
  {r : EmbeddedRuntime} {scope now : String}

/-- A row sets the definition of its key, with its counters. -/
theorem syncRuleDef_ruleDefs (hscope : scope ≠ "") {row : LiteRuleCandidateRow}
    (hid : row.ruleNodeId ≠ "") :
    ∃ e, (EmbeddedRuntime.syncRuleDef host false now r (ruleSyncRow scope row)).ruleDefs =
        r.ruleDefs.set (nodeKey scope row.ruleNodeId) e ∧
      e.positiveCount = row.positiveCount ∧ e.negativeCount = row.negativeCount := by
  have hscopeField : given (stringField (ruleSyncRow scope row) "scope") = some scope :=
    given_of_ne hscope
  have hidField : given (stringField (ruleSyncRow scope row) "rule_node_id") =
      some row.ruleNodeId := given_of_ne hid
  have hcount : ∀ n : Nat, count host (some (.num (n : ℚ))) = n := fun n =>
    max_eq_right (Rat.natCast_nonneg)
  unfold EmbeddedRuntime.syncRuleDef
  rw [hscopeField, hidField]
  exact ⟨_, rfl, hcount row.positiveCount, hcount row.negativeCount⟩

/-- A definition after the rows is that of a row, or there was no row for it. -/
theorem get_syncRuleDefs (hscope : scope ≠ "") {rows : List LiteRuleCandidateRow}
    (hids : ∀ row ∈ rows, row.ruleNodeId ≠ "") {k : String} {e : EmbeddedRuleDef}
    (h : (EmbeddedRuntime.syncRuleDefs host false now r
      (rows.map (ruleSyncRow scope))).ruleDefs.get k = some e) :
    (∃ row ∈ rows, nodeKey scope row.ruleNodeId = k ∧ e.positiveCount = row.positiveCount ∧
        e.negativeCount = row.negativeCount) ∨
      r.ruleDefs.get k = some e ∧ ∀ row ∈ rows, nodeKey scope row.ruleNodeId ≠ k := by
  induction rows generalizing r with
  | nil => exact .inr ⟨h, fun _ hrow => absurd hrow List.not_mem_nil⟩
  | cons row rows ih =>
    rw [List.forall_mem_cons] at hids
    obtain ⟨record, hset, hpositive, hnegative⟩ :=
      @syncRuleDef_ruleDefs host r scope now hscope row hids.1
    rcases ih hids.2 h with ⟨other, hother, hcounts⟩ | ⟨hget, hrows⟩
    · exact .inl ⟨other, List.mem_cons_of_mem _ hother, hcounts⟩
    · rw [hset, OrderedMap.get_set] at hget
      split at hget
      · next hk =>
        obtain rfl := Option.some.inj hget
        exact .inl ⟨row, List.mem_cons_self, hk.symm, hpositive, hnegative⟩
      · next hk => exact .inr ⟨hget, List.forall_mem_cons.2 ⟨Ne.symm hk, hrows⟩⟩

theorem isSome_syncRuleDefs (hscope : scope ≠ "") {rows : List LiteRuleCandidateRow}
    (hids : ∀ row ∈ rows, row.ruleNodeId ≠ "") (k : String) :
    ((EmbeddedRuntime.syncRuleDefs host false now r
        (rows.map (ruleSyncRow scope))).ruleDefs.get k).isSome ↔
      (r.ruleDefs.get k).isSome ∨ ∃ row ∈ rows, nodeKey scope row.ruleNodeId = k := by
  induction rows generalizing r with
  | nil => simp [EmbeddedRuntime.syncRuleDefs]
  | cons row rows ih =>
    rw [List.forall_mem_cons] at hids
    obtain ⟨record, hset, -, -⟩ := @syncRuleDef_ruleDefs host r scope now hscope row hids.1
    have hstep := @ih (EmbeddedRuntime.syncRuleDef host false now r (ruleSyncRow scope row)) hids.2
    rw [hset, OrderedMap.get_set] at hstep
    refine hstep.trans ?_
    by_cases hk : k = nodeKey scope row.ruleNodeId
    · simp [hk]
    · simp [hk, Ne.symm hk]

theorem toolSelectionFeedback_runtime : (toolSelectionFeedback host rules s call).runtime =
    EmbeddedRuntime.syncRuleDefs host false call.runtimeNow s.runtime
      ((feedbackRows rules s call).1.map (ruleSyncRow call.scope)) := by
  unfold toolSelectionFeedback
  dsimp only
  split
  · next h =>
    rw [List.isEmpty_iff.1 h]
    rfl
  · rfl

/-- A returned row shows a definition after the updates. -/
theorem returned_def {row : LiteRuleCandidateRow} (h : row ∈ (feedbackRows rules s call).1) :
    ∃ d ∈ (feedbackRows rules s call).2.ruleDefs, d.key = nodeKey call.scope row.ruleNodeId ∧
      row.ruleNodeId = d.ruleNodeId ∧ row.positiveCount = d.positiveCount ∧
      row.negativeCount = d.negativeCount := by
  obtain ⟨d, hd, hcandidate, n, rfl⟩ := mem_listRuleCandidates (List.mem_of_mem_filter h)
  refine ⟨d, hd, ?_, rfl, rfl, rfl⟩
  rw [LiteRuleDefRow.key, hcandidate.1]
  rfl

theorem counted_uuids (h : SameRules s) :
    ∀ d ∈ (feedbackRows rules s call).2.ruleDefs, isUuid d.ruleNodeId = true := by
  rw [feedbackRows_tables.1]
  intro d hd
  obtain ⟨old, hold, rfl⟩ := List.mem_map.1 hd
  rw [countedRule_same.ruleNodeId]
  exact h.uuids old hold

theorem returned_ne (h : SameRules s) :
    ∀ row ∈ (feedbackRows rules s call).1, row.ruleNodeId ≠ "" := by
  intro row hrow
  obtain ⟨d, hd, -, hid, -, -⟩ := returned_def hrow
  rw [hid]
  exact (plain_of_isUuid (counted_uuids h d hd)).2

theorem SameRules.feedback (h : SameRules s) :
    SameRules (toolSelectionFeedback host rules s call) where
  unique := feedbackRows_unique h
  uuids := counted_uuids h
  keys k := by
    have hdefs : (∃ d ∈ (feedbackRows rules s call).2.ruleDefs, d.key = k) ↔
        ∃ d ∈ s.store.ruleDefs, d.key = k := by
      rw [feedbackRows_tables.1]
      constructor
      · rintro ⟨d, hd, rfl⟩
        obtain ⟨old, hold, rfl⟩ := List.mem_map.1 hd
        exact ⟨old, hold, (countedRule_key old).symm⟩
      · rintro ⟨d, hd, rfl⟩
        exact ⟨_, List.mem_map_of_mem hd, countedRule_key d⟩
    rw [toolSelectionFeedback_runtime, isSome_syncRuleDefs call.scopeGiven (returned_ne h), h.keys]
    show _ ↔ ∃ d ∈ (feedbackRows rules s call).2.ruleDefs, d.key = k
    rw [hdefs, or_iff_left_iff_imp]
    rintro ⟨row, hrow, rfl⟩
    obtain ⟨d, hd, hkey, -⟩ := returned_def hrow
    exact hdefs.1 ⟨d, hd, hkey⟩

/-- Where the updated rows are returned the runtime gets all that was counted. -/
theorem SameCounts.feedback (hcounts : SameCounts s) (h : SameRules s)
    (hreturns : ReturnsUpdated rules s call) :
    SameCounts (toolSelectionFeedback host rules s call) := by
  intro k e hget
  rw [toolSelectionFeedback_runtime] at hget
  rcases get_syncRuleDefs call.scopeGiven (returned_ne h) hget with
    ⟨row, hrow, hkey, hpositive, hnegative⟩ | ⟨hold, hrows⟩
  · obtain ⟨d, hd, hdkey, -, hp, hn⟩ := returned_def hrow
    exact ⟨d, hd, hdkey.trans hkey, hpositive.trans (by rw [hp]), hnegative.trans (by rw [hn])⟩
  · obtain ⟨d, hd, hkey, hpositive, hnegative⟩ := hcounts k e hold
    have hother : countedRule call.outcome call.storeNow call.scope
        (attributedRules rules s.store call) d = d := by
      refine countedRule_other ?_
      rintro ⟨hscope, hid⟩
      obtain ⟨row, hrow, hrowid⟩ := List.mem_map.1 ((hreturns d.ruleNodeId).2 hid)
      refine hrows row hrow ?_
      rw [hrowid, ← hkey, LiteRuleDefRow.key, hscope]
    refine ⟨d, ?_, hkey, hpositive, hnegative⟩
    show d ∈ (feedbackRows rules s call).2.ruleDefs
    rw [feedbackRows_tables.1]
    exact hother ▸ List.mem_map_of_mem hd

/-- After each call of a sequence the counters agree, and each call returns the rows of the rules
it updated, exactly when each call attributes its outcome to the first rules of its scope. -/
theorem feedback_exact_iff (h : SameRules s) (hcounts : SameCounts s)
    (calls : List ToolsFeedbackCall) :
    Along (feedbackStep host rules) (fun s call =>
        SameCounts (toolSelectionFeedback host rules s call) ∧ ReturnsUpdated rules s call)
      s calls ↔
    Along (feedbackStep host rules) (AttributedFirst rules) s calls := by
  induction calls generalizing s with
  | nil => exact Iff.rfl
  | cons call calls ih =>
    constructor
    · rintro ⟨⟨hnext, hreturns⟩, hrest⟩
      refine ⟨(returnsUpdated_iff h).1 hreturns, fun s' hs' => ?_⟩
      obtain rfl := Option.some.inj hs'
      exact (ih h.feedback hnext).1 (hrest _ rfl)
    · rintro ⟨hfirst, hrest⟩
      have hreturns := (returnsUpdated_iff h).2 hfirst
      have hnext : SameCounts (toolSelectionFeedback host rules s call) :=
        hcounts.feedback h hreturns
      refine ⟨⟨hnext, hreturns⟩, fun s' hs' => ?_⟩
      obtain rfl := Option.some.inj hs'
      exact (ih h.feedback hnext).2 (hrest _ rfl)

end Synced

/-! ## Mirrored stores -/

/-! ## Two rules -/

def firstRuleId : String := "00000000-0000-4000-8000-000000000001"

def secondRuleId : String := "00000000-0000-4000-8000-000000000002"

def toolRuleNode (id : String) : LiteNodeRow where
  id
  scope := "default"
  type := "rule"
  createdAt := "2026-01-01T00:00:00.000Z"
  slots := []
  salience := 1 / 2
  importance := 1 / 2
  confidence := 1 / 2
  commitId := "c"

/-- An active rule for a task that prefers a tool. -/
def toolRule (id task createdAt : String) : LiteRuleDefRow where
  ruleNodeId := id
  scope := "default"
  state := "active"
  ifJson := .obj [("task", .str task)]
  thenJson := .obj [("tool", .obj [("prefer", .arr [.str "grep"])])]
  exceptionsJson := .arr []
  ruleScope := "global"
  targetAgentId := none
  targetTeamId := none
  positiveCount := 0
  negativeCount := 0
  commitId := "c"
  createdAt
  updatedAt := createdAt

/-- The definition that the runtime has for a row of the store. -/
def mirroredRule (d : LiteRuleDefRow) : EmbeddedRuleDef where
  scope := d.scope
  ruleNodeId := d.ruleNodeId
  state := normalizeRuleState (some (.str d.state))
  ruleScope := normalizeRuleScope (some (.str d.ruleScope))
  targetAgentId := d.targetAgentId
  targetTeamId := d.targetTeamId
  ifJson := d.ifJson
  thenJson := d.thenJson
  exceptionsJson := d.exceptionsJson
  positiveCount := d.positiveCount
  negativeCount := d.negativeCount
  commitId := some d.commitId
  updatedAt := d.updatedAt

/-- Two rules, the second one made at the given time. -/
def twoRules (secondCreatedAt : String) : MirrorState where
  store := { LiteTables.empty with
    nodes := [toolRuleNode firstRuleId, toolRuleNode secondRuleId]
    ruleDefs := [toolRule firstRuleId "a" "2026-01-02T00:00:00.000Z",
      toolRule secondRuleId "b" secondCreatedAt]
    nodeIds := by unfold Table.Unique; decide }
  runtime := {
    ruleDefs := OrderedMap.ofValues EmbeddedRuleDef.key
      ([toolRule firstRuleId "a" "2026-01-02T00:00:00.000Z",
        toolRule secondRuleId "b" secondCreatedAt].map mirroredRule) }

theorem twoRules_same (secondCreatedAt : String) :
    SameRules (twoRules secondCreatedAt) ∧ SameCounts (twoRules secondCreatedAt) := by
  have hkeys : ((twoRules secondCreatedAt).store.ruleDefs.map LiteRuleDefRow.key).Nodup := by
    show [nodeKey "default" firstRuleId, nodeKey "default" secondRuleId].Nodup
    decide +kernel
  have hmirrored : (((twoRules secondCreatedAt).store.ruleDefs.map mirroredRule).map
      EmbeddedRuleDef.key).Nodup := by
    rw [List.map_map]
    exact hkeys
  refine ⟨⟨hkeys, ?_, fun k => ?_⟩, fun k e hget => ?_⟩
  · have huuids : isUuid firstRuleId = true ∧ isUuid secondRuleId = true := by decide +kernel
    show ∀ d ∈ [toolRule firstRuleId "a" _, toolRule secondRuleId "b" _], _
    rw [List.forall_mem_cons, List.forall_mem_singleton]
    exact huuids
  · rw [Option.isSome_iff_exists]
    constructor
    · rintro ⟨e, he⟩
      obtain ⟨hmem, hkey⟩ := (OrderedMap.get_ofValues hmirrored).1 he
      obtain ⟨d, hd, rfl⟩ := List.mem_map.1 hmem
      exact ⟨d, hd, hkey⟩
    · rintro ⟨d, hd, rfl⟩
      exact ⟨mirroredRule d, (OrderedMap.get_ofValues hmirrored).2
        ⟨List.mem_map_of_mem hd, rfl⟩⟩
  · obtain ⟨hmem, hkey⟩ := (OrderedMap.get_ofValues hmirrored).1 hget
    obtain ⟨d, hd, rfl⟩ := List.mem_map.1 hmem
    exact ⟨d, hd, hkey, rfl, rfl⟩

/-- Positive feedback for the first task. -/
def taskFeedback : ToolsFeedbackCall where
  scope := "default"
  scopeGiven := by decide
  outcome := .positive
  context := some (.obj [("task", .str "a")])
  storeNow := "2026-01-04T00:00:00.000Z"
  runtimeNow := "2026-01-04T00:00:00.000Z"

/-- The rule of the task is the newest one. -/
theorem feedback_exact_iff_newest :
    attributedRules sampleRuleHost (twoRules "2026-01-01T00:00:00.000Z").store taskFeedback =
        [firstRuleId] ∧
      Along (feedbackStep sampleHost sampleRuleHost) (fun s call =>
          SameCounts (toolSelectionFeedback sampleHost sampleRuleHost s call) ∧
            ReturnsUpdated sampleRuleHost s call)
        (twoRules "2026-01-01T00:00:00.000Z") [taskFeedback, taskFeedback] :=
  ⟨by decide +kernel, (feedback_exact_iff (twoRules_same _).1 (twoRules_same _).2 _).2
    (by decide +kernel)⟩

/-- The other rule is newer: the counter of the first one goes up in the store only. -/
theorem counter_lost :
    SameRules (twoRules "2026-01-03T00:00:00.000Z") ∧
      SameCounts (twoRules "2026-01-03T00:00:00.000Z") ∧
      attributedRules sampleRuleHost (twoRules "2026-01-03T00:00:00.000Z").store taskFeedback =
        [firstRuleId] ∧
      (feedbackRows sampleRuleHost (twoRules "2026-01-03T00:00:00.000Z") taskFeedback).1.length =
        0 ∧
      ¬ SameCounts (toolSelectionFeedback sampleHost sampleRuleHost
        (twoRules "2026-01-03T00:00:00.000Z") taskFeedback) := by
  have hcounts : ((toolSelectionFeedback sampleHost sampleRuleHost
      (twoRules "2026-01-03T00:00:00.000Z") taskFeedback).runtime.ruleDefs.get
        (nodeKey "default" firstRuleId)).any (fun e =>
          (toolSelectionFeedback sampleHost sampleRuleHost (twoRules "2026-01-03T00:00:00.000Z")
            taskFeedback).store.ruleDefs.all fun d =>
              d.key ≠ nodeKey "default" firstRuleId ∨
                e.positiveCount ≠ (d.positiveCount : ℚ)) = true := by
    decide +kernel
  refine ⟨(twoRules_same _).1, (twoRules_same _).2, by decide +kernel, by decide +kernel,
    fun h => ?_⟩
  obtain ⟨e, hget, hall⟩ := (Option.any_eq_true _ _).1 hcounts
  obtain ⟨d, hd, hkey, hpositive, -⟩ := h _ e hget
  rcases of_decide_eq_true (List.all_eq_true.1 hall d hd) with hne | hne
  · exact hne hkey
  · exact hne hpositive

end AionisCore.Memory
