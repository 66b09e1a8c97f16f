import AionisCore.Lib.Run
import AionisCore.Store.EmbeddedReads
import AionisCore.Store.EmbeddedSound
import Mathlib.Data.String.Basic

/-!
# The embedded runtime after a restart

A snapshot is saved and loaded into a fresh runtime. What comes back differs from what was
saved only in rule definitions: exceptions that are no array come back empty, since a write
takes them from the slots of a node as they are, and a missing commit is filled in.
-/

namespace AionisCore.Store

open Lib Lib.JsString Lib.StableSort Memory

variable {host : EmbeddedHost}

/-! ## Loading what was saved -/

structure Snapshot.Sound (host : EmbeddedHost) (s : Snapshot) : Prop where
  rules : ∀ d ∈ s.ruleDefs, d.Sound host
  decisions : ∀ d ∈ s.executionDecisions, d.Sound host
  distinct : (s.executionDecisions.map (·.key)).Nodup
  decisionCount : s.executionDecisions.length ≤ 10000
  feedback : ∀ f ∈ s.ruleFeedback, f.Sound host
  feedbackCount : s.ruleFeedback.length ≤ 20000

variable {now : String}

theorem foldl_loadRuleDef {nodes : OrderedMap String EmbeddedNode} {defs : List EmbeddedRuleDef}
    (h : ∀ d ∈ defs, d.Sound host) :
    (defs.map (·.json)).foldl (loadRuleDef host now nodes) .empty =
      .ofValues EmbeddedRuleDef.key (defs.map fun d => restoredRuleDef (nodes.get d.key) d) := by
  unfold OrderedMap.ofValues
  generalize OrderedMap.empty = acc
  induction defs generalizing acc with
  | nil => rfl
  | cons d defs ih =>
    have hstep : loadRuleDef host now nodes acc d.json =
        acc.set d.key (restoredRuleDef (nodes.get d.key) d) :=
      congrArg (acc.set d.key) (loadedRuleDef_json (h d List.mem_cons_self) now _)
    rw [List.map_cons, List.map_cons, List.foldl_cons, List.foldl_cons, hstep]
    exact ih (fun d hd => h d (List.mem_cons_of_mem _ hd)) _

theorem foldl_loadDecision {decisions : List EmbeddedDecision} (h : ∀ d ∈ decisions, d.Sound host) :
    (decisions.map (·.json)).foldl (loadDecision host now) .empty =
      .ofValues EmbeddedDecision.key decisions := by
  unfold OrderedMap.ofValues
  generalize OrderedMap.empty = acc
  induction decisions generalizing acc with
  | nil => rfl
  | cons d decisions ih =>
    have hd := h d List.mem_cons_self
    have hscope : given (stringField d.json "scope") = some d.scope := given_of_ne hd.scope
    have hid : given (stringField d.json "id") = some d.id := given_of_ne hd.id
    have hstep : loadDecision host now acc d.json = acc.set d.key d := by
      unfold loadDecision
      rw [hscope, hid]
      exact congrArg (acc.set d.key) (loadedDecision_json hd now)
    rw [List.map_cons, List.foldl_cons, List.foldl_cons, hstep]
    exact ih (fun d hd => h d (List.mem_cons_of_mem _ hd)) _

theorem filterMap_loadedFeedback {fs : List EmbeddedRuleFeedback} (h : ∀ f ∈ fs, f.Sound host) :
    (fs.map (·.json)).filterMap (loadedFeedback host now) = fs := by
  rw [List.filterMap_map]
  refine (List.filterMap_congr fun f hf => ?_).trans (List.filterMap_some)
  exact loadedFeedback_json (h f hf) now

variable {s : Snapshot}

theorem loadSnapshot_parsed (hs : s.Sound host) (now : String) :
    loadSnapshot host now s.parsed = {
      nodes := .ofValues EmbeddedNode.key s.nodes
      edgesByUnique := .ofValues EmbeddedEdge.key s.edges
      ruleDefs := .ofValues EmbeddedRuleDef.key (s.ruleDefs.map fun d =>
        restoredRuleDef ((OrderedMap.ofValues EmbeddedNode.key s.nodes).get d.key) d)
      audit := lastOf 5000 s.audit
      executionDecisionsById := .ofValues EmbeddedDecision.key s.executionDecisions
      ruleFeedback := s.ruleFeedback } := by
  have hlast : lastOf 20000 s.parsed.ruleFeedback = s.ruleFeedback.map (·.json) :=
    lastOf_of_length_le ((List.length_map _).trans_le hs.feedbackCount)
  unfold loadSnapshot
  rw [hlast, filterMap_loadedFeedback hs.feedback]
  unfold Snapshot.parsed
  dsimp only
  rw [foldl_loadRuleDef hs.rules, foldl_loadDecision hs.decisions]

theorem loadSnapshot_sound (hs : s.Sound host) (now : String) :
    (loadSnapshot host now s.parsed).Sound host := by
  rw [loadSnapshot_parsed hs]
  refine ⟨OrderedMap.keyed_ofValues _, OrderedMap.keyed_ofValues _,
    ⟨OrderedMap.keyed_ofValues _, fun k d hd => ?_⟩,
    ⟨OrderedMap.keyed_ofValues _, fun k d hd => hs.decisions d (OrderedMap.mem_of_get_ofValues hd)⟩,
    ?_, hs.feedback, hs.feedbackCount, ?_⟩
  · have hkey := OrderedMap.keyed_ofValues _ k d hd
    obtain ⟨e, he, rfl⟩ := List.mem_map.1 (OrderedMap.mem_of_get_ofValues hd)
    have hkey : e.key = k := hkey
    have hsound := hs.rules e he
    refine ⟨⟨hsound.updated, hsound.positive, hsound.negative, hsound.ifJson, hsound.thenJson⟩,
      fun c hc => ?_⟩
    rw [← hkey]
    rcases Option.or_eq_some_iff.1 hc with hc | ⟨-, hc⟩
    · exact .inl (of_decide_eq_true (Option.filter_eq_some_iff.1 hc).2)
    · exact .inr hc
  · dsimp only
    rw [OrderedMap.values_ofValues hs.distinct]
    exact hs.decisionCount
  · dsimp only
    exact length_lastOf_le _ _

/-! ## Compaction keeps a snapshot sound -/

theorem Snapshot.Sound.of_subset {s' : Snapshot} (hs : s.Sound host)
    (hrules : ∀ d ∈ s'.ruleDefs, d ∈ s.ruleDefs)
    (hdecisions : s'.executionDecisions = s.executionDecisions)
    (hfeedback : s'.ruleFeedback = s.ruleFeedback) : s'.Sound host := by
  obtain ⟨rules, decisions, distinct, decisionCount, feedback, feedbackCount⟩ := hs
  rw [← hdecisions] at decisions distinct decisionCount
  rw [← hfeedback] at feedback feedbackCount
  exact ⟨fun d hd => rules d (hrules d hd), decisions, distinct, decisionCount, feedback,
    feedbackCount⟩

variable {opts : SnapshotOptions}

theorem auditPass_sound {c : Compaction} (hc : c.snapshot.Sound host) :
    (auditPass opts c).snapshot.Sound host := by
  unfold auditPass
  split
  · exact hc.of_subset (fun _ h => h) rfl rfl
  · exact hc

theorem payloadPass_sound {c : Compaction} {tiers : List String} (hc : c.snapshot.Sound host) :
    (payloadPass opts c tiers).snapshot.Sound host := by
  unfold payloadPass
  split
  · exact hc
  · dsimp only
    split
    · exact hc.of_subset (fun _ h => h) rfl rfl
    · exact hc

theorem pruneLowestValueEdges_sound (hs : s.Sound host) :
    (pruneLowestValueEdges host s).1.Sound host := by
  unfold pruneLowestValueEdges
  split
  · exact hs
  · exact hs.of_subset (fun _ h => h) rfl rfl

theorem pruneLowestValueNodes_sound (hs : s.Sound host) :
    (pruneLowestValueNodes host s).1.Sound host := by
  unfold pruneLowestValueNodes
  split
  · exact hs
  · exact hs.of_subset (fun _ h => List.mem_of_mem_filter h) rfl rfl

theorem pruneRounds_sound (rounds : Nat) {c : Compaction} (hc : c.snapshot.Sound host) :
    (pruneRounds host opts rounds c).snapshot.Sound host := by
  induction rounds generalizing c with
  | zero => exact hc
  | succ rounds ih =>
    have hedges := pruneLowestValueEdges_sound hc
    have hnodes := pruneLowestValueNodes_sound hedges
    unfold pruneRounds
    dsimp only
    split
    · exact hc
    · split
      · exact hedges
      · split
        · exact hnodes
        · exact ih hnodes

theorem compactSnapshot_sound (hs : s.Sound host) :
    (compactSnapshot host opts s).snapshot.Sound host := by
  unfold compactSnapshot
  dsimp only
  split
  · exact hs
  · have haudit := @auditPass_sound host opts
      { snapshot := s, bytes := snapshotByteSize opts s, report := { applied := true } } hs
    split
    · exact haudit
    · have hcold := @payloadPass_sound host opts _ ["archive", "cold"] haudit
      have hwarm := @payloadPass_sound host opts _ ["warm"] hcold
      have hhot := @payloadPass_sound host opts _ ["hot"] hwarm
      split
      · exact hhot
      · exact pruneRounds_sound _ hhot

/-! ## Runs -/

inductive EmbeddedEvent (host : EmbeddedHost) where
  | applyWrite (autoEmbedEffective : Bool) (now : IsoTime host) (commitId : String)
    (nodes : List PreparedNode) (edges : List PreparedEdge)
  | syncExecutionDecisions (now : IsoTime host) (rows : List Json.Fields)
  | appendRuleFeedback (rows : List (Json.Fields × IsoTime host))
  | syncRuleDefs (touchRuleNodes : Bool) (now : IsoTime host) (rows : List Json.Fields)
  | insertRecallAudit (now : IsoTime host) (params : RecallAuditInsertParams)
  /-- The runtime is saved, and loaded into a fresh one. -/
  | restart (now : IsoTime host)

namespace EmbeddedRuntime

variable (host) in
/-- A fresh runtime that loads what is saved of this one. -/
def restarted (opts : SnapshotOptions) (now : IsoTime host) (r : EmbeddedRuntime) :
    Option EmbeddedRuntime :=
  (r.saved host opts).map fun s => loadSnapshot host now.text s.parsed

def step (opts : SnapshotOptions) (r : EmbeddedRuntime) :
    EmbeddedEvent host → Option EmbeddedRuntime
  | .applyWrite autoEmbedEffective now commitId nodes edges =>
    some (applyWrite autoEmbedEffective now.text commitId r nodes edges)
  | .syncExecutionDecisions now rows => some (syncExecutionDecisions host now.text r rows)
  | .appendRuleFeedback rows =>
    some (appendRuleFeedback host r (rows.map fun row => (row.1, row.2.text)))
  | .syncRuleDefs touchRuleNodes now rows =>
    some (syncRuleDefs host touchRuleNodes now.text r rows)
  | .insertRecallAudit now params => some (insertRecallAudit now.text r params)
  | .restart now => restarted host opts now r

variable {r : EmbeddedRuntime}

theorem Sound.buildSnapshot (hr : r.Sound host) : (r.buildSnapshot host).Sound host := by
  have hperm := List.mergeSort_perm r.executionDecisionsById.values (decisionsAsc host)
  have hlength := hperm.length_eq
  have hall : lastOf 10000 (r.executionDecisionsById.values.mergeSort (decisionsAsc host)) =
      r.executionDecisionsById.values.mergeSort (decisionsAsc host) :=
    lastOf_of_length_le (hlength.trans_le hr.decisionCount)
  have hfeedback : lastOf 20000 r.ruleFeedback = r.ruleFeedback :=
    lastOf_of_length_le hr.feedbackCount
  unfold EmbeddedRuntime.buildSnapshot
  rw [hall, hfeedback]
  refine ⟨fun d hd => ?_, fun d hd => ?_, ?_, hlength.trans_le hr.decisionCount, hr.feedback,
    hr.feedbackCount⟩
  · exact (hr.rules.2 _ d (hr.rules.1.mem_values.1 hd)).1
  · exact hr.decisions.2 _ d (hr.decisions.1.mem_values.1 (hperm.mem_iff.1 hd))
  · exact (hperm.map _).nodup_iff.2 hr.decisions.1.nodup

theorem Sound.step {r' : EmbeddedRuntime} (hr : r.Sound host) {event : EmbeddedEvent host}
    (h : r.step opts event = some r') : r'.Sound host := by
  cases event with
  | applyWrite autoEmbedEffective now commitId nodes edges =>
    exact Option.some.inj h ▸ hr.applyWrite now.iso nodes edges
  | syncExecutionDecisions now rows =>
    exact Option.some.inj h ▸ hr.syncExecutionDecisions now.iso rows
  | appendRuleFeedback rows =>
    obtain rfl := Option.some.inj h
    refine hr.appendRuleFeedback fun row hrow => ?_
    obtain ⟨row, -, rfl⟩ := List.mem_map.1 hrow
    exact row.2.iso
  | syncRuleDefs touchRuleNodes now rows => exact Option.some.inj h ▸ hr.syncRuleDefs now.iso rows
  | insertRecallAudit now params => exact Option.some.inj h ▸ hr.insertRecallAudit params
  | restart now =>
    obtain ⟨s, hs, rfl⟩ := Option.map_eq_some_iff.1 h
    refine loadSnapshot_sound ?_ _
    unfold EmbeddedRuntime.saved at hs
    dsimp only at hs
    split at hs
    · cases hs
    · exact Option.some.inj hs ▸ compactSnapshot_sound hr.buildSnapshot

theorem sound_of_run {events : List (EmbeddedEvent host)}
    (h : run (EmbeddedRuntime.step opts) {} events = some r) : r.Sound host :=
  run_invariant (fun _ _ _ hr h => hr.step h) sound_empty h

end EmbeddedRuntime

/-! ## The order of decisions -/

section Order

variable (host)

/-- The time that a text reads as. -/
def timeOf (time : String) : Int := (host.dateParse time).getD 0

def byTime (a b : EmbeddedDecision) : Bool := timeOf host a.createdAt ≤ timeOf host b.createdAt

def byText (a b : EmbeddedDecision) : Bool := host.localeCompare a.createdAt b.createdAt ≤ 0

def byId (a b : EmbeddedDecision) : Bool := host.localeCompare a.id b.id ≤ 0

theorem ranks_byTime : Ranks (byTime host) where
  trans a b c hab hbc := decide_eq_true (le_trans (of_decide_eq_true hab) (of_decide_eq_true hbc))
  total a b := by
    unfold byTime
    rw [Bool.or_eq_true, decide_eq_true_iff, decide_eq_true_iff]
    exact le_total _ _

theorem ranks_byText : Ranks (byText host) := host.collates.comap EmbeddedDecision.createdAt

theorem ranks_byId : Ranks (byId host) := host.collates.comap EmbeddedDecision.id

/-- Oldest first, and newest first: ids go up in both. -/
def rankedAsc : EmbeddedDecision → EmbeddedDecision → Bool :=
  lex (byTime host) (lex (byText host) (byId host))

def rankedDesc : EmbeddedDecision → EmbeddedDecision → Bool :=
  lex (fun a b => byTime host b a) (lex (fun a b => byText host b a) (byId host))

theorem ranks_asc : Ranks (rankedAsc host) :=
  (ranks_byTime host).lex ((ranks_byText host).lex (ranks_byId host))

theorem ranks_desc : Ranks (rankedDesc host) :=
  (ranks_byTime host).flip.lex ((ranks_byText host).flip.lex (ranks_byId host))

theorem tie_desc : tie (rankedDesc host) = tie (rankedAsc host) := by
  unfold rankedDesc rankedAsc
  rw [(ranks_byTime host).tie_lex, (ranks_byTime host).flip.tie_lex, (ranks_byText host).tie_lex,
    (ranks_byText host).flip.tie_lex, @tie_flip _ (byTime host), @tie_flip _ (byText host)]

end Order

theorem orCompare_le {a b : Int} : orCompare a b ≤ 0 ↔ a ≤ 0 ∧ (0 ≤ a → b ≤ 0) := by
  unfold orCompare
  split <;> omega

section Parsed

variable {a b : EmbeddedDecision}

theorem parsed_eq {time : String} (h : (host.dateParse time).isSome) :
    host.dateParse time = some (timeOf host time) := by
  unfold timeOf
  obtain ⟨t, ht⟩ := Option.isSome_iff_exists.1 h
  rw [ht, Option.getD_some]

section

variable (ha : (host.dateParse a.createdAt).isSome) (hb : (host.dateParse b.createdAt).isSome)

include ha hb

theorem decisionsAsc_eq : decisionsAsc host a b = rankedAsc host a b := by
  have hswap := host.collates_swap a.createdAt b.createdAt
  rw [Bool.eq_iff_iff]
  unfold decisionsAsc rankedAsc compareCreatedAtAsc
  rw [(ranks_byTime host).lex_iff, (ranks_byText host).lex_iff, parsed_eq ha, parsed_eq hb]
  unfold byTime byText byId
  simp only [decide_eq_true_iff, orCompare_le]
  split <;> omega

theorem decisionsDesc_eq : decisionsDesc host a b = rankedDesc host a b := by
  have hswap := host.collates_swap b.createdAt a.createdAt
  rw [Bool.eq_iff_iff]
  unfold decisionsDesc rankedDesc compareCreatedAtDesc
  rw [(ranks_byTime host).flip.lex_iff, (ranks_byText host).flip.lex_iff, parsed_eq ha,
    parsed_eq hb]
  unfold byTime byText byId
  simp only [decide_eq_true_iff, orCompare_le]
  split <;> omega

end

end Parsed

/-- Newest first, the decisions do not depend on having been sorted oldest first. -/
theorem mergeSort_decisionsDesc {ds : List EmbeddedDecision} (h : ∀ d ∈ ds, d.Sound host)
    {p : EmbeddedDecision → Bool} :
    ((ds.mergeSort (decisionsAsc host)).filter p).mergeSort (decisionsDesc host) =
      (ds.filter p).mergeSort (decisionsDesc host) := by
  have hparsed : ∀ d ∈ ds, (host.dateParse d.createdAt).isSome := fun d hd => (h d hd).created.2
  have hasc : ds.mergeSort (decisionsAsc host) = ds.mergeSort (rankedAsc host) :=
    mergeSort_congr_on fun a ha b hb => decisionsAsc_eq (hparsed a ha) (hparsed b hb)
  have hdesc : ∀ es : List EmbeddedDecision, (∀ e ∈ es, e ∈ ds) →
      es.mergeSort (decisionsDesc host) = es.mergeSort (rankedDesc host) := fun es hes =>
    mergeSort_congr_on fun a ha b hb =>
      decisionsDesc_eq (hparsed a (hes a ha)) (hparsed b (hes b hb))
  rw [hasc, hdesc _ fun e he => List.mem_mergeSort.1 (List.mem_of_mem_filter he),
    hdesc _ fun e he => List.mem_of_mem_filter he]
  refine (ranks_desc host).mergeSort_congr fun a => ?_
  have hfilter := (ranks_asc host).filter_mergeSort a ds
  rw [tie_desc, List.filter_comm, hfilter, List.filter_comm]

/-! ## What a restart leaves -/

/-- A rule definition without its commit. -/
def uncommitted (d : EmbeddedRuleDef) : EmbeddedRuleDef := { d with commitId := none }

/-- The same records; of a rule definition all but the commit. -/
structure SameRecords (r r' : EmbeddedRuntime) : Prop where
  nodes : r'.nodes = r.nodes
  edges : r'.edgesByUnique = r.edgesByUnique
  ruleDefs : ∀ k, (r'.ruleDefs.get k).map uncommitted = (r.ruleDefs.get k).map uncommitted
  decisions : ∀ k, r'.executionDecisionsById.get k = r.executionDecisionsById.get k
  ruleFeedback : r'.ruleFeedback = r.ruleFeedback
  audit : r'.audit = r.audit

open EmbeddedRuntime in
/-- Every query is answered alike. -/
structure AnswersAlike (host : EmbeddedHost) (r r' : EmbeddedRuntime) : Prop where
  stage1Candidates : ∀ params, stage1Candidates host r' params = stage1Candidates host r params
  stage2Edges : ∀ params, stage2Edges host r' params = stage2Edges host r params
  stage2Nodes : ∀ params, stage2Nodes host r' params = stage2Nodes host r params
  getRuleDefs : ∀ scope ruleIds, getRuleDefs r' scope ruleIds = getRuleDefs r scope ruleIds
  listRuleCandidates : ∀ scope limit states,
    listRuleCandidates host r' scope limit states = listRuleCandidates host r scope limit states
  getExecutionDecision : ∀ scope decisionId,
    getExecutionDecision r' scope decisionId = getExecutionDecision r scope decisionId
  inferExecutionDecision : ∀ now params,
    inferExecutionDecision host r' now params = inferExecutionDecision host r now params
  listRuleFeedback : ∀ scope limit,
    listRuleFeedback host r' scope limit = listRuleFeedback host r scope limit

section Restarted

variable {r : EmbeddedRuntime}

/-- A fresh runtime after the restart of a sound one. -/
def afterRestart (host : EmbeddedHost) (r : EmbeddedRuntime) : EmbeddedRuntime :=
  { r with
    ruleDefs := r.ruleDefs.mapValues fun k d => restoredRuleDef (r.nodes.get k) d
    executionDecisionsById := .ofValues EmbeddedDecision.key
      (r.executionDecisionsById.values.mergeSort (decisionsAsc host)) }

theorem restarted_eq (hr : r.Sound host)
    (hlimit : snapshotByteSize opts (r.buildSnapshot host) ≤ opts.snapshotMaxBytes)
    (now : IsoTime host) : r.restarted host opts now = some (afterRestart host r) := by
  have hsaved : r.saved host opts = some (r.buildSnapshot host) := by
    have hcompact : compactSnapshot host opts (r.buildSnapshot host) =
        { snapshot := r.buildSnapshot host
          bytes := snapshotByteSize opts (r.buildSnapshot host) } := if_pos hlimit
    unfold EmbeddedRuntime.saved
    rw [hcompact]
    exact if_neg fun h => absurd h.1 (Nat.not_lt.2 hlimit)
  have hperm := List.mergeSort_perm r.executionDecisionsById.values (decisionsAsc host)
  have hlength := hperm.length_eq
  have hall := lastOf_of_length_le (hlength.trans_le hr.decisionCount)
  have haudit : lastOf 5000 (lastOf 5000 r.audit) = r.audit := by
    rw [lastOf_of_length_le hr.auditCount, lastOf_of_length_le hr.auditCount]
  have hnodes : OrderedMap.ofValues EmbeddedNode.key r.nodes.values = r.nodes :=
    hr.nodes.ofValues_values
  unfold EmbeddedRuntime.restarted
  rw [hsaved, Option.map_some, loadSnapshot_parsed hr.buildSnapshot]
  unfold EmbeddedRuntime.buildSnapshot afterRestart
  dsimp only
  have hrules : OrderedMap.ofValues EmbeddedRuleDef.key (r.ruleDefs.values.map fun d =>
      restoredRuleDef (r.nodes.get d.key) d) =
        r.ruleDefs.mapValues fun k d => restoredRuleDef (r.nodes.get k) d :=
    hr.rules.1.ofValues_map (f := fun k d => restoredRuleDef (r.nodes.get k) d) fun _ _ => rfl
  rw [hall, haudit, lastOf_of_length_le hr.feedbackCount, hnodes, hr.edges.ofValues_values, hrules]

theorem get_afterRestart (hr : r.Sound host) (k : String) :
    (afterRestart host r).executionDecisionsById.get k = r.executionDecisionsById.get k := by
  have hperm := List.mergeSort_perm r.executionDecisionsById.values (decisionsAsc host)
  have hnodup := (hperm.map EmbeddedDecision.key).nodup_iff.2 hr.decisions.1.nodup
  refine Option.ext fun d => ?_
  unfold afterRestart
  dsimp only
  rw [OrderedMap.get_ofValues hnodup, hperm.mem_iff, hr.decisions.1.mem_values]
  constructor
  · rintro ⟨hd, rfl⟩
    exact hd
  · intro hd
    obtain rfl := hr.decisions.1 k d hd
    exact ⟨hd, rfl⟩

theorem restored_of_array {d : EmbeddedRuleDef} (linkedNode : Option EmbeddedNode)
    (h : (Json.asArray (some d.exceptionsJson)).isSome) :
    restoredRuleDef linkedNode d = { d with
      commitId := (d.commitId.filter (trim · ≠ "")).or (linkedNode.bind (·.commitId)) } := by
  have hexceptions : Json.arr ((Json.asArray (some d.exceptionsJson)).getD []) =
      d.exceptionsJson := by
    cases hj : d.exceptionsJson with
    | arr xs => rfl
    | null | bool | num | str | obj =>
      rw [hj] at h
      cases h
  unfold restoredRuleDef
  rw [hexceptions]

theorem sameRecords_afterRestart (hr : r.Sound host) :
    SameRecords r (afterRestart host r) ↔
      ∀ d ∈ r.ruleDefs.values, (Json.asArray (some d.exceptionsJson)).isSome := by
  constructor
  · intro h d hd
    have hget := hr.rules.1.mem_values.1 hd
    have hsame := h.ruleDefs d.key
    unfold afterRestart at hsame
    rw [OrderedMap.get_mapValues, hget] at hsame
    have hexceptions := congrArg EmbeddedRuleDef.exceptionsJson (Option.some.inj hsame)
    have hexceptions : Json.arr ((Json.asArray (some d.exceptionsJson)).getD []) =
      d.exceptionsJson := hexceptions
    rw [← hexceptions]
    rfl
  · refine fun h => ⟨rfl, rfl, fun k => ?_, get_afterRestart hr, rfl, rfl⟩
    unfold afterRestart
    dsimp only
    rw [OrderedMap.get_mapValues, Option.map_map]
    cases hget : r.ruleDefs.get k with
    | none => rfl
    | some d =>
      have hrestored := restored_of_array (r.nodes.get k) (h d (OrderedMap.mem_values.2 ⟨k, hget⟩))
      have huncommitted := congrArg uncommitted hrestored
      exact congrArg some huncommitted

end Restarted

/-! ## What is answered after a restart -/

section Answers

variable {r : EmbeddedRuntime}

open EmbeddedRuntime

theorem get_ruleDefs_afterRestart (k : String) : (afterRestart host r).ruleDefs.get k =
    (r.ruleDefs.get k).map (restoredRuleDef (r.nodes.get k)) := OrderedMap.get_mapValues

theorem values_ruleDefs_afterRestart (hr : r.Sound host) :
    (afterRestart host r).ruleDefs.values =
      r.ruleDefs.values.map fun d => restoredRuleDef (r.nodes.get d.key) d := by
  unfold afterRestart OrderedMap.values OrderedMap.mapValues
  dsimp only
  rw [List.map_map, List.map_map]
  refine List.map_congr_left fun e he => ?_
  have hkey := hr.rules.1 e.1 e.2 (OrderedMap.get_eq_some.2 he)
  show restoredRuleDef (r.nodes.get e.1) e.2 = restoredRuleDef (r.nodes.get e.2.key) e.2
  rw [hkey]

theorem values_decisions_afterRestart (hr : r.Sound host) :
    (afterRestart host r).executionDecisionsById.values =
      r.executionDecisionsById.values.mergeSort (decisionsAsc host) := by
  have hperm := List.mergeSort_perm r.executionDecisionsById.values (decisionsAsc host)
  exact OrderedMap.values_ofValues ((hperm.map _).nodup_iff.2 hr.decisions.1.nodup)

/-- The view of a rule candidate has the commit that a restart fills in. -/
theorem ruleCandidateView_restored (hr : r.Sound host) {d : EmbeddedRuleDef}
    (hd : d ∈ r.ruleDefs.values) (h : (Json.asArray (some d.exceptionsJson)).isSome)
    {node : EmbeddedNode} (hnode : r.nodes.get d.key = some node) :
    ruleCandidateView (restoredRuleDef (r.nodes.get d.key) d) node = ruleCandidateView d node := by
  have hcommits := (hr.rules.2 d.key d (hr.rules.1.mem_values.1 hd)).2
  rw [hnode] at hcommits ⊢
  have hcommit : ((d.commitId.filter (trim · ≠ "")).or node.commitId).or node.commitId =
      d.commitId.or node.commitId := by
    cases hc : d.commitId with
    | none =>
      show node.commitId.or node.commitId = node.commitId
      exact Option.or_self
    | some c =>
      rw [Option.filter_some]
      split
      · rfl
      · next hblank =>
        rcases hcommits c hc with hne | hlinked
        · exact absurd (decide_eq_true hne) hblank
        · have hlinked : node.commitId = some c := hlinked
          rw [hlinked]
          rfl
  rw [restored_of_array (some node) h]
  unfold ruleCandidateView
  dsimp only
  rw [Option.bind_some, hcommit]

theorem answersAlike_afterRestart (hr : r.Sound host)
    (h : ∀ d ∈ r.ruleDefs.values, (Json.asArray (some d.exceptionsJson)).isSome) :
    AnswersAlike host r (afterRestart host r) where
  stage1Candidates params := by
    have hcandidate : ∀ n, isCandidate (afterRestart host r) n = isCandidate r n := by
      intro n
      unfold isCandidate
      rw [get_ruleDefs_afterRestart, Option.any_map]
      rfl
    unfold stage1Candidates
    simp only [hcandidate]
    rfl
  stage2Edges params := rfl
  stage2Nodes params := rfl
  getRuleDefs scope ruleIds := by
    unfold getRuleDefs
    rw [values_ruleDefs_afterRestart hr, List.filter_map, List.map_map]
    refine List.map_congr_left fun d hd => ?_
    have hsame := restored_of_array (r.nodes.get d.key) (h d (List.mem_of_mem_filter hd))
    have hrow := congrArg EmbeddedRuleDef.recallRow hsame
    exact hrow
  listRuleCandidates scope limit states := by
    have hviews : ∀ allowed, (afterRestart host r).ruleDefs.values.filterMap
        (allowedCandidate (afterRestart host r) scope allowed) =
          r.ruleDefs.values.filterMap (allowedCandidate r scope allowed) := by
      intro allowed
      rw [values_ruleDefs_afterRestart hr, List.filterMap_map]
      refine List.filterMap_congr fun d hd => ?_
      show (if d.scope = scope ∧ d.state ∈ allowed ∧ (d.state = .shadow ∨ d.state = .active) then
        (r.nodes.get d.key).map (ruleCandidateView (restoredRuleDef (r.nodes.get d.key) d))
        else none) = allowedCandidate r scope allowed d
      unfold allowedCandidate
      split
      · cases hnode : r.nodes.get d.key with
        | none => rfl
        | some node =>
          have hview := ruleCandidateView_restored hr hd (h d hd) hnode
          rw [hnode] at hview
          exact congrArg some hview
      · rfl
    unfold listRuleCandidates
    dsimp only
    rw [hviews]
  getExecutionDecision scope decisionId := by
    unfold getExecutionDecision
    rw [get_afterRestart hr]
  inferExecutionDecision now params := by
    have hget : ∀ scope id, getExecutionDecision (afterRestart host r) scope id =
        getExecutionDecision r scope id := by
      intro scope id
      unfold getExecutionDecision
      rw [get_afterRestart hr]
    have hsound : ∀ d ∈ r.executionDecisionsById.values, d.Sound host := fun d hd =>
      hr.decisions.2 _ d (hr.decisions.1.mem_values.1 hd)
    unfold inferExecutionDecision
    rw [values_decisions_afterRestart hr, mergeSort_decisionsDesc hsound]
    simp only [hget]
  listRuleFeedback scope limit := rfl

/-- Every runtime that is reached and within the size limit comes back from a restart with its
records and its answers if and only if the exceptions of all its rules are arrays. -/
theorem restart_keeps_iff {events : List (EmbeddedEvent host)}
    (hrun : run (EmbeddedRuntime.step opts) {} events = some r)
    (hlimit : snapshotByteSize opts (r.buildSnapshot host) ≤ opts.snapshotMaxBytes)
    (now : IsoTime host) :
    (∃ r', r.restarted host opts now = some r' ∧ SameRecords r r' ∧ AnswersAlike host r r') ↔
      ∀ d ∈ r.ruleDefs.values, (Json.asArray (some d.exceptionsJson)).isSome := by
  have hr := sound_of_run hrun
  rw [← sameRecords_afterRestart hr]
  constructor
  · rintro ⟨r', hr', hrecords, -⟩
    rw [restarted_eq hr hlimit] at hr'
    exact Option.some.inj hr' ▸ hrecords
  · exact fun h => ⟨_, restarted_eq hr hlimit now, h,
      answersAlike_afterRestart hr ((sameRecords_afterRestart hr).1 h)⟩

end Answers

/-! ## A rule with exceptions that are no array -/

/-- Strings in the order of their characters, and one time. -/
def sampleHost : EmbeddedHost where
  dateParse s := if s = "2026-01-01T00:00:00.000Z" then some 1767225600000 else none
  toNumber _ := none
  sqrt q := q
  ceilFifth n := (n + 4) / 5
  ceilTenth n := (n + 9) / 10
  localeCompare a b := if a < b then -1 else if a = b then 0 else 1
  collates := by
    have hle : ∀ a b : String, (if a < b then (-1 : Int) else if a = b then 0 else 1) ≤ 0 ↔
        a ≤ b := by
      intro a b
      rw [show a ≤ b ↔ a < b ∨ a = b from le_iff_lt_or_eq]
      split
      · next h => exact iff_of_true (by omega) (.inl h)
      · next h =>
        split
        · next heq => exact iff_of_true (by omega) (.inr heq)
        · next hne => exact iff_of_false (by omega) (not_or.2 ⟨h, hne⟩)
    refine ⟨fun a b c hab hbc => ?_, fun a b => ?_⟩
    · rw [decide_eq_true_iff, hle] at hab hbc ⊢
      exact le_trans hab hbc
    · rw [Bool.or_eq_true, decide_eq_true_iff, decide_eq_true_iff, hle, hle]
      exact le_total a b
  collates_swap a b := by
    rcases lt_trichotomy a b with h | rfl | h
    · rw [if_pos h, if_neg (lt_asymm h), if_neg (ne_of_gt h)]
      omega
    · rw [if_neg (lt_irrefl a), if_pos rfl]
    · rw [if_pos h, if_neg (lt_asymm h), if_neg (ne_of_gt h)]
      omega

def sampleTime : IsoTime sampleHost :=
  ⟨"2026-01-01T00:00:00.000Z", by decide +kernel, by decide +kernel⟩

/-- The default options, over a snapshot of the given text. -/
def optionsFor (text : String) : SnapshotOptions where
  snapshotMaxBytes := 50 * 1024 * 1024
  snapshotStrictMaxBytes := false
  snapshotCompactionEnabled := true
  snapshotCompactionMaxRounds := 8
  stringify _ := text

/-- A rule row of the store. -/
def syncedRule : EmbeddedEvent sampleHost :=
  .syncRuleDefs false sampleTime [[("scope", .str "s"), ("rule_node_id", .str "r"),
    ("state", .str "active"), ("rule_scope", .str "global"), ("target_agent_id", .null),
    ("target_team_id", .null), ("if_json", .obj []), ("then_json", .obj []),
    ("exceptions_json", .arr []), ("positive_count", .num 1), ("negative_count", .num 0),
    ("commit_id", .str "c"), ("updated_at", .str "2026-01-01T00:00:00.000Z")]]

def syncedText : String :=
  "\x7b\"version\":1,\"nodes\":[],\"edges\":[],\"rule_defs\":[\x7b\"scope\":\"s\"," ++
    "\"rule_node_id\":\"r\",\"state\":\"active\",\"rule_scope\":\"global\"," ++
    "\"target_agent_id\":null,\"target_team_id\":null,\"if_json\":\x7b\x7d," ++
    "\"then_json\":\x7b\x7d,\"exceptions_json\":[],\"positive_count\":1,\"negative_count\":0," ++
    "\"commit_id\":\"c\",\"updated_at\":\"2026-01-01T00:00:00.000Z\"\x7d],\"audit\":[]," ++
    "\"execution_decisions\":[],\"rule_feedback\":[]\x7d"

def syncedRuntime : EmbeddedRuntime :=
  (run (EmbeddedRuntime.step (optionsFor syncedText)) {} [syncedRule]).getD {}

theorem restart_keeps_iff_synced :
    syncedRuntime.ruleDefs.values.length = 1 ∧
      ((∃ r', syncedRuntime.restarted sampleHost (optionsFor syncedText) sampleTime = some r' ∧
          SameRecords syncedRuntime r' ∧ AnswersAlike sampleHost syncedRuntime r') ↔
        ∀ d ∈ syncedRuntime.ruleDefs.values, (Json.asArray (some d.exceptionsJson)).isSome) :=
  ⟨by decide +kernel, @restart_keeps_iff _ _ _ [syncedRule] rfl (by decide +kernel) sampleTime⟩

/-- A rule node whose exceptions are a text. -/
def writtenRule : EmbeddedEvent sampleHost :=
  .applyWrite false sampleTime "c" [{
    id := "r"
    scope := "s"
    type := "rule"
    memoryLane := .sharedLane
    slots := [("if", .obj []), ("then", .obj []), ("exceptions", .str "none")] }] []

def writtenText : String :=
  "\x7b\"version\":1,\"nodes\":[\x7b\"id\":\"r\",\"scope\":\"s\",\"client_id\":null," ++
    "\"type\":\"rule\",\"tier\":\"hot\",\"memory_lane\":\"shared\"," ++
    "\"producer_agent_id\":null,\"owner_agent_id\":null,\"owner_team_id\":null," ++
    "\"title\":null,\"text_summary\":null," ++
    "\"slots\":\x7b\"if\":\x7b\x7d,\"then\":\x7b\x7d,\"exceptions\":\"none\"\x7d," ++
    "\"raw_ref\":null,\"evidence_ref\":null,\"embedding\":null,\"embedding_model\":null," ++
    "\"embedding_status\":\"failed\",\"salience\":0.5,\"importance\":0.5," ++
    "\"confidence\":0.5,\"created_at\":\"2026-01-01T00:00:00.000Z\"," ++
    "\"updated_at\":\"2026-01-01T00:00:00.000Z\",\"commit_id\":\"c\"\x7d],\"edges\":[]," ++
    "\"rule_defs\":[\x7b\"scope\":\"s\",\"rule_node_id\":\"r\",\"state\":\"draft\"," ++
    "\"rule_scope\":\"global\",\"target_agent_id\":null,\"target_team_id\":null," ++
    "\"if_json\":\x7b\x7d,\"then_json\":\x7b\x7d,\"exceptions_json\":\"none\"," ++
    "\"positive_count\":0,\"negative_count\":0,\"commit_id\":\"c\"," ++
    "\"updated_at\":\"2026-01-01T00:00:00.000Z\"\x7d],\"audit\":[]," ++
    "\"execution_decisions\":[],\"rule_feedback\":[]\x7d"

def writtenRuntime : EmbeddedRuntime :=
  (run (EmbeddedRuntime.step (optionsFor writtenText)) {} [writtenRule]).getD {}

/-- The exceptions of a written rule are lost in a restart. -/
theorem text_exceptions_lost :
    run (EmbeddedRuntime.step (optionsFor writtenText)) {} [writtenRule] = some writtenRuntime ∧
      snapshotByteSize (optionsFor writtenText) (writtenRuntime.buildSnapshot sampleHost) ≤
        50 * 1024 * 1024 ∧
      writtenRuntime.ruleDefs.values.map (·.exceptionsJson) = [.str "none"] ∧
      ¬ ∃ r', writtenRuntime.restarted sampleHost (optionsFor writtenText) sampleTime = some r' ∧
        SameRecords writtenRuntime r' ∧ AnswersAlike sampleHost writtenRuntime r' := by
  have hrun : run (EmbeddedRuntime.step (optionsFor writtenText)) {} [writtenRule] =
    some writtenRuntime := rfl
  have hlimit : snapshotByteSize (optionsFor writtenText)
      (writtenRuntime.buildSnapshot sampleHost) ≤ 50 * 1024 * 1024 := by decide +kernel
  refine ⟨hrun, hlimit, rfl, ?_⟩
  rintro ⟨r', hr', hrecords, -⟩
  have hsound := EmbeddedRuntime.sound_of_run hrun
  obtain rfl := Option.some.inj ((restarted_eq hsound hlimit sampleTime).symm.trans hr')
  have harrays := (sameRecords_afterRestart hsound).1 hrecords
  exact absurd harrays (by decide +kernel)

end AionisCore.Store
