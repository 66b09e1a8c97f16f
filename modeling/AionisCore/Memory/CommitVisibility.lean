import AionisCore.Memory.ActivateRun
import AionisCore.Memory.CommitJobs
import AionisCore.Memory.WriteResolution

/-!
# Who sees a commit

`resolveCommit` shows a commit, with its diff, to a consumer from whom no node that
carries the commit at the time is hidden. The diff lists nodes that carry another commit
by then, or always did: they may be hidden all the same.
-/

namespace AionisCore.Memory

open Lib Lib.Table Util Store

/-! ## Resolution of a commit -/

/-- The columns of a commit and what is counted of it. -/
structure LiteResolveCommitRow extends LiteCommitRow where
  nodeCount : Nat
  edgeCount : Nat

/-- The clause of `commitVisible`: a consumer that is given may be empty. -/
def hiddenInSql (agent team : Option String) (n : LiteNodeRow) : Bool :=
  !(n.memoryLane == .sharedLane ||
    agent.any (fun a => n.memoryLane == .privateLane && n.ownerAgentId == some a) ||
    team.any (fun o => n.memoryLane == .privateLane && n.ownerTeamId == some o))

def commitVisible (t : LiteTables) (scope commitId : String) (agent team : Option String) : Bool :=
  !t.nodes.any fun n => n.scope == scope && n.commitId == commitId && hiddenInSql agent team n

def resolveCommit (t : LiteTables) (scope id : String) (agent team : Option String) :
    Option LiteResolveCommitRow := do
  let c ← t.commits.find? fun c => c.scope == scope && c.id == id
  if commitVisible t scope c.id agent team then
    some { c with
      nodeCount := (t.nodes.filter fun n => n.scope == c.scope && n.commitId == c.id).length
      edgeCount := (t.edges.filter fun e => e.scope == c.scope && e.commitId == c.id).length }
  else none

/-! ## What a diff lists -/

/-- The strings of an array. -/
def stringsOf (v : Option Json) : List String :=
  ((Json.asArray v).getD []).filterMap fun x =>
    match x with
    | .str s => some s
    | _ => none

/-- The strings under `k` of the records of an array. -/
def fieldsOf (v : Option Json) (k : String) : List Json :=
  ((Json.asArray v).getD []).filterMap fun x => (Json.asRecord (some x)).bind (Json.get · k)

/-- The ids of the nodes a diff lists, whichever operation committed it. -/
def listedNodeIds (diff : Json) : List String :=
  match diff with
  | .obj d =>
    stringsOf (some (.arr (fieldsOf (Json.get d "nodes") "id"))) ++
      stringsOf (Json.get d "found_node_ids") ++ stringsOf (Json.get d "moved_ids") ++
      stringsOf (Json.get d "noop_ids") ++
      stringsOf (some (.arr (fieldsOf (Json.get d "rule_state_change") "rule_node_id"))) ++
      stringsOf (some (.arr (fieldsOf (Json.get d "feedback") "rule_node_id"))) ++
      (fieldsOf (Json.get d "tool_feedback") "rule_node_ids").flatMap fun v => stringsOf (some v)
  | _ => []

/-- Who resolves a commit sees every node its diff lists. -/
def ListedVisible (t : LiteTables) : Prop :=
  ∀ scope id agent team c, resolveCommit t scope id agent team = some c →
    ∀ nodeId ∈ listedNodeIds c.diff, ∀ n ∈ t.nodes, n.scope = scope → n.id = nodeId →
      n.visibleTo agent team = true

@[simp] theorem stringsOf_none : stringsOf none = [] := rfl

@[simp] theorem fieldsOf_none (k : String) : fieldsOf none k = [] := rfl

@[simp] theorem stringsOf_nil : stringsOf (some (.arr [])) = [] := rfl

@[simp] theorem stringsOf_strs (xs : List String) :
    stringsOf (some (.arr (xs.map .str))) = xs := by
  unfold stringsOf
  rw [Json.asArray, Option.getD_some, List.filterMap_map]
  exact List.filterMap_some

@[simp] theorem stringsOf_str (s : String) : stringsOf (some (.arr [.str s])) = [s] := rfl

theorem fieldsOf_map {α : Type} (xs : List α) {record : α → Json.Fields} {k : String} {v : α → Json}
    (h : ∀ x, Json.get (record x) k = some (v x)) :
    fieldsOf (some (.arr (xs.map fun x => .obj (record x)))) k = xs.map v := by
  unfold fieldsOf
  rw [Json.asArray, Option.getD_some, List.filterMap_map]
  induction xs with
  | nil => rfl
  | cons x xs ih =>
    rw [List.filterMap_cons, List.map_cons, ih]
    simp only [Function.comp, Json.asRecord, Option.bind_some, h]

theorem fieldsOf_single {record : Json.Fields} {k : String} {v : Json}
    (h : Json.get record k = some v) : fieldsOf (some (.arr [.obj record])) k = [v] :=
  fieldsOf_map [()] fun _ => h

theorem listedNodeIds_buildWriteDiff (prepared : PreparedWrite) (piiRedaction : Bool) :
    listedNodeIds (buildWriteDiff prepared piiRedaction) = prepared.nodes.map (·.id) := by
  have hids : fieldsOf (some (.arr (prepared.nodes.map diffNode))) "id" =
      (prepared.nodes.map (·.id)).map .str := by
    rw [List.map_map]
    exact fieldsOf_map _ fun node => by simp
  simp [buildWriteDiff, listedNodeIds, hids, -List.map_map]

theorem listedNodeIds_activateDiff (env : LifecycleEnv) (c : ActivateCall) (scope actor : String)
    (nodeIds clientIds : List String) (r : ResolvedNodes) :
    listedNodeIds (activateDiff env c scope actor nodeIds clientIds r) =
      r.foundRows.map (·.id) := by
  simp [activateDiff, listedNodeIds, jsonStrings, -List.map_map]

theorem listedNodeIds_rehydrateDiff (env : LifecycleEnv) (c : RehydrateCall) (t : ActivateTarget) :
    listedNodeIds (rehydrateDiff env c t) =
      (movableRows c.body t).map (·.id) ++ noopIds c.body t := by
  simp [rehydrateDiff, listedNodeIds, jsonStrings, -List.map_map]

/-- The rules a commit is about. -/
def RuleJob.ruleNodeIds : RuleJob → List String
  | .stateChange ruleNodeId _ => [ruleNodeId]
  | .feedback _ ruleNodeId _ _ => [ruleNodeId]
  | .toolFeedback _ _ _ _ _ _ _ ruleNodeIds => ruleNodeIds

theorem listedNodeIds_ruleDiff (job : RuleJob) : listedNodeIds job.diff = job.ruleNodeIds := by
  cases job with
  | stateChange ruleNodeId state =>
    have hid := fieldsOf_single (show Json.get [("rule_node_id", .str ruleNodeId),
      ("state", .str state)] "rule_node_id" = some (.str ruleNodeId) from rfl)
    simp [RuleJob.diff, RuleJob.ruleNodeIds, listedNodeIds, hid]
  | feedback id ruleNodeId outcome runId =>
    have hid := fieldsOf_single (show Json.get [("id", .str id), ("rule_node_id", .str ruleNodeId),
      ("outcome", .str outcome), ("run_id", textOrNull runId)] "rule_node_id" =
        some (.str ruleNodeId) from rfl)
    simp [RuleJob.diff, RuleJob.ruleNodeIds, listedNodeIds, hid]
  | toolFeedback decisionId decisionLinkMode outcome selectedTool target runId candidates
      ruleNodeIds =>
    have hids := fieldsOf_single (show Json.get [("decision_id", .str decisionId),
      ("decision_link_mode", .str decisionLinkMode), ("run_id", textOrNull runId),
      ("outcome", .str outcome), ("selected_tool", .str selectedTool),
      ("candidates", jsonStrings candidates), ("rule_node_ids", jsonStrings ruleNodeIds),
      ("target", .str target)] "rule_node_ids" = some (jsonStrings ruleNodeIds) from rfl)
    simp [RuleJob.diff, RuleJob.ruleNodeIds, listedNodeIds, hids]
    exact stringsOf_strs ruleNodeIds

/-! ## What keeps commits and nodes together -/

/-- The node is shared or carries the commit. -/
def OnCommit (commitId : String) (n : LiteNode) : Prop :=
  n.memoryLane = .sharedLane ∨ n.commitId = commitId

/-- A row that keeps its key, and its commit if it is private, stays where it was. -/
theorem OnCommit.trans {commitId : String} {n n' : LiteNode} (h : OnCommit commitId n)
    (hkey : n'.toNodeKey = n.toNodeKey) (h' : OnCommit n.commitId n') : OnCommit commitId n' := by
  rcases h with hshared | hcarries
  · exact .inl (hkey ▸ hshared)
  · exact hcarries ▸ h'

def HasOwnerNames (agent team : Option String) : Prop := agent ≠ some "" ∧ team ≠ some ""

/-- The nodes a commit lists are stored in its scope, and shared or carrying it. -/
def ListsOwn (t : LiteTables) (c : LiteCommitRow) : Prop :=
  ∀ id ∈ listedNodeIds c.diff, ∃ n ∈ t.nodes, n.id = id ∧ n.scope = c.scope ∧
    OnCommit c.id n.toLiteNode

structure Together (t : LiteTables) : Prop where
  commits : ∀ c ∈ t.commits, ListsOwn t c
  owners : ∀ n ∈ t.nodes, HasOwnerNames n.ownerAgentId n.ownerTeamId

theorem Together.empty : Together .empty where
  commits := fun _ hc => nomatch hc
  owners := fun _ hn => nomatch hn

theorem given_any {consumer owner : Option String} (ho : owner ≠ some "") {lane : Bool}
    (h : (consumer.any fun a => lane && owner == some a) = true) :
    ((given consumer).any fun a => lane && owner == some a) = true := by
  cases consumer with
  | none => exact h
  | some a =>
    rw [Option.any_some, Bool.and_eq_true, beq_iff_eq] at h
    obtain ⟨hlane, rfl⟩ := h
    have ha : a ≠ "" := fun he => ho (congrArg some he)
    simp [given, ha, hlane]

variable {n : LiteNodeRow} {agent team : Option String}

/-- Unless an owner is an empty text, what the clause of a commit shows a search shows. -/
theorem visibleTo_of_not_hiddenInSql (ho : HasOwnerNames n.ownerAgentId n.ownerTeamId)
    (h : hiddenInSql agent team n = false) : n.visibleTo agent team = true := by
  unfold hiddenInSql at h
  rw [Bool.not_eq_false', Bool.or_eq_true, Bool.or_eq_true] at h
  unfold NodeKey.visibleTo
  rw [Bool.or_eq_true, Bool.or_eq_true]
  rcases h with (h | h) | h
  · exact .inl (.inl h)
  · exact .inl (.inr (given_any ho.1 h))
  · exact .inr (given_any ho.2 h)

variable {t t' : LiteTables}

theorem resolveCommit_eq_some {scope id : String} {c : LiteResolveCommitRow}
    (h : resolveCommit t scope id agent team = some c) :
    c.toLiteCommitRow ∈ t.commits ∧ c.scope = scope ∧
      commitVisible t scope c.id agent team = true := by
  obtain ⟨row, hrow, h⟩ := Option.bind_eq_some_iff.1 h
  have hp := List.find?_some hrow
  rw [Bool.and_eq_true, beq_iff_eq] at hp
  split at h
  · next hvisible =>
    obtain rfl := Option.some.inj h
    exact ⟨List.mem_of_find?_eq_some hrow, hp.1, hvisible⟩
  · cases h

theorem Together.listedVisible (h : Together t) : ListedVisible t := by
  intro scope id agent team c hc nodeId hlisted n hn hscope hid
  obtain ⟨hmem, hcscope, hvisible⟩ := resolveCommit_eq_some hc
  obtain ⟨m, hm, hmid, -, hon⟩ := h.commits _ hmem nodeId hlisted
  obtain rfl := t.nodeIds.eq hm hn (hmid.trans hid.symm)
  rcases hon with hshared | hcarries
  · simp [NodeKey.visibleTo, hshared]
  · refine visibleTo_of_not_hiddenInSql (h.owners m hm) ?_
    unfold commitVisible at hvisible
    rw [Bool.not_eq_true', List.any_eq_false] at hvisible
    have hm := hvisible m hm
    rw [hscope, hcarries] at hm
    simpa using hm

/-! ## One operation -/

/-- What an operation may do to the tables: nodes keep their keys and private ones their
commits, a new node has owner names, and a new commit lists nodes of its own. -/
structure Keeping (t t' : LiteTables) : Prop where
  rows : ∀ n ∈ t.nodes, ∃ n' ∈ t'.nodes, n'.toNodeKey = n.toNodeKey ∧
    OnCommit n.commitId n'.toLiteNode
  nodes : ∀ n' ∈ t'.nodes, (∃ n ∈ t.nodes, n'.toNodeKey = n.toNodeKey) ∨
    HasOwnerNames n'.ownerAgentId n'.ownerTeamId
  commits : ∀ c ∈ t'.commits, c ∈ t.commits ∨ ListsOwn t' c

theorem Keeping.refl (t : LiteTables) : Keeping t t where
  rows := fun n hn => ⟨n, hn, rfl, .inr rfl⟩
  nodes := fun n hn => .inl ⟨n, hn, rfl⟩
  commits := fun _ hc => .inl hc

theorem Together.keeping (h : Together t) (hk : Keeping t t') :
    Together t' where
  commits := by
    intro c hc id hlisted
    rcases hk.commits c hc with hold | hnew
    · obtain ⟨n, hn, hid, hscope, hon⟩ := h.commits c hold id hlisted
      obtain ⟨n', hn', hkey, hon'⟩ := hk.rows n hn
      refine ⟨n', hn', ?_, ?_, hon.trans hkey hon'⟩
      · rw [hkey, hid]
      · rw [hkey, hscope]
    · exact hnew id hlisted
  owners := by
    intro n' hn'
    rcases hk.nodes n' hn' with ⟨n, hn, hkey⟩ | hnames
    · rw [hkey]
      exact h.owners n hn
    · exact hnames

/-! ## Updates of nodes -/

/-- The update gives no private node another commit. -/
def UpdateKeeps (t : LiteTables) (u : NodeAnchorUpdate) : Prop :=
  ∀ n ∈ t.nodes, n.scope = u.scope → n.id = u.id → n.memoryLane = .privateLane →
    ∀ c ∈ u.commitId, c = n.commitId

theorem updatedRow_key (updates : List NodeAnchorUpdate) (n : LiteNodeRow) :
    (updatedRow updates n).toNodeKey = n.toNodeKey := by
  induction updates generalizing n with
  | nil => rfl
  | cons u updates ih => exact (ih _).trans (LiteTables.anchorUpdate_key u n)

/-- A row whose commit every update that hits it repeats keeps its commit. -/
theorem updatedRow_commitId {updates : List NodeAnchorUpdate}
    (h : ∀ u ∈ updates, n.scope = u.scope → n.id = u.id → ∀ c ∈ u.commitId, c = n.commitId) :
    (updatedRow updates n).commitId = n.commitId := by
  induction updates generalizing n with
  | nil => rfl
  | cons u updates ih =>
    have hkey := LiteTables.anchorUpdate_key u n
    have hu : (LiteTables.anchorUpdate u n).commitId = n.commitId := by
      by_cases hit : n.scope = u.scope ∧ n.id = u.id
      · rw [LiteTables.anchorUpdate, NodeAnchorUpdate.on_of_hit hit]
        have hc := h u List.mem_cons_self hit.1 hit.2
        unfold NodeAnchorUpdate.apply
        cases hid : u.commitId with
        | none => rfl
        | some c => exact hc c hid
      · rw [LiteTables.anchorUpdate, NodeAnchorUpdate.on_of_miss hit]
    refine (ih fun v hv hscope hid c hc => ?_).trans hu
    rw [hkey] at hscope hid
    rw [hu]
    exact h v (List.mem_cons_of_mem _ hv) hscope hid c hc

theorem onCommit_updatedRow {updates : List NodeAnchorUpdate} (hn : n ∈ t.nodes)
    (h : ∀ u ∈ updates, UpdateKeeps t u) :
    OnCommit n.commitId (updatedRow updates n).toLiteNode := by
  cases hlane : n.memoryLane with
  | sharedLane => exact .inl (by rw [updatedRow_key, hlane])
  | privateLane =>
    exact .inr (updatedRow_commitId fun u hu hscope hid => h u hu n hn hscope hid hlane)

theorem keeping_updateNodeAnchorState {u : NodeAnchorUpdate} (h : UpdateKeeps t u) :
    Keeping t (t.updateNodeAnchorState u) where
  rows := fun n hn => ⟨updatedRow [u] n, List.mem_map_of_mem hn, updatedRow_key [u] n,
    onCommit_updatedRow hn (List.forall_mem_singleton.2 h)⟩
  nodes := by
    intro n' hn'
    obtain ⟨n, hn, rfl⟩ := List.mem_map.1 hn'
    exact .inl ⟨n, hn, LiteTables.anchorUpdate_key u n⟩
  commits := fun _ hc => .inl hc

/-! ## Commits of jobs -/

variable {env : LifecycleEnv} {target : ActivateTarget}

theorem keeping_record {crypto : Crypto} {now : String} {j : JobCommit}
    {updates : String → List NodeAnchorUpdate}
    (hupdates : ∀ u ∈ updates (j.insert crypto now t).1, UpdateKeeps t u)
    (hlisted : ∀ id ∈ listedNodeIds j.diff, ∃ n ∈ t.nodes, n.id = id ∧ n.scope = j.scope ∧
      OnCommit (j.insert crypto now t).1 n.toLiteNode) :
    Keeping t (j.record crypto now updates t) := by
  obtain ⟨hnodes, hcommits⟩ := foldl_updateNodeAnchorState (updates (j.insert crypto now t).1)
    (j.insert crypto now t).2
  have hframe : (j.insert crypto now t).2.nodes = t.nodes :=
    (t.insertCommit_frame crypto now (j.args crypto)).1
  rw [hframe] at hnodes
  refine ⟨fun n hn => ?_, fun n' hn' => ?_, fun c hc => ?_⟩
  · refine ⟨_, ?_, updatedRow_key _ n, onCommit_updatedRow hn hupdates⟩
    rw [JobCommit.record, hnodes]
    exact List.mem_map_of_mem hn
  · rw [JobCommit.record, hnodes] at hn'
    obtain ⟨n, hn, rfl⟩ := List.mem_map.1 hn'
    exact .inl ⟨n, hn, updatedRow_key _ n⟩
  · rw [JobCommit.record, hcommits] at hc
    rcases LiteTables.mem_insertCommit hc with hold | rfl
    · exact .inl hold
    · refine .inr fun id hlist => ?_
      obtain ⟨n, hn, hnid, hnscope, hon⟩ := hlisted id hlist
      refine ⟨updatedRow (updates (j.insert crypto now t).1) n, ?_, ?_, ?_, ?_⟩
      · rw [JobCommit.record, hnodes]
        exact List.mem_map_of_mem hn
      · rw [updatedRow_key, hnid]
      · rw [updatedRow_key, hnscope]
        rfl
      · exact hon.trans (updatedRow_key _ n) (onCommit_updatedRow hn hupdates)

/-- The found rows are rows of the tables. -/
theorem mem_of_found
    (h : target.resolved = resolveLifecycleNodes (liteDb env.crypto t) target.tenancy.scopeKey
      target.actor target.requestedNodeIds target.requestedClientIds) {row : LiteNode}
    (hrow : row ∈ target.resolved.foundRows) :
    ∃ n ∈ t.nodes, n.toLiteNode = row ∧ n.scope = target.tenancy.scopeKey := by
  rw [h] at hrow
  obtain ⟨hmem, hscope⟩ := mem_foundRows hrow
  obtain ⟨n, hn, rfl⟩ := List.mem_map.1 hmem
  exact ⟨n, hn, rfl, hscope⟩

/-- A commit that lists found rows and gives some of them its id, when they are on it. -/
theorem keeping_record_found {now : String} {j : JobCommit} {moved : List LiteNode}
    {update : String → LiteNode → NodeAnchorUpdate}
    (hresolved : target.resolved = resolveLifecycleNodes (liteDb env.crypto t)
      target.tenancy.scopeKey target.actor target.requestedNodeIds target.requestedClientIds)
    (hmoved : ∀ row ∈ moved, row ∈ target.resolved.foundRows)
    (hupdate : ∀ commitId row, (update commitId row).id = row.id ∧
      (update commitId row).commitId = some commitId) (hscope : j.scope = target.tenancy.scopeKey)
    (hlisted : ∀ id ∈ listedNodeIds j.diff, ∃ row ∈ target.resolved.foundRows, row.id = id)
    (hon : ∀ row ∈ target.resolved.foundRows, OnCommit (j.insert env.crypto now t).1 row) :
    Keeping t (j.record env.crypto now (fun commitId => moved.map (update commitId)) t) := by
  refine keeping_record (fun u hu n hn _ hid hlane c hc => ?_) fun id hid => ?_
  · obtain ⟨row, hrow, rfl⟩ := List.mem_map.1 hu
    obtain ⟨m, hm, rfl, -⟩ := mem_of_found hresolved (hmoved row hrow)
    rw [(hupdate _ _).1] at hid
    obtain rfl := t.nodeIds.eq hn hm hid
    rw [(hupdate _ _).2] at hc
    obtain rfl := Option.some.inj hc
    rcases hon _ (hmoved _ hrow) with hshared | hcarries
    · rw [hlane] at hshared
      cases hshared
    · exact hcarries.symm
  · obtain ⟨row, hrow, rfl⟩ := hlisted id hid
    obtain ⟨n, hn, rfl, hnscope⟩ := mem_of_found hresolved hrow
    exact ⟨n, hn, rfl, hnscope.trans hscope.symm, hon _ hrow⟩

/-! ## Memory writes -/

theorem keeping_write {opts : ApplyWriteOptions} {prepared : PreparedWrite} {result : WriteResult}
    (w : Written opts t prepared result t')
    (howners : ∀ node ∈ prepared.nodes, HasOwnerNames node.ownerAgentId node.ownerTeamId)
    (hon : ∀ node ∈ prepared.nodes, ∀ n ∈ t.nodes, n.id = node.id →
      OnCommit (writeCommit opts t prepared).1 n.toLiteNode) : Keeping t t' := by
  have hrow : ∀ id, row? (·.id) t'.nodes id = (row? (·.id) t.nodes id).or
      ((row? (·.id) prepared.nodes id).map (plannedRow opts prepared result.commitId)) := by
    intro id
    rw [w.nodes, row?_foldl_insertOrIgnore, row?_of_map]
    rfl
  have hkeep : ∀ n ∈ t.nodes, n ∈ t'.nodes := by
    intro n hn
    have hn' := hrow n.id
    rw [t.nodeIds.row? hn, Option.some_or] at hn'
    exact (mem_of_row? hn').1
  refine ⟨fun n hn => ⟨n, hkeep n hn, rfl, .inr rfl⟩, fun n' hn' => ?_, fun c hc => ?_⟩
  · rw [w.nodes] at hn'
    rcases mem_foldl_insertOrIgnore hn' with hold | hnew
    · exact .inl ⟨n', hold, rfl⟩
    · obtain ⟨node, hnode, rfl⟩ := List.mem_map.1 hnew
      exact .inr (howners node hnode)
  · rw [w.commits] at hc
    rcases LiteTables.mem_insertCommit hc with hold | rfl
    · exact .inl hold
    refine .inr fun id hlist => ?_
    obtain ⟨node, hnode, rfl⟩ := List.mem_map.1 (listedNodeIds_buildWriteDiff prepared _ ▸ hlist)
    cases hstored : row? (·.id) t.nodes node.id with
    | some n =>
      obtain ⟨hn, hnid⟩ := mem_of_row? hstored
      refine ⟨n, hkeep n hn, hnid, ?_, hon node hnode n hn hnid⟩
      exact (w.storedScopes node hnode n hn hnid).trans (w.nodesInScope node hnode)
    | none =>
      -- The batch's first node of the id is inserted under the new commit.
      cases hfirst : row? (·.id) prepared.nodes node.id with
      | none => exact absurd rfl (row?_eq_none.1 hfirst node hnode)
      | some first =>
        obtain ⟨hmem, hfid⟩ := mem_of_row? hfirst
        have hnew := hrow node.id
        rw [hstored, hfirst, Option.none_or, Option.map_some] at hnew
        exact ⟨_, (mem_of_row? hnew).1, hfid, w.nodesInScope first hmem, .inr w.commitId⟩

/-! ## Runs -/

/-- The operation moves no private node off its commit, and its own commit lists only stored
nodes that are shared or carry it. The owners of a written node are normalized. -/
def LiteOperation.Keeps (t : LiteTables) : LiteOperation → Prop
  | .write opts prepared =>
    (∀ node ∈ prepared.nodes, HasOwnerNames node.ownerAgentId node.ownerTeamId) ∧
      ∀ node ∈ prepared.nodes, ∀ n ∈ t.nodes, n.id = node.id →
        OnCommit (writeCommit opts t prepared).1 n.toLiteNode
  | .activate env call =>
    ∀ target, activateTarget env (liteDb env.crypto t) call.body = .ok target →
      ∀ row ∈ target.resolved.foundRows,
        OnCommit ((activateJob env t call target).insert env.crypto call.now t).1 row
  | .rehydrate env call =>
    ∀ target, rehydrateTarget env (liteDb env.crypto t) call.body = .ok target →
      movableRows call.body target ≠ [] → ∀ row ∈ target.resolved.foundRows,
        OnCommit ((rehydrateJob env t call target).insert env.crypto call.now t).1 row
  | .rule crypto call =>
    call.found (liteDb crypto t) = true → ∀ id ∈ call.job.ruleNodeIds,
      ∃ n ∈ t.nodes, n.id = id ∧ n.scope = call.scope ∧
        OnCommit ((ruleCommit crypto t call).insert crypto call.now t).1 n.toLiteNode
  | .updateNodeAnchorState update => UpdateKeeps t update

theorem rehydrateTarget_ok {db : LiteDb} {body : MemoryArchiveRehydrateInput}
    (h : rehydrateTarget env db body = .ok target) :
    target.resolved = resolveLifecycleNodes db target.tenancy.scopeKey target.actor
      target.requestedNodeIds target.requestedClientIds := by
  unfold rehydrateTarget at h
  obtain ⟨tenancy, -, h⟩ := bind_eq_ok.1 h
  dsimp only at h
  split at h
  · cases h
  · cases h
    rfl

theorem keeping_activateNodes {call : ActivateCall} (h : activateNodes env t call = .ok t')
    (hk : LiteOperation.Keeps t (.activate env call)) : Keeping t t' := by
  obtain ⟨target, htarget, h⟩ := bind_eq_ok.1 h
  split at h
  · cases h
    exact .refl t
  · cases h
    refine keeping_record_found (activateTarget_ok env htarget) (fun _ hrow => hrow)
      (fun _ _ => ⟨rfl, rfl⟩) rfl (fun id hid => ?_) (hk target htarget)
    exact List.mem_map.1 (listedNodeIds_activateDiff .. ▸ hid)

theorem keeping_rehydrateNodes {call : RehydrateCall} (h : rehydrateNodes env t call = .ok t')
    (hk : LiteOperation.Keeps t (.rehydrate env call)) : Keeping t t' := by
  obtain ⟨target, htarget, h⟩ := bind_eq_ok.1 h
  split at h
  · cases h
    exact .refl t
  · next hmovable =>
    cases h
    refine keeping_record_found (rehydrateTarget_ok htarget)
      (fun _ hrow => (List.mem_filter.1 hrow).1) (fun _ _ => ⟨rfl, rfl⟩) rfl (fun id hid => ?_)
      (hk target htarget hmovable)
    have hid : id ∈ (movableRows call.body target).map (·.id) ++ noopIds call.body target :=
      listedNodeIds_rehydrateDiff .. ▸ hid
    rcases List.mem_append.1 hid with hid | hid
    · obtain ⟨row, hrow, rfl⟩ := List.mem_map.1 hid
      exact ⟨row, (List.mem_filter.1 hrow).1, rfl⟩
    · obtain ⟨row, hrow, rfl⟩ := List.mem_map.1 hid
      exact ⟨row, (List.mem_filter.1 hrow).1, rfl⟩

theorem keeping_apply {op : LiteOperation} (hk : op.Keeps t) : Keeping t (op.apply t) := by
  cases op with
  | write opts prepared =>
    cases h : applyMemoryWrite opts t prepared with
    | error e =>
      rw [LiteOperation.apply, h]
      exact .refl t
    | ok r =>
      rw [LiteOperation.apply, h]
      exact keeping_write (applyMemoryWrite_ok h) hk.1 hk.2
  | activate env call =>
    cases h : activateNodes env t call with
    | error e =>
      rw [LiteOperation.apply, h]
      exact .refl t
    | ok t' =>
      rw [LiteOperation.apply, h]
      exact keeping_activateNodes h hk
  | rehydrate env call =>
    cases h : rehydrateNodes env t call with
    | error e =>
      rw [LiteOperation.apply, h]
      exact .refl t
    | ok t' =>
      rw [LiteOperation.apply, h]
      exact keeping_rehydrateNodes h hk
  | rule crypto call =>
    rw [LiteOperation.apply, recordRule]
    split
    · next hfound =>
      refine keeping_record (fun _ hu => nomatch hu) fun id hid => hk hfound id ?_
      rw [← listedNodeIds_ruleDiff]
      exact hid
    · exact .refl t
  | updateNodeAnchorState update => exact keeping_updateNodeAnchorState hk

/-- Every operation of a sequence keeps nodes and commits together. -/
def KeepsAlong : LiteTables → List LiteOperation → Prop
  | _, [] => True
  | t, op :: ops => op.Keeps t ∧ KeepsAlong (op.apply t) ops

theorem Together.run {ops : List LiteOperation} (h : Together t) (hk : KeepsAlong t ops) :
    Together (ops.foldl LiteOperation.apply t) := by
  induction ops generalizing t with
  | nil => exact h
  | cons op ops ih => exact ih (h.keeping (keeping_apply hk.1)) hk.2

def aliceNode : PreparedNode where
  id := sampleCrypto.stableUuid "default:node:diary"
  clientId := some "diary"
  scope := "default"
  type := "entity"
  title := some "Diary"
  memoryLane := .privateLane
  ownerAgentId := some "alice"

def aliceWrite : PreparedWrite where
  tenantId := "default"
  scopePublic := "default"
  scope := "default"
  actor := "alice"
  inputSha256 := "00"
  nodes := [aliceNode]
  edges := []

def sampleEnv : LifecycleEnv := { plainEnv with crypto := sampleCrypto }

/-- Alice activates her node by its client id. -/
def aliceCall : ActivateCall where
  body := { actor := some "alice", clientIds := some ["diary"], inputSha256 := some "01" }
  startedAt := "2026-01-02T00:00:00.000Z"
  now := "2026-01-02T00:00:00.000Z"

def aliceOperations : List LiteOperation :=
  [.write sampleOptions aliceWrite, .activate sampleEnv aliceCall]

/-- A consumer resolves the commit of the first operation and reads of a hidden node. -/
def leaksListed (t : LiteTables) (agent team : Option String) : Bool :=
  t.commits.any fun c => (resolveCommit t c.scope c.id agent team).any fun r =>
    (listedNodeIds r.diff).any fun id =>
      t.nodes.any fun n => n.scope == c.scope && n.id == id && !n.visibleTo agent team

theorem not_listedVisible_of_leaksListed (h : leaksListed t agent team = true) :
    ¬ ListedVisible t := by
  intro hv
  obtain ⟨c, -, h⟩ := List.any_eq_true.1 h
  obtain ⟨r, hr, h⟩ := (Option.any_eq_true _ _).1 h
  obtain ⟨id, hid, h⟩ := List.any_eq_true.1 h
  obtain ⟨n, hn, h⟩ := List.any_eq_true.1 h
  simp only [Bool.and_eq_true, beq_iff_eq, Bool.not_eq_true'] at h
  rw [hv _ _ _ _ r hr id hid n hn h.1.1 h.1.2] at h
  exact absurd h.2 Bool.noConfusion

theorem leaksListed_aliceOperations :
    leaksListed (tablesAfter aliceOperations) (some "bob") none = true := by decide +kernel

/-- An update of the node's slots that names no commit. -/
def diaryUpdate : NodeAnchorUpdate where
  scope := "default"
  id := aliceNode.id
  slots := []
  textSummary := none
  salience := 1 / 2
  importance := 1 / 2
  confidence := 1 / 2
  commitId := none

end AionisCore.Memory
