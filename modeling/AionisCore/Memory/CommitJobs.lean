import AionisCore.Memory.ArchiveRehydrate
import AionisCore.Memory.Write

/-!
# Operations that commit

Every operation that records a commit about nodes or gives a node another commit, on the
tables of the store: memory writes, activations, rehydrations, the commits about rules
and the update of a node's anchor state. An operation that throws leaves the tables as
they were.
-/

namespace AionisCore.Memory

open Lib Lib.Table Util Store

/-- The tables as the lifecycle operations read them. -/
def liteDb (crypto : Crypto) (t : LiteTables) : LiteDb where
  nodes := t.nodes.map (·.toLiteNode)
  commits := t.commits.map fun c => ⟨c.id, c.scope, c.parentCommitId, c.inputSha256,
    crypto.stableStringify c.diff, c.actor, c.commitHash, c.createdAt⟩
  primaryKey := by
    rw [List.map_map]
    exact t.nodeIds

/-- What a commit that is no memory write inserts. -/
structure JobCommit where
  scope : String
  parent : Option LiteCommit
  inputSha256 : String
  diff : Json
  actor : String
  kind : String

def JobCommit.hash (crypto : Crypto) (j : JobCommit) : String :=
  crypto.sha256Hex (crypto.stableStringify (.obj [
    ("parentHash", .str ((j.parent.map (·.commitHash)).getD "")),
    ("inputSha", .str j.inputSha256),
    ("diffSha", .str (crypto.sha256Hex (crypto.stableStringify j.diff))),
    ("scope", .str j.scope), ("actor", .str j.actor), ("kind", .str j.kind)]))

def JobCommit.args (crypto : Crypto) (j : JobCommit) : WriteCommitInsertArgs where
  scope := j.scope
  parentCommitId := j.parent.map (·.id)
  inputSha256 := j.inputSha256
  diff := j.diff
  actor := j.actor
  modelVersion := none
  promptVersion := none
  commitHash := j.hash crypto

/-- The commit of a job: its id and the tables with its row. -/
def JobCommit.insert (crypto : Crypto) (now : String) (j : JobCommit) (t : LiteTables) :
    String × LiteTables := t.insertCommit crypto now (j.args crypto)

/-- The commit of a job and the updates of nodes that follow it. -/
def JobCommit.record (crypto : Crypto) (now : String) (j : JobCommit)
    (updates : String → List NodeAnchorUpdate) (t : LiteTables) : LiteTables :=
  let commit := j.insert crypto now t
  (updates commit.1).foldl LiteTables.updateNodeAnchorState commit.2

/-- A row after a list of updates. -/
def updatedRow (updates : List NodeAnchorUpdate) (n : LiteNodeRow) : LiteNodeRow :=
  updates.foldl (fun n u => LiteTables.anchorUpdate u n) n

theorem foldl_updateNodeAnchorState (updates : List NodeAnchorUpdate) (t : LiteTables) :
    (updates.foldl LiteTables.updateNodeAnchorState t).nodes = t.nodes.map (updatedRow updates) ∧
      (updates.foldl LiteTables.updateNodeAnchorState t).commits = t.commits := by
  induction updates generalizing t with
  | nil => exact ⟨(List.map_id t.nodes).symm, rfl⟩
  | cons u updates ih =>
    obtain ⟨hnodes, hcommits⟩ := ih (t.updateNodeAnchorState u)
    refine ⟨?_, hcommits⟩
    rw [List.foldl_cons, hnodes, LiteTables.updateNodeAnchorState, List.map_map]
    rfl

/-! ## The tables and the store of the lifecycle operations -/

theorem liteDb_ext {db db' : LiteDb} (hnodes : db.nodes = db'.nodes)
    (hcommits : db.commits = db'.commits) : db = db' := by
  cases db
  cases db'
  obtain rfl : _ = _ := hnodes
  obtain rfl : _ = _ := hcommits
  rfl

theorem liteDb_updateNodeAnchorState (crypto : Crypto) (t : LiteTables) (u : NodeAnchorUpdate) :
    liteDb crypto (t.updateNodeAnchorState u) = ((liteDb crypto t).updateNodeAnchorState u).2 := by
  refine liteDb_ext ?_ rfl
  simp only [liteDb, LiteTables.updateNodeAnchorState, LiteDb.updateNodeAnchorState,
    LiteDb.mapNodes, List.map_map]
  rfl

theorem liteDb_updates (crypto : Crypto) (updates : List NodeAnchorUpdate) (t : LiteTables) :
    liteDb crypto (updates.foldl LiteTables.updateNodeAnchorState t) =
      updates.foldl (fun db u => (db.updateNodeAnchorState u).2) (liteDb crypto t) := by
  induction updates generalizing t with
  | nil => rfl
  | cons u updates ih => rw [List.foldl_cons, List.foldl_cons, ih, liteDb_updateNodeAnchorState]

/-- A commit of a job as the lifecycle operations insert it. -/
def JobCommit.lifecycleArgs (crypto : Crypto) (j : JobCommit) : CommitInsertArgs where
  scope := j.scope
  parentCommitId := j.parent.map (·.id)
  inputSha256 := j.inputSha256
  diffJson := crypto.stableStringify j.diff
  actor := j.actor
  commitHash := j.hash crypto

theorem liteDb_insert (crypto : Crypto) (now : String) (j : JobCommit) (t : LiteTables) :
    (liteDb crypto t).insertCommit crypto now (j.lifecycleArgs crypto) =
      ((j.insert crypto now t).1, liteDb crypto (j.insert crypto now t).2) := by
  have hfind : (liteDb crypto t).commits.find? (·.commitHash == j.hash crypto) =
      (row? (·.commitHash) t.commits (j.hash crypto)).map fun c => ⟨c.id, c.scope,
        c.parentCommitId, c.inputSha256, crypto.stableStringify c.diff, c.actor, c.commitHash,
        c.createdAt⟩ := by
    rw [row?, liteDb, List.find?_map]
    rfl
  have hany (id : String) : (liteDb crypto t).commits.any (·.id == id) =
      (row? (·.id) t.commits id).isSome := by
    rw [row?, liteDb, List.any_map, Bool.eq_iff_iff, List.any_eq_true, List.find?_isSome]
    simp
  unfold LiteDb.insertCommit
  rw [show (j.lifecycleArgs crypto).commitHash = j.hash crypto from rfl, hfind]
  cases hrow : row? (·.commitHash) t.commits (j.hash crypto) with
  | some c =>
    rw [JobCommit.insert, LiteTables.insertCommit_of_known hrow]
    rfl
  | none =>
    obtain ⟨hid, hcommits⟩ := @LiteTables.insertCommit_of_new t crypto now (j.args crypto) hrow
    have hnodes := (t.insertCommit_frame crypto now (j.args crypto)).1
    rw [Option.map_none]
    dsimp only
    rw [hany]
    split
    · next htaken =>
      refine Prod.ext hid.symm (liteDb_ext (congrArg (List.map _) hnodes.symm) ?_)
      refine congrArg (List.map _) (Eq.symm ?_)
      exact hcommits.trans (if_pos htaken)
    · next hfree =>
      refine Prod.ext hid.symm (liteDb_ext (congrArg (List.map _) hnodes.symm) ?_)
      refine Eq.trans ?_ (congrArg (List.map _) (hcommits.trans (if_neg hfree)).symm)
      rw [List.map_append]
      rfl

/-! ## Activation and rehydration -/

def activateJob (env : LifecycleEnv) (t : LiteTables) (c : ActivateCall) (target : ActivateTarget) :
    JobCommit where
  scope := target.tenancy.scopeKey
  parent := (liteDb env.crypto t).latestCommit target.tenancy.scopeKey
  inputSha256 := feedbackInputSha env c.body
  diff := activateDiff env c target.tenancy.scopeKey target.actor target.requestedNodeIds
    target.requestedClientIds target.resolved
  actor := target.actor
  kind := "nodes_activate"

/-- `activateMemoryNodesLite` on the tables. -/
def activateNodes (env : LifecycleEnv) (t : LiteTables) (c : ActivateCall) :
    Except RequestError LiteTables := do
  let target ← activateTarget env (liteDb env.crypto t) c.body
  if target.resolved.foundRows = [] then return t
  else
    let updates (commitId : String) :=
      target.resolved.foundRows.map (activationUpdate env c target.tenancy.scopeKey commitId)
    return (activateJob env t c target).record env.crypto c.now updates t

/-- The tables follow `activateMemoryNodesLite`. -/
theorem activateNodes_liteDb (env : LifecycleEnv) (t : LiteTables) (c : ActivateCall) :
    (activateNodes env t c).map (liteDb env.crypto) =
      (activateMemoryNodesLite env (liteDb env.crypto t) c).map (·.2) := by
  unfold activateNodes activateMemoryNodesLite
  refine map_bind_congr fun target => ?_
  dsimp only
  split
  · rfl
  · refine congrArg Except.ok ?_
    rw [JobCommit.record, liteDb_updates]
    have hinsert := liteDb_insert env.crypto c.now (activateJob env t c target) t
    have hargs : (activateJob env t c target).lifecycleArgs env.crypto =
        activationCommit env (liteDb env.crypto t) c target := rfl
    rw [hargs] at hinsert
    unfold activateRows
    dsimp only
    rw [hinsert]

def rehydrateJob (env : LifecycleEnv) (t : LiteTables) (c : RehydrateCall)
    (target : ActivateTarget) : JobCommit where
  scope := target.tenancy.scopeKey
  parent := (liteDb env.crypto t).latestCommit target.tenancy.scopeKey
  inputSha256 := rehydrateInputSha env c.body
  diff := rehydrateDiff env c target
  actor := target.actor
  kind := "archive_rehydrate"

/-- `rehydrateArchiveNodesLite` on the tables. -/
def rehydrateNodes (env : LifecycleEnv) (t : LiteTables) (c : RehydrateCall) :
    Except RequestError LiteTables := do
  let target ← rehydrateTarget env (liteDb env.crypto t) c.body
  if movableRows c.body target = [] then return t
  else
    let updates (commitId : String) :=
      (movableRows c.body target).map (rehydrateUpdate env c target.tenancy.scopeKey commitId)
    return (rehydrateJob env t c target).record env.crypto c.now updates t

/-! ## Rules -/

/-- A change of a rule's state, a feedback on a rule, or a feedback on the tool that rules
selected. -/
inductive RuleJob where
  | stateChange (ruleNodeId state : String)
  | feedback (id ruleNodeId outcome : String) (runId : Option String)
  | toolFeedback (decisionId decisionLinkMode outcome selectedTool target : String)
      (runId : Option String) (candidates ruleNodeIds : List String)

def RuleJob.diff : RuleJob → Json
  | .stateChange ruleNodeId state =>
    .obj [("rule_state_change",
      .arr [.obj [("rule_node_id", .str ruleNodeId), ("state", .str state)]])]
  | .feedback id ruleNodeId outcome runId =>
    .obj [("feedback", .arr [.obj [("id", .str id), ("rule_node_id", .str ruleNodeId),
      ("outcome", .str outcome), ("run_id", textOrNull runId)]])]
  | .toolFeedback decisionId decisionLinkMode outcome selectedTool target runId candidates
      ruleNodeIds =>
    .obj [("tool_feedback", .arr [.obj [("decision_id", .str decisionId),
      ("decision_link_mode", .str decisionLinkMode), ("run_id", textOrNull runId),
      ("outcome", .str outcome), ("selected_tool", .str selectedTool),
      ("candidates", jsonStrings candidates), ("rule_node_ids", jsonStrings ruleNodeIds),
      ("target", .str target)]])]

def RuleJob.kind : RuleJob → String
  | .stateChange .. => "rule_state_change"
  | .feedback .. => "rule_feedback"
  | .toolFeedback .. => "tool_feedback"

/-- A rule operation after the checks of its request. -/
structure RuleCall where
  scope : String
  actor : String
  inputSha256 : String
  now : String
  job : RuleJob

/-- `resolveNode`. -/
def resolveNode (db : LiteDb) (scope id type : String) (consumerAgentId : Option String) :
    Option LiteNode :=
  db.findNode { scope, id := some id, type := some type, consumerAgentId, limit := 1 }

/-- The rule is found: a change of state looks for it as the actor, a feedback as nobody, and
the rules of a tool feedback come from the decision. -/
def RuleCall.found (db : LiteDb) (c : RuleCall) : Bool :=
  match c.job with
  | .stateChange ruleNodeId _ => (resolveNode db c.scope ruleNodeId "rule" (some c.actor)).isSome
  | .feedback _ ruleNodeId _ _ => (resolveNode db c.scope ruleNodeId "rule" none).isSome
  | .toolFeedback .. => true

def ruleCommit (crypto : Crypto) (t : LiteTables) (c : RuleCall) : JobCommit where
  scope := c.scope
  parent := (liteDb crypto t).latestCommit c.scope
  inputSha256 := c.inputSha256
  diff := c.job.diff
  actor := c.actor
  kind := c.job.kind

def recordRule (crypto : Crypto) (t : LiteTables) (c : RuleCall) : LiteTables :=
  if c.found (liteDb crypto t) then
    (ruleCommit crypto t c).record crypto c.now (fun _ => []) t
  else t

/-! ## Runs -/

inductive LiteOperation where
  | write (opts : ApplyWriteOptions) (prepared : PreparedWrite)
  | activate (env : LifecycleEnv) (call : ActivateCall)
  | rehydrate (env : LifecycleEnv) (call : RehydrateCall)
  | rule (crypto : Crypto) (call : RuleCall)
  | updateNodeAnchorState (update : NodeAnchorUpdate)

def LiteOperation.apply (t : LiteTables) : LiteOperation → LiteTables
  | .write opts prepared => ((applyMemoryWrite opts t prepared).toOption.map (·.2)).getD t
  | .activate env call => (activateNodes env t call).toOption.getD t
  | .rehydrate env call => (rehydrateNodes env t call).toOption.getD t
  | .rule crypto call => recordRule crypto t call
  | .updateNodeAnchorState update => t.updateNodeAnchorState update

/-- The store after a sequence of operations on a fresh one. -/
def tablesAfter (ops : List LiteOperation) : LiteTables :=
  ops.foldl LiteOperation.apply .empty

end AionisCore.Memory
