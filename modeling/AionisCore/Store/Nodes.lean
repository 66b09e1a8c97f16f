import AionisCore.Util.Crypto
import Mathlib.Data.List.Sort

/-!
# The node table of the Lite write store

The tables of memory nodes and commits with the statements the lifecycle and
feedback paths use. `slots_json` and the other JSON columns are the values their
texts denote. What identifies a node never changes after its insertion.
-/

namespace AionisCore.Store

open Lib Util

inductive MemoryLane where
  | privateLane
  | sharedLane
  deriving DecidableEq, Repr

/-- The columns no statement updates and every search reads. -/
structure NodeKey where
  id : String
  scope : String
  clientId : Option String := none
  type : String
  memoryLane : MemoryLane := .sharedLane
  ownerAgentId : Option String := none
  ownerTeamId : Option String := none
  createdAt : String
  deriving DecidableEq, Repr

structure LiteNode extends NodeKey where
  tier : String := "hot"
  title : Option String := none
  textSummary : Option String := none
  slots : Json.Fields
  rawRef : Option String := none
  evidenceRef : Option String := none
  producerAgentId : Option String := none
  salience : ℚ
  importance : ℚ
  confidence : ℚ
  commitId : String

structure LiteCommit where
  id : String
  scope : String
  parentCommitId : Option String
  inputSha256 : String
  diffJson : String
  actor : String
  commitHash : String
  createdAt : String

/-- `lite_memory_nodes` and `lite_memory_commits`; `id` is the primary key of a node. -/
structure LiteDb where
  nodes : List LiteNode
  commits : List LiteCommit
  primaryKey : (nodes.map (·.id)).Nodup

/-- An argument that is given and not empty. -/
def given (arg : Option String) : Option String := arg.filter (· ≠ "")

theorem given_of_ne {s : String} (h : s ≠ "") : given (some s) = some s := by
  rw [given, Option.filter_some, if_pos (decide_eq_true h)]

structure FindNodesArgs where
  scope : String
  id : Option String := none
  type : Option String := none
  clientId : Option String := none
  consumerAgentId : Option String := none
  consumerTeamId : Option String := none
  limit : Nat

def NodeKey.visibleTo (n : NodeKey) (agent team : Option String) : Bool :=
  n.memoryLane == .sharedLane ||
    (given agent).any (fun a => n.memoryLane == .privateLane && n.ownerAgentId == some a) ||
    (given team).any (fun t => n.memoryLane == .privateLane && n.ownerTeamId == some t)

/-- The `WHERE` clause of `findNodes`. -/
def FindNodesArgs.matches (a : FindNodesArgs) (n : NodeKey) : Bool :=
  n.scope == a.scope && (given a.id).all (n.id == ·) && (given a.type).all (n.type == ·) &&
    (given a.clientId).all (fun c => n.clientId == some c) &&
    n.visibleTo a.consumerAgentId a.consumerTeamId

/-- `ORDER BY created_at DESC, id DESC`. -/
def NodeKey.newestFirst (m n : NodeKey) : Prop :=
  n.createdAt < m.createdAt ∨ n.createdAt = m.createdAt ∧ n.id ≤ m.id

instance : DecidableRel NodeKey.newestFirst := fun _ _ => inferInstanceAs (Decidable (_ ∨ _))

def LiteNode.newestFirst (m n : LiteNode) : Prop := m.toNodeKey.newestFirst n.toNodeKey

instance : DecidableRel LiteNode.newestFirst := fun _ _ =>
  inferInstanceAs (Decidable (NodeKey.newestFirst _ _))

structure NodeAnchorUpdate where
  scope : String
  id : String
  tier : Option String := none
  slots : Json.Fields
  textSummary : Option String
  salience : ℚ
  importance : ℚ
  confidence : ℚ
  commitId : Option String

def NodeAnchorUpdate.apply (u : NodeAnchorUpdate) (n : LiteNode) : LiteNode :=
  { n with
    slots := u.slots
    textSummary := u.textSummary
    salience := u.salience
    importance := u.importance
    confidence := u.confidence
    commitId := u.commitId.getD n.commitId
    tier := (given u.tier).getD n.tier }

structure CommitInsertArgs where
  scope : String
  parentCommitId : Option String
  inputSha256 : String
  diffJson : String
  actor : String
  commitHash : String

namespace LiteDb

variable (db : LiteDb)

def findNodes (a : FindNodesArgs) : List LiteNode :=
  ((db.nodes.filter fun n => a.matches n.toNodeKey).insertionSort LiteNode.newestFirst).take a.limit

/-- `findNodes({ …, limit: 1 }).rows[0]`. -/
def findNode (a : FindNodesArgs) : Option LiteNode := (db.findNodes a).head?

def latestCommit (scope : String) : Option LiteCommit :=
  ((db.commits.filter (·.scope == scope)).insertionSort fun c d =>
    d.createdAt < c.createdAt ∨ d.createdAt = c.createdAt ∧ d.id ≤ c.id).head?

/-- The id of the commit, and the table: a known hash keeps its commit, and a taken id is
ignored. -/
def insertCommit (crypto : Crypto) (now : String) (a : CommitInsertArgs) : String × LiteDb :=
  match db.commits.find? (·.commitHash == a.commitHash) with
  | some c => (c.id, db)
  | none =>
    let id := crypto.stableUuid ("lite:commit:" ++ a.commitHash)
    if db.commits.any (·.id == id) then (id, db)
    else (id, { db with commits := db.commits ++
      [⟨id, a.scope, a.parentCommitId, a.inputSha256, a.diffJson, a.actor, a.commitHash, now⟩] })

/-- An update of rows that keeps their keys. -/
def mapNodes (f : LiteNode → LiteNode) (hf : ∀ n, (f n).toNodeKey = n.toNodeKey) : LiteDb where
  nodes := db.nodes.map f
  commits := db.commits
  primaryKey := by
    have hid : ((fun n : LiteNode => n.id) ∘ f) = fun n => n.id :=
      funext fun n => congrArg NodeKey.id (hf n)
    rw [List.map_map, hid]
    exact db.primaryKey

end LiteDb

/-- The `UPDATE` on one row of the table. -/
def NodeAnchorUpdate.on (u : NodeAnchorUpdate) (n : LiteNode) : LiteNode :=
  if n.scope = u.scope ∧ n.id = u.id then u.apply n else n

theorem NodeAnchorUpdate.on_of_hit {u : NodeAnchorUpdate} {n : LiteNode}
    (h : n.scope = u.scope ∧ n.id = u.id) : u.on n = u.apply n := if_pos h

theorem NodeAnchorUpdate.on_of_miss {u : NodeAnchorUpdate} {n : LiteNode}
    (h : ¬ (n.scope = u.scope ∧ n.id = u.id)) : u.on n = n := if_neg h

theorem NodeAnchorUpdate.on_toNodeKey (u : NodeAnchorUpdate) (n : LiteNode) :
    (u.on n).toNodeKey = n.toNodeKey := by
  unfold NodeAnchorUpdate.on
  split <;> rfl

namespace LiteDb

/-- The table after the update, and the row read back without a consumer. -/
def updateNodeAnchorState (db : LiteDb) (u : NodeAnchorUpdate) : Option LiteNode × LiteDb :=
  let db' := db.mapNodes u.on u.on_toNodeKey
  (db'.findNode { scope := u.scope, id := some u.id, limit := 1 }, db')

/-- `INSERT OR IGNORE`. -/
def insertNode (db : LiteDb) (n : LiteNode) : LiteDb :=
  if h : n.id ∈ db.nodes.map (·.id) then db
  else
    { db with
      nodes := db.nodes ++ [n]
      primaryKey := by
        rw [List.map_append, List.map_singleton, List.nodup_append]
        refine ⟨db.primaryKey, List.nodup_singleton _, fun i hi j hj hij => ?_⟩
        exact h (List.mem_singleton.1 hj ▸ hij ▸ hi) }

theorem insertCommit_nodes (db : LiteDb) (crypto : Crypto) (now : String) (a : CommitInsertArgs) :
    (db.insertCommit crypto now a).2.nodes = db.nodes := by
  unfold insertCommit
  split
  · rfl
  · dsimp only
    split <;> rfl

theorem mem_updateNodeAnchorState {db : LiteDb} {u : NodeAnchorUpdate} {n : LiteNode}
    (h : n ∈ db.nodes) : u.on n ∈ (db.updateNodeAnchorState u).2.nodes := List.mem_map_of_mem h

theorem mem_insertNode {db : LiteDb} {row n : LiteNode} (h : n ∈ db.nodes) :
    n ∈ (db.insertNode row).nodes := by
  unfold insertNode
  split
  · exact h
  · exact List.mem_append_left _ h

/-! ## What a search finds -/

variable {db : LiteDb} {a : FindNodesArgs} {m n : LiteNode}

theorem eq_of_id (hm : m ∈ db.nodes) (hn : n ∈ db.nodes) (h : m.id = n.id) : m = n :=
  List.inj_on_of_nodup_map db.primaryKey hm hn h

theorem mem_findNodes (h : n ∈ db.findNodes a) : n ∈ db.nodes ∧ a.matches n.toNodeKey = true := by
  have h := List.mem_of_mem_take h
  rw [List.mem_insertionSort, List.mem_filter] at h
  exact h

theorem findNode_eq_some (h : db.findNode a = some n) :
    n ∈ db.nodes ∧ a.matches n.toNodeKey = true := mem_findNodes (List.mem_of_head? h)

theorem matches_scope {k : NodeKey} (h : a.matches k = true) : k.scope = a.scope := by
  simp only [FindNodesArgs.matches, Bool.and_eq_true, beq_iff_eq] at h
  exact h.1.1.1.1

theorem matches_id {k : NodeKey} {id : String} (ha : a.id = some id) (hid : id ≠ "")
    (h : a.matches k = true) : k.id = id := by
  simp only [FindNodesArgs.matches, Bool.and_eq_true, given, ha, Option.filter, hid, ne_eq,
    not_false_eq_true, decide_true, if_true, Option.all_some, beq_iff_eq] at h
  exact h.1.1.1.2

theorem findNodes_keys (db : LiteDb) (a : FindNodesArgs) :
    (db.findNodes a).map (·.toNodeKey) =
      (((db.nodes.map (·.toNodeKey)).filter a.matches).insertionSort NodeKey.newestFirst).take
        a.limit := by
  rw [findNodes, List.map_take, List.map_insertionSort LiteNode.newestFirst NodeKey.newestFirst
    (fun n : LiteNode => n.toNodeKey) _ (fun _ _ _ _ => Iff.rfl), List.filter_map]
  rfl

theorem findNode_key {db db' : LiteDb}
    (h : db.nodes.map (·.toNodeKey) = db'.nodes.map (·.toNodeKey)) (a : FindNodesArgs) :
    (db.findNode a).map (·.toNodeKey) = (db'.findNode a).map (·.toNodeKey) := by
  rw [findNode, findNode, ← List.head?_map, ← List.head?_map, findNodes_keys, findNodes_keys, h]

end LiteDb

end AionisCore.Store
