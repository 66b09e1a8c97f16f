import AionisCore.Memory.ActivateRun
import AionisCore.Memory.CommitJobs
import Mathlib.Tactic.IntervalCases

/-!
# The report of a rehydration

`rehydrateArchiveNodesLite` with its result. A requested node id stands for the nodes whose
ids read as the same UUID, in whatever case they are stored; a requested client id, without
the white space around it, for the nodes that carry it.
-/

namespace AionisCore.Memory

open Lib Lib.JsString Store Util

structure RehydratedSummary where
  requestedNodeIds : Nat
  requestedClientIds : Nat
  resolvedNodeIds : Nat
  foundNodes : Nat
  movedNodes : Nat
  noopNodes : Nat
  missingNodeIds : List String
  missingClientIds : List String
  movedIds : List String
  noopIds : List String

structure RehydrateResult where
  scope : String
  tenantId : String
  targetTier : RehydrateTier
  commitId : Option String
  commitHash : Option String
  rehydrated : RehydratedSummary

/-! ## The call -/

section Call

variable (env : LifecycleEnv)

def rehydratedSummary (body : MemoryArchiveRehydrateInput) (t : ActivateTarget) :
    RehydratedSummary where
  requestedNodeIds := t.requestedNodeIds.length
  requestedClientIds := t.requestedClientIds.length
  resolvedNodeIds := t.resolved.resolvedNodeIds.length
  foundNodes := t.resolved.foundRows.length
  movedNodes := (movableRows body t).length
  noopNodes := (noopIds body t).length
  missingNodeIds := t.resolved.missingNodeIds
  missingClientIds := t.resolved.missingClientIds
  movedIds := (movableRows body t).map (·.id)
  noopIds := noopIds body t

def rehydrateResult (body : MemoryArchiveRehydrateInput) (t : ActivateTarget)
    (commit : Option (String × String)) : RehydrateResult where
  scope := t.tenancy.scope
  tenantId := t.tenancy.tenantId
  targetTier := body.targetTier
  commitId := commit.map (·.1)
  commitHash := commit.map (·.2)
  rehydrated := rehydratedSummary body t

def rehydrateArchiveNodesLite (t : LiteTables) (c : RehydrateCall) :
    Except RequestError (RehydrateResult × LiteTables) := do
  let target ← rehydrateTarget env (liteDb env.crypto t) c.body
  if movableRows c.body target = [] then return (rehydrateResult c.body target none, t)
  else
    let job := rehydrateJob env t c target
    let updates (commitId : String) :=
      (movableRows c.body target).map (rehydrateUpdate env c target.tenancy.scopeKey commitId)
    return (rehydrateResult c.body target
      (some ((job.insert env.crypto c.now t).1, job.hash env.crypto)),
      job.record env.crypto c.now updates t)

end Call

/-! ## Lookup -/

section Lookup

variable {db : LiteDb} {scope actor : String} {ids clients : List String} {n : LiteNode}

/-- A node of the scope that the actor sees. -/
def Visible (nodes : List LiteNode) (scope actor : String) (n : LiteNode) : Prop :=
  n ∈ nodes ∧ n.scope = scope ∧ n.visibleTo (some actor) none = true

theorem findNode_of_match {a : FindNodesArgs} (hlimit : a.limit = 1) (hn : n ∈ db.nodes)
    (hmatch : a.matches n.toNodeKey = true) : ∃ m, db.findNode a = some m := by
  have hmem : n ∈ (db.nodes.filter fun n => a.matches n.toNodeKey).insertionSort
      LiteNode.newestFirst :=
    List.mem_insertionSort _ |>.2 (List.mem_filter.2 ⟨hn, hmatch⟩)
  unfold LiteDb.findNode LiteDb.findNodes
  rw [hlimit]
  cases hrows : (db.nodes.filter fun n => a.matches n.toNodeKey).insertionSort
      LiteNode.newestFirst with
  | nil =>
    rw [hrows] at hmem
    cases hmem
  | cons m rows => exact ⟨m, rfl⟩

/-- A search of one row by id or by client id, as a node that the actor sees. -/
theorem matches_iff {nodeId clientId : Option String} (hid : nodeId ≠ some "")
    (hclient : clientId ≠ some "") (k : NodeKey) :
    FindNodesArgs.matches ⟨scope, nodeId, none, clientId, some actor, none, 1⟩ k = true ↔
      (k.scope = scope ∧ k.visibleTo (some actor) none = true) ∧
        (∀ i, nodeId = some i → k.id = i) ∧ ∀ c, clientId = some c → k.clientId = some c := by
  have hgiven : ∀ arg : Option String, arg ≠ some "" → given arg = arg := by
    intro arg harg
    cases arg with
    | none => rfl
    | some s => exact given_of_ne fun hs => harg (congrArg some hs)
  simp only [FindNodesArgs.matches, hgiven nodeId hid, hgiven clientId hclient,
    hgiven none (Option.some_ne_none _).symm, Option.all_none, Option.all_eq_true,
    Bool.and_eq_true, beq_iff_eq]
  tauto

variable {nodeId : String}

theorem findById_eq_some (hid : nodeId ≠ "") :
    findById db scope actor nodeId = some n ↔ Visible db.nodes scope actor n ∧ n.id = nodeId := by
  have hmatches := @matches_iff scope actor (some nodeId) none
    (fun h => hid (Option.some.inj h)) nofun
  refine ⟨fun h => ?_, fun ⟨⟨hmem, hseen⟩, hnid⟩ => ?_⟩
  · obtain ⟨hmem, hmatch⟩ := LiteDb.findNode_eq_some h
    obtain ⟨hseen, hnid, -⟩ := (hmatches _).1 hmatch
    exact ⟨⟨hmem, hseen⟩, hnid nodeId rfl⟩
  · have hmatch := (hmatches n.toNodeKey).2
      ⟨hseen, fun i hi => hnid.trans (Option.some.inj hi), nofun⟩
    obtain ⟨m, hm⟩ := findNode_of_match rfl hmem hmatch
    obtain ⟨hmmem, hmmatch⟩ := LiteDb.findNode_eq_some hm
    have hmid := ((hmatches _).1 hmmatch).2.1 nodeId rfl
    rw [← LiteDb.eq_of_id hmmem hmem (hmid.trans hnid.symm)]
    exact hm

theorem visible_of_findByClient {clientId : String} (hclient : clientId ≠ "")
    (h : findByClient db scope actor clientId = some n) :
    Visible db.nodes scope actor n ∧ n.clientId = some clientId := by
  obtain ⟨hmem, hmatch⟩ := LiteDb.findNode_eq_some h
  obtain ⟨hseen, -, hc⟩ := (@matches_iff _ _ none (some clientId) nofun
    (fun h => hclient (Option.some.inj h)) _).1 hmatch
  exact ⟨⟨hmem, hseen⟩, hc clientId rfl⟩

theorem findByClient_eq_none {clientId : String} (hclient : clientId ≠ "") :
    findByClient db scope actor clientId = none ↔
      ¬ ∃ n, Visible db.nodes scope actor n ∧ n.clientId = some clientId := by
  refine ⟨?_, fun h => ?_⟩
  · rintro h ⟨n, ⟨hmem, hseen⟩, hc⟩
    have hmatch := (@matches_iff _ _ none (some clientId) nofun
      (fun h => hclient (Option.some.inj h)) n.toNodeKey).2
      ⟨hseen, nofun, fun c' hc' => hc.trans hc'⟩
    obtain ⟨m, hm⟩ := findNode_of_match rfl hmem hmatch
    cases hm.symm.trans h
  · refine Option.eq_none_iff_forall_ne_some.2 fun n hn => ?_
    exact h ⟨n, visible_of_findByClient hclient hn⟩

/-! ## Resolution -/

theorem mem_resolvedNodeIds :
    nodeId ∈ (resolveLifecycleNodes db scope actor ids clients).resolvedNodeIds ↔
      nodeId ∈ ids ∨ ∃ clientId ∈ clients, ∃ row,
        findByClient db scope actor clientId = some row ∧ row.id = nodeId := by
  show nodeId ∈ firstBy id _ ↔ _
  rw [mem_firstBy_id, List.mem_append]
  refine or_congr_right ?_
  simp only [List.mem_map, List.mem_filterMap, Option.map_eq_some_iff, Prod.exists]
  refine ⟨?_, ?_⟩
  · rintro ⟨c, i, ⟨c', hc', row, hrow, heq⟩, rfl⟩
    obtain ⟨rfl, rfl⟩ := Prod.mk.inj heq
    exact ⟨c', hc', row, hrow, rfl⟩
  · rintro ⟨c, hc, row, hrow, rfl⟩
    exact ⟨c, row.id, ⟨c, hc, row, hrow, rfl⟩, rfl⟩

theorem mem_foundRowsOf_iff (hids : "" ∉ ids) :
    n ∈ foundRowsOf db scope actor ids clients ↔
      (Visible db.nodes scope actor n ∧ n.id ∈ ids) ∨
        ∃ clientId ∈ clients, findByClient db scope actor clientId = some n := by
  unfold foundRowsOf
  rw [List.mem_append, List.mem_filterMap, List.mem_filterMap]
  refine or_congr_left ⟨?_, fun ⟨hseen, hid⟩ => ⟨n.id, hid, ?_⟩⟩
  · rintro ⟨i, hi, hfind⟩
    obtain ⟨hseen, rfl⟩ := (findById_eq_some fun h => hids (h ▸ hi)).1 hfind
    exact ⟨hseen, hi⟩
  · exact (findById_eq_some fun h => hids (h ▸ hid)).2 ⟨hseen, rfl⟩

theorem visible_of_mem_foundRowsOf (hids : "" ∉ ids) (hclients : "" ∉ clients)
    (hn : n ∈ foundRowsOf db scope actor ids clients) : Visible db.nodes scope actor n := by
  rcases (mem_foundRowsOf_iff hids).1 hn with ⟨hseen, -⟩ | ⟨c, hc, hfind⟩
  · exact hseen
  · exact (visible_of_findByClient (fun h => hclients (h ▸ hc)) hfind).1

theorem find_foundRowsOf (hn : n ∈ foundRowsOf db scope actor ids clients) :
    (foundRowsOf db scope actor ids clients).reverse.find? (·.id == n.id) = some n := by
  cases hfind : (foundRowsOf db scope actor ids clients).reverse.find? (·.id == n.id) with
  | none =>
    have hnone := List.find?_eq_none.1 hfind n (List.mem_reverse.2 hn)
    exact absurd (beq_self_eq_true n.id) hnone
  | some m =>
    have hm := List.mem_reverse.1 (List.mem_of_find?_eq_some hfind)
    have hmid := List.find?_some (p := fun r : LiteNode => r.id == n.id) hfind
    rw [LiteDb.eq_of_id (mem_foundRowsOf hm).1 (mem_foundRowsOf hn).1 (beq_iff_eq.1 hmid)]

theorem id_mem_resolvedNodeIds (hids : "" ∉ ids)
    (hn : n ∈ foundRowsOf db scope actor ids clients) :
    n.id ∈ (resolveLifecycleNodes db scope actor ids clients).resolvedNodeIds := by
  refine mem_resolvedNodeIds.2 ?_
  rcases (mem_foundRowsOf_iff hids).1 hn with ⟨-, hid⟩ | ⟨c, hc, hfind⟩
  · exact .inl hid
  · exact .inr ⟨c, hc, n, hfind, rfl⟩

theorem mem_foundRows_iff (hids : "" ∉ ids) :
    n ∈ (resolveLifecycleNodes db scope actor ids clients).foundRows ↔
      n ∈ foundRowsOf db scope actor ids clients := by
  refine ⟨fun h => ?_, fun h => ?_⟩
  · obtain ⟨i, -, hi⟩ := List.mem_filterMap.1 h
    exact List.mem_reverse.1 (List.mem_of_find?_eq_some hi)
  · exact List.mem_filterMap.2 ⟨n.id, id_mem_resolvedNodeIds hids h, find_foundRowsOf h⟩

theorem mem_missingNodeIds (hids : "" ∉ ids) (hclients : "" ∉ clients) :
    nodeId ∈ (resolveLifecycleNodes db scope actor ids clients).missingNodeIds ↔
      nodeId ∈ ids ∧ ∀ n, Visible db.nodes scope actor n → n.id ≠ nodeId := by
  have hnone : ((foundRowsOf db scope actor ids clients).reverse.find? (·.id == nodeId)).isNone =
      true ↔ ∀ n ∈ foundRowsOf db scope actor ids clients, n.id ≠ nodeId := by
    rw [Option.isNone_iff_eq_none, List.find?_eq_none]
    simp only [List.mem_reverse, beq_iff_eq]
  refine (List.mem_filter.trans (and_congr mem_resolvedNodeIds hnone)).trans ?_
  refine ⟨fun ⟨hres, hrows⟩ => ?_, fun ⟨hid, hseen⟩ => ⟨.inl hid, fun n hn => ?_⟩⟩
  · rcases hres with hid | ⟨c, hc, row, hrow, hrowid⟩
    · exact ⟨hid, fun n hn hnid =>
        hrows n ((mem_foundRowsOf_iff hids).2 (.inl ⟨hn, hnid ▸ hid⟩)) hnid⟩
    · exact absurd hrowid (hrows row ((mem_foundRowsOf_iff hids).2 (.inr ⟨c, hc, hrow⟩)))
  · exact hseen n (visible_of_mem_foundRowsOf hids hclients hn)

theorem mem_missingClientIds (hclients : "" ∉ clients) {clientId : String} :
    clientId ∈ (resolveLifecycleNodes db scope actor ids clients).missingClientIds ↔
      clientId ∈ clients ∧
        ¬ ∃ n, Visible db.nodes scope actor n ∧ n.clientId = some clientId := by
  refine List.mem_filter.trans (and_congr_right fun hc => ?_)
  rw [Option.isNone_iff_eq_none, findByClient_eq_none fun h => hclients (h ▸ hc)]

end Lookup

/-! ## The parts of a request -/

/-- The requested client ids, without white space around them and without blank ones. -/
def MemoryArchiveRehydrateInput.requestedClients (body : MemoryArchiveRehydrateInput) :
    List String :=
  (body.clientIds.getD []).map trim |>.filter (· ≠ "")

/-- The node is in one of the lists and not in the other: moved if it was colder. -/
def Sorted (body : MemoryArchiveRehydrateInput) (r : RehydratedSummary) (n : LiteNode) : Prop :=
  if movable body n then n.id ∈ r.movedIds ∧ n.id ∉ r.noopIds
  else n.id ∈ r.noopIds ∧ n.id ∉ r.movedIds

/-- Every requested id is accounted for, as it names a node that the actor sees or none. -/
structure Partitioned (nodes : List LiteNode) (scope actor : String)
    (body : MemoryArchiveRehydrateInput) (r : RehydratedSummary) : Prop where
  nodeIds : ∀ id ∈ body.nodeIds.getD [], ∀ n, Visible nodes scope actor n →
    lowerId n.id = lowerId id → Sorted body r n
  missingNodeIds : ∀ id ∈ body.nodeIds.getD [], lowerId id ∈ r.missingNodeIds ↔
    ¬ ∃ n, Visible nodes scope actor n ∧ lowerId n.id = lowerId id
  clientIds : ∀ c ∈ body.requestedClients,
    (∃ n, Visible nodes scope actor n ∧ n.clientId = some c) →
      ∃ n, Visible nodes scope actor n ∧ n.clientId = some c ∧ Sorted body r n
  missingClientIds : ∀ c ∈ body.requestedClients, c ∈ r.missingClientIds ↔
    ¬ ∃ n, Visible nodes scope actor n ∧ n.clientId = some c
  listed : ∀ id ∈ r.movedIds ++ r.noopIds, ∃ n, Visible nodes scope actor n ∧ n.id = id ∧
    ((∃ i ∈ body.nodeIds.getD [], lowerId n.id = lowerId i) ∨
      ∃ c ∈ body.requestedClients, n.clientId = some c)

/-- The moved nodes are of the target tier, no node is colder, and the others are as they were. -/
structure Moved (body : MemoryArchiveRehydrateInput) (movedIds : List String)
    (nodes nodes' : List LiteNodeRow) : Prop where
  keys : nodes'.map (·.toNodeKey) = nodes.map (·.toNodeKey)
  rows : ∀ n ∈ nodes, ∃ n' ∈ nodes', n'.id = n.id ∧
    (n.id ∈ movedIds → n'.tier = body.targetTier.name) ∧
    memoryTierRank n.tier ≤ memoryTierRank n'.tier ∧ (n.id ∉ movedIds → n' = n)

/-! ## The lists of a call -/

theorem toLower_toLower (c : Char) : c.toLower.toLower = c.toLower := by
  by_cases hupper : 65 ≤ c.toNat ∧ c.toNat ≤ 90
  · have hc : Char.ofNat c.toNat = c := Char.ofNat_toNat c
    obtain ⟨hlo, hhi⟩ := hupper
    generalize c.toNat = n at hc hlo hhi
    subst hc
    interval_cases n <;> rfl
  · have hself : c.toLower = c := dif_neg hupper
    rw [hself, hself]

theorem lowerId_lowerId (s : String) : lowerId (lowerId s) = lowerId s := by
  unfold lowerId
  rw [String.toList_ofList, List.map_map]
  refine congrArg String.ofList (List.map_congr_left fun c _ => ?_)
  exact toLower_toLower c

theorem lowerId_ne_empty {s : String} (h : s ≠ "") : lowerId s ≠ "" := by
  intro hs
  have hlist := congrArg String.toList hs
  unfold lowerId at hlist
  rw [String.toList_ofList, String.toList_empty, List.map_eq_nil_iff] at hlist
  exact h (String.toList_inj.1 hlist)

section Lists

variable {db : LiteDb} {scope actor : String} {ids clients : List String} {n : LiteNode}
variable {body : MemoryArchiveRehydrateInput} {t : ActivateTarget}

theorem sorted_iff (hres : t.resolved = resolveLifecycleNodes db scope actor ids clients)
    (hids : "" ∉ ids) (hn : n ∈ db.nodes) :
    Sorted body (rehydratedSummary body t) n ↔
      n ∈ foundRowsOf db scope actor ids clients := by
  have hfound : ∀ m ∈ t.resolved.foundRows, m.id = n.id → m = n := by
    intro m hm hid
    rw [hres, mem_foundRows_iff hids] at hm
    exact LiteDb.eq_of_id (mem_foundRowsOf hm).1 hn hid
  have hmoved : n.id ∈ (movableRows body t).map (·.id) ↔
      n ∈ t.resolved.foundRows ∧ movable body n = true := by
    refine List.mem_map.trans ⟨?_, fun ⟨hm, hmov⟩ => ⟨n, List.mem_filter.2 ⟨hm, hmov⟩, rfl⟩⟩
    rintro ⟨m, hm, hid⟩
    obtain ⟨hm, hmov⟩ := List.mem_filter.1 hm
    obtain rfl := hfound m hm hid
    exact ⟨hm, hmov⟩
  have hnoop : n.id ∈ noopIds body t ↔ n ∈ t.resolved.foundRows ∧ ¬ movable body n = true := by
    refine List.mem_map.trans
      ⟨?_, fun ⟨hm, hmov⟩ => ⟨n, List.mem_filter.2 ⟨hm, by simp [hmov]⟩, rfl⟩⟩
    rintro ⟨m, hm, hid⟩
    obtain ⟨hm, hmov⟩ := List.mem_filter.1 hm
    obtain rfl := hfound m hm hid
    exact ⟨hm, by simpa using hmov⟩
  rw [← mem_foundRows_iff hids, ← hres]
  unfold Sorted rehydratedSummary
  dsimp only
  rw [hmoved, hnoop]
  split
  · next h => exact ⟨fun hs => hs.1.1, fun hm => ⟨⟨hm, h⟩, fun hno => hno.2 h⟩⟩
  · next h => exact ⟨fun hs => hs.1.1, fun hm => ⟨⟨hm, h⟩, fun hmo => h hmo.2⟩⟩

theorem empty_not_mem_requestedClients : "" ∉ body.requestedClients := by
  unfold MemoryArchiveRehydrateInput.requestedClients
  rw [List.mem_filter]
  exact fun h => absurd rfl (of_decide_eq_true h.2)

/-- The requested node ids as the call looks them up. -/
def requestedIds (body : MemoryArchiveRehydrateInput) : List String :=
  uniqStrings ((body.nodeIds.getD []).map lowerId)

theorem mem_requestedIds {nodeId : String} :
    nodeId ∈ requestedIds body ↔ ∃ i ∈ body.nodeIds.getD [], lowerId i = nodeId := by
  unfold requestedIds uniqStrings
  rw [mem_firstBy_id, List.mem_map]

theorem empty_not_mem_requestedIds (hnodeIds : ∀ i ∈ body.nodeIds.getD [], i ≠ "") :
    "" ∉ requestedIds body := by
  intro h
  obtain ⟨i, hi, hlower⟩ := mem_requestedIds.1 h
  exact lowerId_ne_empty (hnodeIds i hi) hlower

/-- Nodes that a requested id stands for are stored under its lower-case spelling; or beside one
that is, and then a requested client id finds them. -/
def StoredLower (db : LiteDb) (scope actor : String) (body : MemoryArchiveRehydrateInput) : Prop :=
  ∀ i ∈ body.nodeIds.getD [], ∀ n, Visible db.nodes scope actor n →
    lowerId n.id = lowerId i → n.id = lowerId i ∨
      (∃ m, Visible db.nodes scope actor m ∧ m.id = lowerId i) ∧
        ∃ c ∈ body.requestedClients, findByClient db scope actor c = some n

/-- The requested ids are accounted for exactly if they match the stored ids as they are. -/
theorem partitioned_iff (hnodeIds : ∀ i ∈ body.nodeIds.getD [], i ≠ "")
    (hres : t.resolved = resolveLifecycleNodes db scope actor (requestedIds body)
      (uniqStrings body.requestedClients)) :
    Partitioned db.nodes scope actor body (rehydratedSummary body t) ↔
      StoredLower db scope actor body := by
  have hids := empty_not_mem_requestedIds hnodeIds
  have hmemclients : ∀ c, c ∈ uniqStrings body.requestedClients ↔ c ∈ body.requestedClients :=
    fun c => mem_firstBy_id
  have hclients : "" ∉ uniqStrings body.requestedClients :=
    fun h => empty_not_mem_requestedClients ((hmemclients _).1 h)
  have hmissing : ∀ i, i ∈ (rehydratedSummary body t).missingNodeIds ↔
      i ∈ requestedIds body ∧ ∀ n, Visible db.nodes scope actor n → n.id ≠ i := by
    intro i
    unfold rehydratedSummary
    rw [hres]
    exact mem_missingNodeIds hids hclients
  have hsorted : ∀ n, Visible db.nodes scope actor n →
      (Sorted body (rehydratedSummary body t) n ↔ n.id ∈ requestedIds body ∨
        ∃ c ∈ body.requestedClients, findByClient db scope actor c = some n) := by
    intro n hn
    rw [sorted_iff hres hids hn.1, mem_foundRowsOf_iff hids, and_iff_right hn]
    simp only [hmemclients]
  refine ⟨fun h i hi n hn hid => ?_, fun h => ⟨fun i hi n hn hid => ?_, fun i hi => ?_,
    fun c hc hnamed => ?_, fun c hc => ?_, fun id hid => ?_⟩⟩
  · rcases (hsorted n hn).1 (h.nodeIds i hi n hn hid) with hmem | hclient
    · obtain ⟨j, -, hj⟩ := mem_requestedIds.1 hmem
      rw [← hid, ← hj, lowerId_lowerId]
      exact .inl rfl
    · have hnot : lowerId i ∉ (rehydratedSummary body t).missingNodeIds :=
        fun hm => (h.missingNodeIds i hi).1 hm ⟨n, hn, hid⟩
      rw [hmissing, not_and] at hnot
      refine .inr ⟨by_contra fun hnone => ?_, hclient⟩
      exact hnot (mem_requestedIds.2 ⟨i, hi, rfl⟩) fun m hm hmid => hnone ⟨m, hm, hmid⟩
  · refine (hsorted n hn).2 ((h i hi n hn hid).imp (fun hlower => ?_) fun hother => hother.2)
    exact mem_requestedIds.2 ⟨i, hi, hlower.symm⟩
  · rw [hmissing]
    refine ⟨?_, fun hnone => ⟨mem_requestedIds.2 ⟨i, hi, rfl⟩, fun n hn hid => ?_⟩⟩
    · rintro ⟨-, hnone⟩ ⟨n, hn, hid⟩
      rcases h i hi n hn hid with hlower | ⟨⟨m, hm, hmid⟩, -⟩
      · exact hnone n hn hlower
      · exact hnone m hm hmid
    · exact hnone ⟨n, hn, by rw [hid, lowerId_lowerId]⟩
  · have hne : c ≠ "" := fun h => empty_not_mem_requestedClients (h ▸ hc)
    cases hfind : findByClient db scope actor c with
    | none => exact absurd hnamed ((findByClient_eq_none hne).1 hfind)
    | some n =>
      obtain ⟨hn, hclient⟩ := visible_of_findByClient hne hfind
      exact ⟨n, hn, hclient, (hsorted n hn).2 (.inr ⟨c, hc, hfind⟩)⟩
  · unfold rehydratedSummary
    rw [hres]
    exact (@mem_missingClientIds _ _ _ (requestedIds body) _ hclients _).trans
      (and_iff_right ((hmemclients c).2 hc))
  · have hfound : ∃ n ∈ t.resolved.foundRows, n.id = id := by
      rcases List.mem_append.1 hid with hid | hid
      · obtain ⟨n, hn, hnid⟩ := List.mem_map.1 hid
        exact ⟨n, (List.mem_filter.1 hn).1, hnid⟩
      · obtain ⟨n, hn, hnid⟩ := List.mem_map.1 hid
        exact ⟨n, (List.mem_filter.1 hn).1, hnid⟩
    obtain ⟨n, hn, hnid⟩ := hfound
    rw [hres, mem_foundRows_iff hids] at hn
    have hseen := visible_of_mem_foundRowsOf hids hclients hn
    refine ⟨n, hseen, hnid, ?_⟩
    rcases (mem_foundRowsOf_iff hids).1 hn with ⟨-, hmem⟩ | ⟨c, hc, hfind⟩
    · obtain ⟨j, hj, hlower⟩ := mem_requestedIds.1 hmem
      exact .inl ⟨j, hj, by rw [← hlower, lowerId_lowerId]⟩
    · have hne : c ≠ "" := fun h => hclients (h ▸ hc)
      exact .inr ⟨c, (hmemclients c).1 hc, (visible_of_findByClient hne hfind).2⟩

end Lists

/-! ## The rows after a call -/

section Rows

variable {env : LifecycleEnv} {t t' : LiteTables} {c : RehydrateCall} {r : RehydrateResult}

theorem updatedRow_eq (updates : List NodeAnchorUpdate) (n : LiteNodeRow) :
    updatedRow updates n =
      { n with toLiteNode := updates.foldl (fun n u => u.on n) n.toLiteNode } := by
  induction updates generalizing n with
  | nil => rfl
  | cons u updates ih =>
    refine (ih (LiteTables.anchorUpdate u n)).trans ?_
    rfl

/-- A call that returns found a target, and updated its movable rows. -/
theorem rehydrateArchiveNodesLite_ok
    (h : rehydrateArchiveNodesLite env t c = .ok (r, t')) :
    ∃ target commitId, rehydrateTarget env (liteDb env.crypto t) c.body = .ok target ∧
      r.rehydrated = rehydratedSummary c.body target ∧
      t'.nodes = t.nodes.map (updatedRow ((movableRows c.body target).map
        (rehydrateUpdate env c target.tenancy.scopeKey commitId))) := by
  obtain ⟨target, htarget, h⟩ := bind_eq_ok.1 h
  split at h
  · next hnil =>
    cases h
    refine ⟨target, "", htarget, rfl, ?_⟩
    rw [hnil]
    exact (List.map_id _).symm
  · cases h
    refine ⟨target, ((rehydrateJob env t c target).insert env.crypto c.now t).1, htarget, rfl, ?_⟩
    refine (foldl_updateNodeAnchorState _ _).1.trans ?_
    rw [JobCommit.insert, (t.insertCommit_frame _ _ _).1]

theorem moved_of_updates {target : ActivateTarget} {commitId : String}
    (hrows : ∀ row ∈ movableRows c.body target,
      row ∈ (liteDb env.crypto t).nodes ∧ row.scope = target.tenancy.scopeKey)
    (hnodes : t'.nodes = t.nodes.map (updatedRow ((movableRows c.body target).map
      (rehydrateUpdate env c target.tenancy.scopeKey commitId)))) :
    Moved c.body ((movableRows c.body target).map (·.id)) t.nodes t'.nodes := by
  rw [hnodes]
  have hkey : ∀ (us : List NodeAnchorUpdate) (n : LiteNodeRow),
      (updatedRow us n).toNodeKey = n.toNodeKey := by
    intro us n
    rw [updatedRow_eq]
    exact foldl_on_toNodeKey us n.toLiteNode
  refine ⟨?_, fun n hn => ⟨_, List.mem_map_of_mem hn, congrArg NodeKey.id (hkey _ n), ?_⟩⟩
  · rw [List.map_map]
    exact List.map_congr_left fun n _ => hkey _ n
  rw [updatedRow_eq]
  by_cases hid : n.id ∈ (movableRows c.body target).map (·.id)
  · -- the row that was found under the id is this one
    obtain ⟨row, hrow, hrowid⟩ := List.mem_map.1 hid
    have hrowmem := hrows row hrow
    have hself : row = n.toLiteNode :=
      LiteDb.eq_of_id hrowmem.1 (List.mem_map_of_mem hn) hrowid
    have htier : (((movableRows c.body target).map
        (rehydrateUpdate env c target.tenancy.scopeKey commitId)).foldl
          (fun n u => u.on n) n.toLiteNode).tier = c.body.targetTier.name := by
      refine foldl_on_of_hit (P := fun n => n.tier = c.body.targetTier.name) (fun u hu m => ?_)
        (.inr ⟨_, List.mem_map_of_mem hrow, ?_, hrowid.symm⟩)
      · obtain ⟨row, -, rfl⟩ := List.mem_map.1 hu
        show (given (some c.body.targetTier.name)).getD m.tier = _
        rw [given_of_ne (by cases c.body.targetTier <;> decide)]
        rfl
      · rw [← hself]
        exact hrowmem.2
    have hcolder := of_decide_eq_true (List.mem_filter.1 hrow).2
    rw [hself] at hcolder
    refine ⟨fun _ => htier, ?_, fun hnot => absurd hid hnot⟩
    dsimp only
    rw [htier]
    refine hcolder.le.trans ?_
    cases c.body.targetTier <;> exact le_rfl
  · have hsame := @foldl_on_of_miss ((movableRows c.body target).map
        (rehydrateUpdate env c target.tenancy.scopeKey commitId)) n.toLiteNode (by
      intro u hu hhit
      obtain ⟨row, hrow, rfl⟩ := List.mem_map.1 hu
      exact hid (List.mem_map.2 ⟨row, hrow, hhit.2.symm⟩))
    rw [hsame]
    exact ⟨fun h => absurd h hid, le_rfl, fun _ => rfl⟩

end Rows

/-! ## The call -/

/-- What the report says of the request and of the rows; a call is refused only when it names no
node id and no client id of a node that the actor sees. -/
def Accounted (env : LifecycleEnv) (t : LiteTables) (c : RehydrateCall) (scope : String) : Prop :=
  let nodes := t.nodes.map (·.toLiteNode)
  let actor := c.body.actor.getD env.defaultActor
  match rehydrateArchiveNodesLite env t c with
  | .ok (result, t') =>
    Partitioned nodes scope actor c.body result.rehydrated ∧
      Moved c.body result.rehydrated.movedIds t.nodes t'.nodes
  | .error _ => c.body.nodeIds.getD [] = [] ∧ ∀ clientId ∈ c.body.requestedClients,
      ¬ ∃ n, Visible nodes scope actor n ∧ n.clientId = some clientId

/-- A call accounts for every requested id exactly if the nodes it stands for are stored in lower
case. -/
theorem rehydrateArchiveNodesLite_accounted_iff (env : LifecycleEnv) (t : LiteTables)
    (c : RehydrateCall) {tenancy : TenantScope}
    (htenancy : resolveTenantScope ⟨c.body.tenantId, c.body.scope⟩ env.defaults = .ok tenancy)
    (hnodeIds : ∀ i ∈ c.body.nodeIds.getD [], i ≠ "") :
    Accounted env t c tenancy.scopeKey ↔
      StoredLower (liteDb env.crypto t) tenancy.scopeKey (c.body.actor.getD env.defaultActor)
        c.body := by
  have htarget : rehydrateTarget env (liteDb env.crypto t) c.body =
      if (resolveLifecycleNodes (liteDb env.crypto t) tenancy.scopeKey
        (c.body.actor.getD env.defaultActor) (requestedIds c.body)
        (uniqStrings c.body.requestedClients)).resolvedNodeIds = [] then
        .error (badRequest "rehydrate_no_resolved_nodes"
          "No valid node_ids/client_ids resolved under this scope" none)
      else .ok ⟨tenancy, c.body.actor.getD env.defaultActor, requestedIds c.body,
        uniqStrings c.body.requestedClients, resolveLifecycleNodes (liteDb env.crypto t)
          tenancy.scopeKey (c.body.actor.getD env.defaultActor) (requestedIds c.body)
          (uniqStrings c.body.requestedClients)⟩ := by
    unfold rehydrateTarget
    rw [htenancy]
    rfl
  unfold Accounted
  cases h : rehydrateArchiveNodesLite env t c with
  | error e =>
    have hnil : (resolveLifecycleNodes (liteDb env.crypto t) tenancy.scopeKey
        (c.body.actor.getD env.defaultActor) (requestedIds c.body)
        (uniqStrings c.body.requestedClients)).resolvedNodeIds = [] := by
      by_contra hne
      unfold rehydrateArchiveNodesLite at h
      rw [htarget, if_neg hne] at h
      dsimp only [bind, Except.bind] at h
      split at h <;> cases h
    have hnone : ∀ i, i ∉ requestedIds c.body := fun i hi =>
      List.ne_nil_of_mem (mem_resolvedNodeIds.2 (.inl hi)) hnil
    have hnodes : c.body.nodeIds.getD [] = [] :=
      List.eq_nil_iff_forall_not_mem.2 fun i hi => hnone _ (mem_requestedIds.2 ⟨i, hi, rfl⟩)
    refine iff_of_true ⟨hnodes, fun clientId hc => ?_⟩ fun i hi => ?_
    · have hne : clientId ≠ "" := fun h => empty_not_mem_requestedClients (h ▸ hc)
      refine (@findByClient_eq_none (liteDb env.crypto t) _ _ _ hne).1 ?_
      refine Option.eq_none_iff_forall_ne_some.2 fun n hn => ?_
      exact List.ne_nil_of_mem
        (mem_resolvedNodeIds.2 (.inr ⟨clientId, mem_firstBy_id.2 hc, n, hn, rfl⟩)) hnil
    · rw [hnodes] at hi
      cases hi
  | ok pair =>
    obtain ⟨r, t'⟩ := pair
    obtain ⟨target, commitId, hok, hsummary, hnodes⟩ := rehydrateArchiveNodesLite_ok h
    rw [htarget] at hok
    split at hok
    · cases hok
    · obtain rfl := Except.ok.inj hok
      dsimp only
      rw [hsummary]
      have hpart := partitioned_iff (t := ⟨tenancy, c.body.actor.getD env.defaultActor,
        requestedIds c.body, uniqStrings c.body.requestedClients, _⟩) hnodeIds
        (Eq.refl (resolveLifecycleNodes (liteDb env.crypto t) tenancy.scopeKey
          (c.body.actor.getD env.defaultActor) (requestedIds c.body)
          (uniqStrings c.body.requestedClients)))
      refine ⟨fun hboth => hpart.1 hboth.1, fun hlower => ⟨hpart.2 hlower, ?_⟩⟩
      exact moved_of_updates (fun row hrow => mem_foundRows (List.mem_filter.1 hrow).1) hnodes

/-! ## One node stored in upper case -/

private def archivedRow (id : String) : LiteNodeRow where
  id := id
  scope := "default"
  type := "event"
  createdAt := ""
  tier := "archive"
  slots := []
  salience := 0
  importance := 0
  confidence := 0
  commitId := ""

private def oneRow (id : String) : LiteTables :=
  { LiteTables.empty with nodes := [archivedRow id], nodeIds := List.nodup_singleton _ }

private def rehydrateOne (id : String) : RehydrateCall :=
  ⟨{ nodeIds := some [id], inputSha256 := some "00" }, "t1", "t2"⟩

theorem rehydrateArchiveNodesLite_accounted_iff_lower :
    Accounted plainEnv (oneRow "a3bb189e-8bf9-3888-9912-ace4e6543002")
        (rehydrateOne "A3BB189E-8BF9-3888-9912-ACE4E6543002") "default" ↔
      StoredLower (liteDb plainEnv.crypto (oneRow "a3bb189e-8bf9-3888-9912-ace4e6543002"))
        "default" "local" (rehydrateOne "A3BB189E-8BF9-3888-9912-ACE4E6543002").body :=
  @rehydrateArchiveNodesLite_accounted_iff plainEnv _ _ ⟨"default", "default", "default"⟩
    (by decide) (by decide)

/-- A node stored in upper case is reported missing. -/
theorem upper_case_missing :
    ¬ Accounted plainEnv (oneRow "A3BB189E-8BF9-3888-9912-ACE4E6543002")
      (rehydrateOne "A3BB189E-8BF9-3888-9912-ACE4E6543002") "default" := by
  unfold Accounted
  have hcall : rehydrateArchiveNodesLite plainEnv
      (oneRow "A3BB189E-8BF9-3888-9912-ACE4E6543002")
      (rehydrateOne "A3BB189E-8BF9-3888-9912-ACE4E6543002") =
        .ok ⟨⟨"default", "default", .warm, none, none,
          ⟨1, 0, 1, 0, 0, 0, ["a3bb189e-8bf9-3888-9912-ace4e6543002"], [], [], []⟩⟩,
          oneRow "A3BB189E-8BF9-3888-9912-ACE4E6543002"⟩ := by
    rfl
  rw [hcall]
  intro h
  refine (h.1.missingNodeIds "A3BB189E-8BF9-3888-9912-ACE4E6543002" ?_).1 ?_
    ⟨(archivedRow "A3BB189E-8BF9-3888-9912-ACE4E6543002").toLiteNode, ⟨?_, ?_, ?_⟩, ?_⟩
  · decide
  · decide
  · exact List.mem_singleton_self _
  · rfl
  · decide
  · rfl

end AionisCore.Memory
