import AionisCore.Memory.NodeExecutionSurface
import AionisCore.Store.ReadIsolation

/-!
# Searches for nodes, page by page

`findNodes` runs its query with a limit, or without one where the slots are checked after the
query. Either way a page is a part of one list, the matching nodes in their order.
`findExecutionNativeNodes` cuts its pages from the nodes that match among the newest ones.
-/

namespace AionisCore.Store

open Lib Lib.Query Lib.Table Memory

/-! ## Conditions on slots -/

/-- A value as SQLite compares it. -/
inductive SqlValue where
  | null
  | num (q : ℚ)
  | text (s : String)
  deriving DecidableEq, Repr

/-- `a = b` is true. -/
def SqlValue.equal (a b : SqlValue) : Bool := a ≠ .null && a = b

/-- One condition of the `WHERE` clause, on the value under a top-level key. -/
inductive SlotsCondition where
  | isNull (path : String)
  | equals (path : String) (param : SqlValue)
  deriving DecidableEq, Repr

/-- `[A-Za-z0-9_]`. -/
def isPathChar (c : Char) : Bool := c.isAlphanum || c == '_'

/-- The key, where it can stand in a path. -/
def sqliteJsonPathForTopLevelKey (key : String) : Option String :=
  if key ≠ "" ∧ key.toList.all isPathChar then some key else none

def slotsCondition (path : String) : Json → Option SlotsCondition
  | .null => some (.isNull path)
  | .str s => some (.equals path (.text s))
  | .num q => some (.equals path (.num q))
  | .bool b => some (.equals path (.num (if b then 1 else 0)))
  | .arr _ | .obj _ => none

def buildSimpleSlotsSqlFilters (slotsContains : Json.Fields) : List SlotsCondition :=
  slotsContains.filterMap fun f =>
    (sqliteJsonPathForTopLevelKey f.1).bind fun path => slotsCondition path f.2

section Slots

variable (minify : Json → String) (slots : Json.Fields)

/-- `json_extract(slots_json, path)`; objects and arrays come as their text. -/
def jsonExtract (path : String) : SqlValue :=
  match Json.get slots path with
  | none | some .null => .null
  | some (.bool b) => .num (if b then 1 else 0)
  | some (.num q) => .num q
  | some (.str s) => .text s
  | some v => .text (minify v)

def SlotsCondition.holds : SlotsCondition → Bool
  | .isNull path => Json.get slots path == some .null
  | .equals path param => (jsonExtract minify slots path).equal param

end Slots

/-- The environment of the queries of SQLite. -/
def sqliteQueryText (toLowerCase : String → String) (minify : Json → String) : QueryText where
  toLowerCase := toLowerCase
  slotsClause slots expected :=
    (buildSimpleSlotsSqlFilters expected).all fun c => c.holds minify slots

theorem fieldsContain_iff {actual expected : Json.Fields} :
    fieldsContain actual expected = true ↔
      ∀ f ∈ expected, jsonContains (Json.get actual f.1) f.2 = true := by
  induction expected with
  | nil => simp [fieldsContain]
  | cons f expected ih =>
    obtain ⟨k, v⟩ := f
    rw [fieldsContain, fieldContains, Bool.and_eq_true, ih, List.forall_mem_cons]

/-- Slots that contain a value meet the condition the query derives from it. -/
theorem slotsCondition_holds {minify : Json → String} {slots : Json.Fields} {path : String}
    {value : Json} {c : SlotsCondition} (hc : slotsCondition path value = some c)
    (h : jsonContains (Json.get slots path) value = true) : c.holds minify slots = true := by
  cases value with
  | arr xs => cases hc
  | obj r => cases hc
  | null =>
    cases hc
    exact h
  | _ =>
    cases hc
    have hget := beq_iff_eq.1 h
    rw [SlotsCondition.holds, jsonExtract, hget]
    simp [SqlValue.equal]

/-- The query drops no node whose slots contain what is asked for. -/
theorem slotsClause_of_jsonContains {toLowerCase : String → String} {minify : Json → String}
    {expected slots : Json.Fields}
    (h : jsonContains (some (.obj slots)) (.obj expected) = true) :
    (sqliteQueryText toLowerCase minify).slotsClause slots expected = true := by
  refine List.all_eq_true.2 fun c hc => ?_
  obtain ⟨f, hf, hpath⟩ := List.mem_filterMap.1 hc
  obtain ⟨path, hkey, hcond⟩ := Option.bind_eq_some_iff.1 hpath
  obtain rfl : f.1 = path := by
    unfold sqliteJsonPathForTopLevelKey at hkey
    split at hkey
    · exact Option.some.inj hkey
    · cases hkey
  exact slotsCondition_holds hcond (fieldsContain_iff.1 h f hf)

/-! ## The two plans of `findNodes` -/

/-- The filters of a search other than those on the slots. -/
def FindNodesQuery.scalars (toLowerCase : String → String) (q : FindNodesQuery)
    (n : LiteNodeRow) : Bool :=
  q.matches n.toNodeKey &&
    (given q.titleContains).all (fun s => likeContains n.title (toLowerCase s)) &&
    (given q.textContains).all (fun s => likeContains n.textSummary (toLowerCase s)) &&
    q.memoryLane.all (n.memoryLane == ·)

/-- `!args.slotsContains || jsonContains(row.slots, args.slotsContains)`. -/
def FindNodesQuery.contains (q : FindNodesQuery) (n : LiteNodeRow) : Bool :=
  q.slotsContains.all fun expected => jsonContains (some (.obj n.slots)) (.obj expected)

namespace LiteTables

variable (t : LiteTables) (toLowerCase : String → String) (minify : Json → String)

/-- `LIMIT` and `OFFSET` are left to the end where the slots have to be verified. -/
def findNodesByPlan (q : FindNodesQuery) : List LiteNodeRow × Bool :=
  let requiresSlotsJsonVerification := q.slotsContains.isSome
  let selected := orderByDesc LiteNodeRow.newest
    (t.nodes.filter (q.whereClause (sqliteQueryText toLowerCase minify)))
  let rows :=
    if requiresSlotsJsonVerification then selected
    else (selected.drop q.offset).take (q.limit + 1)
  let filtered := rows.filter q.contains
  let slice :=
    if requiresSlotsJsonVerification then (filtered.drop q.offset).take (q.limit + 1)
    else filtered
  let hasMore := decide (q.limit < slice.length)
  (if hasMore then slice.take q.limit else slice, hasMore)

/-- All nodes a search is about, the newest first. -/
def matchingNodes (q : FindNodesQuery) : List LiteNodeRow :=
  orderByDesc LiteNodeRow.newest
    (t.nodes.filter fun n => q.scalars toLowerCase n && q.contains n)

variable {t toLowerCase minify}
variable {q : FindNodesQuery}

theorem findNodesByPlan_eq_findNodes :
    t.findNodesByPlan toLowerCase minify q =
      t.findNodes (sqliteQueryText toLowerCase minify) q := by
  have hfind : t.findNodes (sqliteQueryText toLowerCase minify) q = page q.offset q.limit
      ((orderByDesc LiteNodeRow.newest
        (t.nodes.filter (q.whereClause (sqliteQueryText toLowerCase minify)))).filter
          q.contains) := rfl
  rw [hfind, findNodesByPlan, page]
  cases h : q.slotsContains with
  | some expected => simp only [Option.isSome_some, if_true]
  | none =>
    have hall : ∀ l : List LiteNodeRow, l.filter q.contains = l := fun l =>
      List.filter_eq_self.2 fun n _ => by rw [FindNodesQuery.contains, h]; rfl
    simp only [Option.isSome_none, Bool.false_eq_true, if_false, hall]

/-- Which nodes the query selects makes no difference among those that contain the slots. -/
theorem whereClause_and_contains {n : LiteNodeRow} :
    (q.whereClause (sqliteQueryText toLowerCase minify) n && q.contains n) =
      (q.scalars toLowerCase n && q.contains n) := by
  cases hc : q.contains n with
  | false => rw [Bool.and_false, Bool.and_false]
  | true =>
    have hslots : q.slotsContains.all (fun expected =>
        (sqliteQueryText toLowerCase minify).slotsClause n.slots expected) = true := by
      rw [FindNodesQuery.contains] at hc
      cases h : q.slotsContains with
      | none => rfl
      | some expected =>
        rw [h] at hc
        exact slotsClause_of_jsonContains hc
    rw [FindNodesQuery.whereClause, hslots, Bool.and_true]
    rfl

theorem findNodesByPlan_eq_page :
    t.findNodesByPlan toLowerCase minify q =
      page q.offset q.limit (t.matchingNodes toLowerCase q) := by
  have hrows : (orderByDesc LiteNodeRow.newest
      (t.nodes.filter (q.whereClause (sqliteQueryText toLowerCase minify)))).filter q.contains =
      t.matchingNodes toLowerCase q := by
    rw [← orderByDesc_filter, List.filter_filter, matchingNodes]
    congr 1
    refine List.filter_congr fun n _ => ?_
    rw [Bool.and_comm, whereClause_and_contains]
  rw [findNodesByPlan_eq_findNodes, ← hrows]
  rfl

/-- Selections of the nodes are in a strict order. -/
theorem orderByDesc_newest_pairwise (p : LiteNodeRow → Bool) :
    (orderByDesc LiteNodeRow.newest (t.nodes.filter p)).Pairwise
      fun m n => n.newest < m.newest :=
  orderByDesc_pairwise_lt (unique_newest t).filter

/-- A search returns its part of the list of all matching nodes, and says whether the list goes
on; the query drops no node that contains the slots; and the pages of one length make up the
list, in which each matching node stands once, the newest first. -/
theorem findNodes_pages (t : LiteTables) (toLowerCase : String → String)
    (minify : Json → String) (q : FindNodesQuery) :
    (∀ slots expected, jsonContains (some (.obj slots)) (.obj expected) = true →
      (sqliteQueryText toLowerCase minify).slotsClause slots expected = true) ∧
    t.findNodesByPlan toLowerCase minify q =
      (((t.matchingNodes toLowerCase q).drop q.offset).take q.limit,
        decide (q.offset + q.limit < (t.matchingNodes toLowerCase q).length)) ∧
    (∀ n, ((List.range n).flatMap fun k =>
        (t.findNodesByPlan toLowerCase minify { q with offset := k * q.limit }).1) =
      (t.matchingNodes toLowerCase q).take (n * q.limit)) ∧
    (∀ n, n ∈ t.matchingNodes toLowerCase q ↔
      n ∈ t.nodes ∧ q.scalars toLowerCase n = true ∧ q.contains n = true) ∧
    (t.matchingNodes toLowerCase q).Pairwise fun m n => n.newest < m.newest := by
  refine ⟨fun slots expected => slotsClause_of_jsonContains, ?_, fun n => ?_, fun n => ?_,
    orderByDesc_newest_pairwise _⟩
  · rw [findNodesByPlan_eq_page, page_eq]
  · rw [← flatMap_page]
    refine List.flatMap_congr fun k _ => ?_
    rw [findNodesByPlan_eq_page]
    rfl
  · rw [matchingNodes, mem_orderByDesc, List.mem_filter, Bool.and_eq_true]

/-! ## Execution-native nodes -/

structure LiteExecutionNativeNodeRow extends LiteNodeRow where
  executionNative : Json.Fields

structure FindExecutionNativeNodesArgs where
  scope : String
  consumerAgentId : Option String := none
  consumerTeamId : Option String := none
  executionKind : Option String := none
  anchorKind : Option String := none
  patternState : Option String := none
  taskSignature : Option String := none
  errorSignature : Option String := none
  workflowSignature : Option String := none
  patternSignature : Option String := none
  compressionLayer : Option String := none
  limit : Nat
  offset : Nat

namespace FindExecutionNativeNodesArgs

variable (a : FindExecutionNativeNodesArgs) (env : ScoringEnv)

/-- The search for the nodes that the filters are applied to. -/
def findNodesQuery (limit : Nat) : FindNodesQuery where
  scope := a.scope
  consumerAgentId := a.consumerAgentId
  consumerTeamId := a.consumerTeamId
  limit := limit
  offset := 0

/-- How many of the newest nodes are looked at. -/
def window : Nat := max (a.limit + a.offset + 32) 64

/-- `!filter || resolved === filter`. -/
def agrees (filter resolved : Option String) : Bool :=
  (given filter).all fun value => resolved == some value

def accepts (n : LiteNodeRow) : Bool :=
  agrees a.executionKind (resolveNodeExecutionKind n.slots) &&
    agrees a.anchorKind (resolveNodeAnchorKind n.slots) &&
    agrees a.patternState (resolveNodePatternState n.slots) &&
    agrees a.taskSignature (resolveNodeTaskSignature n.slots env) &&
    agrees a.errorSignature (resolveNodeErrorSignature n.slots) &&
    agrees a.workflowSignature (resolveNodeWorkflowSignature n.slots env) &&
    agrees a.patternSignature (resolveNodePatternSignature n.slots) &&
    agrees a.compressionLayer (resolveNodeCompressionLayer n.slots n.type)

/-- The row of a node that has an execution-native record and passes every filter. -/
def row (n : LiteNodeRow) : Option LiteExecutionNativeNodeRow :=
  match parseNodeExecutionNative n.slots with
  | none => none
  | some executionNative => if a.accepts env n then some { n with executionNative } else none

/-- The nodes of the scope that the consumer sees. -/
def sees (n : LiteNodeRow) : Bool := (a.findNodesQuery 0).matches n.toNodeKey

theorem row_toLiteNodeRow {a : FindExecutionNativeNodesArgs} {env : ScoringEnv}
    {n : LiteNodeRow} {r : LiteExecutionNativeNodeRow} (h : a.row env n = some r) :
    r.toLiteNodeRow = n := by
  unfold row at h
  split at h
  · cases h
  · split at h
    · cases h
      rfl
    · cases h

end FindExecutionNativeNodesArgs

section Native

variable (t : LiteTables) (toLowerCase : String → String) (minify : Json → String)
  (env : ScoringEnv) (a : FindExecutionNativeNodesArgs)

def findExecutionNativeNodes : List LiteExecutionNativeNodeRow × Bool :=
  let rows := (t.findNodesByPlan toLowerCase minify (a.findNodesQuery a.window)).1
  page a.offset a.limit (rows.filterMap (a.row env))

/-- The visible nodes, the newest first. -/
def visibleNodes : List LiteNodeRow :=
  orderByDesc LiteNodeRow.newest (t.nodes.filter a.sees)

/-- All visible nodes that match, the newest first. -/
def executionNativeNodes : List LiteExecutionNativeNodeRow :=
  (t.visibleNodes a).filterMap (a.row env)

end Native

variable {env : ScoringEnv} {a : FindExecutionNativeNodesArgs}

theorem matchingNodes_findNodesQuery (limit : Nat) :
    t.matchingNodes toLowerCase (a.findNodesQuery limit) = t.visibleNodes a := by
  unfold matchingNodes visibleNodes
  congr 1
  refine List.filter_congr fun n _ => ?_
  simp [FindNodesQuery.scalars, FindNodesQuery.contains,
    FindExecutionNativeNodesArgs.findNodesQuery, FindExecutionNativeNodesArgs.sees, given,
    FindNodesArgs.matches]

/-- The search is confined to the newest visible nodes. -/
theorem findExecutionNativeNodes_eq :
    t.findExecutionNativeNodes toLowerCase minify env a =
      page a.offset a.limit (((t.visibleNodes a).take a.window).filterMap (a.row env)) := by
  have hrows : (t.findNodesByPlan toLowerCase minify (a.findNodesQuery a.window)).1 =
      (t.visibleNodes a).take a.window := by
    rw [findNodesByPlan_eq_page, matchingNodes_findNodesQuery, page_eq]
    rfl
  unfold findExecutionNativeNodes
  rw [hrows]

theorem visibleNodes_pairwise : (t.visibleNodes a).Pairwise fun m n => n.newest < m.newest :=
  orderByDesc_newest_pairwise _

theorem visibleNodes_nodup : (t.visibleNodes a).Nodup :=
  visibleNodes_pairwise.imp fun {m n} hlt heq => by
    rw [heq] at hlt
    exact lt_irrefl _ hlt

/-- A visible node is looked at just if fewer nodes than the window holds are newer. -/
theorem mem_window_iff {n : LiteNodeRow} (hn : n ∈ t.visibleNodes a) {w : Nat} :
    n ∈ (t.visibleNodes a).take w ↔
      (t.nodes.filter fun m => a.sees m && decide (n.newest < m.newest)).length < w := by
  have hcount : ((t.visibleNodes a).filter fun m => decide (n.newest < m.newest)).length =
      (t.nodes.filter fun m => a.sees m && decide (n.newest < m.newest)).length := by
    rw [visibleNodes, ((orderByDesc_perm _ _).filter _).length_eq, List.filter_filter]
    congr 1
    refine List.filter_congr fun m _ => ?_
    rw [Bool.and_comm]
  rw [mem_take_iff_filter_length visibleNodes_pairwise hn, hcount]

/-- The page is the one of the list of all matching nodes just if this list has no part there, or
each matching node up to the one behind the page has fewer newer nodes beside it than the search
looks at. -/
theorem findExecutionNativeNodes_eq_page_iff (t : LiteTables) (toLowerCase : String → String)
    (minify : Json → String) (env : ScoringEnv) (a : FindExecutionNativeNodesArgs) :
    t.findExecutionNativeNodes toLowerCase minify env a =
        (((t.executionNativeNodes env a).drop a.offset).take a.limit,
          decide (a.offset + a.limit < (t.executionNativeNodes env a).length)) ↔
      (t.executionNativeNodes env a).length ≤ a.offset ∨
        ∀ r ∈ (t.executionNativeNodes env a).take (a.offset + a.limit + 1),
          (t.nodes.filter fun n => a.sees n && decide (r.newest < n.newest)).length <
            max (a.limit + a.offset + 32) 64 := by
  rw [findExecutionNativeNodes_eq, ← page_eq, executionNativeNodes, filterMap_take,
    page_take_eq_iff]
  refine or_congr_right ?_
  rw [min_length_le_iff (fun _ _ => a.row_toLiteNodeRow) visibleNodes_nodup]
  refine forall₂_congr fun r hr => ?_
  obtain ⟨n, hn, hrow⟩ := List.mem_filterMap.1 (List.mem_of_mem_take hr)
  obtain rfl := FindExecutionNativeNodesArgs.row_toLiteNodeRow hrow
  exact mem_window_iff hn

/-! ### An anchor behind other nodes -/

def plainNode (id createdAt : String) (slots : Json.Fields) : LiteNodeRow where
  id := id
  scope := "default"
  clientId := none
  type := "procedure"
  memoryLane := .sharedLane
  createdAt := createdAt
  slots := slots
  salience := 1 / 2
  importance := 1 / 2
  confidence := 1 / 2
  commitId := "c1"

/-- Sixty-four plain nodes, and a workflow anchor older than all of them. -/
def crowdedNodes : List LiteNodeRow :=
  ((List.range 64).map fun k =>
    plainNode (String.ofList [Char.ofNat (160 - k)]) "2" []) ++
  [plainNode "anchor" "1"
    [("execution_native_v1", .obj [("execution_kind", .str "workflow_anchor")])]]

def crowdedStore : LiteTables :=
  { LiteTables.empty with
    nodes := crowdedNodes
    nodeIds := by
      unfold Table.Unique
      decide +kernel }

def bareEnv : ScoringEnv := ⟨fun _ => none, fun _ => none, fun _ _ => none⟩

def anchorArgs : FindExecutionNativeNodesArgs where
  scope := "default"
  executionKind := some "workflow_anchor"
  limit := 1
  offset := 0

/-- The anchor is the only match and is not found. -/
theorem anchor_missed :
    (crowdedStore.executionNativeNodes bareEnv anchorArgs).map (·.id) = ["anchor"] ∧
      (crowdedStore.findExecutionNativeNodes id (fun _ => "") bareEnv anchorArgs).1.map (·.id) =
        [] := by
  decide +kernel

end LiteTables

end AionisCore.Store
