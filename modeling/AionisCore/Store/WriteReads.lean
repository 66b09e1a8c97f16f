import AionisCore.Lib.JsString
import AionisCore.Lib.Query
import AionisCore.Store.WriteTables
import Mathlib.Data.Prod.Lex
import Mathlib.Data.String.Basic

/-!
# Reads of nodes, edges and sessions

The searches of the Lite write store on behalf of a consumer. Rows stand for the views
that the store builds of their columns. Lanes are part of the `WHERE` clause in
`findNodes`, and are looked at after the query in the reads of edges and sessions.
-/

namespace AionisCore.Store

open Lib Lib.Query Util

/-- `ORDER BY created_at DESC, id DESC`. -/
def LiteNodeRow.newest (n : LiteNodeRow) : String ×ₗ String := toLex (n.createdAt, n.id)

/-! ## Nodes -/

mutual

/-- `jsonContains(actual, expected)`. -/
def jsonContains (actual : Option Json) : Json → Bool
  | .arr expected =>
    match actual with
    | some (.arr xs) => itemsContain xs expected
    | _ => false
  | .obj expected =>
    match actual with
    | some (.obj r) => fieldsContain r expected
    | _ => false
  | expected => actual == some expected

def itemsContain (actual : List Json) : List Json → Bool
  | [] => true
  | x :: expected => jsonContains actual.head? x && itemsContain actual.tail expected

def fieldsContain (actual : Json.Fields) : List (String × Json) → Bool
  | [] => true
  | f :: expected => fieldContains actual f && fieldsContain actual expected

def fieldContains (actual : Json.Fields) : String × Json → Bool
  | (k, v) => jsonContains (Json.get actual k) v

end

/-- `toLowerCase`, and the `WHERE` clauses on slots that precede `jsonContains`. -/
structure QueryText where
  toLowerCase : String → String
  slotsClause : Json.Fields → Json.Fields → Bool

/-- `LOWER(COALESCE(text, '')) LIKE '%pattern%'`, on ASCII letters of either case. -/
def likeContains (text : Option String) (pattern : String) : Bool :=
  (text.getD "").toLower.toList.tails.any fun rest =>
    pattern.toLower.toList.isPrefixOf rest

structure FindNodesQuery extends FindNodesArgs where
  titleContains : Option String := none
  textContains : Option String := none
  memoryLane : Option MemoryLane := none
  slotsContains : Option Json.Fields := none
  offset : Nat

def FindNodesQuery.whereClause (env : QueryText) (q : FindNodesQuery) (n : LiteNodeRow) : Bool :=
  q.matches n.toNodeKey &&
    (given q.titleContains).all (fun s => likeContains n.title (env.toLowerCase s)) &&
    (given q.textContains).all (fun s => likeContains n.textSummary (env.toLowerCase s)) &&
    q.memoryLane.all (n.memoryLane == ·) &&
    q.slotsContains.all (fun expected => env.slotsClause n.slots expected)

namespace LiteTables

variable (t : LiteTables)

/-- The rows and `has_more`. -/
def findNodes (env : QueryText) (q : FindNodesQuery) : List LiteNodeRow × Bool :=
  let rows := orderByDesc LiteNodeRow.newest (t.nodes.filter (q.whereClause env))
  page q.offset q.limit (rows.filter fun n =>
    q.slotsContains.all fun expected => jsonContains (some (.obj n.slots)) (.obj expected))

structure ResolveNodeArgs where
  scope : String
  id : String
  type : Option String := none
  consumerAgentId : Option String := none
  consumerTeamId : Option String := none

def resolveNode (env : QueryText) (a : ResolveNodeArgs) : Option LiteNodeRow :=
  (t.findNodes env {
    scope := a.scope
    id := some a.id
    type := a.type
    consumerAgentId := a.consumerAgentId
    consumerTeamId := a.consumerTeamId
    limit := 1
    offset := 0 }).1.head?

/-! ## Edges -/

/-- The row that a `JOIN` on the id and the scope finds. -/
def nodeIn (scope id : String) : Option LiteNodeRow :=
  t.nodes.find? fun n => n.id == id && n.scope == scope

/-- The edge with the type and the lane of its ends. -/
structure LiteResolveEdgeRow extends LiteEdgeRow where
  srcType : String
  srcMemoryLane : MemoryLane
  srcOwnerAgentId : Option String
  srcOwnerTeamId : Option String
  dstType : String
  dstMemoryLane : MemoryLane
  dstOwnerAgentId : Option String
  dstOwnerTeamId : Option String

def edgeView (e : LiteEdgeRow) (src dst : LiteNodeRow) : LiteResolveEdgeRow :=
  { e with
    srcType := src.type
    srcMemoryLane := src.memoryLane
    srcOwnerAgentId := src.ownerAgentId
    srcOwnerTeamId := src.ownerTeamId
    dstType := dst.type
    dstMemoryLane := dst.memoryLane
    dstOwnerAgentId := dst.ownerAgentId
    dstOwnerTeamId := dst.ownerTeamId }

def resolveEdge (scope id : String) (agent team : Option String) : Option LiteResolveEdgeRow := do
  let e ← t.edges.find? fun e => e.scope == scope && e.id == id
  let src ← t.nodeIn e.scope e.srcId
  let dst ← t.nodeIn e.scope e.dstId
  if src.visibleTo agent team && dst.visibleTo agent team then some (edgeView e src dst) else none

/-! ## Sessions -/

/-- The topics under a client id, whoever may see them. -/
def topicsOf (scope clientId : String) : List LiteNodeRow :=
  t.nodes.filter fun n => n.scope == scope && n.type == "topic" && n.clientId == some clientId

/-- `findLatestNodeByClientId` for topics; of two topics of one time the index has the
greater id first. -/
def findLatestTopic (scope clientId : String) : Option LiteNodeRow :=
  (orderByDesc LiteNodeRow.newest (t.topicsOf scope clientId)).head?

/-- The sources of the `part_of` edges of a session, with the edges. -/
def sessionParts (scope sessionId : String) : List (LiteNodeRow × LiteEdgeRow) :=
  t.edges.filterMap fun e =>
    if e.scope = scope ∧ e.type = "part_of" ∧ e.dstId = sessionId then
      (t.nodeIn scope e.srcId).map fun n => (n, e)
    else none

structure LiteSessionEventView extends LiteNodeRow where
  edgeWeight : ℚ
  edgeConfidence : ℚ

def decodeSessionEventRow (row : LiteNodeRow × LiteEdgeRow) : LiteSessionEventView :=
  { row.1 with edgeWeight := row.2.weight, edgeConfidence := row.2.confidence }

structure ListSessionEventsArgs where
  scope : String
  sessionClientId : String
  consumerAgentId : Option String
  consumerTeamId : Option String
  limit : Nat
  offset : Nat

structure SessionEventsPage where
  session : Option LiteNodeRow
  events : List LiteSessionEventView
  hasMore : Bool

def listSessionEvents (a : ListSessionEventsArgs) : SessionEventsPage :=
  match t.findLatestTopic a.scope a.sessionClientId with
  | none => ⟨none, [], false⟩
  | some session =>
    if session.visibleTo a.consumerAgentId a.consumerTeamId then
      let rows := orderByDesc (fun row => row.1.newest) (t.sessionParts a.scope session.id)
      let visible := rows.filter fun row => row.1.visibleTo a.consumerAgentId a.consumerTeamId
      let (chosen, hasMore) := page a.offset a.limit visible
      ⟨some session, chosen.map decodeSessionEventRow, hasMore⟩
    else ⟨none, [], false⟩

/-- `client_id LIKE 'session:%'`, on ASCII letters of either case. -/
def isSessionClientId (clientId : String) : Bool :=
  "session:".toList.isPrefixOf clientId.toLower.toList

def sessionsOf (scope : String) : List LiteNodeRow :=
  t.nodes.filter fun n => n.scope == scope && n.type == "topic" && n.clientId.any isSessionClientId

/-- The events of a session that the query counts. -/
def sessionEvents (s : LiteNodeRow) : List LiteNodeRow :=
  ((t.sessionParts s.scope s.id).map (·.1)).filter (·.type = "event")

/-- A row of the query. -/
structure LiteSessionListRow where
  session : LiteNodeRow
  lastEventAt : Option String
  eventCount : Nat

def sessionRow (s : LiteNodeRow) : LiteSessionListRow where
  session := s
  lastEventAt := ((t.sessionEvents s).map (·.createdAt)).max?
  eventCount := (t.sessionEvents s).length

/-- `ORDER BY COALESCE(MAX(e.created_at), s.created_at) DESC, s.id DESC`. -/
def LiteSessionListRow.recent (row : LiteSessionListRow) : String ×ₗ String :=
  toLex (row.lastEventAt.getD row.session.createdAt, row.session.id)

structure ListSessionsArgs where
  scope : String
  ownerAgentId : Option String := none
  ownerTeamId : Option String := none
  consumerAgentId : Option String
  consumerTeamId : Option String
  limit : Nat
  offset : Nat

def ListSessionsArgs.shows (a : ListSessionsArgs) (s : LiteNodeRow) : Bool :=
  s.visibleTo a.consumerAgentId a.consumerTeamId &&
    (given a.ownerAgentId).all (fun o => s.ownerAgentId == some o) &&
    (given a.ownerTeamId).all (fun o => s.ownerTeamId == some o)

def listSessions (a : ListSessionsArgs) : List LiteSessionListRow × Bool :=
  let rows := orderByDesc LiteSessionListRow.recent ((t.sessionsOf a.scope).map t.sessionRow)
  page a.offset a.limit (rows.filter fun row => a.shows row.session)

end LiteTables

end AionisCore.Store
