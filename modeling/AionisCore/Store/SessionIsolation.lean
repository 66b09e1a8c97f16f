import AionisCore.Store.ReadIsolation

/-!
# What the session lists tell of hidden events

`event_count` and `last_event_at` of a session, and the order of sessions by it, come from
all its events; only the sessions are filtered by lane. The search for the session of a
client id takes the newest topic, visible or not.
-/

namespace AionisCore.Store

open Lib Lib.Query Lib.Table Util

namespace LiteTables

variable (t : LiteTables)

/-- The node is an event with a `part_of` edge to the session. -/
def isEventOf (s n : LiteNodeRow) : Bool :=
  n.scope == s.scope && n.type == "event" && t.edges.any fun e =>
    e.scope == s.scope && e.type == "part_of" && e.srcId == n.id && e.dstId == s.id

def hiddenEvents (agent team : Option String) (s : LiteNodeRow) : List LiteNodeRow :=
  t.nodes.filter fun n => t.isEventOf s n && !n.visibleTo agent team

end LiteTables

/-- A row of `listSessions`. -/
def LiteNodeRow.isSession (n : LiteNodeRow) : Bool :=
  n.type == "topic" && n.clientId.any LiteTables.isSessionClientId

variable (agent team : Option String)

/-- A hidden topic of the client id is newer than every visible one. -/
def HiddenFirst (t : LiteTables) (scope clientId : String) : Prop :=
  ∃ n ∈ t.topicsOf scope clientId, n.visibleTo agent team = false ∧
    ∀ s ∈ t.topicsOf scope clientId, s.visibleTo agent team = true → s.newest ≤ n.newest

/-- Every hidden event of the session is no newer than some event of it in the other store. -/
def HiddenBefore (t u : LiteTables) (s : LiteNodeRow) : Prop :=
  ∀ n ∈ t.hiddenEvents agent team s,
    ∃ m ∈ u.nodes, u.isEventOf s m = true ∧ n.createdAt ≤ m.createdAt

/-- What of the hidden nodes shows in the answers is alike in both stores. -/
structure HiddenAlike (t u : LiteTables) : Prop where
  counts : ∀ s ∈ t.nodes, s.isSession = true → s.visibleTo agent team = true →
    (t.hiddenEvents agent team s).length = (u.hiddenEvents agent team s).length
  latest : ∀ s ∈ t.nodes, s.isSession = true → s.visibleTo agent team = true →
    HiddenBefore agent team t u s ∧ HiddenBefore agent team u t s
  topics : ∀ scope clientId,
    (∃ s ∈ t.topicsOf scope clientId, s.visibleTo agent team = true) →
      (HiddenFirst agent team t scope clientId ↔ HiddenFirst agent team u scope clientId)

/-- The reads give the consumer the same results. -/
structure SameAnswers (t u : LiteTables) : Prop where
  findNodes : ∀ env (q : FindNodesQuery), q.consumerAgentId = agent → q.consumerTeamId = team →
    t.findNodes env q = u.findNodes env q
  resolveNode : ∀ env (a : LiteTables.ResolveNodeArgs), a.consumerAgentId = agent →
    a.consumerTeamId = team → t.resolveNode env a = u.resolveNode env a
  resolveEdge : ∀ scope id,
    t.resolveEdge scope id agent team = u.resolveEdge scope id agent team
  listSessionEvents : ∀ a : LiteTables.ListSessionEventsArgs, a.consumerAgentId = agent →
    a.consumerTeamId = team → t.listSessionEvents a = u.listSessionEvents a
  listSessions : ∀ a : LiteTables.ListSessionsArgs, a.consumerAgentId = agent →
    a.consumerTeamId = team → t.listSessions a = u.listSessions a

variable {agent team} {t u : LiteTables} {s n : LiteNodeRow}

/-! ## The parts of a session -/

variable {scope clientId : String}

theorem mem_sessionParts {id : String} {row : LiteNodeRow × LiteEdgeRow} :
    row ∈ t.sessionParts scope id ↔ row.2 ∈ t.edges ∧
      (row.2.scope = scope ∧ row.2.type = "part_of" ∧ row.2.dstId = id) ∧
        t.nodeIn scope row.2.srcId = some row.1 := by
  unfold LiteTables.sessionParts
  rw [List.mem_filterMap]
  constructor
  · rintro ⟨e, he, hrow⟩
    split at hrow
    · next hp =>
      obtain ⟨n, hn, rfl⟩ := Option.map_eq_some_iff.1 hrow
      exact ⟨he, hp, hn⟩
    · cases hrow
  · rintro ⟨he, hp, hn⟩
    refine ⟨row.2, he, ?_⟩
    rw [if_pos hp, hn]
    rfl

theorem nodup_sessionParts (scope id : String) : (t.sessionParts scope id).Nodup := by
  have hedges : t.edges.Nodup := List.Nodup.of_map _ t.edgeIds
  refine List.Nodup.filterMap ?_ hedges
  intro e e' row he he'
  have hsnd : ∀ d : LiteEdgeRow, row ∈ (if d.scope = scope ∧ d.type = "part_of" ∧ d.dstId = id then
      (t.nodeIn scope d.srcId).map fun n => (n, d) else none) → row.2 = d := by
    intro d hd
    split at hd
    · obtain ⟨n, -, rfl⟩ := Option.map_eq_some_iff.1 hd
      rfl
    · cases hd
  exact (hsnd e he).symm.trans (hsnd e' he')

/-- A session has each of its parts once. -/
theorem unique_sessionParts (scope id : String) :
    Unique (fun row => row.1.newest) (t.sessionParts scope id) := by
  refine List.Nodup.map_on ?_ (nodup_sessionParts scope id)
  rintro ⟨n, e⟩ hrow ⟨n', e'⟩ hrow' hkey
  obtain ⟨he, ⟨hscope, htype, hdst⟩, hn⟩ := mem_sessionParts.1 hrow
  obtain ⟨he', ⟨hscope', htype', hdst'⟩, hn'⟩ := mem_sessionParts.1 hrow'
  obtain ⟨hmem, hid, -⟩ := nodeIn_eq_some.1 hn
  obtain ⟨hmem', hid', -⟩ := nodeIn_eq_some.1 hn'
  obtain rfl : n = n' := (unique_newest t).eq hmem hmem' hkey
  have hedge : e.toEdgeKey = e'.toEdgeKey := by
    apply EdgeKey.ext
    · exact hscope.trans hscope'.symm
    · exact htype.trans htype'.symm
    · exact hid.symm.trans hid'
    · exact hdst.trans hdst'.symm
  exact congrArg (Prod.mk n) (t.edgeKeys.eq he he' hedge)

theorem isEventOf_eq_true : t.isEventOf s n = true ↔ n.scope = s.scope ∧ n.type = "event" ∧
    ∃ e ∈ t.edges, e.scope = s.scope ∧ e.type = "part_of" ∧ e.srcId = n.id ∧ e.dstId = s.id := by
  simp only [LiteTables.isEventOf, Bool.and_eq_true, beq_iff_eq, List.any_eq_true, and_assoc]

theorem mem_sessionEvents : n ∈ t.sessionEvents s ↔ n ∈ t.nodes ∧ t.isEventOf s n = true := by
  simp only [LiteTables.sessionEvents, List.mem_filter, List.mem_map, decide_eq_true_eq]
  rw [isEventOf_eq_true]
  constructor
  · rintro ⟨⟨⟨n, e⟩, hrow, rfl⟩, htype⟩
    obtain ⟨he, ⟨hscope, hpart, hdst⟩, hn⟩ := mem_sessionParts.1 hrow
    obtain ⟨hmem, hid, hns⟩ := nodeIn_eq_some.1 hn
    exact ⟨hmem, hns, htype, e, he, hscope, hpart, hid.symm, hdst⟩
  · rintro ⟨hn, hns, htype, e, he, hscope, hpart, hsrc, hdst⟩
    exact ⟨⟨(n, e), mem_sessionParts.2 ⟨he, ⟨hscope, hpart, hdst⟩,
      nodeIn_eq_some.2 ⟨hn, hsrc.symm, hns⟩⟩, rfl⟩, htype⟩

theorem sessionEvents_perm :
    (t.sessionEvents s).Perm (t.nodes.filter fun n => t.isEventOf s n) := by
  have hmap : ((t.sessionParts s.scope s.id).map (·.1)).Nodup := by
    have hkeys := unique_sessionParts (t := t) s.scope s.id
    refine List.Nodup.of_map LiteNodeRow.newest ?_
    rwa [List.map_map]
  have hevents : (t.sessionEvents s).Nodup := hmap.filter _
  rw [List.perm_ext_iff_of_nodup hevents ((nodup_nodes t).filter _)]
  intro n
  rw [mem_sessionEvents, List.mem_filter]

/-! ## Sessions and their events in two stores -/

theorem Indistinct.isEventOf_iff (h : Indistinct agent team t u) (hs : s ∈ t.nodes)
    (hsv : s.visibleTo agent team = true) (hn : n ∈ t.nodes)
    (hnv : n.visibleTo agent team = true) : t.isEventOf s n = true ↔ u.isEventOf s n = true := by
  have hedge : ∀ e : LiteEdgeRow, e.srcId = n.id → e.dstId = s.id → (e ∈ t.edges ↔ e ∈ u.edges) :=
    fun e hsrc hdst => h.edge_iff hn hnv hsrc.symm hs hsv hdst.symm
  rw [isEventOf_eq_true, isEventOf_eq_true]
  constructor
  · rintro ⟨hscope, htype, e, he, hes, het, hsrc, hdst⟩
    exact ⟨hscope, htype, e, (hedge e hsrc hdst).1 he, hes, het, hsrc, hdst⟩
  · rintro ⟨hscope, htype, e, he, hes, het, hsrc, hdst⟩
    exact ⟨hscope, htype, e, (hedge e hsrc hdst).2 he, hes, het, hsrc, hdst⟩

/-- A session has the same visible events in both stores. -/
theorem Indistinct.visibleEvents_perm (h : Indistinct agent team t u) (hs : s ∈ t.nodes)
    (hsv : s.visibleTo agent team = true) :
    (t.nodes.filter fun n => t.isEventOf s n && n.visibleTo agent team).Perm
      (u.nodes.filter fun n => u.isEventOf s n && n.visibleTo agent team) := by
  rw [List.perm_ext_iff_of_nodup ((nodup_nodes t).filter _) ((nodup_nodes u).filter _)]
  intro n
  simp only [List.mem_filter, Bool.and_eq_true]
  constructor
  · rintro ⟨hn, hevent, hnv⟩
    exact ⟨(h.nodes n hnv).1 hn, (h.isEventOf_iff hs hsv hn hnv).1 hevent, hnv⟩
  · rintro ⟨hn, hevent, hnv⟩
    have hnt := (h.nodes n hnv).2 hn
    exact ⟨hnt, (h.isEventOf_iff hs hsv hnt hnv).2 hevent, hnv⟩

theorem length_sessionEvents : (t.sessionEvents s).length =
    (t.nodes.filter fun n => t.isEventOf s n && n.visibleTo agent team).length +
      (t.hiddenEvents agent team s).length := by
  rw [sessionEvents_perm.length_eq, LiteTables.hiddenEvents,
    List.length_eq_length_filter_add (fun n : LiteNodeRow => n.visibleTo agent team),
    List.filter_filter, List.filter_filter]
  simp only [Bool.and_comm]

theorem mem_hiddenEvents : n ∈ t.hiddenEvents agent team s ↔
    n ∈ t.nodes ∧ t.isEventOf s n = true ∧ n.visibleTo agent team = false := by
  simp only [LiteTables.hiddenEvents, List.mem_filter, Bool.and_eq_true, Bool.not_eq_true']

section

variable (h : Indistinct agent team t u) (hs : s ∈ t.nodes) (hsv : s.visibleTo agent team = true)

include h hs hsv

/-- Visible events need no event of the other store to be before. -/
theorem Indistinct.hiddenBefore_iff : HiddenBefore agent team t u s ↔
      ∀ n ∈ t.sessionEvents s, ∃ m ∈ u.sessionEvents s, n.createdAt ≤ m.createdAt := by
  simp only [mem_sessionEvents, and_assoc]
  constructor
  · intro hb n hn
    cases hnv : n.visibleTo agent team with
    | true =>
      exact ⟨n, (h.nodes n hnv).1 hn.1, (h.isEventOf_iff hs hsv hn.1 hnv).1 hn.2, le_rfl⟩
    | false => exact hb n (mem_hiddenEvents.2 ⟨hn.1, hn.2, hnv⟩)
  · intro hall n hn
    obtain ⟨hmem, hevent, -⟩ := mem_hiddenEvents.1 hn
    exact hall n ⟨hmem, hevent⟩

/-- The row of a session tells how many hidden events it has and how late they are. -/
theorem Indistinct.sessionRow_eq_iff : t.sessionRow s = u.sessionRow s ↔
      (t.hiddenEvents agent team s).length = (u.hiddenEvents agent team s).length ∧
        HiddenBefore agent team t u s ∧ HiddenBefore agent team u t s := by
  have hsu : s ∈ u.nodes := (h.nodes s hsv).1 hs
  have hlen := (h.visibleEvents_perm hs hsv).length_eq
  have hcount : (t.sessionEvents s).length = (u.sessionEvents s).length ↔
      (t.hiddenEvents agent team s).length = (u.hiddenEvents agent team s).length := by
    rw [@length_sessionEvents agent team t s, @length_sessionEvents agent team u s, hlen]
    omega
  rw [h.hiddenBefore_iff hs hsv, h.symm.hiddenBefore_iff hsu hsv, ← max?_map_eq_iff, ← hcount]
  simp only [LiteTables.sessionRow, LiteTables.LiteSessionListRow.mk.injEq, true_and]
  exact and_comm

/-- The pages of the visible parts of a session are the same. -/
theorem Indistinct.visibleParts (scope : String) :
    (orderByDesc (fun row => row.1.newest) (t.sessionParts scope s.id)).filter
        (fun row => row.1.visibleTo agent team) =
      (orderByDesc (fun row => row.1.newest) (u.sessionParts scope s.id)).filter
        fun row => row.1.visibleTo agent team := by
  have himp : ∀ {v w : LiteTables}, Indistinct agent team v w → s ∈ v.nodes →
      ∀ row ∈ v.sessionParts scope s.id, row.1.visibleTo agent team = true →
        row ∈ w.sessionParts scope s.id := by
    intro v w hvw hsm row hrow hrv
    obtain ⟨he, hp, hn⟩ := mem_sessionParts.1 hrow
    obtain ⟨hmem, hid, -⟩ := nodeIn_eq_some.1 hn
    exact mem_sessionParts.2 ⟨(hvw.edge_iff hmem hrv hid hsm hsv hp.2.2.symm).1 he, hp,
      (hvw.nodeIn_iff hrv).1 hn⟩
  refine filter_orderByDesc (unique_sessionParts scope s.id).filter ?_
  rw [List.perm_ext_iff_of_nodup ((nodup_sessionParts scope s.id).filter _)
    ((nodup_sessionParts scope s.id).filter _)]
  intro row
  rw [List.mem_filter, List.mem_filter]
  constructor
  · rintro ⟨hrow, hrv⟩
    exact ⟨himp h hs row hrow hrv, hrv⟩
  · rintro ⟨hrow, hrv⟩
    exact ⟨himp h.symm ((h.nodes s hsv).1 hs) row hrow hrv, hrv⟩

end

/-! ## The session of a client id -/

theorem mem_topicsOf : s ∈ t.topicsOf scope clientId ↔
    s ∈ t.nodes ∧ s.scope = scope ∧ s.type = "topic" ∧ s.clientId = some clientId := by
  simp only [LiteTables.topicsOf, List.mem_filter, Bool.and_eq_true, beq_iff_eq, and_assoc]

theorem Indistinct.mem_topicsOf_iff (h : Indistinct agent team t u)
    (hv : s.visibleTo agent team = true) :
    s ∈ t.topicsOf scope clientId ↔ s ∈ u.topicsOf scope clientId := by
  rw [mem_topicsOf, mem_topicsOf, h.nodes s hv]

/-- The session that `listSessionEvents` looks at. -/
def LiteTables.visibleTopic (t : LiteTables) (agent team : Option String)
    (scope clientId : String) : Option LiteNodeRow :=
  (t.findLatestTopic scope clientId).filter fun s => s.visibleTo agent team

theorem visibleTopic_eq_some :
    t.visibleTopic agent team scope clientId = some s ↔
      (s ∈ t.topicsOf scope clientId ∧ s.visibleTo agent team = true ∧
        ∀ r ∈ t.topicsOf scope clientId, r.visibleTo agent team = true → r.newest ≤ s.newest) ∧
      ¬ HiddenFirst agent team t scope clientId := by
  have heq : ∀ {m r : LiteNodeRow}, m ∈ t.topicsOf scope clientId →
      r ∈ t.topicsOf scope clientId → m.newest ≤ r.newest → r.newest ≤ m.newest → m = r := by
    intro m r hm hr hmr hrm
    exact (unique_newest t).eq (mem_topicsOf.1 hm).1 (mem_topicsOf.1 hr).1 (le_antisymm hmr hrm)
  unfold LiteTables.visibleTopic
  rw [Option.filter_eq_some_iff]
  constructor
  · rintro ⟨hlatest, hv⟩
    obtain ⟨hs, hmax⟩ := head?_orderByDesc hlatest
    refine ⟨⟨hs, hv, fun r hr _ => hmax r hr⟩, ?_⟩
    rintro ⟨n, hn, hhidden, hfirst⟩
    obtain rfl := heq hn hs (hmax n hn) (hfirst s hs hv)
    rw [hv] at hhidden
    cases hhidden
  · rintro ⟨⟨hs, hv, hmax⟩, hnot⟩
    refine ⟨?_, hv⟩
    cases hlatest : t.findLatestTopic scope clientId with
    | none =>
      rw [LiteTables.findLatestTopic, head?_orderByDesc_eq_none] at hlatest
      rw [hlatest] at hs
      cases hs
    | some m =>
      obtain ⟨hm, hbefore⟩ := head?_orderByDesc hlatest
      cases hmv : m.visibleTo agent team with
      | true => rw [heq hm hs (hmax m hm hmv) (hbefore s hs)]
      | false => exact absurd ⟨m, hm, hmv, fun r hr _ => hbefore r hr⟩ hnot

/-- A consumer that sees a topic gets a session unless a hidden topic comes first. -/
theorem visibleTopic_eq_none
    (hseen : ∃ s ∈ t.topicsOf scope clientId, s.visibleTo agent team = true) :
    t.visibleTopic agent team scope clientId = none ↔ HiddenFirst agent team t scope clientId := by
  constructor
  · intro hnone
    by_contra hnot
    obtain ⟨s, hs, hv⟩ := hseen
    cases hfirst : (orderByDesc LiteNodeRow.newest
      ((t.topicsOf scope clientId).filter fun r => r.visibleTo agent team)).head? with
    | none =>
      rw [head?_orderByDesc_eq_none, List.filter_eq_nil_iff] at hfirst
      exact hfirst s hs hv
    | some m =>
      obtain ⟨hm, hmax⟩ := head?_orderByDesc hfirst
      obtain ⟨hm, hmv⟩ := List.mem_filter.1 hm
      have hsome := visibleTopic_eq_some.2
        ⟨⟨hm, hmv, fun r hr hrv => hmax r (List.mem_filter.2 ⟨hr, hrv⟩)⟩, hnot⟩
      rw [hnone] at hsome
      cases hsome
  · intro hfirst
    cases hsome : t.visibleTopic agent team scope clientId with
    | none => rfl
    | some s => exact absurd hfirst (visibleTopic_eq_some.1 hsome).2

theorem listSessionEvents_eq (a : LiteTables.ListSessionEventsArgs) :
    t.listSessionEvents a =
      match t.visibleTopic a.consumerAgentId a.consumerTeamId a.scope a.sessionClientId with
      | none => ⟨none, [], false⟩
      | some s =>
        let rows := orderByDesc (fun row => row.1.newest) (t.sessionParts a.scope s.id)
        let (chosen, hasMore) := page a.offset a.limit
          (rows.filter fun row => row.1.visibleTo a.consumerAgentId a.consumerTeamId)
        ⟨some s, chosen.map LiteTables.decodeSessionEventRow, hasMore⟩ := by
  unfold LiteTables.listSessionEvents LiteTables.visibleTopic
  cases t.findLatestTopic a.scope a.sessionClientId with
  | none => rfl
  | some s =>
    cases hv : s.visibleTo a.consumerAgentId a.consumerTeamId with
    | true => simp [Option.filter, hv]
    | false => simp [Option.filter, hv]

theorem listSessionEvents_session (a : LiteTables.ListSessionEventsArgs) :
    (t.listSessionEvents a).session =
      t.visibleTopic a.consumerAgentId a.consumerTeamId a.scope a.sessionClientId := by
  rw [listSessionEvents_eq]
  split
  · next hnone => exact hnone.symm
  · next hsome => exact hsome.symm

/-- The session is the same where hidden topics come first in both stores or in neither. -/
theorem Indistinct.visibleTopic_eq (h : Indistinct agent team t u)
    (htopics : (∃ s ∈ t.topicsOf scope clientId, s.visibleTo agent team = true) →
      (HiddenFirst agent team t scope clientId ↔ HiddenFirst agent team u scope clientId)) :
    t.visibleTopic agent team scope clientId = u.visibleTopic agent team scope clientId := by
  have hrange : ∀ s, (∀ r ∈ t.topicsOf scope clientId, r.visibleTo agent team = true →
      r.newest ≤ s) ↔ ∀ r ∈ u.topicsOf scope clientId, r.visibleTo agent team = true →
      r.newest ≤ s := by
    intro s
    constructor
    · intro hall r hr hrv
      exact hall r ((h.mem_topicsOf_iff hrv).2 hr) hrv
    · intro hall r hr hrv
      exact hall r ((h.mem_topicsOf_iff hrv).1 hr) hrv
  apply Option.ext
  intro s
  rw [visibleTopic_eq_some, visibleTopic_eq_some, hrange]
  constructor
  · rintro ⟨⟨hs, hv, hmax⟩, hnot⟩
    rw [htopics ⟨s, hs, hv⟩] at hnot
    exact ⟨⟨(h.mem_topicsOf_iff hv).1 hs, hv, hmax⟩, hnot⟩
  · rintro ⟨⟨hs, hv, hmax⟩, hnot⟩
    have hst := (h.mem_topicsOf_iff hv).2 hs
    rw [← htopics ⟨s, hst, hv⟩] at hnot
    exact ⟨⟨hst, hv, hmax⟩, hnot⟩

/-- `listSessionEvents` tells which of the stores has a hidden topic first, and no more. -/
theorem Indistinct.listSessionEvents_iff (h : Indistinct agent team t u) :
    (∀ a : LiteTables.ListSessionEventsArgs, a.consumerAgentId = agent →
      a.consumerTeamId = team → t.listSessionEvents a = u.listSessionEvents a) ↔
    ∀ scope clientId, (∃ s ∈ t.topicsOf scope clientId, s.visibleTo agent team = true) →
      (HiddenFirst agent team t scope clientId ↔ HiddenFirst agent team u scope clientId) := by
  constructor
  · intro hall scope clientId hseen
    have hsame := congrArg (·.session) (hall ⟨scope, clientId, agent, team, 0, 0⟩ rfl rfl)
    simp only [listSessionEvents_session] at hsame
    obtain ⟨s, hs, hv⟩ := id hseen
    rw [← visibleTopic_eq_none hseen, hsame,
      visibleTopic_eq_none ⟨s, (h.mem_topicsOf_iff hv).1 hs, hv⟩]
  · rintro htopics a rfl rfl
    rw [listSessionEvents_eq, listSessionEvents_eq, ← h.visibleTopic_eq (htopics _ _)]
    cases hs : t.visibleTopic a.consumerAgentId a.consumerTeamId a.scope a.sessionClientId with
    | none => rfl
    | some s =>
      obtain ⟨⟨hmem, hv, -⟩, -⟩ := visibleTopic_eq_some.1 hs
      simp only [h.visibleParts (mem_topicsOf.1 hmem).1 hv]

/-! ## The list of sessions -/

theorem mem_sessionsOf :
    s ∈ t.sessionsOf scope ↔ s ∈ t.nodes ∧ s.scope = scope ∧ s.isSession = true := by
  simp only [LiteTables.sessionsOf, LiteNodeRow.isSession, List.mem_filter, Bool.and_eq_true,
    beq_iff_eq, and_assoc]

theorem visible_of_shows {a : LiteTables.ListSessionsArgs} (h : a.shows s = true) :
    s.visibleTo a.consumerAgentId a.consumerTeamId = true := by
  simp only [LiteTables.ListSessionsArgs.shows, Bool.and_eq_true] at h
  exact h.1.1

theorem filter_sessionRows (a : LiteTables.ListSessionsArgs) :
    ((t.sessionsOf a.scope).map t.sessionRow).filter (fun row => a.shows row.session) =
      ((t.sessionsOf a.scope).filter fun s => a.shows s).map t.sessionRow := by
  rw [List.filter_map]
  rfl

/-- Where the rows of the sessions are the same, so are their pages. -/
theorem Indistinct.listSessions_of_rows (h : Indistinct agent team t u)
    (hrows : ∀ s ∈ t.nodes, s.isSession = true → s.visibleTo agent team = true →
      t.sessionRow s = u.sessionRow s) {a : LiteTables.ListSessionsArgs}
    (ha : a.consumerAgentId = agent) (ht : a.consumerTeamId = team) :
    t.listSessions a = u.listSessions a := by
  have hshown : ∀ s, a.shows s = true → s.visibleTo agent team = true := by
    intro s hs
    rw [← ha, ← ht]
    exact visible_of_shows hs
  have hsessions : ((t.sessionsOf a.scope).filter fun s => a.shows s).Perm
      ((u.sessionsOf a.scope).filter fun s => a.shows s) := by
    unfold LiteTables.sessionsOf
    rw [List.filter_filter, List.filter_filter]
    exact h.filter_perm fun s hs => hshown s (Bool.and_eq_true _ _ ▸ hs).1
  have hmap : ((t.sessionsOf a.scope).filter fun s => a.shows s).map t.sessionRow =
      ((t.sessionsOf a.scope).filter fun s => a.shows s).map u.sessionRow := by
    refine List.map_congr_left fun s hs => ?_
    obtain ⟨hs, hshows⟩ := List.mem_filter.1 hs
    obtain ⟨hmem, -, hsession⟩ := mem_sessionsOf.1 hs
    exact hrows s hmem hsession (hshown s hshows)
  have hu : Unique LiteTables.LiteSessionListRow.recent
      ((t.sessionsOf a.scope).map t.sessionRow) := by
    have hids : ((t.sessionsOf a.scope).map (·.id)).Nodup := Unique.filter t.nodeIds
    refine List.Nodup.of_map (fun k => (ofLex k).2) ?_
    rw [List.map_map, List.map_map]
    exact hids
  have hperm :
      (((t.sessionsOf a.scope).map t.sessionRow).filter fun row => a.shows row.session).Perm
      (((u.sessionsOf a.scope).map u.sessionRow).filter fun row => a.shows row.session) := by
    rw [filter_sessionRows, filter_sessionRows, hmap]
    exact hsessions.map _
  have hrows := filter_orderByDesc hu.filter hperm
  simp only [LiteTables.listSessions, hrows]

/-- `listSessions` tells the row of every session the consumer sees. -/
theorem Indistinct.listSessions_iff (h : Indistinct agent team t u) :
    (∀ a : LiteTables.ListSessionsArgs, a.consumerAgentId = agent → a.consumerTeamId = team →
      t.listSessions a = u.listSessions a) ↔
    ∀ s ∈ t.nodes, s.isSession = true → s.visibleTo agent team = true →
      t.sessionRow s = u.sessionRow s := by
  constructor
  · intro hall s hs hsession hv
    let a : LiteTables.ListSessionsArgs := {
      scope := s.scope
      consumerAgentId := agent
      consumerTeamId := team
      limit := t.nodes.length + u.nodes.length
      offset := 0 }
    have hpage : ∀ v : LiteTables, v.nodes.length ≤ a.limit → (v.listSessions a).1 =
        (orderByDesc LiteTables.LiteSessionListRow.recent
          ((v.sessionsOf a.scope).map v.sessionRow)).filter fun row => a.shows row.session := by
      intro v hv
      unfold LiteTables.listSessions
      rw [page_all]
      refine (List.length_filter_le _ _).trans ?_
      rw [(orderByDesc_perm _ _).length_eq, List.length_map]
      exact (List.length_filter_le _ _).trans hv
    have hsame := congrArg (·.1) (hall a rfl rfl)
    simp only [hpage t (Nat.le_add_right _ _), hpage u (Nat.le_add_left _ _)] at hsame
    have hshows : a.shows s = true := by
      simp [LiteTables.ListSessionsArgs.shows, a, hv, given]
    have hmem : t.sessionRow s ∈ (orderByDesc LiteTables.LiteSessionListRow.recent
        ((t.sessionsOf a.scope).map t.sessionRow)).filter fun row => a.shows row.session :=
      List.mem_filter.2 ⟨mem_orderByDesc.2
        (List.mem_map_of_mem (mem_sessionsOf.2 ⟨hs, rfl, hsession⟩)), hshows⟩
    rw [hsame] at hmem
    obtain ⟨r, -, hr⟩ := List.mem_map.1 (mem_orderByDesc.1 (List.mem_filter.1 hmem).1)
    obtain rfl : r = s := congrArg (·.session) hr
    exact hr.symm
  · rintro hrows a ha ht
    exact h.listSessions_of_rows hrows ha ht

/-! ## What the consumer can tell apart -/

/-- The answers are the same exactly where the hidden nodes that show in them are alike. -/
theorem sameAnswers_iff (h : Indistinct agent team t u) :
    SameAnswers agent team t u ↔ HiddenAlike agent team t u := by
  constructor
  · intro hsame
    have hrows := h.listSessions_iff.1 hsame.listSessions
    refine ⟨?_, ?_, h.listSessionEvents_iff.1 hsame.listSessionEvents⟩
    · intro s hs hsession hv
      exact ((h.sessionRow_eq_iff hs hv).1 (hrows s hs hsession hv)).1
    · intro s hs hsession hv
      exact ((h.sessionRow_eq_iff hs hv).1 (hrows s hs hsession hv)).2
  · intro halike
    refine ⟨fun env q ha ht => h.findNodes ha ht, fun env a ha ht => h.resolveNode ha ht,
      h.resolveEdge, h.listSessionEvents_iff.2 halike.topics, h.listSessions_iff.2 ?_⟩
    intro s hs hsession hv
    exact (h.sessionRow_eq_iff hs hv).2
      ⟨halike.counts s hs hsession hv, halike.latest s hs hsession hv⟩

/-! ## A private event in a shared session -/

def nodeAt (id type lane createdAt : String) (clientId : Option String) : LiteNodeRow where
  id := id
  scope := "default"
  clientId := clientId
  type := type
  memoryLane := if lane = "shared" then .sharedLane else .privateLane
  ownerAgentId := if lane = "shared" then none else some lane
  createdAt := createdAt
  slots := []
  salience := 1 / 2
  importance := 1 / 2
  confidence := 1 / 2
  commitId := "c1"

/-- A shared session with one private event of alice. -/
def storeWithEventAt (createdAt : String) : LiteTables :=
  { LiteTables.empty with
    nodes := [nodeAt "s1" "topic" "shared" "1" (some "session:1"),
      nodeAt "e1" "event" "alice" createdAt none]
    edges := [⟨⟨"default", "part_of", "e1", "s1"⟩, "p1", 1, 1, 0, "c1", "1"⟩]
    nodeIds := by simp [Table.Unique, nodeAt]
    edgeIds := List.nodup_singleton _
    edgeKeys := List.nodup_singleton _ }

theorem storeWithEventAt_indistinct (c d : String) :
    Indistinct (some "bob") none (storeWithEventAt c) (storeWithEventAt d) where
  nodes := by
    intro n hn
    have hiff : ∀ c : String, n ∈ (storeWithEventAt c).nodes ↔
        n = nodeAt "s1" "topic" "shared" "1" (some "session:1") := by
      intro c
      have hne : n ≠ nodeAt "e1" "event" "alice" c none := by
        rintro rfl
        exact Bool.noConfusion hn
      simp [storeWithEventAt, hne]
    rw [hiff, hiff]
  edges := fun _ _ _ => Iff.rfl

/-- A later private event of another agent changes the list of sessions. -/
theorem privateEvent_in_listSessions :
    ¬ ∀ (agent team : Option String) (t u : LiteTables), Indistinct agent team t u →
      SameAnswers agent team t u := by
  intro hall
  have hsame := (hall _ _ _ _ (storeWithEventAt_indistinct "2" "3")).listSessions
    { scope := "default", consumerAgentId := some "bob", consumerTeamId := none, limit := 1,
      offset := 0 } rfl rfl
  have hlast := congrArg (fun page => page.1.map (·.lastEventAt)) hsame
  exact absurd hlast (by decide +kernel)

theorem storeWithEventAt_sameAnswers_iff :
    SameAnswers (some "bob") none (storeWithEventAt "2") (storeWithEventAt "3") ↔
      HiddenAlike (some "bob") none (storeWithEventAt "2") (storeWithEventAt "3") :=
  sameAnswers_iff (storeWithEventAt_indistinct "2" "3")

end AionisCore.Store
