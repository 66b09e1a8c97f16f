import AionisCore.Store.WriteReads

/-!
# What a consumer learns of nodes it may not see

Two stores that differ only in nodes hidden from a consumer, and in edges at such nodes,
answer its searches for nodes and edges alike. The lists of sessions count hidden events
and are ordered by them, and a hidden topic takes the place of a visible one of the same
client id.
-/

namespace AionisCore.Store

open Lib Lib.Query Lib.Table Util

variable (agent team : Option String)

/-- An end of the edge is a node hidden from the consumer. -/
def TouchesHidden (t : LiteTables) (e : LiteEdgeRow) : Prop :=
  ∃ n ∈ t.nodes, n.visibleTo agent team = false ∧ (n.id = e.srcId ∨ n.id = e.dstId)

/-- The stores differ only in hidden nodes and in edges at such nodes. -/
structure Indistinct (t u : LiteTables) : Prop where
  nodes : ∀ n : LiteNodeRow, n.visibleTo agent team = true → (n ∈ t.nodes ↔ n ∈ u.nodes)
  edges : ∀ e, ¬ TouchesHidden agent team t e → ¬ TouchesHidden agent team u e →
    (e ∈ t.edges ↔ e ∈ u.edges)

variable {agent team} {t u : LiteTables}
variable {n : LiteNodeRow}

theorem Indistinct.symm (h : Indistinct agent team t u) : Indistinct agent team u t where
  nodes := fun n hn => (h.nodes n hn).symm
  edges := fun e hu ht => (h.edges e ht hu).symm

/-- A visible node of one store is the only node of its id in both. -/
theorem Indistinct.visible_of_id (h : Indistinct agent team t u) {s : LiteNodeRow}
    (hs : s ∈ t.nodes) (hv : s.visibleTo agent team = true) (hn : n ∈ u.nodes) (hid : n.id = s.id) :
    n = s := u.nodeIds.eq hn ((h.nodes s hv).1 hs) hid

/-- An edge between visible nodes is in both stores or in neither. -/
theorem Indistinct.edge_iff (h : Indistinct agent team t u) {e : LiteEdgeRow}
    {src dst : LiteNodeRow}
    (hsrc : src ∈ t.nodes) (hsv : src.visibleTo agent team = true) (hsid : src.id = e.srcId)
    (hdst : dst ∈ t.nodes) (hdv : dst.visibleTo agent team = true) (hdid : dst.id = e.dstId) :
    e ∈ t.edges ↔ e ∈ u.edges := by
  have hself : Indistinct agent team t t := ⟨fun _ _ => Iff.rfl, fun _ _ _ => Iff.rfl⟩
  have hclear : ∀ {v : LiteTables}, Indistinct agent team t v → ¬ TouchesHidden agent team v e := by
    rintro v hv ⟨n, hn, hhidden, hid | hid⟩
    · obtain rfl := hv.visible_of_id hsrc hsv hn (hid.trans hsid.symm)
      rw [hsv] at hhidden
      cases hhidden
    · obtain rfl := hv.visible_of_id hdst hdv hn (hid.trans hdid.symm)
      rw [hdv] at hhidden
      cases hhidden
  exact h.edges e (hclear hself) (hclear h)

/-! ## Searches for nodes -/

variable {env : QueryText}

theorem unique_newest (t : LiteTables) : Unique LiteNodeRow.newest t.nodes := by
  have hids : (t.nodes.map (·.id)).Nodup := t.nodeIds
  have hmap : t.nodes.map (·.id) = (t.nodes.map LiteNodeRow.newest).map fun k => (ofLex k).2 := by
    rw [List.map_map]
    rfl
  rw [hmap] at hids
  exact hids.of_map _

theorem nodup_nodes (t : LiteTables) : t.nodes.Nodup := List.Nodup.of_map _ t.nodeIds

/-- Selections of visible nodes are the same. -/
theorem Indistinct.filter_perm (h : Indistinct agent team t u) {p : LiteNodeRow → Bool}
    (hp : ∀ n, p n = true → n.visibleTo agent team = true) :
    (t.nodes.filter p).Perm (u.nodes.filter p) := by
  rw [List.perm_ext_iff_of_nodup ((nodup_nodes t).filter p) ((nodup_nodes u).filter p)]
  intro n
  rw [List.mem_filter, List.mem_filter]
  constructor
  · rintro ⟨hn, hpn⟩
    exact ⟨(h.nodes n (hp n hpn)).1 hn, hpn⟩
  · rintro ⟨hn, hpn⟩
    exact ⟨(h.nodes n (hp n hpn)).2 hn, hpn⟩

theorem visible_of_whereClause {q : FindNodesQuery} (h : q.whereClause env n = true) :
    n.visibleTo q.consumerAgentId q.consumerTeamId = true := by
  simp only [FindNodesQuery.whereClause, FindNodesArgs.matches, Bool.and_eq_true] at h
  exact h.1.1.1.1.2

theorem Indistinct.findNodes (h : Indistinct agent team t u) {q : FindNodesQuery}
    (ha : q.consumerAgentId = agent) (ht : q.consumerTeamId = team) :
    t.findNodes env q = u.findNodes env q := by
  have hperm : (t.nodes.filter (q.whereClause env)).Perm (u.nodes.filter (q.whereClause env)) :=
    h.filter_perm fun n hn => by
      rw [← ha, ← ht]
      exact visible_of_whereClause hn
  have hu : Unique LiteNodeRow.newest (t.nodes.filter (q.whereClause env)) :=
    (unique_newest t).filter
  unfold LiteTables.findNodes
  rw [orderByDesc_congr hu hperm]

theorem Indistinct.resolveNode (h : Indistinct agent team t u) {a : LiteTables.ResolveNodeArgs}
    (ha : a.consumerAgentId = agent) (ht : a.consumerTeamId = team) :
    t.resolveNode env a = u.resolveNode env a := by
  unfold LiteTables.resolveNode
  rw [h.findNodes ha ht]

/-! ## Edges -/

variable {scope id : String}

theorem nodeIn_eq_some :
    t.nodeIn scope id = some n ↔ n ∈ t.nodes ∧ n.id = id ∧ n.scope = scope := by
  unfold LiteTables.nodeIn
  constructor
  · intro h
    have hp := List.find?_some h
    simp only [Bool.and_eq_true, beq_iff_eq] at hp
    exact ⟨List.mem_of_find?_eq_some h, hp⟩
  · rintro ⟨hn, hid, hscope⟩
    cases hf : t.nodes.find? fun n => n.id == id && n.scope == scope with
    | none =>
      have hnone := List.find?_eq_none.1 hf n hn
      simp [hid, hscope] at hnone
    | some m =>
      have hp := List.find?_some hf
      simp only [Bool.and_eq_true, beq_iff_eq] at hp
      exact congrArg some (t.nodeIds.eq (List.mem_of_find?_eq_some hf) hn (hp.1.trans hid.symm))

theorem Indistinct.nodeIn_iff (h : Indistinct agent team t u) (hv : n.visibleTo agent team = true) :
    t.nodeIn scope id = some n ↔ u.nodeIn scope id = some n := by
  rw [nodeIn_eq_some, nodeIn_eq_some, h.nodes n hv]

theorem resolveEdge_eq_some {r : LiteTables.LiteResolveEdgeRow} :
    t.resolveEdge scope id agent team = some r ↔ ∃ e ∈ t.edges, e.scope = scope ∧ e.id = id ∧
      ∃ src dst, t.nodeIn e.scope e.srcId = some src ∧ t.nodeIn e.scope e.dstId = some dst ∧
        src.visibleTo agent team = true ∧ dst.visibleTo agent team = true ∧
        LiteTables.edgeView e src dst = r := by
  unfold LiteTables.resolveEdge
  constructor
  · intro h
    obtain ⟨e, he, h⟩ := Option.bind_eq_some_iff.1 h
    obtain ⟨src, hsrc, h⟩ := Option.bind_eq_some_iff.1 h
    obtain ⟨dst, hdst, h⟩ := Option.bind_eq_some_iff.1 h
    have hp := List.find?_some he
    simp only [Bool.and_eq_true, beq_iff_eq] at hp
    simp only [Option.ite_none_right_eq_some, Bool.and_eq_true, Option.some.injEq] at h
    exact ⟨e, List.mem_of_find?_eq_some he, hp.1, hp.2, src, dst, hsrc, hdst, h.1.1, h.1.2, h.2⟩
  · rintro ⟨e, he, hscope, hid, src, dst, hsrc, hdst, hsv, hdv, hview⟩
    have hfind : t.edges.find? (fun e => e.scope == scope && e.id == id) = some e := by
      cases hf : t.edges.find? fun e => e.scope == scope && e.id == id with
      | none => simpa [hscope, hid] using List.find?_eq_none.1 hf e he
      | some d =>
        have hp := List.find?_some hf
        simp only [Bool.and_eq_true, beq_iff_eq] at hp
        exact congrArg some (t.edgeIds.eq (List.mem_of_find?_eq_some hf) he (hp.2.trans hid.symm))
    rw [hfind]
    simp [hsrc, hdst, hsv, hdv, hview]

theorem Indistinct.resolveEdge (h : Indistinct agent team t u) (scope id : String) :
    t.resolveEdge scope id agent team = u.resolveEdge scope id agent team := by
  have himp : ∀ {v w : LiteTables}, Indistinct agent team v w → ∀ r,
      v.resolveEdge scope id agent team = some r → w.resolveEdge scope id agent team = some r := by
    intro v w hvw r hr
    obtain ⟨e, he, hscope, hid, src, dst, hsrc, hdst, hsv, hdv, hview⟩ := resolveEdge_eq_some.1 hr
    obtain ⟨hsm, hsid, -⟩ := nodeIn_eq_some.1 hsrc
    obtain ⟨hdm, hdid, -⟩ := nodeIn_eq_some.1 hdst
    exact resolveEdge_eq_some.2 ⟨e, (hvw.edge_iff hsm hsv hsid hdm hdv hdid).1 he, hscope, hid, src,
      dst, (hvw.nodeIn_iff hsv).1 hsrc, (hvw.nodeIn_iff hdv).1 hdst, hsv, hdv, hview⟩
  exact Option.ext fun r => ⟨himp h r, himp h.symm r⟩

end AionisCore.Store
