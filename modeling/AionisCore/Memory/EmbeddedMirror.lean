import AionisCore.Lib.Run
import AionisCore.Memory.WriteResolution
import AionisCore.Store.EmbeddedRuntime

/-!
# The mirror of the Lite store

Every write that the Lite store takes is applied to an embedded runtime too. The two use one
id and one scope for a node, and one key for an edge, but under keys of their own: `MirrorInv`
says what both keep so that these agree.
-/

namespace AionisCore.Memory

open Lib Lib.JsString Lib.Table Util Store

/-! ## One content -/

/-- A node of the runtime that stands for a row. -/
structure SameNode (row : LiteNodeRow) (n : EmbeddedNode) : Prop where
  id : n.id = row.id
  scope : n.scope = row.scope
  clientId : n.clientId = row.clientId
  type : n.type = row.type
  tier : n.tier = row.tier
  memoryLane : n.memoryLane = row.memoryLane
  producerAgentId : n.producerAgentId = row.producerAgentId
  ownerAgentId : n.ownerAgentId = row.ownerAgentId
  ownerTeamId : n.ownerTeamId = row.ownerTeamId
  title : n.title = row.title
  textSummary : n.textSummary = row.textSummary
  slots : n.slots = row.slots
  rawRef : n.rawRef = row.rawRef
  evidenceRef : n.evidenceRef = row.evidenceRef
  embedding : n.embedding = row.embeddingVector
  embeddingModel : n.embeddingModel = row.embeddingModel
  embeddingStatus : n.embeddingStatus = row.embeddingStatus
  salience : n.salience = row.salience
  importance : n.importance = row.importance
  confidence : n.confidence = row.confidence
  commitId : n.commitId = some row.commitId

structure SameRuleDef (row : LiteRuleDefRow) (d : EmbeddedRuleDef) : Prop where
  scope : d.scope = row.scope
  ruleNodeId : d.ruleNodeId = row.ruleNodeId
  state : d.state.name = row.state
  ruleScope : d.ruleScope.name = row.ruleScope
  targetAgentId : d.targetAgentId = row.targetAgentId
  targetTeamId : d.targetTeamId = row.targetTeamId
  ifJson : d.ifJson = row.ifJson
  thenJson : d.thenJson = row.thenJson
  exceptionsJson : d.exceptionsJson = row.exceptionsJson
  positiveCount : d.positiveCount = row.positiveCount
  negativeCount : d.negativeCount = row.negativeCount
  commitId : d.commitId = some row.commitId

structure SameEdge (row : LiteEdgeRow) (e : EmbeddedEdge) : Prop where
  key : e.toEdgeKey = row.toEdgeKey
  id : e.id = row.id
  weight : e.weight = row.weight
  confidence : e.confidence = row.confidence
  decayRate : e.decayRate = row.decayRate
  commitId : e.commitId = some row.commitId

/-- The rows of the store and the records of the runtime stand for each other, in the order in
which they came. -/
structure Mirrors (t : LiteTables) (r : EmbeddedRuntime) : Prop where
  nodes : List.Forall₂ SameNode t.nodes r.nodes.values
  ruleDefs : List.Forall₂ SameRuleDef t.ruleDefs r.ruleDefs.values
  edges : List.Forall₂ SameEdge t.edges r.edgesByUnique.values

/-! ## Runs -/

structure MirrorState where
  store : LiteTables := .empty
  runtime : EmbeddedRuntime := {}

/-- A prepared write with the options of its call and the time of the mirror. The request
schema admits no other types of edges. -/
structure MirrorWrite where
  opts : ApplyWriteOptions
  now : String
  prepared : PreparedWrite
  edgeTypes : ∀ e ∈ prepared.edges, e.type ∈ EDGE_TYPES

/-- `applyMemoryWrite`, and `applyWrite` with what it returns. -/
def mirrorStep (s : MirrorState) (w : MirrorWrite) : Option MirrorState :=
  match applyMemoryWrite w.opts s.store w.prepared with
  | .ok (result, store) =>
    some ⟨store, s.runtime.applyWrite w.prepared.autoEmbedEffective w.now result.commitId
      w.prepared.nodes w.prepared.edges⟩
  | .error _ => none

/-! ## Batches that both take alike -/

/-- Lite trims the target of a rule, and takes a blank one for none. -/
def TargetsFit (slots : Json.Fields) : Prop :=
  ∀ k ∈ ["target_agent_id", "target_team_id"], ∀ s ∈ stringField slots k, Plain s

instance (slots : Json.Fields) : Decidable (TargetsFit slots) :=
  inferInstanceAs (Decidable (∀ k ∈ _, _))

/-- A node whose id is known leaves the runtime as it is, but a rule still gets its definition
in the store. For the store a node waits for an embedding only if there is a text to embed. -/
def NodeFits (autoEmbedEffective : Bool) (known ruled : List String) (n : PreparedNode) : Prop :=
  if n.id ∈ known then n.type = "rule" → n.id ∈ ruled
  else (autoEmbedEffective = true → n.embedding = none → n.plannedText.isSome) ∧
    (n.type = "rule" → TargetsFit n.slots)

instance (autoEmbedEffective : Bool) (known ruled : List String) (n : PreparedNode) :
    Decidable (NodeFits autoEmbedEffective known ruled n) :=
  inferInstanceAs (Decidable (ite _ _ _))

/-- Each node fits, where the ids before it are known. -/
def NodesFit (autoEmbedEffective : Bool) :
    (known ruled : List String) → List PreparedNode → Prop
  | _, _, [] => True
  | known, ruled, n :: ns => NodeFits autoEmbedEffective known ruled n ∧
      NodesFit autoEmbedEffective (n.id :: known)
        (if n.type = "rule" then n.id :: ruled else ruled) ns

instance decidableNodesFit (autoEmbedEffective : Bool) :
    (known ruled : List String) → (ns : List PreparedNode) →
      Decidable (NodesFit autoEmbedEffective known ruled ns)
  | _, _, [] => isTrue trivial
  | known, ruled, n :: ns =>
    have := decidableNodesFit autoEmbedEffective (n.id :: known)
      (if n.type = "rule" then n.id :: ruled else ruled) ns
    inferInstanceAs (Decidable (_ ∧ _))

/-- An edge that names the id and the decay rate that the row of its key has. -/
def EdgeFits (e : PreparedEdge) (row : LiteEdgeRow) : Prop :=
  row.toEdgeKey = e.toEdgeKey → row.id = e.id ∧ row.decayRate = e.decayRate.getD (1 / 100)

instance (e : PreparedEdge) (row : LiteEdgeRow) : Decidable (EdgeFits e row) :=
  inferInstanceAs (Decidable (_ → _))

/-- Two edges of one batch that may be of one key. -/
def EdgesAgree (e e' : PreparedEdge) : Prop :=
  e.toEdgeKey = e'.toEdgeKey →
    e.id = e'.id ∧ e.decayRate.getD (1 / 100) = e'.decayRate.getD (1 / 100)

instance : DecidableRel EdgesAgree := fun _ _ => inferInstanceAs (Decidable (_ → _))

structure WriteFits (s : MirrorState) (w : MirrorWrite) : Prop where
  nodes : NodesFit w.prepared.autoEmbedEffective (s.store.nodes.map (·.id))
    (s.store.ruleDefs.map (·.ruleNodeId)) w.prepared.nodes
  stored : ∀ e ∈ w.prepared.edges, ∀ row ∈ s.store.edges, EdgeFits e row
  batch : w.prepared.edges.Pairwise EdgesAgree

instance (s : MirrorState) (w : MirrorWrite) : Decidable (WriteFits s w) :=
  decidable_of_iff (NodesFit _ _ _ _ ∧ (∀ e ∈ w.prepared.edges, ∀ row ∈ s.store.edges,
    EdgeFits e row) ∧ w.prepared.edges.Pairwise EdgesAgree)
    ⟨fun h => ⟨h.1, h.2.1, h.2.2⟩, fun h => ⟨h.nodes, h.stored, h.batch⟩⟩

/-! ## Keys -/

theorem nodeKey_inj {s s' i i' : String} (hi : Colonless i) (hi' : Colonless i') :
    nodeKey s i = nodeKey s' i' ↔ s = s' ∧ i = i' := append_colons_inj hi hi'

/-- The parts of a key, the scope apart, that hold no separator. -/
structure PlainKey (k : EdgeKey) : Prop where
  type : Colonless k.type
  srcId : Colonless k.srcId
  dstId : Colonless k.dstId

theorem edgeUpsertKey_inj {k k' : EdgeKey} (hk : PlainKey k) (hk' : PlainKey k') :
    edgeUpsertKey k = edgeUpsertKey k' ↔ k = k' := by
  refine ⟨fun h => ?_, fun h => by rw [h]⟩
  obtain ⟨h, hdst⟩ := (append_colons_inj hk.dstId hk'.dstId).1 h
  obtain ⟨h, hsrc⟩ := (append_colons_inj hk.srcId hk'.srcId).1 h
  obtain ⟨hscope, htype⟩ := (append_colons_inj hk.type hk'.type).1 h
  exact EdgeKey.ext hscope htype hsrc hdst

theorem colonless_of_edgeType {type : String} (h : type ∈ EDGE_TYPES) : Colonless type := by
  have hall : ∀ type ∈ EDGE_TYPES, ':' ∉ type.toList := by decide +kernel
  exact hall type h

/-! ## What both keep -/

structure MirrorInv (t : LiteTables) (r : EmbeddedRuntime) : Prop where
  same : Mirrors t r
  nodes : r.nodes.Keyed EmbeddedNode.key
  ruleDefs : r.ruleDefs.Keyed EmbeddedRuleDef.key
  edges : r.edgesByUnique.Keyed EmbeddedEdge.key
  nodeIds : ∀ row ∈ t.nodes, Colonless row.id
  ruleNodes : ∀ d ∈ t.ruleDefs, ∃ row ∈ t.nodes, row.id = d.ruleNodeId
  edgeKeys : ∀ row ∈ t.edges, PlainKey row.toEdgeKey

section Nodes

variable {opts : ApplyWriteOptions} {t t' : LiteTables} {r : EmbeddedRuntime}
  {prepared : PreparedWrite} {commitId now : String} {n : PreparedNode} {draft : LiteRuleDefRow}

theorem MirrorInv.empty : MirrorInv .empty {} := by
  refine ⟨⟨.nil, .nil, .nil⟩, OrderedMap.keyed_empty, OrderedMap.keyed_empty,
    OrderedMap.keyed_empty, ?_, ?_, ?_⟩
  · exact fun _ h => absurd h List.not_mem_nil
  · exact fun _ h => absurd h List.not_mem_nil
  · exact fun _ h => absurd h List.not_mem_nil

/-- Edges may change on both sides. -/
theorem MirrorInv.with_edges {edges : OrderedMap String EmbeddedEdge} (h : MirrorInv t r)
    (hnodes : t'.nodes = t.nodes) (hrules : t'.ruleDefs = t.ruleDefs)
    (hsame : List.Forall₂ SameEdge t'.edges edges.values) (hkeyed : edges.Keyed EmbeddedEdge.key)
    (hkeys : ∀ row ∈ t'.edges, PlainKey row.toEdgeKey) :
    MirrorInv t' { r with edgesByUnique := edges } where
  same := ⟨hnodes ▸ h.same.nodes, hrules ▸ h.same.ruleDefs, hsame⟩
  nodes := h.nodes
  ruleDefs := h.ruleDefs
  edges := hkeyed
  nodeIds := hnodes ▸ h.nodeIds
  ruleNodes := hrules ▸ hnodes ▸ h.ruleNodes
  edgeKeys := hkeys

theorem MirrorInv.congr (h : MirrorInv t r) (hnodes : t'.nodes = t.nodes)
    (hrules : t'.ruleDefs = t.ruleDefs) (hedges : t'.edges = t.edges) : MirrorInv t' r :=
  h.with_edges hnodes hrules (hedges ▸ h.same.edges) h.edges (hedges ▸ h.edgeKeys)

theorem MirrorInv.has_node (h : MirrorInv t r) (hid : Colonless n.id)
    (hscope : ∀ row ∈ t.nodes, row.id = n.id → row.scope = n.scope) :
    r.nodes.has (nodeKey n.scope n.id) = true ↔ ∃ row ∈ t.nodes, row.id = n.id := by
  rw [OrderedMap.has_iff]
  constructor
  · rintro ⟨m, hm⟩
    obtain ⟨row, hrow, hsame⟩ :=
      exists_left_of_forall₂ h.same.nodes (OrderedMap.mem_values.2 ⟨_, hm⟩)
    have hmid : Colonless m.id := hsame.id ▸ h.nodeIds row hrow
    obtain ⟨-, hids⟩ := (nodeKey_inj hmid hid).1 (h.nodes _ m hm)
    exact ⟨row, hrow, hsame.id.symm.trans hids⟩
  · rintro ⟨row, hrow, hrowid⟩
    obtain ⟨m, hm, hsame⟩ := exists_right_of_forall₂ h.same.nodes hrow
    have hkey : m.key = nodeKey n.scope n.id := by
      rw [EmbeddedNode.key, hsame.scope, hsame.id, hscope row hrow hrowid, hrowid]
    exact ⟨m, hkey ▸ h.nodes.mem_values.1 hm⟩

/-- A rule definition has a node, so a new node has none. -/
theorem MirrorInv.no_ruleDef (h : MirrorInv t r) (hid : Colonless n.id)
    (hnew : ∀ row ∈ t.nodes, row.id ≠ n.id) :
    (∀ d ∈ t.ruleDefs, d.ruleNodeId ≠ n.id) ∧
      r.ruleDefs.has (nodeKey n.scope n.id) = false := by
  have hrows : ∀ d ∈ t.ruleDefs, d.ruleNodeId ≠ n.id := by
    intro d hd hdid
    obtain ⟨row, hrow, hrowid⟩ := h.ruleNodes d hd
    exact hnew row hrow (hrowid.trans hdid)
  refine ⟨hrows, OrderedMap.not_has_iff.2 (Option.eq_none_iff_forall_ne_some.2 fun d hd => ?_)⟩
  obtain ⟨row, hrow, hsame⟩ :=
    exists_left_of_forall₂ h.same.ruleDefs (OrderedMap.mem_values.2 ⟨_, hd⟩)
  obtain ⟨node, hnode, hnodeid⟩ := h.ruleNodes row hrow
  have hdid : Colonless d.ruleNodeId := by
    rw [hsame.ruleNodeId, ← hnodeid]
    exact h.nodeIds node hnode
  obtain ⟨-, hids⟩ := (nodeKey_inj hdid hid).1 (h.ruleDefs _ d hd)
  exact hrows row hrow (hsame.ruleNodeId.symm.trans hids)

theorem sameNode_planned
    (h : prepared.autoEmbedEffective = true → n.embedding = none → n.plannedText.isSome)
    (created : String) :
    SameNode ((plannedInsert prepared n).row commitId created)
      (EmbeddedRuntime.plannedRecord prepared.autoEmbedEffective now commitId n) := by
  have hstatus : (if n.embedding.isSome then EmbeddingStatus.ready
      else if prepared.autoEmbedEffective then .pending else .failed) =
        if n.embedding.isSome then .ready
        else if prepared.autoEmbedEffective && n.plannedText.isSome then .pending else .failed := by
    cases hembedding : n.embedding with
    | some embedding => rfl
    | none =>
      cases hauto : prepared.autoEmbedEffective with
      | false => rfl
      | true => rw [h hauto hembedding, Bool.true_and]
  exact {
    id := rfl, scope := rfl, clientId := rfl, type := rfl, tier := rfl, memoryLane := rfl,
    producerAgentId := rfl, ownerAgentId := rfl, ownerTeamId := rfl, title := rfl,
    textSummary := rfl, slots := rfl, rawRef := rfl, evidenceRef := rfl, embedding := rfl,
    embeddingModel := rfl, embeddingStatus := hstatus, salience := rfl, importance := rfl,
    confidence := rfl, commitId := rfl }

theorem textSlot_eq (slots : Json.Fields) (k : String) :
    textSlot slots k = ((stringField slots k).map trim).getD "" := by
  unfold textSlot stringField
  cases Json.get slots k with
  | none => rfl
  | some v => cases v <;> rfl

theorem lowerTrimmed_get (slots : Json.Fields) (k : String) :
    lowerTrimmed (Json.get slots k) = (textSlot slots k).toLower := by
  have hempty : "" = "".toLower := by decide +kernel
  unfold textSlot lowerTrimmed
  cases Json.get slots k with
  | none => exact hempty
  | some v =>
    cases v with
    | str s => rfl
    | null | bool | num | arr | obj => exact hempty

theorem target_of_fits {slots : Json.Fields} {k : String}
    (h : ∀ s ∈ stringField slots k, Plain s) :
    stringField slots k = given (some (textSlot slots k)) := by
  rw [textSlot_eq]
  cases hs : stringField slots k with
  | none => rfl
  | some s =>
    obtain ⟨htrim, hne⟩ := h s hs
    have htrim : trim s = s := htrim
    rw [Option.map_some, Option.getD_some, htrim, given, Option.filter_some,
      if_pos (decide_eq_true hne)]

theorem ruleScope_name (s : String) :
    (if s = "agent" then RuleScope.agent else if s = "team" then .team else .global).name =
      if s = "team" ∨ s = "agent" then s else "global" := by
  by_cases hagent : s = "agent"
  · rw [if_pos hagent, if_pos (.inr hagent), hagent]
    rfl
  · by_cases hteam : s = "team"
    · rw [if_neg hagent, if_pos hteam, if_pos (.inl hteam), hteam]
      rfl
    · rw [if_neg hagent, if_neg hteam, if_neg (not_or.2 ⟨hteam, hagent⟩)]
      rfl

theorem sameRuleDef_draft (hfit : TargetsFit n.slots) (h : ruleDraft opts commitId n = .ok draft) :
    SameRuleDef draft (EmbeddedRuntime.draftRuleDef now commitId n) := by
  unfold ruleDraft at h
  dsimp only at h
  obtain ⟨ruleScope, hscope⟩ : ∃ ruleScope, ruleScope =
      if (textSlot n.slots "rule_scope").toLower = "team" ∨
        (textSlot n.slots "rule_scope").toLower = "agent" then
        (textSlot n.slots "rule_scope").toLower else "global" := ⟨_, rfl⟩
  rw [← hscope] at h
  split at h
  · cases h
  · split at h
    · cases h
    · obtain rfl := Except.ok.inj h
      exact {
        scope := rfl
        ruleNodeId := rfl
        state := rfl
        ruleScope := by
          show (if lowerTrimmed (Json.get n.slots "rule_scope") = "agent" then RuleScope.agent
            else if lowerTrimmed (Json.get n.slots "rule_scope") = "team" then .team
            else .global).name = _
          rw [lowerTrimmed_get, ruleScope_name]
          exact hscope.symm
        targetAgentId := target_of_fits (hfit _ (by decide))
        targetTeamId := target_of_fits (hfit _ (by decide))
        ifJson := rfl
        thenJson := rfl
        exceptionsJson := rfl
        positiveCount := rfl
        negativeCount := rfl
        commitId := rfl }

theorem ruleDraft_id (h : ruleDraft opts commitId n = .ok draft) : draft.ruleNodeId = n.id := by
  unfold ruleDraft at h
  dsimp only at h
  generalize (if (textSlot n.slots "rule_scope").toLower = "team" ∨
    (textSlot n.slots "rule_scope").toLower = "agent" then
    (textSlot n.slots "rule_scope").toLower else "global") = ruleScope at h
  split at h
  · cases h
  · split at h
    · cases h
    · cases h
      rfl

/-- The insertion of a node, and of its definition if it is a rule. -/
theorem insertPlanned_cases {planned : PreparedNode × WriteNodeInsert}
    (h : insertPlanned opts commitId t planned = .ok t') :
    planned.1.type ≠ "rule" ∧
        t' = t.insertNode (opts.now planned.2.id) planned.2 commitId ∨
      planned.1.type = "rule" ∧ ∃ draft, ruleDraft opts commitId planned.1 = .ok draft ∧
        t' = (t.insertNode (opts.now planned.2.id) planned.2 commitId).insertRuleDef draft := by
  unfold insertPlanned at h
  dsimp only at h
  split at h
  · next hrule =>
    obtain ⟨draft, hdraft, h⟩ := bind_eq_ok.1 h
    cases h
    exact .inr ⟨hrule, draft, hdraft, rfl⟩
  · next hrule =>
    cases h
    exact .inl ⟨hrule, rfl⟩

/-- The lists name the ids of the nodes and of the rule definitions. -/
structure Lists (t : LiteTables) (known ruled : List String) : Prop where
  known : ∀ id, id ∈ known ↔ ∃ row ∈ t.nodes, row.id = id
  ruled : ∀ id, id ∈ ruled ↔ ∃ d ∈ t.ruleDefs, d.ruleNodeId = id

theorem Lists.of_tables (t : LiteTables) :
    Lists t (t.nodes.map (·.id)) (t.ruleDefs.map (·.ruleNodeId)) :=
  ⟨fun _ => List.mem_map, fun _ => List.mem_map⟩

theorem exists_insertOrIgnore {α : Type} {key : α → String} {rows : List α} {a : α} (id : String) :
    (∃ row ∈ insertOrIgnore key rows a, key row = id) ↔
      id = key a ∨ ∃ row ∈ rows, key row = id := by
  by_cases h : ∃ b ∈ rows, key b = key a
  · rw [insertOrIgnore_of_known h]
    exact ⟨.inr, fun hid => hid.elim (fun hid => hid ▸ h) (·)⟩
  · have hnew : ∀ b ∈ rows, key b ≠ key a := fun b hb hk => h ⟨b, hb, hk⟩
    rw [insertOrIgnore_of_new hnew]
    simp only [List.mem_append, List.mem_singleton, or_and_right, exists_or, exists_eq_left]
    rw [or_comm, eq_comm]

variable {known ruled : List String}

theorem Lists.insertPlanned (h : Lists t known ruled)
    (hstep : insertPlanned opts commitId t (n, plannedInsert prepared n) = .ok t') :
    Lists t' (n.id :: known) (if n.type = "rule" then n.id :: ruled else ruled) := by
  have hknown : ∀ id, id ∈ n.id :: known ↔ ∃ row ∈ insertOrIgnore (·.id) t.nodes
      ((plannedInsert prepared n).row commitId (opts.now n.id)), row.id = id := by
    intro id
    rw [exists_insertOrIgnore, List.mem_cons, h.known]
    rfl
  rcases insertPlanned_cases hstep with ⟨hrule, rfl⟩ | ⟨hrule, draft, hdraft, rfl⟩
  · rw [if_neg hrule]
    exact ⟨hknown, h.ruled⟩
  · rw [if_pos hrule]
    refine ⟨hknown, fun id => ?_⟩
    show _ ↔ ∃ d ∈ insertOrIgnore (·.ruleNodeId) t.ruleDefs draft, d.ruleNodeId = id
    rw [exists_insertOrIgnore, List.mem_cons, h.ruled, ruleDraft_id hdraft]

/-- A node that is there changes neither side. -/
theorem MirrorInv.known_node {known ruled : List String} (h : MirrorInv t r)
    (hlists : Lists t known ruled) (hid : Colonless n.id)
    (hscope : ∀ row ∈ t.nodes, row.id = n.id → row.scope = n.scope) (hknown : n.id ∈ known)
    (hruled : n.type = "rule" → n.id ∈ ruled)
    (hstep : insertPlanned opts commitId t (n, plannedInsert prepared n) = .ok t') :
    t'.nodes = t.nodes ∧ t'.edges = t.edges ∧ t'.ruleDefs = t.ruleDefs ∧
      r.applyNode prepared.autoEmbedEffective now commitId n = r := by
  have hstored := (hlists.known n.id).1 hknown
  have hnodes : insertOrIgnore (·.id) t.nodes
      ((plannedInsert prepared n).row commitId (opts.now n.id)) = t.nodes :=
    insertOrIgnore_of_known hstored
  have happly : r.applyNode prepared.autoEmbedEffective now commitId n = r :=
    if_pos ((h.has_node hid hscope).2 hstored)
  rcases insertPlanned_cases hstep with ⟨hrule, rfl⟩ | ⟨hrule, draft, hdraft, rfl⟩
  · exact ⟨hnodes, rfl, rfl, happly⟩
  · refine ⟨hnodes, rfl, insertOrIgnore_of_known ?_, happly⟩
    rw [ruleDraft_id hdraft]
    exact (hlists.ruled n.id).1 (hruled hrule)

theorem MirrorInv.insertNode {created : String} (h : MirrorInv t r) (hid : Colonless n.id)
    (hnew : ∀ row ∈ t.nodes, row.id ≠ n.id) (hnone : r.nodes.has (nodeKey n.scope n.id) = false)
    (hsame : SameNode ((plannedInsert prepared n).row commitId created)
      (EmbeddedRuntime.plannedRecord prepared.autoEmbedEffective now commitId n)) :
    MirrorInv (t.insertNode created (plannedInsert prepared n) commitId)
      { r with
        nodes := r.nodes.set (nodeKey n.scope n.id)
          (EmbeddedRuntime.plannedRecord prepared.autoEmbedEffective now commitId n) } := by
  have hrows : (t.insertNode created (plannedInsert prepared n) commitId).nodes =
      t.nodes ++ [(plannedInsert prepared n).row commitId created] :=
    insertOrIgnore_of_new hnew
  refine { h with
    same := { h.same with nodes := ?_ }
    nodes := h.nodes.set rfl
    nodeIds := fun row hrow => ?_
    ruleNodes := fun d hd => ?_ }
  · rw [hrows, OrderedMap.values_set_of_none (OrderedMap.not_has_iff.1 hnone)]
    exact forall₂_concat h.same.nodes hsame
  · rw [hrows, List.mem_append, List.mem_singleton] at hrow
    rcases hrow with hrow | rfl
    · exact h.nodeIds row hrow
    · exact hid
  · obtain ⟨row, hrow, hrowid⟩ := h.ruleNodes d hd
    exact ⟨row, hrows ▸ List.mem_append_left _ hrow, hrowid⟩

theorem MirrorInv.insertRuleDef {d : EmbeddedRuleDef} (h : MirrorInv t r)
    (hnode : ∃ row ∈ t.nodes, row.id = draft.ruleNodeId)
    (hnew : ∀ other ∈ t.ruleDefs, other.ruleNodeId ≠ draft.ruleNodeId)
    (hnone : r.ruleDefs.has d.key = false) (hsame : SameRuleDef draft d) :
    MirrorInv (t.insertRuleDef draft) { r with ruleDefs := r.ruleDefs.set d.key d } := by
  have hrows : (t.insertRuleDef draft).ruleDefs = t.ruleDefs ++ [draft] :=
    insertOrIgnore_of_new hnew
  refine { h with
    same := { h.same with ruleDefs := ?_ }
    ruleDefs := h.ruleDefs.set rfl
    ruleNodes := fun other hother => ?_ }
  · rw [hrows, OrderedMap.values_set_of_none (OrderedMap.not_has_iff.1 hnone)]
    exact forall₂_concat h.same.ruleDefs hsame
  · rw [hrows, List.mem_append, List.mem_singleton] at hother
    rcases hother with hother | rfl
    · exact h.ruleNodes other hother
    · exact hnode

theorem MirrorInv.applyNode (h : MirrorInv t r) (hlists : Lists t known ruled)
    (hid : Colonless n.id) (hscope : ∀ row ∈ t.nodes, row.id = n.id → row.scope = n.scope)
    (hfits : NodeFits prepared.autoEmbedEffective known ruled n)
    (hstep : insertPlanned opts commitId t (n, plannedInsert prepared n) = .ok t') :
    MirrorInv t' (r.applyNode prepared.autoEmbedEffective now commitId n) := by
  unfold NodeFits at hfits
  split at hfits
  · next hknown =>
    obtain ⟨hnodes, hedges, hrules, happly⟩ :=
      @MirrorInv.known_node _ _ _ _ _ _ now _ _ _ h hlists hid hscope hknown hfits hstep
    rw [happly]
    exact h.congr hnodes hrules hedges
  · next hknown =>
    have hnew : ∀ row ∈ t.nodes, row.id ≠ n.id := fun row hrow hrowid =>
      hknown ((hlists.known n.id).2 ⟨row, hrow, hrowid⟩)
    have hnone : r.nodes.has (nodeKey n.scope n.id) = false := by
      rw [Bool.eq_false_iff]
      intro hhas
      obtain ⟨row, hrow, hrowid⟩ := (h.has_node hid hscope).1 hhas
      exact hnew row hrow hrowid
    obtain ⟨hnodef, hnoruleDef⟩ := h.no_ruleDef hid hnew
    have hsame : SameNode ((plannedInsert prepared n).row commitId (opts.now n.id))
        (EmbeddedRuntime.plannedRecord prepared.autoEmbedEffective now commitId n) :=
      sameNode_planned hfits.1 _
    have hnode := h.insertNode hid hnew hnone hsame
    unfold EmbeddedRuntime.applyNode
    dsimp only
    rw [if_neg (Bool.eq_false_iff.1 hnone)]
    rcases insertPlanned_cases hstep with ⟨hrule, rfl⟩ | ⟨hrule, draft, hdraft, rfl⟩
    · rw [if_neg fun hr => hrule hr.1]
      exact hnode
    · rw [if_pos ⟨hrule, hnoruleDef⟩]
      refine hnode.insertRuleDef (d := EmbeddedRuntime.draftRuleDef now commitId n) ?_ ?_
        hnoruleDef (sameRuleDef_draft (hfits.2 hrule) hdraft)
      · rw [ruleDraft_id hdraft]
        refine ⟨(plannedInsert prepared n).row commitId (opts.now n.id), ?_, rfl⟩
        exact mem_insertOrIgnore.2 (.inr ⟨rfl, hnew⟩)
      · rw [ruleDraft_id hdraft]
        exact hnodef

theorem MirrorInv.applyNodes {ns : List PreparedNode} {scope : String} (h : MirrorInv t r)
    (hlists : Lists t known ruled) (hids : ∀ n ∈ ns, Colonless n.id)
    (hscopes : ∀ n ∈ ns, n.scope = scope)
    (hstored : ∀ n ∈ ns, ∀ row ∈ t.nodes, row.id = n.id → row.scope = scope)
    (hfits : NodesFit prepared.autoEmbedEffective known ruled ns)
    (hrun : (ns.map fun n => (n, plannedInsert prepared n)).foldlM
      (insertPlanned opts commitId) t = .ok t') :
    MirrorInv t'
      (ns.foldl (EmbeddedRuntime.applyNode prepared.autoEmbedEffective now commitId) r) := by
  induction ns generalizing t r known ruled with
  | nil =>
    cases hrun
    exact h
  | cons n ns ih =>
    rw [List.map_cons, List.foldlM_cons] at hrun
    obtain ⟨t₁, hstep, hrun⟩ := bind_eq_ok.1 hrun
    rw [List.forall_mem_cons] at hids hscopes hstored
    have hnode : ∀ row ∈ t.nodes, row.id = n.id → row.scope = n.scope := by
      rw [hscopes.1]
      exact hstored.1
    refine ih (h.applyNode hlists hids.1 hnode hfits.1 hstep) (hlists.insertPlanned hstep) hids.2
      hscopes.2 (fun m hm row hrow hrowid => ?_) hfits.2 hrun
    rw [(insertPlanned_ok hstep).1] at hrow
    rcases mem_insertOrIgnore.1 hrow with hrow | ⟨rfl, -⟩
    · exact hstored.2 m hm row hrow hrowid
    · exact hscopes.1

end Nodes

section Edges

variable {opts : ApplyWriteOptions} {t t' : LiteTables} {r : EmbeddedRuntime}
  {commitId now : String} {e : PreparedEdge}

/-- The two agree on the edges that are there. -/
theorem MirrorInv.get_edge (h : MirrorInv t r) {k : EdgeKey} (hk : PlainKey k) :
    ((∀ row ∈ t.edges, row.toEdgeKey ≠ k) ∧ r.edgesByUnique.get (edgeUpsertKey k) = none) ∨
      ∃ row ∈ t.edges, row.toEdgeKey = k ∧
        ∃ m, r.edgesByUnique.get (edgeUpsertKey k) = some m ∧ SameEdge row m := by
  by_cases hrow : ∃ row ∈ t.edges, row.toEdgeKey = k
  · obtain ⟨row, hrow, rfl⟩ := hrow
    obtain ⟨m, hm, hsame⟩ := exists_right_of_forall₂ h.same.edges hrow
    have hget := h.edges.mem_values.1 hm
    rw [EmbeddedEdge.key, hsame.key] at hget
    exact .inr ⟨row, hrow, rfl, m, hget, hsame⟩
  · refine .inl ⟨fun row hr hk => hrow ⟨row, hr, hk⟩,
      Option.eq_none_iff_forall_ne_some.2 fun m hm => ?_⟩
    obtain ⟨row, hr, hsame⟩ :=
      exists_left_of_forall₂ h.same.edges (OrderedMap.mem_values.2 ⟨_, hm⟩)
    have hkeys := h.edges _ m hm
    rw [EmbeddedEdge.key, hsame.key, edgeUpsertKey_inj (h.edgeKeys row hr) hk] at hkeys
    exact hrow ⟨row, hr, hkeys⟩

/-- The row of a new edge. -/
def newEdgeRow (a : WriteEdgeUpsertArgs) (created : String) : LiteEdgeRow :=
  { a with createdAt := created }

theorem upsertEdge_of_new {a : WriteEdgeUpsertArgs} {created : String}
    (hnew : ∀ row ∈ t.edges, row.toEdgeKey ≠ a.toEdgeKey)
    (h : t.upsertEdge created a = some t') :
    t'.edges = t.edges ++ [newEdgeRow a created] ∧ t'.nodes = t.nodes ∧
      t'.ruleDefs = t.ruleDefs := by
  unfold LiteTables.upsertEdge at h
  split at h
  · next row hrow =>
    obtain ⟨hmem, hkey⟩ := mem_of_row? hrow
    exact absurd hkey (hnew row hmem)
  · split at h
    · cases h
      exact ⟨rfl, rfl, rfl⟩
    · cases h

theorem upsertEdge_of_known {a : WriteEdgeUpsertArgs} {created : String} {row : LiteEdgeRow}
    (hrow : row ∈ t.edges) (hkey : row.toEdgeKey = a.toEdgeKey)
    (h : t.upsertEdge created a = some t') :
    t'.edges = t.edges.map (LiteTables.mergeEdge a) ∧ t'.nodes = t.nodes ∧
      t'.ruleDefs = t.ruleDefs := by
  unfold LiteTables.upsertEdge at h
  split at h
  · cases h
    exact ⟨rfl, rfl, rfl⟩
  · next hnone => exact absurd hkey (row?_eq_none.1 hnone row hrow)

theorem MirrorInv.applyEdge (h : MirrorInv t r) (hkey : PlainKey e.toEdgeKey)
    (hfits : ∀ row ∈ t.edges, EdgeFits e row)
    (hstep : upsertPrepared opts commitId t e = .ok t') :
    MirrorInv t' (r.applyEdge now commitId e) := by
  have hstep := orThrow_eq_ok.1 hstep
  unfold EmbeddedRuntime.applyEdge
  dsimp only
  rcases h.get_edge hkey with ⟨hnew, hnone⟩ | ⟨row, hrow, hrowkey, m, hget, hsame⟩
  · obtain ⟨hedges, hnodes, hrules⟩ := upsertEdge_of_new hnew hstep
    rw [hnone]
    refine h.with_edges hnodes hrules ?_ (h.edges.set rfl) fun other hother => ?_
    · rw [hedges, OrderedMap.values_set_of_none hnone]
      exact forall₂_concat h.same.edges ⟨rfl, rfl, rfl, rfl, rfl, rfl⟩
    · rw [hedges, List.mem_append, List.mem_singleton] at hother
      rcases hother with hother | rfl
      · exact h.edgeKeys other hother
      · exact hkey
  · obtain ⟨hedges, hnodes, hrules⟩ := upsertEdge_of_known hrow hrowkey hstep
    obtain ⟨hid, hdecay⟩ := hfits row hrow hrowkey
    rw [hget]
    refine h.with_edges hnodes hrules ?_ (h.edges.set rfl) fun other hother => ?_
    · rw [hedges, h.edges.values_set_of_some hget]
      refine forall₂_map h.same.edges fun other hother n hn => ?_
      unfold LiteTables.mergeEdge
      by_cases hother' : other.toEdgeKey = e.toEdgeKey
      · -- The keys of the store are unique, so this is the row that was found.
        obtain rfl := t.edgeKeys.eq hother hrow (hother'.trans hrowkey.symm)
        have hnkey : n.key = edgeUpsertKey e.toEdgeKey := by
          rw [EmbeddedEdge.key, hn.key, hother']
        rw [if_pos hnkey, if_pos (show other.toEdgeKey = (upsertArgs commitId e).toEdgeKey from
          hother')]
        exact {
          key := hother'.symm
          id := hid.symm
          weight := congrArg (max · _) hsame.weight
          confidence := congrArg (max · _) hsame.confidence
          decayRate := hdecay.symm
          commitId := rfl }
      · have hnkey : n.key ≠ edgeUpsertKey e.toEdgeKey := by
          rw [EmbeddedEdge.key, hn.key]
          exact fun hk => hother' ((edgeUpsertKey_inj (h.edgeKeys other hother) hkey).1 hk)
        rw [if_neg hnkey, if_neg (show other.toEdgeKey ≠ (upsertArgs commitId e).toEdgeKey from
          hother')]
        exact hn
    · rw [hedges] at hother
      obtain ⟨old, hold, rfl⟩ := List.mem_map.1 hother
      rw [LiteTables.mergeEdge_key]
      exact h.edgeKeys old hold

/-- A row after an upsert is a row before it, up to what may change, or that of the edge. -/
theorem mem_upsertPrepared {row : LiteEdgeRow} (h : upsertPrepared opts commitId t e = .ok t')
    (hrow : row ∈ t'.edges) :
    (∃ old ∈ t.edges, row.toEdgeKey = old.toEdgeKey ∧ row.id = old.id ∧
        row.decayRate = old.decayRate) ∨
      row = newEdgeRow (upsertArgs commitId e) (opts.now e.id) := by
  have h := orThrow_eq_ok.1 h
  by_cases hknown : ∃ old ∈ t.edges, old.toEdgeKey = (upsertArgs commitId e).toEdgeKey
  · obtain ⟨old, hold, hkey⟩ := hknown
    rw [(upsertEdge_of_known hold hkey h).1] at hrow
    obtain ⟨old, hold, rfl⟩ := List.mem_map.1 hrow
    refine .inl ⟨old, hold, LiteTables.mergeEdge_key _ _, LiteTables.mergeEdge_id _ _, ?_⟩
    unfold LiteTables.mergeEdge
    split <;> rfl
  · rw [(upsertEdge_of_new (fun old hold hkey => hknown ⟨old, hold, hkey⟩) h).1,
      List.mem_append, List.mem_singleton] at hrow
    rcases hrow with hrow | hrow
    · exact .inl ⟨row, hrow, rfl, rfl, rfl⟩
    · exact .inr hrow

theorem MirrorInv.applyEdges {es : List PreparedEdge} (h : MirrorInv t r)
    (hkeys : ∀ e ∈ es, PlainKey e.toEdgeKey)
    (hstored : ∀ e ∈ es, ∀ row ∈ t.edges, EdgeFits e row) (hbatch : es.Pairwise EdgesAgree)
    (hrun : es.foldlM (upsertPrepared opts commitId) t = .ok t') :
    MirrorInv t' (es.foldl (EmbeddedRuntime.applyEdge now commitId) r) := by
  induction es generalizing t r with
  | nil =>
    cases hrun
    exact h
  | cons e es ih =>
    rw [List.foldlM_cons] at hrun
    obtain ⟨t₁, hstep, hrun⟩ := bind_eq_ok.1 hrun
    rw [List.forall_mem_cons] at hkeys hstored
    rw [List.pairwise_cons] at hbatch
    refine ih (h.applyEdge hkeys.1 hstored.1 hstep) hkeys.2 (fun e' he' row hrow => ?_) hbatch.2
      hrun
    rcases mem_upsertPrepared hstep hrow with ⟨old, hold, hkey, hid, hdecay⟩ | rfl
    · unfold EdgeFits
      rw [hkey, hid, hdecay]
      exact hstored.2 e' he' old hold
    · exact hbatch.1 e' he'

end Edges

/-! ## Whole writes -/

section Writes

variable {opts : ApplyWriteOptions} {t t' : LiteTables} {r : EmbeddedRuntime}
  {prepared : PreparedWrite} {result : WriteResult}

theorem endpointScope_some {id scope : String} (h : endpointScope t prepared id = some scope) :
    (∃ n ∈ prepared.nodes, n.id = id) ∨ ∃ row ∈ t.nodes, row.id = id := by
  have h := (Option.filter_eq_some_iff.1 h).1
  rcases Option.or_eq_some_iff.1 h with h | ⟨-, h⟩
  · obtain ⟨n, hn, -⟩ := Option.map_eq_some_iff.1 h
    exact .inl ⟨n, List.mem_reverse.1 (List.mem_of_find?_eq_some hn),
      by simpa using List.find?_some hn⟩
  · obtain ⟨row, hrow, -⟩ := Option.map_eq_some_iff.1 h
    exact .inr ⟨row, (mem_of_row? hrow).1, (mem_of_row? hrow).2⟩

theorem checkEdge_ends {e : PreparedEdge} (h : checkEdge opts t prepared e = .ok ()) :
    ∀ id ∈ [e.srcId, e.dstId],
      (∃ n ∈ prepared.nodes, n.id = id) ∨ ∃ row ∈ t.nodes, row.id = id := by
  obtain ⟨src, hsrc, h⟩ := bind_eq_ok.1 h
  obtain ⟨dst, hdst, -⟩ := bind_eq_ok.1 h
  rw [List.forall_mem_cons, List.forall_mem_singleton]
  exact ⟨endpointScope_some (orThrow_eq_ok.1 hsrc), endpointScope_some (orThrow_eq_ok.1 hdst)⟩

theorem insertCommit_ruleDefs (t : LiteTables) (crypto : Crypto) (now : String)
    (a : WriteCommitInsertArgs) : (t.insertCommit crypto now a).2.ruleDefs = t.ruleDefs := by
  unfold LiteTables.insertCommit
  split <;> rfl

theorem MirrorInv.step {s s' : MirrorState} {w : MirrorWrite} (h : MirrorInv s.store s.runtime)
    (hfits : WriteFits s w) (hstep : mirrorStep s w = some s') :
    MirrorInv s'.store s'.runtime := by
  unfold mirrorStep at hstep
  split at hstep
  · next result t' hwrite =>
    obtain rfl := Option.some.inj hstep
    obtain ⟨t₁, t₂, r, steps⟩ := applyMemoryWrite_steps hwrite
    obtain ⟨hnodeScope, -⟩ := assertSingleScopeWrite_ok steps.singleScope
    have huuids := buildWriteResult_uuids steps.built
    have hcommitId : result.commitId = (writeCommit w.opts s.store w.prepared).1 :=
      steps.objects.commitId.trans (buildWriteResult_ok steps.built).1
    obtain ⟨hnodes₀, hedges₀⟩ : (writeCommit w.opts s.store w.prepared).2.nodes = s.store.nodes ∧
        (writeCommit w.opts s.store w.prepared).2.edges = s.store.edges :=
      s.store.insertCommit_frame _ _ _
    have h₀ : MirrorInv (writeCommit w.opts s.store w.prepared).2 s.runtime :=
      h.congr hnodes₀ (insertCommit_ruleDefs _ _ _ _) hedges₀
    have hlists : Lists (writeCommit w.opts s.store w.prepared).2
        (s.store.nodes.map (·.id)) (s.store.ruleDefs.map (·.ruleNodeId)) := by
      rw [← hnodes₀, ← insertCommit_ruleDefs]
      exact .of_tables _
    have hids : ∀ n ∈ w.prepared.nodes, Colonless n.id := fun n hn =>
      colonless_of_isUuid (huuids n hn)
    have hstored : ∀ n ∈ w.prepared.nodes,
        ∀ row ∈ (writeCommit w.opts s.store w.prepared).2.nodes, row.id = n.id →
          row.scope = w.prepared.scope := by
      rw [hnodes₀]
      intro n hn row hrow hid
      rw [checkNodeScope_ok (steps.storedScopes n hn) hrow hid, hnodeScope n hn]
    have h₁ : MirrorInv t₁ (w.prepared.nodes.foldl (EmbeddedRuntime.applyNode
        w.prepared.autoEmbedEffective w.now (writeCommit w.opts s.store w.prepared).1)
          s.runtime) :=
      h₀.applyNodes hlists hids hnodeScope hstored hfits.nodes steps.nodes
    have hedges₁ : t₁.edges = s.store.edges :=
      (insertPlanned_foldlM steps.nodes).2.2.trans hedges₀
    have hkeys : ∀ e ∈ w.prepared.edges, PlainKey e.toEdgeKey := by
      intro e he
      have hend : ∀ id ∈ [e.srcId, e.dstId], Colonless id := by
        intro id hid
        rcases checkEdge_ends (steps.ends e he) id hid with ⟨n, hn, rfl⟩ | ⟨row, hrow, rfl⟩
        · exact hids n hn
        · exact h.nodeIds row hrow
      exact ⟨colonless_of_edgeType (w.edgeTypes e he), hend _ (by simp), hend _ (by simp)⟩
    have h₂ : MirrorInv t₂ (s.runtime.applyWrite w.prepared.autoEmbedEffective w.now
        (writeCommit w.opts s.store w.prepared).1 w.prepared.nodes w.prepared.edges) :=
      h₁.applyEdges hkeys (hedges₁ ▸ hfits.stored) hfits.batch steps.edges
    rw [← hcommitId] at h₂
    exact h₂.congr steps.rows.nodes steps.rows.ruleDefs steps.rows.edges
  · cases hstep

/-- In a run of writes that both sides take alike, the runtime mirrors the store. -/
theorem mirrors_of_fits {writes : List MirrorWrite} {s : MirrorState}
    (hfits : Along mirrorStep WriteFits {} writes) (hrun : run mirrorStep {} writes = some s) :
    Mirrors s.store s.runtime := by
  have hinv : MirrorInv s.store s.runtime :=
    run_invariant_along (Q := fun s => MirrorInv s.store s.runtime)
      (fun _ _ _ h hf hs => h.step hf hs) MirrorInv.empty hfits hrun
  exact hinv.same

end Writes

/-! ## Writes that the two take differently -/

/-- A write of one node with an edge of the given id to itself. -/
def relatedWrite (edgeId : String) : MirrorWrite where
  opts := sampleOptions
  now := "2026-01-01T00:00:00.000Z"
  prepared := {
    tenantId := "default"
    scopePublic := "default"
    scope := "default"
    actor := "system"
    inputSha256 := sampleCrypto.sha256Hex edgeId
    nodes := [sampleNode]
    edges := [{
      scope := "default"
      type := "related_to"
      srcId := sampleNode.id
      dstId := sampleNode.id
      id := edgeId }] }
  edgeTypes := by
    rw [List.forall_mem_singleton]
    show "related_to" ∈ EDGE_TYPES
    decide

/-- A write of one node without a text to embed, where embedding is on. -/
def textlessWrite : MirrorWrite where
  opts := sampleOptions
  now := "2026-01-01T00:00:00.000Z"
  prepared := {
    tenantId := "default"
    scopePublic := "default"
    scope := "default"
    actor := "system"
    inputSha256 := sampleCrypto.sha256Hex "text"
    autoEmbedEffective := true
    nodes := [sampleNode]
    edges := [] }
  edgeTypes := fun _ he => absurd he List.not_mem_nil

theorem mirrors_of_fits_related :
    ∃ s, run mirrorStep {} [relatedWrite "00000000-0000-4000-8000-000000000001",
        relatedWrite "00000000-0000-4000-8000-000000000001"] = some s ∧
      s.store.edges.length = 1 ∧ Mirrors s.store s.runtime := by
  have hlength : (run mirrorStep {} [relatedWrite "00000000-0000-4000-8000-000000000001",
      relatedWrite "00000000-0000-4000-8000-000000000001"]).any
        fun s => s.store.edges.length = 1 := by decide +kernel
  obtain ⟨s, hrun, hone⟩ := (Option.any_eq_true _ _).1 hlength
  exact ⟨s, hrun, of_decide_eq_true hone, mirrors_of_fits (by decide +kernel) hrun⟩

theorem Mirrors.edgeIds {t : LiteTables} {r : EmbeddedRuntime} (h : Mirrors t r) :
    r.edgesByUnique.values.map (·.id) = t.edges.map (·.id) :=
  map_eq_of_forall₂ h.edges fun _ _ hsame => hsame.id

theorem Mirrors.embeddingStatuses {t : LiteTables} {r : EmbeddedRuntime} (h : Mirrors t r) :
    r.nodes.values.map (·.embeddingStatus) = t.nodes.map (·.embeddingStatus) :=
  map_eq_of_forall₂ h.nodes fun _ _ hsame => hsame.embeddingStatus

/-- A second edge of one key takes over the record of the first, but not its row, and a node
without a text waits for its embedding in the runtime only. -/
theorem mirror_differs :
    (∃ s, run mirrorStep {} [relatedWrite "00000000-0000-4000-8000-000000000001",
        relatedWrite "00000000-0000-4000-8000-000000000002"] = some s ∧
      ¬ Mirrors s.store s.runtime) ∧
    ∃ s, run mirrorStep {} [textlessWrite] = some s ∧ ¬ Mirrors s.store s.runtime := by
  have hedges : (run mirrorStep {} [relatedWrite "00000000-0000-4000-8000-000000000001",
      relatedWrite "00000000-0000-4000-8000-000000000002"]).any
        fun s => s.runtime.edgesByUnique.values.map (·.id) ≠ s.store.edges.map (·.id) := by
    decide +kernel
  have hstatus : (run mirrorStep {} [textlessWrite]).any
      fun s => s.runtime.nodes.values.map (·.embeddingStatus) ≠
        s.store.nodes.map (·.embeddingStatus) := by
    decide +kernel
  obtain ⟨s, hrun, hne⟩ := (Option.any_eq_true _ _).1 hedges
  obtain ⟨s', hrun', hne'⟩ := (Option.any_eq_true _ _).1 hstatus
  exact ⟨⟨s, hrun, fun h => of_decide_eq_true hne h.edgeIds⟩,
    s', hrun', fun h => of_decide_eq_true hne' h.embeddingStatuses⟩

end AionisCore.Memory
