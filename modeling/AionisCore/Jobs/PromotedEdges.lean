import AionisCore.Jobs.CandidateStatus
import AionisCore.Memory.WriteResolution

/-!
# The edges of promoted candidates

A promoted candidate names the edge that its promotion upserted. Candidates are kept for
pairs of nodes that a consumer may see together, and neither the lane nor the owner of a node
ever changes, so the nodes of a candidate stay visible together. The edge need not be there
under the name: an upsert keeps the id of an edge that a write has put between the nodes.
-/

namespace AionisCore.Jobs

open Lib Lib.Table Lib.JsString Lib.Journal Memory Util Store

/-! ## What a promoted candidate stands for -/

/-- Both shared, or both private with a common owner. -/
def VisibleTogether (m n : NodeKey) : Prop :=
  (m.memoryLane = .sharedLane ∧ n.memoryLane = .sharedLane) ∨
    (m.memoryLane = .privateLane ∧ n.memoryLane = .privateLane ∧
      ((∃ a, a ≠ "" ∧ m.ownerAgentId = some a ∧ n.ownerAgentId = some a) ∨
        ∃ o, o ≠ "" ∧ m.ownerTeamId = some o ∧ n.ownerTeamId = some o))

theorem sharesOwner_iff {a b : Option String} :
    sharesOwner a b ↔ ∃ s, s ≠ "" ∧ a = some s ∧ b = some s := by
  unfold sharesOwner
  rw [Bool.and_eq_true, beq_iff_eq]
  constructor
  · rintro ⟨hgiven, rfl⟩
    obtain ⟨s, hs⟩ := Option.isSome_iff_exists.1 hgiven
    obtain ⟨ha, hne⟩ := Option.filter_eq_some_iff.1 hs
    exact ⟨s, of_decide_eq_true hne, ha, ha⟩
  · rintro ⟨s, hs, rfl, rfl⟩
    refine ⟨?_, rfl⟩
    rw [given, Option.filter_some, if_pos (decide_eq_true hs)]
    rfl

/-- The edges and the nodes of a promoted candidate. -/
structure PromotedSound (t : LiteTables) (c : AssociationCandidateRecord) : Prop where
  edge : ∃ e ∈ t.edges, c.promotedEdgeId = some e.id ∧ e.scope = c.scope ∧ e.type = "related_to" ∧
    ((e.srcId = c.srcId ∧ e.dstId = c.dstId) ∨ (e.srcId = c.dstId ∧ e.dstId = c.srcId))
  nodes : ∃ m ∈ t.nodes, ∃ n ∈ t.nodes, m.scope = c.scope ∧ m.id = c.srcId ∧ n.scope = c.scope ∧
    n.id = c.dstId ∧ VisibleTogether m.toNodeKey n.toNodeKey

/-- Every promoted candidate has its edge between nodes that are visible together. -/
def PromotedEdgesSound (s : AssociationStore) : Prop :=
  ∀ c ∈ s.candidates, c.status = .promoted → PromotedSound s.tables c

/-! ## Calls -/

/-- What the recall access returns of a node. -/
def associativeRow (vectorText : List ℚ → String) (n : LiteNodeRow) :
    RecallAssociativeNodeRow where
  id := n.id
  scope := n.scope
  type := n.type
  memoryLane := n.memoryLane
  ownerAgentId := n.ownerAgentId
  ownerTeamId := n.ownerTeamId
  title := n.title
  textSummary := n.textSummary
  slots := n.slots
  embeddingText := n.embeddingVector.map vectorText
  createdAt := n.createdAt
  commitId := some n.commitId

/-- The nodes of the tables. -/
def associativeNodes (vectorText : List ℚ → String) (t : LiteTables) : AssociativeNodes where
  rows := t.nodes.map (associativeRow vectorText)
  ids := by
    have hids : ((t.nodes.map (associativeRow vectorText)).map fun n => (n.scope, n.id)).map
        Prod.snd = t.nodes.map (·.id) := by
      rw [List.map_map, List.map_map]
      rfl
    exact List.Nodup.of_map Prod.snd (hids ▸ t.nodeIds)

inductive GraphCall where
  | write (opts : ApplyWriteOptions) (prepared : PreparedWrite)
  | link (config : AssociativeLinkingResolvedConfig) (payload : AssociativeLinkTriggerPayload)
  | promote (config : AssociativeLinkingResolvedConfig) (scope : String)
      (sourceNodeIds : List String)

/-- A write that fails is rolled back. -/
def commitWrite (opts : ApplyWriteOptions) (prepared : PreparedWrite) :
    Program AssociationStore Unit :=
  Program.write fun s =>
    match applyMemoryWrite opts s.tables prepared with
    | .ok (_, tables) => some { s with tables }
    | .error _ => none

def GraphCall.body (env : AssociationEnv) (host : LinkingHost) (vectorText : List ℚ → String) :
    GraphCall → Program AssociationStore Unit
  | write opts prepared => commitWrite opts prepared
  | link config payload => do
    let nodes ← Program.read fun s => associativeNodes vectorText s.tables
    let _ ← runAssociativeLinkingJob env host config payload nodes
    return ()
  | promote config scope sourceNodeIds => do
    let _ ← promoteAssociativeCandidates env host config scope sourceNodeIds
    return ()

def graphStep (env : AssociationEnv) (host : LinkingHost) (vectorText : List ℚ → String)
    (σ : Session AssociationStore) (call : GraphCall) : Option (Session AssociationStore) :=
  some (σ.call (call.body env host vectorText))

/-! ## When a promotion finds its edge -/

section Edges

variable (t : LiteTables) (scope : String) (ends : String × String)

def relatedKey : EdgeKey := ⟨scope, "related_to", ends.1, ends.2⟩

/-- The row between two nodes, in one direction or the other, with the id. -/
def Joined (id : String) : Prop :=
  edgeId? t (relatedKey scope ends) = some id ∨ edgeId? t (relatedKey scope ends.swap) = some id

instance (id : String) : Decidable (Joined t scope ends id) := inferInstanceAs (Decidable (_ ∨ _))

end Edges

/-- No edge leads from the first end to the second, or one between them has the id that the
promotion names. -/
def EdgeFits (crypto : Crypto) (t : LiteTables) (scope : String) (ends : String × String) : Prop :=
  edgeId? t (relatedKey scope ends) = none ∨
    Joined t scope ends (associativeEdgeId crypto scope ends)

instance (crypto : Crypto) (t : LiteTables) (scope : String) (ends : String × String) :
    Decidable (EdgeFits crypto t scope ends) := inferInstanceAs (Decidable (_ ∨ _))

/-- A promotion may be called where the edges of all candidates that it promotes fit. -/
def GraphCall.Allowed (env : AssociationEnv) (host : LinkingHost) (s : AssociationStore) :
    GraphCall → Prop
  | write .. => True
  | link .. => True
  | promote config scope sourceNodeIds => ∀ sourceNodeId ∈ sourceNodeIds,
      ∀ c ∈ s.listShadowCandidates scope sourceNodeId config.maxCandidatesPerSource,
        isPromotable config c → EdgeFits env.crypto s.tables scope (orderedEnds host c)

/-! ## The invariant -/

/-- The nodes of a candidate are stored and visible together. -/
def PairStored (t : LiteTables) (k : CandidateKey) : Prop :=
  ∃ m ∈ t.nodes, ∃ n ∈ t.nodes, m.scope = k.scope ∧ m.id = k.srcId ∧ n.scope = k.scope ∧
    n.id = k.dstId ∧ VisibleTogether m.toNodeKey n.toNodeKey

structure GraphInv (s : AssociationStore) : Prop where
  nodeIds : ∀ n ∈ s.tables.nodes, Colonless n.id
  pairs : ∀ c ∈ s.candidates, PairStored s.tables c.key
  edges : ∀ c ∈ s.candidates, c.status = .promoted →
    ∃ id, c.promotedEdgeId = some id ∧ Joined s.tables c.scope (c.srcId, c.dstId) id

theorem mem_edges_of_edgeId? {t : LiteTables} {k : EdgeKey} {id : String}
    (h : edgeId? t k = some id) : ∃ e ∈ t.edges, e.id = id ∧ e.toEdgeKey = k := by
  obtain ⟨e, he, rfl⟩ := Option.map_eq_some_iff.1 h
  obtain ⟨hmem, hkey⟩ := mem_of_row? he
  exact ⟨e, hmem, rfl, hkey⟩

theorem GraphInv.sound {s : AssociationStore} (h : GraphInv s) : PromotedEdgesSound s := by
  intro c hc hpromoted
  obtain ⟨id, hid, hjoined⟩ := h.edges c hc hpromoted
  refine ⟨?_, h.pairs c hc⟩
  rcases hjoined with hjoined | hjoined
  · obtain ⟨e, he, rfl, hkey⟩ := mem_edges_of_edgeId? hjoined
    exact ⟨e, he, hid, congrArg EdgeKey.scope hkey, congrArg EdgeKey.type hkey,
      .inl ⟨congrArg EdgeKey.srcId hkey, congrArg EdgeKey.dstId hkey⟩⟩
  · obtain ⟨e, he, rfl, hkey⟩ := mem_edges_of_edgeId? hjoined
    exact ⟨e, he, hid, congrArg EdgeKey.scope hkey, congrArg EdgeKey.type hkey,
      .inr ⟨congrArg EdgeKey.srcId hkey, congrArg EdgeKey.dstId hkey⟩⟩

/-! ## Writes -/

/-- What stays when the tables change: nodes, and the ids of edges. -/
structure Grows (t t' : LiteTables) : Prop where
  nodes : t.nodes ⊆ t'.nodes
  edges : ∀ k id, edgeId? t k = some id → edgeId? t' k = some id

theorem PairStored.grow {t t' : LiteTables} {k : CandidateKey} (h : PairStored t k)
    (hgrows : Grows t t') : PairStored t' k := by
  obtain ⟨m, hm, n, hn, hrest⟩ := h
  exact ⟨m, hgrows.nodes hm, n, hgrows.nodes hn, hrest⟩

theorem Joined.grow {t t' : LiteTables} {scope id : String} {ends : String × String}
    (h : Joined t scope ends id) (hgrows : Grows t t') : Joined t' scope ends id :=
  h.imp (hgrows.edges _ _) (hgrows.edges _ _)

section Writes

variable {opts : ApplyWriteOptions} {prepared : PreparedWrite} {t t' : LiteTables}
  {result : WriteResult}

theorem applyMemoryWrite_grows (h : applyMemoryWrite opts t prepared = .ok (result, t')) :
    Grows t t' := by
  have hwritten := applyMemoryWrite_ok h
  refine ⟨?_, fun k id hid => ?_⟩
  · rw [hwritten.nodes]
    exact subset_foldl_insertOrIgnore _
  · rw [hwritten.edges, hid, Option.some_or]

/-- The ids of nodes stay UUIDs, as the result of a write names each by a URI. -/
theorem applyMemoryWrite_colonless (h : applyMemoryWrite opts t prepared = .ok (result, t'))
    (ht : ∀ n ∈ t.nodes, Colonless n.id) : ∀ n ∈ t'.nodes, Colonless n.id := by
  obtain ⟨t₁, t₂, r, steps⟩ := applyMemoryWrite_steps h
  have huuids := buildWriteResult_uuids steps.built
  intro n hn
  rw [(applyMemoryWrite_ok h).nodes] at hn
  rcases mem_foldl_insertOrIgnore hn with hn | hn
  · exact ht n hn
  · obtain ⟨node, hnode, rfl⟩ := List.mem_map.1 hn
    exact colonless_of_isUuid (huuids node hnode)

end Writes

theorem GraphInv.grow {s : AssociationStore} {t' : LiteTables} (h : GraphInv s)
    (hgrows : Grows s.tables t') (hids : ∀ n ∈ t'.nodes, Colonless n.id) :
    GraphInv { s with tables := t' } where
  nodeIds := hids
  pairs c hc := (h.pairs c hc).grow hgrows
  edges c hc hpromoted := by
    obtain ⟨id, hid, hjoined⟩ := h.edges c hc hpromoted
    exact ⟨id, hid, hjoined.grow hgrows⟩

abbrev Preserves {α : Type} (P : AssociationStore → Prop) (p : Program AssociationStore α)
    (Q : α → AssociationStore → Prop) : Prop :=
  Spec GraphInv (fun _ s' => GraphInv s') P p Q

theorem Preserves.write {P : AssociationStore → Prop}
    {f : AssociationStore → Option AssociationStore} {Q : Unit → AssociationStore → Prop}
    (h : ∀ s s', GraphInv s → P s → f s = some s' → GraphInv s' ∧ Q () s') :
    Preserves P (Program.write f) Q := by
  refine Spec.write fun s s' hI hP hf => ?_
  obtain ⟨hI', hQ⟩ := h s s' hI hP hf
  exact ⟨hI', hI', hQ⟩

theorem commitWrite_preserves (opts : ApplyWriteOptions) (prepared : PreparedWrite) :
    Preserves (fun _ => True) (commitWrite opts prepared) fun _ _ => True := by
  refine Preserves.write fun s s' hI _ hs' => ⟨?_, trivial⟩
  split at hs'
  · next result t' hwrite =>
    obtain rfl := Option.some.inj hs'
    exact hI.grow (applyMemoryWrite_grows hwrite) (applyMemoryWrite_colonless hwrite hI.nodeIds)
  · cases hs'

/-! ## Linking jobs -/

section Linking

variable {env : AssociationEnv} {host : LinkingHost} {config : AssociativeLinkingResolvedConfig}
  {payload : AssociativeLinkTriggerPayload} {vectorText : List ℚ → String} {t : LiteTables}

theorem GraphInv.updateStatus {s : AssociationStore} (h : GraphInv s) {k : CandidateKey}
    {status : AssociativeCandidateStatus} (hstatus : status ≠ .promoted) :
    GraphInv (s.updateStatus env k status) where
  nodeIds := h.nodeIds
  pairs c hc := by
    obtain ⟨d, hd, rfl⟩ := List.mem_map.1 hc
    rw [withStatus_key]
    exact h.pairs d hd
  edges c hc hpromoted := by
    obtain ⟨d, hd, rfl⟩ := List.mem_map.1 hc
    unfold withStatus at hpromoted ⊢
    split at hpromoted
    · exact absurd hpromoted hstatus
    · next hk =>
      rw [if_neg hk]
      exact h.edges d hd hpromoted

/-- An upsert that a job makes. -/
def UpsertSound (t : LiteTables) (a : UpsertAssociationCandidateArgs) : Prop :=
  a.status ≠ .promoted ∧ PairStored t a.toCandidateKey

theorem GraphInv.mergeCandidate {s : AssociationStore} (h : GraphInv s) {now : String}
    {a : UpsertAssociationCandidateArgs} (ha : UpsertSound s.tables a)
    {c : AssociationCandidateRecord} (hc : c ∈ s.candidates)
    (hpromoted : (mergeCandidate now a c).status = .promoted) :
    ∃ id, (mergeCandidate now a c).promotedEdgeId = some id ∧
      Joined s.tables (mergeCandidate now a c).scope
        ((mergeCandidate now a c).srcId, (mergeCandidate now a c).dstId) id := by
  unfold Store.mergeCandidate at hpromoted ⊢
  by_cases hk : c.key = a.toCandidateKey
  · rw [if_pos hk] at hpromoted ⊢
    dsimp only at hpromoted ⊢
    by_cases hkept : c.status = .promoted ∧ a.status = .shadow
    · rw [if_pos hkept]
      exact h.edges c hc hkept.1
    · rw [if_neg hkept] at hpromoted
      exact absurd hpromoted ha.1
  · rw [if_neg hk] at hpromoted ⊢
    exact h.edges c hc hpromoted

theorem GraphInv.upsertCandidate {s s' : AssociationStore} (h : GraphInv s)
    {a : UpsertAssociationCandidateArgs} (ha : UpsertSound s.tables a)
    (hs' : s.upsertCandidate env a = some s') : GraphInv s' ∧ s'.tables = s.tables := by
  unfold AssociationStore.upsertCandidate at hs'
  split at hs'
  · obtain rfl := Option.some.inj hs'
    refine ⟨⟨h.nodeIds, fun c hc => ?_, fun c hc hpromoted => ?_⟩, rfl⟩
    · obtain ⟨d, hd, rfl⟩ := List.mem_map.1 hc
      rw [mergeCandidate_key]
      exact h.pairs d hd
    · obtain ⟨d, hd, rfl⟩ := List.mem_map.1 hc
      exact h.mergeCandidate ha hd hpromoted
  · simp only at hs'
    split at hs'
    · cases hs'
    · obtain rfl := Option.some.inj hs'
      refine ⟨⟨h.nodeIds, fun c hc => ?_, fun c hc hpromoted => ?_⟩, rfl⟩
      · rcases List.mem_append.1 hc with hc | hc
        · exact h.pairs c hc
        · obtain rfl := List.mem_singleton.1 hc
          exact ha.2
      · rcases List.mem_append.1 hc with hc | hc
        · exact h.edges c hc hpromoted
        · obtain rfl := List.mem_singleton.1 hc
          exact absurd hpromoted ha.1

theorem visibleTogether_of_compatible {m n : LiteNodeRow}
    (h : isAssociativeVisibilityCompatible (some (associativeRow vectorText m).visibility)
      (some (associativeRow vectorText n).visibility)) :
    VisibleTogether m.toNodeKey n.toNodeKey := by
  dsimp only [isAssociativeVisibilityCompatible, RecallAssociativeNodeRow.visibility,
    associativeRow] at h
  split at h
  · exact .inl (of_decide_eq_true h)
  · next hlanes =>
    rw [not_or] at hlanes
    have hprivate : ∀ {l : MemoryLane}, l ≠ .sharedLane → l = .privateLane := by
      intro l hl
      cases l with
      | privateLane => rfl
      | sharedLane => exact absurd rfl hl
    refine .inr ⟨hprivate hlanes.1, hprivate hlanes.2, ?_⟩
    rw [Bool.or_eq_true] at h
    exact h.imp sharesOwner_iff.1 sharesOwner_iff.1

/-- What a source and a pool of stored nodes are upserted as. -/
theorem sourceUpserts_sound {source : RecallAssociativeNodeRow}
    {pool : List RecallAssociativeNodeRow}
    (hsource : source ∈ (associativeNodes vectorText t).rows)
    (hpool : pool ⊆ (associativeNodes vectorText t).rows) :
    ∀ a ∈ sourceUpserts host config payload pool source, UpsertSound t a := by
  obtain ⟨m, hm, rfl⟩ := List.mem_map.1 hsource
  have hrow : ∀ row ∈ scoredRows host payload pool (associativeRow vectorText m),
      row.visibilityCompatible = true →
        PairStored t (row.key payload (associativeRow vectorText m)) := by
    intro row hrow hvisible
    obtain ⟨candidate, hcandidate, rfl⟩ :=
      List.mem_map.1 ((List.mergeSort_perm _ _).mem_iff.1 hrow)
    obtain ⟨hin, hcomparable⟩ := List.mem_filter.1 hcandidate
    obtain ⟨n, hn, rfl⟩ := List.mem_map.1 (hpool hin)
    obtain ⟨-, hscopes, hscope⟩ := of_decide_eq_true hcomparable
    exact ⟨m, hm, n, hn, hscopes.symm.trans hscope, rfl, hscope, rfl,
      visibleTogether_of_compatible hvisible⟩
  intro a ha
  rcases List.mem_append.1 ha with ha | ha
  · obtain ⟨row, hin, rfl⟩ := List.mem_map.1 ha
    have hin := (List.mergeSort_perm _ _).mem_iff.1 (List.mem_of_mem_take hin)
    obtain ⟨hin, hselected⟩ := List.mem_filter.1 hin
    exact ⟨AssociativeCandidateStatus.noConfusion, hrow row hin (of_decide_eq_true hselected).1⟩
  · obtain ⟨row, hin, rfl⟩ := List.mem_map.1 ha
    obtain ⟨hin, hrejected⟩ := List.mem_filter.1 hin
    exact ⟨AssociativeCandidateStatus.noConfusion, hrow row hin (of_decide_eq_true hrejected).1⟩

/-- A loop over the sources that leaves the tables as they are. -/
def SourcesSound (t : LiteTables) (nodes : List RecallAssociativeNodeRow)
    (progress : LinkingProgress) (rest : List RecallAssociativeNodeRow)
    (s : AssociationStore) : Prop :=
  s.tables = t ∧ rest ⊆ nodes ∧ ∀ a ∈ progress.upserts, UpsertSound t a

theorem linkSource_preserves {pool : List RecallAssociativeNodeRow}
    (hpool : pool ⊆ (associativeNodes vectorText t).rows) (progress : LinkingProgress)
    (source : RecallAssociativeNodeRow) (rest : List RecallAssociativeNodeRow) :
    Preserves (SourcesSound t (associativeNodes vectorText t).rows progress (source :: rest))
      (linkSource env host config payload pool progress source)
      fun progress => SourcesSound t (associativeNodes vectorText t).rows progress rest := by
  let P := SourcesSound t (associativeNodes vectorText t).rows progress (source :: rest)
  refine Spec.bind (M := fun _ => P) (.read fun _ _ h => h) fun existing => ?_
  refine Spec.bind (M := fun _ => P) ?_ fun _ => ?_
  · refine Spec.forM (J := fun _ => P) (fun e _ => Preserves.write fun s s' hI hP hs' => ?_) _
    obtain rfl := Option.some.inj hs'
    exact ⟨hI.updateStatus AssociativeCandidateStatus.noConfusion, hP⟩
  · refine .pure fun s _ hP => ?_
    obtain ⟨htables, hsources, hupserts⟩ := hP
    refine ⟨htables, fun x hx => hsources (List.mem_cons_of_mem _ hx), fun a ha => ?_⟩
    rcases List.mem_append.1 ha with ha | ha
    · exact hupserts a ha
    · exact sourceUpserts_sound (hsources List.mem_cons_self) hpool a ha

theorem listed_subset (nodes : AssociativeNodes) :
    (fetchAssociativeCandidatesForSources config payload nodes).1 ⊆ nodes.rows ∧
      (fetchAssociativeCandidatesForSources config payload nodes).2 ⊆ nodes.rows := by
  constructor
  · intro n hn
    exact (List.mem_filter.1 ((List.mergeSort_perm _ _).mem_iff.1 hn)).1
  · intro n hn
    exact (List.mem_filter.1 ((List.mergeSort_perm _ _).mem_iff.1 (List.mem_of_mem_take hn))).1

theorem runAssociativeLinkingJob_preserves :
    Preserves (fun s => s.tables = t)
      (runAssociativeLinkingJob env host config payload (associativeNodes vectorText t))
      fun _ _ => True := by
  obtain ⟨hsources, hpool⟩ :=
    @listed_subset config payload (associativeNodes vectorText t)
  refine Spec.bind (M := fun progress s => s.tables = t ∧ ∀ a ∈ progress.upserts,
    UpsertSound t a) ?_ fun progress => ?_
  · refine Spec.mono (Spec.foldlM (linkSource_preserves hpool) _ {}) ?_ ?_
    · exact fun s _ ht => ⟨ht, hsources, fun a ha => absurd ha List.not_mem_nil⟩
    · exact fun progress s _ h => ⟨h.1, h.2.2⟩
  · refine Spec.bind (M := fun _ _ => True) ?_ fun _ => .pure fun _ _ _ => trivial
    refine Spec.mono (Spec.forM (J := fun rest s => s.tables = t ∧ ∀ a ∈ rest, UpsertSound t a)
      (fun a rest => Preserves.write fun s s' hI hP hs' => ?_) progress.upserts)
      (fun _ _ h => h) fun _ _ _ _ => trivial
    obtain ⟨rfl, hsound⟩ := hP
    obtain ⟨hI', htables⟩ := hI.upsertCandidate (hsound a List.mem_cons_self) hs'
    exact ⟨hI', htables, fun b hb => hsound b (List.mem_cons_of_mem _ hb)⟩

end Linking

/-! ## Promotions -/

section Edges

variable {t t' : LiteTables} {scope id : String} {ends ends' : String × String}

theorem joined_swap : Joined t scope ends.swap id ↔ Joined t scope ends id := or_comm

theorem relatedKey_inj (h : relatedKey scope ends = relatedKey scope ends') : ends = ends' :=
  Prod.ext (congrArg EdgeKey.srcId h) (congrArg EdgeKey.dstId h)

theorem edgeKeyText_inj (h₁ : Colonless ends.1) (h₂ : Colonless ends.2)
    (h₁' : Colonless ends'.1) (h₂' : Colonless ends'.2)
    (h : edgeKeyText scope ends = edgeKeyText scope ends') : ends = ends' := by
  have htext : ∀ e : String × String, (edgeKeyText scope e).toList.reverse =
      e.2.toList.reverse ++ ':' :: (e.1.toList.reverse ++ ':' :: scope.toList.reverse) := by
    intro e
    simp [edgeKeyText, toString]
  have hplain : ∀ {s : String}, Colonless s → ':' ∉ s.toList.reverse :=
    fun hs hm => hs (List.mem_reverse.1 hm)
  have hrev := congrArg (fun k => k.toList.reverse) h
  simp only [htext] at hrev
  obtain ⟨hdst, hrest⟩ := append_sep_inj (hplain h₂) (hplain h₂') hrev
  obtain ⟨hsrc, -⟩ := append_sep_inj (hplain h₁) (hplain h₁') hrest
  exact Prod.ext (String.toList_injective (List.reverse_injective hsrc))
    (String.toList_injective (List.reverse_injective hdst))

variable {env : AssociationEnv} {now commitId : String} {c : AssociationCandidateRecord}

theorem upsertEdge_grows {a : WriteEdgeUpsertArgs} (h : t.upsertEdge now a = some t') :
    Grows t t' := by
  refine ⟨?_, fun k id hid => ?_⟩
  · rw [(upsertEdge_frame h).1]
    exact List.Subset.refl _
  · rw [edgeId?_upsertEdge h, hid, Option.some_or]

theorem joined_of_upsert (hfits : EdgeFits env.crypto t scope ends)
    (h : t.upsertEdge now (associativeEdge env scope ends commitId c) = some t') :
    Joined t' scope ends (associativeEdgeId env.crypto scope ends) := by
  rcases hfits with hnone | hjoined
  · refine .inl ?_
    rw [edgeId?_upsertEdge h, hnone, Option.none_or]
    exact if_pos rfl
  · exact hjoined.grow (upsertEdge_grows h)

theorem EdgeFits.upsert (hfits : EdgeFits env.crypto t scope ends')
    (h : t.upsertEdge now (associativeEdge env scope ends commitId c) = some t') :
    EdgeFits env.crypto t' scope ends' := by
  by_cases he : ends = ends'
  · subst he
    exact .inr (joined_of_upsert hfits h)
  · rcases hfits with hnone | hjoined
    · refine .inl ?_
      rw [edgeId?_upsertEdge h, hnone, Option.none_or]
      exact if_neg fun hk => he (relatedKey_inj hk)
    · exact .inr (hjoined.grow (upsertEdge_grows h))

end Edges

section Promotion

variable {env : AssociationEnv} {host : LinkingHost} {config : AssociativeLinkingResolvedConfig}
  {scope : String} {s₀ s s' : AssociationStore}

theorem GraphInv.markPromoted (h : GraphInv s) {k : CandidateKey} {id : String}
    (hjoined : Joined s.tables k.scope (k.srcId, k.dstId) id) :
    GraphInv (s.markPromoted env k id) where
  nodeIds := h.nodeIds
  pairs c hc := by
    obtain ⟨d, hd, rfl⟩ := List.mem_map.1 hc
    rw [withEdge_key]
    exact h.pairs d hd
  edges c hc hpromoted := by
    obtain ⟨d, hd, rfl⟩ := List.mem_map.1 hc
    unfold withEdge at hpromoted ⊢
    split
    · next hk =>
      obtain rfl := hk
      exact ⟨id, rfl, hjoined⟩
    · next hk =>
      rw [if_neg hk] at hpromoted
      exact h.edges d hd hpromoted

/-- The ends of a stored candidate are ids without a separator. -/
theorem GraphInv.colonless_ends (h : GraphInv s) {c : AssociationCandidateRecord}
    (hc : c ∈ s.candidates) (host : LinkingHost) :
    Colonless (orderedEnds host c).1 ∧ Colonless (orderedEnds host c).2 := by
  obtain ⟨m, hm, n, hn, -, hsrc, -, hdst, -⟩ := h.pairs c hc
  have hsrcId : Colonless c.srcId := hsrc ▸ h.nodeIds m hm
  have hdstId : Colonless c.dstId := hdst ▸ h.nodeIds n hn
  unfold orderedEnds
  split
  · exact ⟨hsrcId, hdstId⟩
  · exact ⟨hdstId, hsrcId⟩

theorem joined_orderedEnds {t : LiteTables} {c : AssociationCandidateRecord} {id : String}
    (h : Joined t scope (orderedEnds host c) id) : Joined t scope (c.srcId, c.dstId) id := by
  unfold orderedEnds at h
  split at h
  · exact h
  · exact joined_swap.1 h

/-- A promotion that has candidates of one source left, and then the sources `rest`. -/
structure Promoting (env : AssociationEnv) (host : LinkingHost)
    (config : AssociativeLinkingResolvedConfig) (scope : String) (s₀ : AssociationStore)
    (seenEdges : List String) (left : List AssociationCandidateRecord) (rest : List String)
    (s : AssociationStore) : Prop where
  listed : Listed left s
  ofScope : ∀ c ∈ left, c.scope = scope ∧ c.srcId ∉ rest
  fits : ∀ c ∈ left ++ rest.flatMap fun sourceNodeId =>
      s₀.listShadowCandidates scope sourceNodeId config.maxCandidatesPerSource,
    isPromotable config c → EdgeFits env.crypto s.tables scope (orderedEnds host c)
  seen : ∀ text ∈ seenEdges, ∃ ends, Colonless ends.1 ∧ Colonless ends.2 ∧
    text = edgeKeyText scope ends ∧
      Joined s.tables scope ends (associativeEdgeId env.crypto scope ends)
  lists : ∀ sourceNodeId ∈ rest,
    s.listShadowCandidates scope sourceNodeId config.maxCandidatesPerSource =
      s₀.listShadowCandidates scope sourceNodeId config.maxCandidatesPerSource

variable {seenEdges rest : List String} {c : AssociationCandidateRecord}
  {left : List AssociationCandidateRecord}

/-- A statement about one candidate leaves the others, and the tables, as they are. -/
theorem Promoting.tail (h : Promoting env host config scope s₀ seenEdges (c :: left) rest s)
    (htables : s'.tables = s.tables) (hothers : ∀ k, k ≠ c.key → s'.candidate? k = s.candidate? k)
    (hlists : ∀ srcId, c.srcId ≠ srcId →
      s'.listShadowCandidates scope srcId config.maxCandidatesPerSource =
        s.listShadowCandidates scope srcId config.maxCandidatesPerSource) :
    Promoting env host config scope s₀ seenEdges left rest s' where
  listed := h.listed.tail hothers
  ofScope d hd := h.ofScope d (List.mem_cons_of_mem _ hd)
  fits d hd := by
    rw [htables]
    exact h.fits d (List.mem_cons_of_mem _ hd)
  seen := by
    rw [htables]
    exact h.seen
  lists srcId hsrcId := by
    have hne : c.srcId ≠ srcId := fun he => (h.ofScope c List.mem_cons_self).2 (he ▸ hsrcId)
    rw [hlists srcId hne]
    exact h.lists srcId hsrcId

theorem rejectCandidate_preserves :
    Preserves (Promoting env host config scope s₀ seenEdges (c :: left) rest)
      (rejectCandidate env c) fun _ => Promoting env host config scope s₀ seenEdges left rest := by
  refine Spec.ite (fun _ => Preserves.write fun s s' hI h hs' => ?_) fun _ => ?_
  · obtain rfl := Option.some.inj hs'
    refine ⟨hI.updateStatus AssociativeCandidateStatus.noConfusion, h.tail rfl ?_ ?_⟩
    · exact fun k hk => candidate?_updateStatus_of_ne hk
    · exact fun srcId hne => listShadowCandidates_updateStatus hne _
  · exact .pure fun s _ h => h.tail rfl (fun _ _ => rfl) fun _ _ => rfl

theorem upsertAssociativeEdge_preserves (hpromotable : isPromotable config c) :
    Preserves (Promoting env host config scope s₀ seenEdges (c :: left) rest)
      (upsertAssociativeEdge env host scope seenEdges c) fun _ s =>
        Promoting env host config scope s₀ seenEdges (c :: left) rest s ∧
          Joined s.tables scope (orderedEnds host c)
            (associativeEdgeId env.crypto scope (orderedEnds host c)) := by
  refine Spec.ite (fun hseen => ?_) fun _ => Preserves.write fun s s' hI h hs' => ?_
  · refine .pure fun s hI h => ⟨h, ?_⟩
    obtain ⟨ends, h₁, h₂, htext, hjoined⟩ := h.seen _ hseen
    obtain ⟨h₁', h₂'⟩ := hI.colonless_ends (mem_of_row? h.listed.head).1 host
    obtain rfl := edgeKeyText_inj h₁' h₂' h₁ h₂ htext
    exact hjoined
  · obtain ⟨t', ht', rfl⟩ := Option.map_eq_some_iff.1 hs'
    have hgrows := upsertEdge_grows ht'
    have hfits := h.fits c (List.mem_append_left _ List.mem_cons_self) hpromotable
    have hids : ∀ n ∈ t'.nodes, Colonless n.id := (upsertEdge_frame ht').1 ▸ hI.nodeIds
    have hI' : GraphInv { s with tables := t' } := hI.grow hgrows hids
    refine ⟨⟨hI'.nodeIds, hI'.pairs, hI'.edges⟩, ?_, joined_of_upsert hfits ht'⟩
    exact {
      listed := h.listed
      ofScope := h.ofScope
      fits := fun d hd hpromotable => (h.fits d hd hpromotable).upsert ht'
      seen := fun text htext => by
        obtain ⟨ends, h₁, h₂, hends, hjoined⟩ := h.seen text htext
        exact ⟨ends, h₁, h₂, hends, hjoined.grow hgrows⟩
      lists := h.lists }

theorem promoteCandidate_preserves (progress : PromotionProgress) :
    Preserves (Promoting env host config scope s₀ progress.seenEdges (c :: left) rest)
      (promoteCandidate env host config scope progress c) fun progress =>
        Promoting env host config scope s₀ progress.seenEdges left rest := by
  refine Spec.ite (fun hpromotable => ?_) fun _ => ?_
  · refine (upsertAssociativeEdge_preserves hpromotable).bind fun _ => ?_
    refine Spec.bind (M := fun _ => Promoting env host config scope s₀
      (edgeKeyText scope (orderedEnds host c) :: progress.seenEdges) left rest)
      (Preserves.write fun s s' hI h hs' => ?_) fun _ => .pure fun s _ h => h
    obtain ⟨h, hjoined⟩ := h
    obtain rfl := Option.some.inj hs'
    obtain ⟨h₁, h₂⟩ := hI.colonless_ends (mem_of_row? h.listed.head).1 host
    have htail : Promoting env host config scope s₀ progress.seenEdges left rest
        (s.markPromoted env c.key (associativeEdgeId env.crypto scope (orderedEnds host c))) :=
      h.tail rfl (fun k hk => candidate?_markPromoted_of_ne hk)
        fun srcId hne => listShadowCandidates_markPromoted hne _
    refine ⟨hI.markPromoted ?_, { htail with seen := ?_ }⟩
    · rw [(h.ofScope c List.mem_cons_self).1]
      exact joined_orderedEnds hjoined
    · intro text htext
      rcases List.mem_cons.1 htext with rfl | htext
      · exact ⟨_, h₁, h₂, rfl, hjoined⟩
      · exact htail.seen text htext
  · exact rejectCandidate_preserves.bind fun _ => .pure fun s _ h => h

theorem promoteSource_preserves (progress : PromotionProgress) (sourceNodeId : String)
    (rest : List String) :
    Preserves (fun s => (sourceNodeId :: rest).Nodup ∧
        Promoting env host config scope s₀ progress.seenEdges [] (sourceNodeId :: rest) s)
      (promoteSource env host config scope progress sourceNodeId) fun progress s =>
        rest.Nodup ∧ Promoting env host config scope s₀ progress.seenEdges [] rest s := by
  refine Spec.bind (M := fun candidates s => rest.Nodup ∧
    Promoting env host config scope s₀ progress.seenEdges candidates rest s) ?_
    fun candidates => ?_
  · refine .read fun s _ h => ?_
    obtain ⟨hnodup, h⟩ := h
    obtain ⟨hnot, hnodup⟩ := List.nodup_cons.1 hnodup
    refine ⟨hnodup, listed_listShadowCandidates s scope sourceNodeId _, fun c hc => ?_,
      fun c hc => ?_, h.seen, fun srcId hsrcId => h.lists srcId (List.mem_cons_of_mem _ hsrcId)⟩
    · obtain ⟨-, hscope, hsrc, -⟩ := mem_listShadowCandidates hc
      exact ⟨hscope, hsrc ▸ hnot⟩
    · rw [h.lists sourceNodeId List.mem_cons_self] at hc
      exact h.fits c hc
  · refine Spec.mono (Spec.foldlM (J := fun progress left s => rest.Nodup ∧
      Promoting env host config scope s₀ progress.seenEdges left rest s)
      (fun progress c left => ?_) candidates progress) (fun _ _ h => h) fun _ _ _ h => h
    refine Spec.of_start fun s₁ h₁ => ?_
    exact (promoteCandidate_preserves progress).mono (fun s _ hs => hs ▸ h₁.2)
      fun _ _ _ h => ⟨h₁.1, h⟩

theorem promoteAssociativeCandidates_preserves (sourceNodeIds : List String) :
    Preserves (fun s => (GraphCall.promote config scope sourceNodeIds).Allowed env host s)
      (promoteAssociativeCandidates env host config scope sourceNodeIds) fun _ _ => True := by
  refine Spec.of_start fun s₀ hallowed => ?_
  refine Spec.bind (M := fun _ _ => True) ?_ fun _ => .pure fun _ _ _ => trivial
  refine Spec.mono (Spec.foldlM (J := fun (progress : PromotionProgress) rest s => rest.Nodup ∧
    Promoting env host config scope s₀ progress.seenEdges [] rest s)
    promoteSource_preserves sourceNodeIds.eraseDups {}) ?_ fun _ _ _ _ => trivial
  rintro s - rfl
  refine ⟨nodup_eraseDups _, ⟨List.nodup_nil, fun c hc => absurd hc List.not_mem_nil⟩,
    fun c hc => absurd hc List.not_mem_nil, fun c hc => ?_,
    fun text htext => absurd htext List.not_mem_nil, fun _ _ => rfl⟩
  obtain ⟨sourceNodeId, hin, hc⟩ := List.mem_flatMap.1 hc
  exact hallowed sourceNodeId (List.mem_eraseDups.1 hin) c hc

end Promotion

/-! ## Runs -/

theorem GraphCall.body_preserves {env : AssociationEnv} {host : LinkingHost}
    {vectorText : List ℚ → String} (call : GraphCall) :
    Preserves (fun s => call.Allowed env host s) (call.body env host vectorText)
      fun _ _ => True := by
  cases call with
  | write opts prepared =>
    exact (commitWrite_preserves opts prepared).mono (fun _ _ _ => trivial) fun _ _ _ h => h
  | link config payload =>
    refine Spec.bind (M := fun nodes s => ∃ t, nodes = associativeNodes vectorText t ∧
      s.tables = t) (.read fun s _ _ => ⟨s.tables, rfl, rfl⟩) fun nodes => ?_
    refine Spec.of_start fun s₁ h₁ => ?_
    obtain ⟨t, rfl, ht⟩ := h₁
    refine Spec.bind (M := fun _ _ => True) ?_ fun _ => .pure fun _ _ _ => trivial
    exact runAssociativeLinkingJob_preserves.mono (fun s _ hs => hs ▸ ht) fun _ _ _ h => h
  | promote config scope sourceNodeIds =>
    refine Spec.bind (M := fun _ _ => True) ?_ fun _ => .pure fun _ _ _ => trivial
    exact promoteAssociativeCandidates_preserves sourceNodeIds

theorem graphInv_empty : GraphInv emptyAssociationStore where
  nodeIds _ hn := absurd hn List.not_mem_nil
  pairs _ hc := absurd hc List.not_mem_nil
  edges _ hc := absurd hc List.not_mem_nil

/-- In a run of allowed calls from the empty store, every promoted candidate has its edge
between nodes that are visible together, after each single statement. -/
theorem promotedEdges_sound {env : AssociationEnv} {host : LinkingHost}
    {vectorText : List ℚ → String} {calls : List GraphCall} {σ : Session AssociationStore}
    (hallowed : Along (graphStep env host vectorText) (fun σ call => call.Allowed env host σ.store)
      ⟨emptyAssociationStore, []⟩ calls)
    (hrun : run (graphStep env host vectorText) ⟨emptyAssociationStore, []⟩ calls = some σ) :
    PromotedEdgesSound σ.store ∧ ∀ c ∈ σ.changes, PromotedEdgesSound c.2 := by
  obtain ⟨hI, hchanges⟩ := run_session (fun call => GraphCall.body_preserves call)
    graphInv_empty (fun c hc => absurd hc List.not_mem_nil) hallowed hrun
  exact ⟨hI.sound, fun c hc => (hchanges c hc).sound⟩

/-! ## A sample -/

instance (env : AssociationEnv) (host : LinkingHost) (s : AssociationStore) :
    (call : GraphCall) → Decidable (call.Allowed env host s)
  | .write .. => .isTrue trivial
  | .link .. => .isTrue trivial
  | .promote .. => inferInstanceAs (Decidable (∀ _ ∈ _, ∀ c ∈ _, isPromotable _ c → _))

/-- A shared node of a task. -/
def taskNode (hex : Char) : PreparedNode where
  id := sampleNodeId hex
  scope := "default"
  type := "event"
  memoryLane := .sharedLane
  slots := [("resume_anchor", .obj [("anchor", .str "resume:auth"),
      ("file_path", .str "src/auth.ts"), ("symbol", .str "login")]),
    ("acceptance_checks", .arr [.str "npm test"])]

/-- A write of two nodes of a task, with the given edges. -/
def taskWrite (edges : List PreparedEdge) : GraphCall :=
  .write sampleOptions
    { tenantId := "default"
      scopePublic := "default"
      scope := "default"
      actor := "system"
      inputSha256 := "sha"
      nodes := [taskNode 'a', taskNode 'b']
      edges }

/-- An edge between the two nodes that brings an id. -/
def taskEdge : PreparedEdge where
  scope := "default"
  type := "related_to"
  srcId := sampleNodeId 'a'
  dstId := sampleNodeId 'b'
  id := sampleNodeId 'e'

/-- The two nodes are written, linked and promoted. -/
def taskCalls (edges : List PreparedEdge) : List GraphCall :=
  [taskWrite edges, .link {} samplePayload, .promote lowThresholds "default" [sampleNodeId 'a']]

def taskRun (edges : List PreparedEdge) : Session AssociationStore :=
  (taskCalls edges).foldl (fun σ call =>
    σ.call (call.body sampleAssociationEnv sampleLinkingHost fun _ => "[]"))
    ⟨emptyAssociationStore, []⟩

theorem promotedEdges_sound_task :
    ((taskRun []).store.candidates.any fun c => c.status = .promoted) ∧
      PromotedEdgesSound (taskRun []).store ∧
      ∀ c ∈ (taskRun []).changes, PromotedEdgesSound c.2 := by
  refine ⟨?_, @promotedEdges_sound sampleAssociationEnv sampleLinkingHost (fun _ => "[]")
    (taskCalls []) (taskRun []) ?_ rfl⟩
  · decide +kernel
  · decide +kernel

/-- The promotion names an edge that is not stored: the edge of the write keeps its id. -/
theorem promoted_without_edge :
    ¬ ∀ (env : AssociationEnv) (host : LinkingHost) (vectorText : List ℚ → String)
      (calls : List GraphCall) (σ : Session AssociationStore),
      run (graphStep env host vectorText) ⟨emptyAssociationStore, []⟩ calls = some σ →
        PromotedEdgesSound σ.store := by
  intro h
  have hsound := h sampleAssociationEnv sampleLinkingHost (fun _ => "[]") (taskCalls [taskEdge])
    (taskRun [taskEdge]) rfl
  have hdangling : ((taskRun [taskEdge]).store.candidates.any fun c => c.status = .promoted ∧
      (taskRun [taskEdge]).store.tables.edges.all fun e =>
        c.promotedEdgeId ≠ some e.id) = true := by
    decide +kernel
  obtain ⟨c, hc, hpromoted⟩ := List.any_eq_true.1 hdangling
  obtain ⟨hpromoted, hall⟩ := of_decide_eq_true hpromoted
  obtain ⟨⟨e, he, hid, -⟩, -⟩ := hsound c hc hpromoted
  exact of_decide_eq_true (List.all_eq_true.1 hall e he) hid

end AionisCore.Jobs
