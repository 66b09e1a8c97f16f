import AionisCore.Store.SnapshotRestore
import Mathlib.Tactic.FinCases

/-!
# Compaction of a snapshot

What `compactSnapshot` returns: a snapshot whose references are closed, its exact size, and a
report that counts what was trimmed and dropped. Trimming goes through the tiers, each node being
of one tier, and pruning takes away from what trimming left.
-/

namespace AionisCore.Store

open Lib Lib.JsString Memory

/-- Edges and rule definitions refer to nodes that are there. -/
structure Snapshot.Closed (s : Snapshot) : Prop where
  sources : ∀ e ∈ s.edges, ∃ n ∈ s.nodes, n.scope = e.scope ∧ n.id = e.srcId
  targets : ∀ e ∈ s.edges, ∃ n ∈ s.nodes, n.scope = e.scope ∧ n.id = e.dstId
  rules : ∀ r ∈ s.ruleDefs, ∃ n ∈ s.nodes, n.scope = r.scope ∧ n.id = r.ruleNodeId

/-! ## Trimming -/

section Trim

variable {opts : SnapshotOptions} {s : Snapshot} {c : Compaction} {tiers done : List String}

/-- A node after the passes over the tiers. -/
def trimNode (trims : EmbeddedNode → Bool) (n : EmbeddedNode) : EmbeddedNode :=
  if trims n then trimmedNode n else n

/-- A snapshot with its audit cut and the nodes of the tiers trimmed. -/
def trimmedTo (s : Snapshot) (tiers : List String) : Snapshot :=
  { s with
    audit := lastOf 200 s.audit
    nodes := s.nodes.map (trimNode (payloadTrims tiers)) }

theorem audit_trimmedTo (s : Snapshot) (tiers : List String) :
    (trimmedTo s tiers).audit = lastOf 200 s.audit := by
  unfold trimmedTo
  with_reducible rfl

theorem payloadTrims_nil (n : EmbeddedNode) : payloadTrims [] n = false := by
  unfold payloadTrims
  rw [List.contains_nil, Bool.false_and, Bool.false_and]

theorem trimmedTo_nil (s : Snapshot) : trimmedTo s [] = { s with audit := lastOf 200 s.audit } := by
  have hnodes : s.nodes.map (trimNode (payloadTrims [])) = s.nodes := by
    refine (List.map_congr_left fun n _ => ?_).trans (List.map_id _)
    unfold trimNode
    rw [payloadTrims_nil]
    rfl
  unfold trimmedTo
  rw [hnodes]

theorem ne_of_payloadTrims {n : EmbeddedNode} (h : payloadTrims tiers n = true) :
    n.type ≠ "rule" ∧ trimmedNode n ≠ n := by
  simp only [payloadTrims, Bool.and_eq_true, Bool.or_eq_true, bne_iff_ne, Bool.not_eq_true'] at h
  obtain ⟨⟨-, htype⟩, hpayload⟩ := h
  refine ⟨htype, fun heq => ?_⟩
  have hslots : n.slots = [] := (congrArg EmbeddedNode.slots heq).symm
  have hraw : n.rawRef = none := (congrArg EmbeddedNode.rawRef heq).symm
  have hevidence : n.evidenceRef = none := (congrArg EmbeddedNode.evidenceRef heq).symm
  have hsummary : trimmedSummary n.textSummary = n.textSummary :=
    congrArg EmbeddedNode.textSummary heq
  rw [hslots, hraw, hevidence] at hpayload
  rcases hpayload with ((hpayload | hpayload) | hpayload) | hpayload
  · cases hpayload
  · cases hpayload
  · cases hpayload
  · exact hpayload hsummary

theorem payloadTrims_append (done tiers : List String) (n : EmbeddedNode) :
    payloadTrims (done ++ tiers) n = (payloadTrims done n || payloadTrims tiers n) := by
  unfold payloadTrims
  rw [List.contains_append]
  cases done.contains n.tier <;> cases tiers.contains n.tier <;> simp

/-- Trimming leaves the tier, so that a node is trimmed once. -/
theorem payloadTrims_trimNode (hdisjoint : ∀ tier ∈ tiers, tier ∉ done) (n : EmbeddedNode) :
    payloadTrims tiers (trimNode (payloadTrims done) n) = payloadTrims tiers n ∧
      ¬ (payloadTrims done n = true ∧ payloadTrims tiers n = true) := by
  have hone : ¬ (payloadTrims done n = true ∧ payloadTrims tiers n = true) := by
    rintro ⟨hdone, htiers⟩
    simp only [payloadTrims, Bool.and_eq_true, List.contains_iff_mem] at hdone htiers
    exact hdisjoint _ htiers.1.1 hdone.1.1
  refine ⟨?_, hone⟩
  unfold trimNode
  split
  · next hdone =>
    have htiers : payloadTrims tiers n = false :=
      Bool.eq_false_iff.2 fun htiers => hone ⟨hdone, htiers⟩
    rw [htiers]
    simp only [payloadTrims, Bool.and_eq_true, List.contains_iff_mem] at hdone
    have hnot : tiers.contains n.tier = false := by
      rw [Bool.eq_false_iff, ne_eq, List.contains_iff_mem]
      exact fun hmem => hdisjoint _ hmem hdone.1.1
    unfold payloadTrims trimmedNode
    dsimp only
    rw [hnot, Bool.false_and, Bool.false_and]
  · rfl

theorem trimNodePayload_trimmedTo (hdisjoint : ∀ tier ∈ tiers, tier ∉ done) :
    (trimNodePayload tiers (trimmedTo s done)).1 = trimmedTo s (done ++ tiers) ∧
      s.nodes.countP (payloadTrims done) + (trimNodePayload tiers (trimmedTo s done)).2 =
        s.nodes.countP (payloadTrims (done ++ tiers)) := by
  unfold trimNodePayload trimmedTo
  dsimp only
  refine ⟨?_, ?_⟩
  · rw [List.map_map]
    refine congrArg (fun nodes => { s with audit := lastOf 200 s.audit, nodes })
      (List.map_congr_left fun n _ => ?_)
    obtain ⟨hsame, hone⟩ := payloadTrims_trimNode hdisjoint n
    show (if payloadTrims tiers (trimNode (payloadTrims done) n) then _ else _) = _
    rw [hsame]
    unfold trimNode
    rw [payloadTrims_append]
    cases hdone : payloadTrims done n <;> cases htiers : payloadTrims tiers n
    · rfl
    · rfl
    · rfl
    · exact absurd ⟨hdone, htiers⟩ hone
  · rw [List.countP_map]
    induction s.nodes with
    | nil => rfl
    | cons n nodes ih =>
      obtain ⟨hsame, hone⟩ := payloadTrims_trimNode hdisjoint n
      rw [List.countP_cons, List.countP_cons, List.countP_cons, Function.comp_apply, hsame,
        payloadTrims_append, ← ih]
      cases hdone : payloadTrims done n <;> cases htiers : payloadTrims tiers n
      · simp
      · simp
        omega
      · simp
        omega
      · exact absurd ⟨hdone, htiers⟩ hone

/-- A compaction that has trimmed the tiers and dropped nothing but audit rows. -/
structure TrimmedAt (opts : SnapshotOptions) (s : Snapshot) (done : List String)
    (c : Compaction) : Prop where
  snapshot : c.snapshot = trimmedTo s done
  bytes : c.bytes = snapshotByteSize opts c.snapshot
  report : c.report = { applied := true
                        trimmedPayloadNodes := s.nodes.countP (payloadTrims done)
                        droppedAudit := s.audit.length - (lastOf 200 s.audit).length }

theorem payloadPass_trimmedAt (h : TrimmedAt opts s done c)
    (hdisjoint : ∀ tier ∈ tiers, tier ∉ done) (hover : ¬ c.bytes ≤ opts.snapshotMaxBytes) :
    TrimmedAt opts s (done ++ tiers) (payloadPass opts c tiers) := by
  have hpass := trimNodePayload_trimmedTo (s := s) hdisjoint
  rw [← h.snapshot] at hpass
  unfold payloadPass
  rw [if_neg hover]
  dsimp only
  split
  · refine ⟨hpass.1, rfl, ?_⟩
    rw [h.report, ← hpass.2]
  · next hnone =>
    -- no node of the tiers had a payload, and the snapshot stays
    have hzero : s.nodes.countP (payloadTrims (done ++ tiers)) =
        s.nodes.countP (payloadTrims done) := by
      omega
    refine ⟨?_, h.bytes, by rw [h.report, hzero]⟩
    rw [← hpass.1]
    have hcount : (trimNodePayload tiers c.snapshot).2 = 0 := by omega
    unfold trimNodePayload at hcount ⊢
    dsimp only at hcount ⊢
    have hsame : (c.snapshot.nodes.map fun n =>
        if payloadTrims tiers n then trimmedNode n else n) = c.snapshot.nodes := by
      refine (List.map_congr_left fun n hn => ?_).trans (List.map_id _)
      rw [if_neg (List.countP_eq_zero.1 hcount n hn)]
      rfl
    rw [hsame]

theorem payloadPass_of_le (h : c.bytes ≤ opts.snapshotMaxBytes) (tiers : List String) :
    payloadPass opts c tiers = c := if_pos h

/-- The passes that are left trim on until the snapshot fits; if it never does, none of the
stages did. -/
theorem payloadPasses_trimmedAt (rest : List (List String)) (h : TrimmedAt opts s done c)
    (hdisjoint : (done ++ rest.flatten).Nodup) :
    ∃ done', TrimmedAt opts s done' (rest.foldl (payloadPass opts) c) ∧
      ((rest.foldl (payloadPass opts) c).bytes ≤ opts.snapshotMaxBytes ∨
        ∀ front, front <+: rest →
          opts.snapshotMaxBytes < snapshotByteSize opts (trimmedTo s (done ++ front.flatten))) := by
  induction rest generalizing done c with
  | nil =>
    refine ⟨done, h, ?_⟩
    by_cases hle : c.bytes ≤ opts.snapshotMaxBytes
    · exact .inl hle
    · refine .inr fun front hfront => ?_
      rw [List.prefix_nil.1 hfront, List.flatten_nil, List.append_nil, ← h.snapshot, ← h.bytes]
      exact Nat.not_le.1 hle
  | cons tiers rest ih =>
    rw [List.foldl_cons]
    by_cases hle : c.bytes ≤ opts.snapshotMaxBytes
    · rw [payloadPass_of_le hle]
      have hstay : ∀ more : List (List String), more.foldl (payloadPass opts) c = c := by
        intro more
        induction more with
        | nil => rfl
        | cons t more ih => rw [List.foldl_cons, payloadPass_of_le hle, ih]
      rw [hstay]
      exact ⟨done, h, .inl hle⟩
    · rw [List.flatten_cons, ← List.append_assoc] at hdisjoint
      have hnew : ∀ tier ∈ tiers, tier ∉ done := fun tier ht hd =>
        (List.nodup_append.1 (List.nodup_append.1 hdisjoint).1).2.2 tier hd tier ht rfl
      obtain ⟨done', hdone', hfits⟩ := ih (payloadPass_trimmedAt h hnew hle) hdisjoint
      refine ⟨done', hdone', hfits.imp_right fun hover front hfront => ?_⟩
      cases front with
      | nil =>
        rw [List.flatten_nil, List.append_nil, ← h.snapshot, ← h.bytes]
        exact Nat.not_le.1 hle
      | cons t front =>
        obtain ⟨rfl, hrest⟩ := List.cons_prefix_cons.1 hfront
        rw [List.flatten_cons, ← List.append_assoc]
        exact hover front hrest

theorem auditPass_trimmedAt (hc : c = { snapshot := s, bytes := snapshotByteSize opts s, report :=
    { applied := true } }) : TrimmedAt opts s [] (auditPass opts c) := by
  have hcount : s.nodes.countP (payloadTrims []) = 0 :=
    List.countP_eq_zero.2 fun n _ => by rw [payloadTrims_nil]; exact Bool.false_ne_true
  unfold auditPass
  subst hc
  dsimp only
  split
  · refine ⟨(trimmedTo_nil s).symm, rfl, ?_⟩
    rw [hcount, Nat.zero_add]
  · next hle =>
    have hall : lastOf 200 s.audit = s.audit := lastOf_of_length_le (Nat.not_lt.1 hle)
    have hself : trimmedTo s [] = s := by rw [trimmedTo_nil, hall]
    refine ⟨hself.symm, rfl, ?_⟩
    rw [hcount, hall, Nat.sub_self]

end Trim

/-! ## Pruning -/

section Prune

variable {host : EmbeddedHost} {opts : SnapshotOptions} {s : Snapshot} {base c : Compaction}

/-- What pruning leaves of a compaction, with the counts of what it took. -/
structure PrunedFrom (opts : SnapshotOptions) (base c : Compaction) : Prop where
  closed : c.snapshot.Closed
  bytes : c.bytes = snapshotByteSize opts c.snapshot
  nodes : c.snapshot.nodes.Sublist base.snapshot.nodes
  edges : c.snapshot.edges.Sublist base.snapshot.edges
  ruleDefs : c.snapshot.ruleDefs.Sublist base.snapshot.ruleDefs
  kept : c.snapshot.audit = base.snapshot.audit ∧
    c.snapshot.executionDecisions = base.snapshot.executionDecisions ∧
    c.snapshot.ruleFeedback = base.snapshot.ruleFeedback
  report : c.report.applied = base.report.applied ∧
    c.report.trimmedPayloadNodes = base.report.trimmedPayloadNodes ∧
    c.report.droppedAudit = base.report.droppedAudit
  nodeCount : c.report.droppedNodes + c.snapshot.nodes.length =
    base.report.droppedNodes + base.snapshot.nodes.length
  edgeCount : c.report.droppedEdges + c.snapshot.edges.length =
    base.report.droppedEdges + base.snapshot.edges.length
  ruleCount : c.report.droppedRuleDefs + c.snapshot.ruleDefs.length =
    base.report.droppedRuleDefs + base.snapshot.ruleDefs.length

theorem pruneLowestValueEdges_closed (host : EmbeddedHost) (hs : s.Closed) :
    (pruneLowestValueEdges host s).1.Closed := by
  unfold pruneLowestValueEdges
  split
  · exact hs
  · exact ⟨fun e he => hs.sources e (List.mem_of_mem_filter he),
      fun e he => hs.targets e (List.mem_of_mem_filter he), hs.rules⟩

theorem pruneLowestValueNodes_closed (host : EmbeddedHost) (hs : s.Closed) :
    (pruneLowestValueNodes host s).1.Closed := by
  unfold pruneLowestValueNodes
  split
  · exact hs
  · dsimp only
    generalize ((s.nodes.mergeSort (lowestNodeFirst host)).take
      (max 1 (host.ceilTenth s.nodes.length))).map (·.key) = keys
    have hstays : ∀ scope id, nodeKey scope id ∉ keys →
        (∃ n ∈ s.nodes, n.scope = scope ∧ n.id = id) →
        ∃ n ∈ s.nodes.filter (fun n => n.key ∉ keys), n.scope = scope ∧ n.id = id := by
      rintro scope id hkey ⟨n, hn, rfl, rfl⟩
      exact ⟨n, List.mem_filter.2 ⟨hn, decide_eq_true hkey⟩, rfl, rfl⟩
    refine ⟨fun e he => ?_, fun e he => ?_, fun r hr => ?_⟩
    · obtain ⟨he, hkeys⟩ := List.mem_filter.1 he
      exact hstays _ _ (of_decide_eq_true hkeys).1 (hs.sources e he)
    · obtain ⟨he, hkeys⟩ := List.mem_filter.1 he
      exact hstays _ _ (of_decide_eq_true hkeys).2 (hs.targets e he)
    · obtain ⟨hr, hkey⟩ := List.mem_filter.1 hr
      exact hstays _ _ (of_decide_eq_true hkey) (hs.rules r hr)

theorem pruneLowestValueEdges_frame (host : EmbeddedHost) (s : Snapshot) :
    ∃ edges, (pruneLowestValueEdges host s).1 = { s with edges } ∧ edges.Sublist s.edges ∧
      (pruneLowestValueEdges host s).2 + edges.length = s.edges.length := by
  unfold pruneLowestValueEdges
  split
  · exact ⟨s.edges, rfl, .refl _, Nat.zero_add _⟩
  · refine ⟨_, rfl, List.filter_sublist, ?_⟩
    exact Nat.sub_add_cancel (List.length_filter_le _ _)

theorem pruneLowestValueNodes_frame (host : EmbeddedHost) (s : Snapshot) :
    ∃ nodes edges ruleDefs, (pruneLowestValueNodes host s).1 = { s with nodes, edges, ruleDefs } ∧
      nodes.Sublist s.nodes ∧ edges.Sublist s.edges ∧ ruleDefs.Sublist s.ruleDefs ∧
      (pruneLowestValueNodes host s).2.nodes + nodes.length = s.nodes.length ∧
      (pruneLowestValueNodes host s).2.edges + edges.length = s.edges.length ∧
      (pruneLowestValueNodes host s).2.ruleDefs + ruleDefs.length = s.ruleDefs.length := by
  unfold pruneLowestValueNodes
  split
  · exact ⟨s.nodes, s.edges, s.ruleDefs, rfl, .refl _, .refl _, .refl _, Nat.zero_add _,
      Nat.zero_add _, Nat.zero_add _⟩
  · refine ⟨_, _, _, rfl, List.filter_sublist, List.filter_sublist, List.filter_sublist,
      Nat.sub_add_cancel (List.length_filter_le _ _),
      Nat.sub_add_cancel (List.length_filter_le _ _),
      Nat.sub_add_cancel (List.length_filter_le _ _)⟩

theorem PrunedFrom.edges_step (host : EmbeddedHost) (h : PrunedFrom opts base c) :
    PrunedFrom opts base
      { snapshot := (pruneLowestValueEdges host c.snapshot).1
        bytes := snapshotByteSize opts (pruneLowestValueEdges host c.snapshot).1
        report := { c.report with
          rounds := c.report.rounds + 1
          droppedEdges := c.report.droppedEdges +
            (pruneLowestValueEdges host c.snapshot).2 } } := by
  have hclosed := pruneLowestValueEdges_closed host h.closed
  obtain ⟨edges, hsnapshot, hsub, hcount⟩ := pruneLowestValueEdges_frame host c.snapshot
  rw [hsnapshot] at hclosed ⊢
  refine ⟨hclosed, rfl, h.nodes, hsub.trans h.edges, h.ruleDefs, h.kept, h.report, h.nodeCount, ?_,
    h.ruleCount⟩
  rw [← h.edgeCount, ← hcount]
  exact Nat.add_assoc _ _ _

theorem PrunedFrom.nodes_step (host : EmbeddedHost) (h : PrunedFrom opts base c) :
    PrunedFrom opts base
      { snapshot := (pruneLowestValueNodes host c.snapshot).1
        bytes := snapshotByteSize opts (pruneLowestValueNodes host c.snapshot).1
        report := { c.report with
          droppedNodes := c.report.droppedNodes +
            (pruneLowestValueNodes host c.snapshot).2.nodes
          droppedEdges := c.report.droppedEdges +
            (pruneLowestValueNodes host c.snapshot).2.edges
          droppedRuleDefs := c.report.droppedRuleDefs +
            (pruneLowestValueNodes host c.snapshot).2.ruleDefs } } := by
  have hclosed := pruneLowestValueNodes_closed host h.closed
  obtain ⟨nodes, edges, ruleDefs, hsnapshot, hnodes, hedges, hrules, hn, he, hr⟩ :=
    pruneLowestValueNodes_frame host c.snapshot
  rw [hsnapshot] at hclosed ⊢
  refine ⟨hclosed, rfl, hnodes.trans h.nodes, hedges.trans h.edges, hrules.trans h.ruleDefs, h.kept,
    h.report, ?_, ?_, ?_⟩
  · rw [← h.nodeCount, ← hn]
    exact Nat.add_assoc _ _ _
  · rw [← h.edgeCount, ← he]
    exact Nat.add_assoc _ _ _
  · rw [← h.ruleCount, ← hr]
    exact Nat.add_assoc _ _ _

/-- Any number of rounds, of which at most so many are counted. -/
theorem pruneRounds_prunedFrom (host : EmbeddedHost) (rounds : Nat) (h : PrunedFrom opts base c) :
    PrunedFrom opts base (pruneRounds host opts rounds c) ∧
      (pruneRounds host opts rounds c).report.rounds ≤ c.report.rounds + rounds := by
  induction rounds generalizing c with
  | zero => exact ⟨h, Nat.le_refl _⟩
  | succ rounds ih =>
    have hedges := h.edges_step host
    have hnodes := hedges.nodes_step host
    unfold pruneRounds
    dsimp only at hnodes ⊢
    split
    · exact ⟨h, Nat.le_add_right _ _⟩
    · split
      · exact ⟨hedges, by dsimp only; omega⟩
      · split
        · exact ⟨hnodes, by dsimp only; omega⟩
        · obtain ⟨hpruned, hrounds⟩ := ih hnodes
          exact ⟨hpruned, hrounds.trans (by dsimp only; omega)⟩

end Prune

/-! ## The result -/

/-- The snapshot as it is given, and as the audit is cut and one tier after the other trimmed. -/
def trimStages (s : Snapshot) : List Snapshot :=
  s :: [[], ["archive", "cold"], ["archive", "cold", "warm"],
    ["archive", "cold", "warm", "hot"]].map (trimmedTo s)

/-- What is returned for a snapshot: the size of the returned text, closed references, the counts
of what was trimmed and dropped, and nothing dropped in strict mode or when a stage of trimming
fits. -/
structure CompactionExact (opts : SnapshotOptions) (s : Snapshot) (c : Compaction) : Prop where
  bytes : c.bytes = (opts.stringify c.snapshot).utf8ByteSize
  closed : c.snapshot.Closed
  rounds : c.report.rounds ≤ opts.snapshotCompactionMaxRounds
  trimmed : ∃ trims : EmbeddedNode → Bool,
    (∀ n, trims n = true → n.type ≠ "rule" ∧ trimmedNode n ≠ n) ∧
      c.report.trimmedPayloadNodes = s.nodes.countP trims ∧
      c.snapshot.nodes.Sublist (s.nodes.map (trimNode trims))
  nodeCount : c.report.droppedNodes + c.snapshot.nodes.length = s.nodes.length
  edges : c.snapshot.edges.Sublist s.edges ∧
    c.report.droppedEdges + c.snapshot.edges.length = s.edges.length
  ruleDefs : c.snapshot.ruleDefs.Sublist s.ruleDefs ∧
    c.report.droppedRuleDefs + c.snapshot.ruleDefs.length = s.ruleDefs.length
  audit : c.snapshot.audit <:+ s.audit ∧
    c.report.droppedAudit + c.snapshot.audit.length = s.audit.length
  kept : c.snapshot.executionDecisions = s.executionDecisions ∧
    c.snapshot.ruleFeedback = s.ruleFeedback
  spared : opts.snapshotStrictMaxBytes = true ∨
      (∃ stage ∈ trimStages s, snapshotByteSize opts stage ≤ opts.snapshotMaxBytes) →
    c.report.droppedNodes = 0 ∧ c.report.droppedEdges = 0 ∧ c.report.droppedRuleDefs = 0

section Result

variable {host : EmbeddedHost} {opts : SnapshotOptions} {s : Snapshot} {c : Compaction}
variable {done : List String}

theorem lastOf_suffix {α : Type} (n : Nat) (xs : List α) : lastOf n xs <:+ xs :=
  List.drop_suffix _ _

theorem trimmedTo_closed (hs : s.Closed) (tiers : List String) : (trimmedTo s tiers).Closed := by
  have hstays : ∀ scope id, (∃ n ∈ s.nodes, n.scope = scope ∧ n.id = id) →
      ∃ n ∈ (trimmedTo s tiers).nodes, n.scope = scope ∧ n.id = id := by
    rintro scope id ⟨n, hn, rfl, rfl⟩
    refine ⟨_, List.mem_map_of_mem hn, ?_⟩
    unfold trimNode
    split <;> exact ⟨rfl, rfl⟩
  exact ⟨fun e he => hstays _ _ (hs.sources e he), fun e he => hstays _ _ (hs.targets e he),
    fun r hr => hstays _ _ (hs.rules r hr)⟩

theorem compactionExact_self (hs : s.Closed) :
    CompactionExact opts s { snapshot := s, bytes := snapshotByteSize opts s } where
  bytes := rfl
  closed := hs
  rounds := Nat.zero_le _
  trimmed := by
    have hnone : s.nodes.countP (fun _ => false) = 0 :=
      List.countP_eq_zero.2 fun _ _ => Bool.false_ne_true
    have hself : s.nodes.map (trimNode fun _ => false) = s.nodes :=
      (List.map_congr_left fun _ _ => rfl).trans (List.map_id _)
    refine ⟨fun _ => false, fun _ h => absurd h Bool.false_ne_true, hnone.symm, ?_⟩
    rw [hself]
  nodeCount := Nat.zero_add _
  edges := ⟨.refl _, Nat.zero_add _⟩
  ruleDefs := ⟨.refl _, Nat.zero_add _⟩
  audit := ⟨List.suffix_refl _, Nat.zero_add _⟩
  kept := ⟨rfl, rfl⟩
  spared := fun _ => ⟨rfl, rfl, rfl⟩

theorem TrimmedAt.prunedFrom (h : TrimmedAt opts s done c) (hs : s.Closed) :
    PrunedFrom opts c c where
  closed := h.snapshot ▸ trimmedTo_closed hs done
  bytes := h.bytes
  nodes := .refl _
  edges := .refl _
  ruleDefs := .refl _
  kept := ⟨rfl, rfl, rfl⟩
  report := ⟨rfl, rfl, rfl⟩
  nodeCount := rfl
  edgeCount := rfl
  ruleCount := rfl

/-- A trimmed snapshot and what pruning leaves of it. -/
theorem PrunedFrom.exact {base : Compaction} (hbase : TrimmedAt opts s done base)
    (h : PrunedFrom opts base c) (hrounds : c.report.rounds ≤ opts.snapshotCompactionMaxRounds)
    (hspared : opts.snapshotStrictMaxBytes = true ∨
        (∃ stage ∈ trimStages s, snapshotByteSize opts stage ≤ opts.snapshotMaxBytes) →
      c = base) : CompactionExact opts s c := by
  have hdropped : base.report.droppedNodes = 0 ∧ base.report.droppedEdges = 0 ∧
      base.report.droppedRuleDefs = 0 := by
    rw [hbase.report]
    exact ⟨rfl, rfl, rfl⟩
  obtain ⟨-, htrimmed, haudit⟩ := h.report
  have hnodes := h.nodes
  have hedges := h.edges
  have hrules := h.ruleDefs
  have hnodeCount := h.nodeCount
  have hedgeCount := h.edgeCount
  have hruleCount := h.ruleCount
  obtain ⟨hkeptAudit, hdecisions, hfeedback⟩ := h.kept
  rw [hbase.snapshot] at hnodes hedges hrules hnodeCount hedgeCount hruleCount
  rw [hbase.snapshot] at hkeptAudit hdecisions hfeedback
  rw [hdropped.1, Nat.zero_add] at hnodeCount
  rw [hdropped.2.1, Nat.zero_add] at hedgeCount
  rw [hdropped.2.2, Nat.zero_add] at hruleCount
  rw [hbase.report] at htrimmed haudit
  refine ⟨h.bytes, h.closed, hrounds, ⟨payloadTrims done, fun n => ne_of_payloadTrims, htrimmed,
    hnodes⟩, ?_, ⟨hedges, hedgeCount⟩, ⟨hrules, hruleCount⟩, ⟨?_, ?_⟩, ⟨hdecisions, hfeedback⟩,
    fun hspare => ?_⟩
  · rw [hnodeCount]
    exact List.length_map _
  · rw [hkeptAudit, audit_trimmedTo]
    exact lastOf_suffix 200 s.audit
  · rw [hkeptAudit, audit_trimmedTo, haudit]
    exact Nat.sub_add_cancel (lastOf_suffix 200 s.audit).length_le
  · rw [hspared hspare]
    exact hdropped

/-- Every compaction is exact. -/
theorem compactSnapshot_exact (host : EmbeddedHost) (opts : SnapshotOptions) {s : Snapshot}
    (hs : s.Closed) : CompactionExact opts s (compactSnapshot host opts s) := by
  unfold compactSnapshot
  dsimp only
  split
  · exact compactionExact_self hs
  · next hover =>
    have haudit := @auditPass_trimmedAt opts s _ rfl
    split
    · exact (haudit.prunedFrom hs).exact haudit (by rw [haudit.report]; exact Nat.zero_le _)
        fun _ => rfl
    · obtain ⟨done, hdone, hfits⟩ := payloadPasses_trimmedAt
        [["archive", "cold"], ["warm"], ["hot"]] haudit (by decide)
      have hrounds : ∀ {c : Compaction}, TrimmedAt opts s done c → c.report.rounds = 0 := by
        intro c hc
        rw [hc.report]
      split
      · exact (hdone.prunedFrom hs).exact hdone (by rw [hrounds hdone]; exact Nat.zero_le _)
          fun _ => rfl
      · next hnot =>
        obtain ⟨hpruned, hcount⟩ := pruneRounds_prunedFrom host
          opts.snapshotCompactionMaxRounds (hdone.prunedFrom hs)
        rw [hrounds hdone, Nat.zero_add] at hcount
        refine hpruned.exact hdone hcount fun hspare => absurd hspare ?_
        rw [not_or] at hnot
        have hstages := hfits.resolve_left hnot.1
        rintro (hstrict | ⟨stage, hstage, hle⟩)
        · exact hnot.2 hstrict
        · rcases List.mem_cons.1 hstage with rfl | hstage
          · exact hover hle
          · have hbig : ∀ front, front <+: [["archive", "cold"], ["warm"], ["hot"]] →
                stage = trimmedTo s front.flatten → False := by
              rintro front hfront rfl
              exact absurd hle (Nat.not_le.2 (hstages front hfront))
            obtain ⟨tiers, htiers, rfl⟩ := List.mem_map.1 hstage
            fin_cases htiers
            · exact hbig [] (by decide) rfl
            · exact hbig [["archive", "cold"]] (by decide) rfl
            · exact hbig [["archive", "cold"], ["warm"]] (by decide) rfl
            · exact hbig [["archive", "cold"], ["warm"], ["hot"]] (by decide) rfl

end Result

/-- A node with an edge to itself. -/
def loopSnapshot : Snapshot where
  nodes := [{
    id := "a", scope := "s", clientId := none, type := "event", tier := "hot"
    memoryLane := .sharedLane, producerAgentId := none, ownerAgentId := none, ownerTeamId := none
    title := none, textSummary := none, slots := [], rawRef := none, evidenceRef := none
    embedding := none, embeddingModel := none, embeddingStatus := .failed, salience := 1 / 2
    importance := 1 / 2, confidence := 1 / 2, createdAt := "2026-01-01T00:00:00.000Z"
    updatedAt := "2026-01-01T00:00:00.000Z", commitId := some "c" }]
  edges := [{
    id := "e", scope := "s", type := "related_to", srcId := "a", dstId := "a", weight := 1 / 2
    confidence := 1 / 2, decayRate := 1 / 100, createdAt := "2026-01-01T00:00:00.000Z"
    commitId := some "c" }]
  ruleDefs := []
  audit := []
  executionDecisions := []
  ruleFeedback := []

def loopText : String :=
  "\x7b\"version\":1,\"nodes\":[\x7b\"id\":\"a\",\"scope\":\"s\",\"client_id\":null," ++
    "\"type\":\"event\",\"tier\":\"hot\",\"memory_lane\":\"shared\"," ++
    "\"producer_agent_id\":null,\"owner_agent_id\":null,\"owner_team_id\":null," ++
    "\"title\":null,\"text_summary\":null,\"slots\":\x7b\x7d," ++
    "\"raw_ref\":null,\"evidence_ref\":null,\"embedding\":null,\"embedding_model\":null," ++
    "\"embedding_status\":\"failed\",\"salience\":0.5,\"importance\":0.5," ++
    "\"confidence\":0.5,\"created_at\":\"2026-01-01T00:00:00.000Z\"," ++
    "\"updated_at\":\"2026-01-01T00:00:00.000Z\",\"commit_id\":\"c\"\x7d]," ++
    "\"edges\":[\x7b\"id\":\"e\",\"scope\":\"s\",\"type\":\"related_to\"," ++
    "\"src_id\":\"a\",\"dst_id\":\"a\",\"weight\":0.5,\"confidence\":0.5," ++
    "\"decay_rate\":0.01,\"created_at\":\"2026-01-01T00:00:00.000Z\"," ++
    "\"commit_id\":\"c\"\x7d],\"rule_defs\":[],\"audit\":[]," ++
    "\"execution_decisions\":[],\"rule_feedback\":[]\x7d"

theorem compactSnapshot_exact_loop :
    loopSnapshot.nodes.length = 1 ∧ CompactionExact (optionsFor loopText) loopSnapshot
      (compactSnapshot sampleHost (optionsFor loopText) loopSnapshot) := by
  refine ⟨rfl, compactSnapshot_exact sampleHost (optionsFor loopText) ⟨fun e he => ?_,
    fun e he => ?_, nofun⟩⟩
  · obtain rfl := List.mem_singleton.1 he
    exact ⟨_, List.mem_singleton_self _, rfl, rfl⟩
  · obtain rfl := List.mem_singleton.1 he
    exact ⟨_, List.mem_singleton_self _, rfl, rfl⟩

end AionisCore.Store
