import AionisCore.Jobs.AssociativeLinking
import Mathlib.Data.List.Perm.Subperm

/-!
# The statuses of association candidates

`isValidAssociativeCandidateStatusTransition` says how the status of a candidate may change.
Promotion only reads shadow candidates and keeps to it. A linking job upserts what the scores
of the moment call for, whatever status is stored: it keeps to the transitions as long as no
selected pair is stored as rejected or expired, and no pair that fell below the threshold as
promoted, as expired or as a shadow that the same job expires first.
-/

namespace AionisCore.Jobs

open Lib Lib.Table Lib.StableSort Lib.Journal Util Store

/-! ## Allowed changes -/

/-- A row that changes keeps to the transitions, and a promoted one to its edge. -/
structure Kept (c c' : AssociationCandidateRecord) : Prop where
  valid : isValidAssociativeCandidateStatusTransition c.status c'.status
  edge : c.status = .promoted → c'.promotedEdgeId = c.promotedEdgeId

/-- Every candidate is still stored, and changed as allowed. -/
def StatusKept (s s' : AssociationStore) : Prop :=
  ∀ k c, s.candidate? k = some c → ∃ c', s'.candidate? k = some c' ∧ Kept c c'

theorem valid_self (status : AssociativeCandidateStatus) :
    isValidAssociativeCandidateStatusTransition status status := by
  unfold isValidAssociativeCandidateStatusTransition
  rw [if_pos rfl]

theorem valid_trans {a b c : AssociativeCandidateStatus}
    (hab : isValidAssociativeCandidateStatusTransition a b)
    (hbc : isValidAssociativeCandidateStatusTransition b c) :
    isValidAssociativeCandidateStatusTransition a c := by
  revert hab hbc
  cases a <;> cases b <;> cases c <;> decide

theorem eq_promoted_of_valid {status : AssociativeCandidateStatus}
    (h : isValidAssociativeCandidateStatusTransition .promoted status) : status = .promoted := by
  revert h
  cases status <;> decide

theorem Kept.of_eq {c c' : AssociationCandidateRecord} (hstatus : c'.status = c.status)
    (hedge : c'.promotedEdgeId = c.promotedEdgeId) : Kept c c' :=
  ⟨hstatus ▸ valid_self c.status, fun _ => hedge⟩

theorem Kept.trans {c c' c'' : AssociationCandidateRecord} (h : Kept c c') (h' : Kept c' c'') :
    Kept c c'' where
  valid := valid_trans h.valid h'.valid
  edge hpromoted := by
    have hpromoted' := eq_promoted_of_valid (hpromoted ▸ h.valid)
    exact (h'.edge hpromoted').trans (h.edge hpromoted)

theorem StatusKept.refl (s : AssociationStore) : StatusKept s s :=
  fun _ c hc => ⟨c, hc, .of_eq rfl rfl⟩

theorem StatusKept.trans {s s' s'' : AssociationStore} (h : StatusKept s s')
    (h' : StatusKept s' s'') : StatusKept s s'' := by
  intro k c hc
  obtain ⟨c', hc', hkept⟩ := h k c hc
  obtain ⟨c'', hc'', hkept'⟩ := h' k c' hc'
  exact ⟨c'', hc'', hkept.trans hkept'⟩

theorem statusKept_of_map {s s' : AssociationStore}
    {f : AssociationCandidateRecord → AssociationCandidateRecord}
    (hf : ∀ k, s'.candidate? k = (s.candidate? k).map f)
    (h : ∀ k c, s.candidate? k = some c → Kept c (f c)) : StatusKept s s' := by
  intro k c hc
  refine ⟨f c, ?_, h k c hc⟩
  rw [hf, hc]
  rfl

/-! ## The statements -/

section Statements

variable {env : AssociationEnv} {s s' : AssociationStore} {k j : CandidateKey}
  {a : UpsertAssociationCandidateArgs} {c : AssociationCandidateRecord}

theorem key_of_candidate? (h : s.candidate? k = some c) :
    c.key = k := (mem_of_row? h).2

theorem candidate?_of_mem (h : c ∈ s.candidates) :
    s.candidate? c.key = some c := s.candidateKeys.row? h

theorem candidate?_updateStatus (status : AssociativeCandidateStatus) (j : CandidateKey) :
    (s.updateStatus env k status).candidate? j =
      (s.candidate? j).map (withStatus (env.nowIso s.ticks) k status) :=
  row?_map (withStatus_key _ k status) j

theorem candidate?_markPromoted (edgeId : String) (j : CandidateKey) :
    (s.markPromoted env k edgeId).candidate? j =
      (s.candidate? j).map (withEdge (env.nowIso s.ticks) k edgeId) :=
  row?_map (withEdge_key _ k edgeId) j

theorem candidate?_upsertEdge {e : WriteEdgeUpsertArgs} (h : s.upsertEdge env e = some s')
    (j : CandidateKey) : s'.candidate? j = s.candidate? j := by
  obtain ⟨t, -, rfl⟩ := Option.map_eq_some_iff.1 h
  rfl

theorem candidate?_upsertCandidate (h : s.upsertCandidate env a = some s')
    (hc : s.candidate? a.toCandidateKey = some c) (j : CandidateKey) :
    s'.candidate? j = (s.candidate? j).map (mergeCandidate (env.nowIso s.ticks) a) := by
  unfold AssociationStore.upsertCandidate at h
  split at h
  · obtain rfl := Option.some.inj h
    exact row?_map (mergeCandidate_key _ a) j
  · next hnone =>
    rw [hnone] at hc
    cases hc

theorem candidate?_map_of_ne {f : AssociationCandidateRecord → AssociationCandidateRecord}
    (hf : ∀ c, c.key ≠ k → f c = c) (hj : j ≠ k) : (s.candidate? j).map f = s.candidate? j := by
  cases hc : s.candidate? j with
  | none => rfl
  | some c =>
    have hne : c.key ≠ k := by
      rw [key_of_candidate? hc]
      exact hj
    rw [Option.map_some, hf c hne]

theorem candidate?_upsertCandidate_of_ne (h : s.upsertCandidate env a = some s')
    (hj : j ≠ a.toCandidateKey) : s'.candidate? j = s.candidate? j := by
  cases hc : s.candidate? a.toCandidateKey with
  | some c =>
    rw [candidate?_upsertCandidate h hc]
    exact candidate?_map_of_ne (fun c hne => if_neg hne) hj
  | none =>
    unfold AssociationStore.upsertCandidate at h
    split at h
    · next hsome =>
      rw [hc] at hsome
      cases hsome
    · simp only at h
      split at h
      · cases h
      · obtain rfl := Option.some.inj h
        refine (row?_concat j).trans ?_
        rw [if_neg (show ¬ a.toCandidateKey = j from fun he => hj he.symm), Option.or_none]
        rfl

theorem candidate?_updateStatus_of_ne {status : AssociativeCandidateStatus} (hj : j ≠ k) :
    (s.updateStatus env k status).candidate? j = s.candidate? j := by
  rw [candidate?_updateStatus]
  exact candidate?_map_of_ne (fun c hne => if_neg hne) hj

theorem candidate?_markPromoted_of_ne {edgeId : String} (hj : j ≠ k) :
    (s.markPromoted env k edgeId).candidate? j = s.candidate? j := by
  rw [candidate?_markPromoted]
  exact candidate?_map_of_ne (fun c hne => if_neg hne) hj

theorem statusKept_updateStatus {status : AssociativeCandidateStatus}
    (h : ∀ c, s.candidate? k = some c →
      isValidAssociativeCandidateStatusTransition c.status status) :
    StatusKept s (s.updateStatus env k status) := by
  refine statusKept_of_map (candidate?_updateStatus status) fun j c hc => ?_
  unfold withStatus
  split
  · next hk =>
    obtain rfl := (key_of_candidate? hc).symm.trans hk
    exact ⟨h c hc, fun _ => rfl⟩
  · exact .of_eq rfl rfl

theorem statusKept_markPromoted {edgeId : String}
    (h : ∀ c, s.candidate? k = some c → c.status = .shadow) :
    StatusKept s (s.markPromoted env k edgeId) := by
  refine statusKept_of_map (candidate?_markPromoted edgeId) fun j c hc => ?_
  unfold withEdge
  split
  · next hk =>
    obtain rfl := (key_of_candidate? hc).symm.trans hk
    refine ⟨?_, fun hpromoted => ?_⟩
    · rw [h c hc]
      rfl
    · rw [h c hc] at hpromoted
      cases hpromoted
  · exact .of_eq rfl rfl

/-- A stored row that an upsert may meet: a promoted one under an upsert as shadow, or one
whose status may become the new one. -/
def Mergeable (status : AssociativeCandidateStatus) (c : AssociationCandidateRecord) : Prop :=
  (c.status = .promoted ∧ status = .shadow) ∨
    (c.status ≠ .promoted ∧ isValidAssociativeCandidateStatusTransition c.status status)

theorem statusKept_upsertCandidate (hs' : s.upsertCandidate env a = some s')
    (h : ∀ c, s.candidate? a.toCandidateKey = some c → Mergeable a.status c) :
    StatusKept s s' := by
  intro j c hc
  by_cases hj : j = a.toCandidateKey
  · subst hj
    refine ⟨mergeCandidate (env.nowIso s.ticks) a c, ?_, ?_⟩
    · rw [candidate?_upsertCandidate hs' hc, hc]
      rfl
    · rw [mergeCandidate, if_pos (key_of_candidate? hc)]
      rcases h c hc with ⟨hpromoted, hshadow⟩ | ⟨hpromoted, hvalid⟩
      · refine .of_eq ?_ ?_
        · exact if_pos ⟨hpromoted, hshadow⟩
        · exact if_pos ⟨hpromoted, hshadow⟩
      · refine ⟨?_, fun h => absurd h hpromoted⟩
        show isValidAssociativeCandidateStatusTransition c.status
          (if c.status = .promoted ∧ a.status = .shadow then c.status else a.status)
        rw [if_neg (fun h => hpromoted h.1)]
        exact hvalid
  · refine ⟨c, ?_, .of_eq rfl rfl⟩
    rw [candidate?_upsertCandidate_of_ne hs' hj]
    exact hc

end Statements

/-! ## The listed candidates -/

section Listing

variable {env : AssociationEnv} {s : AssociationStore} {scope srcId : String} {limit : Nat}

theorem mem_listShadowCandidates {c : AssociationCandidateRecord}
    (h : c ∈ s.listShadowCandidates scope srcId limit) :
    c ∈ s.candidates ∧ c.scope = scope ∧ c.srcId = srcId ∧ c.status = .shadow := by
  have hmem := (List.mergeSort_perm _ _).mem_iff.1 (List.mem_of_mem_take h)
  simpa only [List.mem_filter, decide_eq_true_eq] using hmem

theorem nodup_keys_listShadowCandidates :
    ((s.listShadowCandidates scope srcId limit).map (·.key)).Nodup := by
  have hperm := (List.mergeSort_perm (s.candidates.filter fun c =>
    c.scope = scope ∧ c.srcId = srcId ∧ c.status = .shadow) bestFirst).map (·.key)
  have hsorted := hperm.nodup_iff.2 s.candidateKeys.filter
  exact hsorted.sublist ((List.take_sublist _ _).map _)

/-- A change of a candidate of another source is not seen in the list of this one. -/
theorem listShadowCandidates_of_map {s' : AssociationStore}
    {f : AssociationCandidateRecord → AssociationCandidateRecord} {k : CandidateKey}
    (hs' : s'.candidates = s.candidates.map f) (hkey : ∀ c, (f c).key = c.key)
    (hf : ∀ c, c.key ≠ k → f c = c) (hk : k.srcId ≠ srcId) :
    s'.listShadowCandidates scope srcId limit = s.listShadowCandidates scope srcId limit := by
  let p (c : AssociationCandidateRecord) : Bool :=
    c.scope = scope ∧ c.srcId = srcId ∧ c.status = .shadow
  have hsrc : ∀ c, p c → c.key ≠ k := by
    rintro c hc rfl
    exact hk (of_decide_eq_true hc).2.1
  have hp : ∀ c, p (f c) = p c := by
    intro c
    by_cases hc : c.key = k
    · have hno : ∀ d, d.key = k → p d = false :=
        fun d hd => Bool.eq_false_iff.2 fun h => hsrc d h hd
      rw [hno c hc, hno (f c) ((hkey c).trans hc)]
    · rw [hf c hc]
  have hrows : s'.candidates.filter p = s.candidates.filter p := by
    rw [hs', List.filter_map, show p ∘ f = p from funext hp]
    refine (List.map_congr_left fun c hc => ?_).trans (List.map_id _)
    exact hf c (hsrc c (List.mem_filter.1 hc).2)
  show ((s'.candidates.filter p).mergeSort bestFirst).take _ = _
  rw [hrows]
  rfl

theorem listShadowCandidates_updateStatus {k : CandidateKey} (hk : k.srcId ≠ srcId)
    (status : AssociativeCandidateStatus) :
    (s.updateStatus env k status).listShadowCandidates scope srcId limit =
      s.listShadowCandidates scope srcId limit :=
  listShadowCandidates_of_map rfl (withStatus_key _ k status) (fun _ hc => if_neg hc) hk

theorem listShadowCandidates_markPromoted {k : CandidateKey} (hk : k.srcId ≠ srcId)
    (edgeId : String) :
    (s.markPromoted env k edgeId).listShadowCandidates scope srcId limit =
      s.listShadowCandidates scope srcId limit :=
  listShadowCandidates_of_map rfl (withEdge_key _ k edgeId) (fun _ hc => if_neg hc) hk

end Listing

/-! ## Promotion keeps to the transitions -/

section Promotion

variable {env : AssociationEnv} {host : LinkingHost} {config : AssociativeLinkingResolvedConfig}
  {scope : String} {base : AssociationStore}

abbrev Keeps {α : Type} (base : AssociationStore) (P : AssociationStore → Prop)
    (p : Program AssociationStore α) (Q : α → AssociationStore → Prop) : Prop :=
  Spec (StatusKept base) StatusKept P p Q

theorem Keeps.write {P : AssociationStore → Prop}
    {f : AssociationStore → Option AssociationStore} {Q : Unit → AssociationStore → Prop}
    (h : ∀ s s', P s → f s = some s' → StatusKept s s' ∧ Q () s') :
    Keeps base P (Program.write f) Q := by
  refine Spec.write fun s s' hI hP hf => ?_
  obtain ⟨hkept, hQ⟩ := h s s' hP hf
  exact ⟨hkept, hI.trans hkept, hQ⟩

/-- Candidates of a list that are stored as they were listed. -/
def Listed (rest : List AssociationCandidateRecord) (s : AssociationStore) : Prop :=
  (rest.map (·.key)).Nodup ∧ ∀ c ∈ rest, s.candidate? c.key = some c

theorem Listed.tail {c : AssociationCandidateRecord} {rest : List AssociationCandidateRecord}
    {s s' : AssociationStore} (h : Listed (c :: rest) s)
    (hs' : ∀ k, k ≠ c.key → s'.candidate? k = s.candidate? k) : Listed rest s' := by
  obtain ⟨hnodup, hstored⟩ := h
  rw [List.map_cons, List.nodup_cons] at hnodup
  refine ⟨hnodup.2, fun d hd => ?_⟩
  have hne : d.key ≠ c.key := fun he => hnodup.1 (he ▸ List.mem_map_of_mem hd)
  rw [hs' d.key hne]
  exact hstored d (List.mem_cons_of_mem _ hd)

theorem Listed.head {c : AssociationCandidateRecord} {rest : List AssociationCandidateRecord}
    {s : AssociationStore} (h : Listed (c :: rest) s) : s.candidate? c.key = some c :=
  h.2 c List.mem_cons_self

theorem listed_listShadowCandidates (s : AssociationStore) (scope srcId : String) (limit : Nat) :
    Listed (s.listShadowCandidates scope srcId limit) s :=
  ⟨nodup_keys_listShadowCandidates,
    fun _ hc => candidate?_of_mem (mem_listShadowCandidates hc).1⟩

theorem rejectCandidate_keeps (c : AssociationCandidateRecord)
    (rest : List AssociationCandidateRecord) :
    Keeps base (Listed (c :: rest)) (rejectCandidate env c) fun _ => Listed rest := by
  refine Spec.ite (fun hvalid => Keeps.write fun s s' hlisted hs' => ?_) fun _ => ?_
  · obtain rfl := Option.some.inj hs'
    refine ⟨statusKept_updateStatus fun d hd => ?_, hlisted.tail fun k hk => ?_⟩
    · rw [hlisted.head] at hd
      exact Option.some.inj hd ▸ hvalid
    · exact candidate?_updateStatus_of_ne hk
  · exact .pure fun s _ hlisted => hlisted.tail fun _ _ => rfl

theorem status_of_isPromotable {c : AssociationCandidateRecord} (h : isPromotable config c) :
    c.status = .shadow := by
  unfold isPromotable at h
  simp only [Bool.and_eq_true, decide_eq_true_eq] at h
  exact h.1.1.1.1.1.1

theorem upsertAssociativeEdge_keeps (seenEdges : List String) (c : AssociationCandidateRecord)
    (listed : List AssociationCandidateRecord) :
    Keeps base (Listed listed) (upsertAssociativeEdge env host scope seenEdges c)
      fun _ => Listed listed := by
  refine Spec.ite (fun _ => ?_) fun _ => Keeps.write fun s s' hlisted hs' => ?_
  · exact .pure fun s _ hlisted => hlisted
  · refine ⟨fun k d hd => ⟨d, ?_, .of_eq rfl rfl⟩, hlisted.1, fun d hd => ?_⟩
    · rw [candidate?_upsertEdge hs', hd]
    · rw [candidate?_upsertEdge hs']
      exact hlisted.2 d hd

theorem promoteCandidate_keeps (progress : PromotionProgress) (c : AssociationCandidateRecord)
    (rest : List AssociationCandidateRecord) :
    Keeps base (Listed (c :: rest)) (promoteCandidate env host config scope progress c)
      fun _ => Listed rest := by
  refine Spec.ite (fun hpromotable => ?_) fun _ => ?_
  · refine (upsertAssociativeEdge_keeps _ c (c :: rest)).bind fun _ => ?_
    refine Spec.bind (M := fun _ => Listed rest) (Keeps.write fun s s' hlisted hs' => ?_)
      fun _ => .pure fun s _ hlisted => hlisted
    obtain rfl := Option.some.inj hs'
    refine ⟨statusKept_markPromoted fun d hd => ?_, hlisted.tail fun k hk => ?_⟩
    · rw [hlisted.head] at hd
      exact Option.some.inj hd ▸ status_of_isPromotable hpromotable
    · exact candidate?_markPromoted_of_ne hk
  · exact (rejectCandidate_keeps c rest).bind fun _ => .pure fun s _ hlisted => hlisted

theorem promoteAssociativeCandidates_keeps (sourceNodeIds : List String) :
    Keeps base (fun _ => True)
      (promoteAssociativeCandidates env host config scope sourceNodeIds) fun _ _ => True := by
  refine Spec.bind (M := fun _ _ => True) ?_ fun _ => .pure fun _ _ _ => trivial
  refine Spec.foldlM (J := fun _ _ _ => True) (fun progress sourceNodeId _ => ?_) _ _
  refine Spec.bind (M := fun candidates => Listed candidates) ?_ fun candidates => ?_
  · exact .read fun s _ _ => listed_listShadowCandidates s scope sourceNodeId _
  · refine Spec.mono (Spec.foldlM (J := fun _ rest => Listed rest)
      (fun progress c rest => promoteCandidate_keeps progress c rest) candidates progress)
      (fun _ _ h => h) fun _ _ _ _ => trivial

end Promotion

/-! ## When a linking job keeps to the transitions -/

section Linking

variable (host : LinkingHost) (config : AssociativeLinkingResolvedConfig)
  (payload : AssociativeLinkTriggerPayload) (pool : List RecallAssociativeNodeRow)

/-- The candidates of a source that a job expires. -/
def staleCandidates (source : RecallAssociativeNodeRow) (s : AssociationStore) :
    List AssociationCandidateRecord :=
  (s.listShadowCandidates payload.scope source.id 200).filter
    (isStale host config payload pool source)

/-- No selected pair is stored as rejected or expired, and one below the threshold is stored
as rejected, or as a shadow candidate that the job does not expire. -/
def SourceAllowed (s : AssociationStore) (source : RecallAssociativeNodeRow) : Prop :=
  (∀ row ∈ scoredForSource host config payload pool source,
    ∀ c ∈ s.candidate? (row.key payload source), c.status = .shadow ∨ c.status = .promoted) ∧
  ∀ row ∈ rejectedForSource host payload pool source,
    ∀ c ∈ s.candidate? (row.key payload source), c.status = .rejected ∨
      c.status = .shadow ∧ c.key ∉ (staleCandidates host config payload pool source s).map (·.key)

/-- Every source of a job is allowed. -/
def LinkingAllowed (nodes : AssociativeNodes) (s : AssociationStore) : Prop :=
  ∀ source ∈ (fetchAssociativeCandidatesForSources config payload nodes).1,
    SourceAllowed host config payload (fetchAssociativeCandidatesForSources config payload nodes).2
      s source

variable {host config payload pool} {env : AssociationEnv}
variable {e : AssociationCandidateRecord}

theorem mem_staleCandidates {source : RecallAssociativeNodeRow} {s : AssociationStore}
    (h : e ∈ staleCandidates host config payload pool source s) :
    s.candidate? e.key = some e ∧ e.srcId = source.id ∧ e.status = .shadow ∧
      isStale host config payload pool source e := by
  obtain ⟨hlisted, hstale⟩ := List.mem_filter.1 h
  obtain ⟨hmem, -, hsrc, hstatus⟩ := mem_listShadowCandidates hlisted
  exact ⟨candidate?_of_mem hmem, hsrc, hstatus, hstale⟩

/-- What a job stores before it upserts: some shadow candidates have expired. -/
def Expiring (s₀ : AssociationStore) (expired : List AssociationCandidateRecord)
    (s : AssociationStore) : Prop :=
  ∀ k c, s.candidate? k = some c → ∃ c₀, s₀.candidate? k = some c₀ ∧
    (c.status = c₀.status ∨ c.status = .expired ∧ k ∈ expired.map (·.key))

theorem Expiring.refl (s : AssociationStore) : Expiring s [] s :=
  fun _ c hc => ⟨c, hc, .inl rfl⟩

variable {expired : List AssociationCandidateRecord}

theorem Expiring.mono {s₀ s : AssociationStore} {more : List AssociationCandidateRecord}
    (h : Expiring s₀ expired s) : Expiring s₀ (expired ++ more) s := by
  intro k c hc
  obtain ⟨c₀, hc₀, hstatus⟩ := h k c hc
  refine ⟨c₀, hc₀, hstatus.imp_right fun hexpired => ⟨hexpired.1, ?_⟩⟩
  rw [List.map_append]
  exact List.mem_append_left _ hexpired.2

theorem Expiring.updateStatus {s₀ s : AssociationStore} (h : Expiring s₀ expired s)
    (he : e ∈ expired) : Expiring s₀ expired (s.updateStatus env e.key .expired) := by
  intro k c hc
  rw [candidate?_updateStatus] at hc
  obtain ⟨d, hd, rfl⟩ := Option.map_eq_some_iff.1 hc
  obtain ⟨c₀, hc₀, hstatus⟩ := h k d hd
  refine ⟨c₀, hc₀, ?_⟩
  unfold withStatus
  split
  · next hk =>
    refine .inr ⟨rfl, ?_⟩
    rw [← key_of_candidate? hd, hk]
    exact List.mem_map_of_mem he
  · exact hstatus

/-- A candidate that was a shadow may expire. -/
theorem Expiring.valid {s₀ s : AssociationStore} {c : AssociationCandidateRecord}
    (h : Expiring s₀ expired s) (he : s₀.candidate? e.key = some e) (hshadow : e.status = .shadow)
    (hc : s.candidate? e.key = some c) :
    isValidAssociativeCandidateStatusTransition c.status .expired := by
  obtain ⟨c₀, hc₀, hstatus⟩ := h e.key c hc
  obtain rfl := Option.some.inj (hc₀.symm.trans he)
  rcases hstatus with hstatus | ⟨hstatus, -⟩
  · rw [hstatus, hshadow]
    rfl
  · rw [hstatus]
    rfl

variable {base : AssociationStore}

/-- The loop over the sources, before `rest`. -/
structure LinkingLoop (host : LinkingHost) (config : AssociativeLinkingResolvedConfig)
    (payload : AssociativeLinkTriggerPayload) (pool sources : List RecallAssociativeNodeRow)
    (s₀ : AssociationStore) (progress : LinkingProgress) (rest : List RecallAssociativeNodeRow)
    (s : AssociationStore) : Prop where
  visited : ∃ done, sources = done ++ rest ∧
    progress.upserts = done.flatMap (sourceUpserts host config payload pool) ∧
    Expiring s₀ (done.flatMap fun x => staleCandidates host config payload pool x s₀) s
  lists : ∀ x ∈ rest, s.listShadowCandidates payload.scope x.id 200 =
    s₀.listShadowCandidates payload.scope x.id 200

/-- Candidates expire while the lists of the sources to come stay. -/
def ExpiringBefore (payload : AssociativeLinkTriggerPayload) (s₀ : AssociationStore)
    (expired : List AssociationCandidateRecord) (rest : List RecallAssociativeNodeRow)
    (s : AssociationStore) : Prop :=
  Expiring s₀ expired s ∧ ∀ x ∈ rest, s.listShadowCandidates payload.scope x.id 200 =
    s₀.listShadowCandidates payload.scope x.id 200

theorem expire_keeps {s₀ : AssociationStore} {source : RecallAssociativeNodeRow}
    {rest : List RecallAssociativeNodeRow}
    (hsub : staleCandidates host config payload pool source s₀ ⊆ expired)
    (hrest : ∀ x ∈ rest, x.id ≠ source.id) (stale : List AssociationCandidateRecord) :
    Keeps base
      (fun s => stale ⊆ staleCandidates host config payload pool source s₀ ∧
        ExpiringBefore payload s₀ expired rest s)
      (stale.forM fun existing => updateAssociationCandidateStatus env existing.key .expired)
      fun _ => ExpiringBefore payload s₀ expired rest := by
  refine Spec.mono (Spec.forM (J := fun stale s =>
      stale ⊆ staleCandidates host config payload pool source s₀ ∧
        ExpiringBefore payload s₀ expired rest s) (fun e stale => ?_) stale)
    (fun _ _ h => h) fun _ _ _ h => h.2
  refine Keeps.write fun s s' hinv hs' => ?_
  obtain ⟨hstale, hexpiring, hlists⟩ := hinv
  obtain rfl := Option.some.inj hs'
  have he := hstale List.mem_cons_self
  obtain ⟨hstored, hsrc, hshadow, -⟩ := mem_staleCandidates he
  refine ⟨statusKept_updateStatus fun c hc => hexpiring.valid hstored hshadow hc,
    fun d hd => hstale (List.mem_cons_of_mem _ hd), hexpiring.updateStatus (hsub he),
    fun x hx => ?_⟩
  rw [listShadowCandidates_updateStatus (hsrc ▸ (hrest x hx).symm)]
  exact hlists x hx

theorem linkSource_keeps {sources : List RecallAssociativeNodeRow}
    (hsources : (sources.map (·.id)).Nodup) (s₀ : AssociationStore) (progress : LinkingProgress)
    (source : RecallAssociativeNodeRow) (rest : List RecallAssociativeNodeRow) :
    Keeps base (LinkingLoop host config payload pool sources s₀ progress (source :: rest))
      (linkSource env host config payload pool progress source)
      fun progress => LinkingLoop host config payload pool sources s₀ progress rest := by
  refine Spec.bind (M := fun existing s => existing =
      s₀.listShadowCandidates payload.scope source.id 200 ∧
      LinkingLoop host config payload pool sources s₀ progress (source :: rest) s) ?_
    fun existing => ?_
  · exact .read fun s _ h => ⟨h.lists source List.mem_cons_self, h⟩
  refine Spec.of_start fun s₁ h => ?_
  obtain ⟨rfl, ⟨done, hdone, hupserts, hexpiring⟩, hlists⟩ := h
  have hrest : ∀ x ∈ rest, x.id ≠ source.id := by
    rw [hdone, List.map_append, List.map_cons, List.nodup_append] at hsources
    intro x hx he
    exact (List.nodup_cons.1 hsources.2.1).1 (he ▸ List.mem_map_of_mem hx)
  refine Spec.bind (M := fun _ => ExpiringBefore payload s₀ ((done ++ [source]).flatMap
      fun x => staleCandidates host config payload pool x s₀) rest) ?_ fun _ => ?_
  · have hsub : staleCandidates host config payload pool source s₀ ⊆
        (done ++ [source]).flatMap fun x => staleCandidates host config payload pool x s₀ := by
      intro e he
      rw [List.flatMap_append, List.flatMap_singleton]
      exact List.mem_append_right _ he
    refine Spec.mono (expire_keeps hsub hrest _) ?_ fun _ _ _ h => h
    rintro s - rfl
    refine ⟨fun e he => he, ?_, fun x hx => hlists x (List.mem_cons_of_mem _ hx)⟩
    rw [List.flatMap_append]
    exact hexpiring.mono
  · refine .pure fun s _ h => ⟨⟨done ++ [source], ?_, ?_, h.1⟩, h.2⟩
    · rw [hdone, List.append_assoc]
      rfl
    · rw [List.flatMap_append, List.flatMap_singleton, hupserts]

/-- Upserts of distinct candidates, each of which may meet the stored row. -/
def Upsertable (args : List UpsertAssociationCandidateArgs) (s : AssociationStore) : Prop :=
  (args.map (·.toCandidateKey)).Nodup ∧
    ∀ a ∈ args, ∀ c, s.candidate? a.toCandidateKey = some c → Mergeable a.status c

theorem upsertAssociationCandidates_keeps (args : List UpsertAssociationCandidateArgs) :
    Keeps base (Upsertable args) (upsertAssociationCandidates env args) fun _ _ => True := by
  refine Spec.mono (Spec.forM (J := Upsertable) (fun a rest => ?_) args) (fun _ _ h => h)
    fun _ _ _ _ => trivial
  refine Keeps.write fun s s' hinv hs' => ?_
  obtain ⟨hnodup, hmergeable⟩ := hinv
  rw [List.map_cons, List.nodup_cons] at hnodup
  refine ⟨statusKept_upsertCandidate hs' (hmergeable a List.mem_cons_self), hnodup.2,
    fun b hb c hc => ?_⟩
  have hne : b.toCandidateKey ≠ a.toCandidateKey :=
    fun he => hnodup.1 (he ▸ List.mem_map_of_mem hb)
  rw [candidate?_upsertCandidate_of_ne hs' hne] at hc
  exact hmergeable b (List.mem_cons_of_mem _ hb) c hc

end Linking

/-! ## The upserts of a job -/

section Upserts

variable {env : AssociationEnv} {host : LinkingHost} {config : AssociativeLinkingResolvedConfig}
  {payload : AssociativeLinkTriggerPayload} {pool sources : List RecallAssociativeNodeRow}
  {s₀ s : AssociationStore}

/-- The pairs of a source that are upserted. -/
def upsertedRows (host : LinkingHost) (config : AssociativeLinkingResolvedConfig)
    (payload : AssociativeLinkTriggerPayload) (pool : List RecallAssociativeNodeRow)
    (source : RecallAssociativeNodeRow) : List ScoredRow :=
  scoredForSource host config payload pool source ++ rejectedForSource host payload pool source

theorem upsertedRows_subperm (source : RecallAssociativeNodeRow) :
    (upsertedRows host config payload pool source).Subperm
      (scoredRows host payload pool source) := by
  let p (row : ScoredRow) : Bool := row.visibilityCompatible ∧ 1 / 2 ≤ row.scored.score
  have hselected : (scoredForSource host config payload pool source).Subperm
      ((scoredRows host payload pool source).filter p) :=
    (List.take_sublist _ _).subperm.trans (List.mergeSort_perm _ _).subperm
  have hrejected : (rejectedForSource host payload pool source).Subperm
      ((scoredRows host payload pool source).filter (!p ·)) := by
    refine (List.monotone_filter_right _ fun row h => ?_).subperm
    simp only [decide_eq_true_eq] at h
    simp only [p, h.2, and_false, decide_false, Bool.not_false]
  exact (hselected.append hrejected).trans (List.filter_append_perm p _).subperm

theorem nodup_upsertedRows (hpool : (pool.map (·.id)).Nodup) (source : RecallAssociativeNodeRow) :
    ((upsertedRows host config payload pool source).map (·.candidate.id)).Nodup := by
  obtain ⟨l, hl, hsub⟩ := @upsertedRows_subperm host config payload pool source
  refine (hl.map (·.candidate.id)).nodup_iff.1 (List.Nodup.sublist (hsub.map _) ?_)
  have hperm := (List.mergeSort_perm ((pool.filter (comparable payload source)).map
    (scoreRow host source)) bestScored).map (·.candidate.id)
  refine hperm.nodup_iff.2 ?_
  rw [List.map_map]
  exact hpool.sublist (List.filter_sublist.map _)

theorem map_key_sourceUpserts (source : RecallAssociativeNodeRow) :
    (sourceUpserts host config payload pool source).map (·.toCandidateKey) =
      (upsertedRows host config payload pool source).map (ScoredRow.key payload source) := by
  unfold sourceUpserts upsertedRows
  rw [List.map_append, List.map_append, List.map_map, List.map_map]
  rfl

theorem nodup_keys_sourceUpserts (hpool : (pool.map (·.id)).Nodup)
    (hsources : (sources.map (·.id)).Nodup) :
    ((sources.flatMap (sourceUpserts host config payload pool)).map (·.toCandidateKey)).Nodup := by
  rw [List.map_flatMap, List.nodup_flatMap]
  refine ⟨fun source _ => ?_, (List.pairwise_map.1 hsources).imp fun {x y} hne => ?_⟩
  · rw [map_key_sourceUpserts]
    refine List.Nodup.of_map (·.dstId) ?_
    rw [List.map_map]
    exact nodup_upsertedRows hpool source
  · intro k hx hy
    simp only [map_key_sourceUpserts] at hx hy
    obtain ⟨_, -, rfl⟩ := List.mem_map.1 hx
    obtain ⟨_, -, hk⟩ := List.mem_map.1 hy
    exact hne (congrArg CandidateKey.srcId hk).symm

/-- A candidate with the source id of one source is stale for this one alone. -/
theorem stale_of_expired (hsources : (sources.map (·.id)).Nodup)
    {source : RecallAssociativeNodeRow} (hsource : source ∈ sources) {row : ScoredRow}
    (h : row.key payload source ∈
      (sources.flatMap fun x => staleCandidates host config payload pool x s₀).map (·.key)) :
    ∃ e ∈ staleCandidates host config payload pool source s₀,
      e.key = row.key payload source := by
  obtain ⟨e, he, hkey⟩ := List.mem_map.1 h
  obtain ⟨x, hx, he⟩ := List.mem_flatMap.1 he
  have hid : x.id = source.id := by
    rw [← (mem_staleCandidates he).2.1]
    exact congrArg CandidateKey.srcId hkey
  obtain rfl := Unique.eq hsources hx hsource hid
  exact ⟨e, he, hkey⟩

theorem upsertable_of_allowed (hpool : (pool.map (·.id)).Nodup)
    (hsources : (sources.map (·.id)).Nodup)
    (hallowed : ∀ source ∈ sources, SourceAllowed host config payload pool s₀ source)
    (hexpiring : Expiring s₀
      (sources.flatMap fun x => staleCandidates host config payload pool x s₀) s) :
    Upsertable (sources.flatMap (sourceUpserts host config payload pool)) s := by
  refine ⟨nodup_keys_sourceUpserts hpool hsources, fun a ha c hc => ?_⟩
  obtain ⟨source, hsource, ha⟩ := List.mem_flatMap.1 ha
  obtain ⟨hselected, hrejected⟩ := hallowed source hsource
  rcases List.mem_append.1 ha with ha | ha
  · obtain ⟨row, hrow, rfl⟩ := List.mem_map.1 ha
    obtain ⟨c₀, hc₀, hstatus | ⟨-, hexpired⟩⟩ := hexpiring _ c hc
    · rcases hselected row hrow c₀ hc₀ with hshadow | hpromoted
      · refine .inr ⟨?_, ?_⟩
        · rw [hstatus, hshadow]
          exact AssociativeCandidateStatus.noConfusion
        · rw [hstatus, hshadow]
          rfl
      · exact .inl ⟨hstatus.trans hpromoted, rfl⟩
    · -- a selected pair is not stale
      obtain ⟨e, he, hkey⟩ := stale_of_expired hsources hsource hexpired
      have hstale := (mem_staleCandidates he).2.2.2
      unfold isStale at hstale
      rw [decide_eq_true_eq, hkey] at hstale
      exact absurd (List.mem_map_of_mem hrow) hstale.1
  · obtain ⟨row, hrow, rfl⟩ := List.mem_map.1 ha
    obtain ⟨c₀, hc₀, hstatus | ⟨-, hexpired⟩⟩ := hexpiring _ c hc
    · rcases hrejected row hrow c₀ hc₀ with hrejected | ⟨hshadow, -⟩
      · refine .inr ⟨?_, ?_⟩
        · rw [hstatus, hrejected]
          exact AssociativeCandidateStatus.noConfusion
        · rw [hstatus, hrejected]
          rfl
      · refine .inr ⟨?_, ?_⟩
        · rw [hstatus, hshadow]
          exact AssociativeCandidateStatus.noConfusion
        · rw [hstatus, hshadow]
          rfl
    · -- what has expired was a stale shadow candidate
      obtain ⟨e, he, hkey⟩ := stale_of_expired hsources hsource hexpired
      obtain ⟨hstored, -, hshadow, -⟩ := mem_staleCandidates he
      rw [hkey] at hstored
      obtain rfl := Option.some.inj (hstored.symm.trans hc₀)
      rcases hrejected row hrow e hc₀ with hrejected | ⟨-, hfresh⟩
      · rw [hshadow] at hrejected
        cases hrejected
      · exact absurd (List.mem_map_of_mem he) hfresh

end Upserts

/-! ## Calls -/

theorem nodup_listAssociativeNodesByIds (nodes : AssociativeNodes) (scope : String)
    (nodeIds : List String) :
    ((nodes.listAssociativeNodesByIds scope nodeIds).map (·.id)).Nodup := by
  have hperm := (List.mergeSort_perm (nodes.rows.filter fun n => n.scope = scope ∧ n.id ∈ nodeIds)
    fun m n => n.createdAt ≤ m.createdAt).map (·.id)
  refine hperm.nodup_iff.2 ?_
  exact nodes.nodup_ids_filter fun n hn => (of_decide_eq_true hn).1

theorem nodup_listAssociativeCandidatePool (nodes : AssociativeNodes) (scope : String)
    (excludeNodeIds : List String) (limit : Nat) :
    ((nodes.listAssociativeCandidatePool scope excludeNodeIds limit).map (·.id)).Nodup := by
  refine List.Nodup.sublist ((List.take_sublist _ _).map _) ?_
  have hperm := (List.mergeSort_perm (nodes.rows.filter fun n => n.scope = scope ∧
    n.type ∈ ["event", "evidence", "concept", "procedure"] ∧ n.id ∉ excludeNodeIds)
    fun m n => n.createdAt ≤ m.createdAt).map (·.id)
  refine hperm.nodup_iff.2 ?_
  exact nodes.nodup_ids_filter fun n hn => (of_decide_eq_true hn).1

theorem runAssociativeLinkingJob_keeps {env : AssociationEnv} {host : LinkingHost}
    {config : AssociativeLinkingResolvedConfig} {payload : AssociativeLinkTriggerPayload}
    {nodes : AssociativeNodes} {base : AssociationStore} :
    Keeps base (LinkingAllowed host config payload nodes)
      (runAssociativeLinkingJob env host config payload nodes) fun _ _ => True := by
  refine Spec.of_start fun s₀ hallowed => ?_
  generalize hfetched : fetchAssociativeCandidatesForSources config payload nodes = fetched
  have hsources : (fetched.1.map (·.id)).Nodup := by
    rw [← hfetched]
    exact nodup_listAssociativeNodesByIds nodes _ _
  have hpool : (fetched.2.map (·.id)).Nodup := by
    rw [← hfetched]
    exact nodup_listAssociativeCandidatePool nodes _ _ _
  unfold LinkingAllowed at hallowed
  unfold runAssociativeLinkingJob
  rw [hfetched] at hallowed ⊢
  refine Spec.bind (M := fun progress s => LinkingLoop host config payload fetched.2 fetched.1 s₀
    progress [] s) ?_ fun progress => ?_
  · refine Spec.mono (Spec.foldlM (linkSource_keeps hsources s₀) fetched.1 {}) ?_
      fun _ _ _ h => h
    rintro s - rfl
    exact ⟨⟨[], rfl, rfl, .refl s⟩, fun _ _ => rfl⟩
  · refine Spec.bind (M := fun _ _ => True) ?_ fun _ => .pure fun _ _ _ => trivial
    refine Spec.mono (upsertAssociationCandidates_keeps progress.upserts) ?_ fun _ _ _ h => h
    rintro s - ⟨⟨done, hdone, hupserts, hexpiring⟩, -⟩
    rw [List.append_nil] at hdone
    rw [hupserts, ← hdone]
    rw [← hdone] at hexpiring
    exact upsertable_of_allowed hpool hsources hallowed hexpiring

inductive AssociationCall where
  | link (config : AssociativeLinkingResolvedConfig) (payload : AssociativeLinkTriggerPayload)
      (nodes : AssociativeNodes)
  | promote (config : AssociativeLinkingResolvedConfig) (scope : String)
      (sourceNodeIds : List String)

/-- The call, without its result. -/
def AssociationCall.body (env : AssociationEnv) (host : LinkingHost) :
    AssociationCall → Program AssociationStore Unit
  | link config payload nodes => do
    let _ ← runAssociativeLinkingJob env host config payload nodes
    return ()
  | promote config scope sourceNodeIds => do
    let _ ← promoteAssociativeCandidates env host config scope sourceNodeIds
    return ()

/-- A promotion may be called at any time, a linking job where its sources allow it. -/
def AssociationCall.Allowed (host : LinkingHost) (s : AssociationStore) : AssociationCall → Prop
  | link config payload nodes => LinkingAllowed host config payload nodes s
  | promote .. => True

theorem AssociationCall.body_keeps {env : AssociationEnv} {host : LinkingHost}
    {base : AssociationStore} (call : AssociationCall) :
    Keeps base (fun s => call.Allowed host s) (call.body env host) fun _ _ => True := by
  cases call with
  | link config payload nodes =>
    exact runAssociativeLinkingJob_keeps.bind fun _ => .pure fun _ _ _ => trivial
  | promote config scope sourceNodeIds =>
    refine Spec.bind (M := fun _ _ => True) ?_ fun _ => .pure fun _ _ _ => trivial
    exact (promoteAssociativeCandidates_keeps sourceNodeIds).mono (fun _ _ _ => trivial)
      fun _ _ _ h => h

def associationStep (env : AssociationEnv) (host : LinkingHost)
    (σ : Session AssociationStore) (call : AssociationCall) : Option (Session AssociationStore) :=
  some (σ.call (call.body env host))

instance (host : LinkingHost) (config : AssociativeLinkingResolvedConfig)
    (payload : AssociativeLinkTriggerPayload) (pool : List RecallAssociativeNodeRow)
    (s : AssociationStore) (source : RecallAssociativeNodeRow) :
    Decidable (SourceAllowed host config payload pool s source) :=
  inferInstanceAs (Decidable (_ ∧ _))

instance (host : LinkingHost) (config : AssociativeLinkingResolvedConfig)
    (payload : AssociativeLinkTriggerPayload) (nodes : AssociativeNodes) (s : AssociationStore) :
    Decidable (LinkingAllowed host config payload nodes s) :=
  inferInstanceAs (Decidable (∀ source ∈ _, _))

instance (host : LinkingHost) (s : AssociationStore) :
    (call : AssociationCall) → Decidable (call.Allowed host s)
  | .link config payload nodes =>
    inferInstanceAs (Decidable (LinkingAllowed host config payload nodes s))
  | .promote .. => .isTrue trivial

def sampleLinkingHost : LinkingHost where
  toLowerCase s := s
  toNumber s := if s = "1" then some 1 else none
  sqrt q := q
  dateParse _ := some 0
  localeCompare a b := if a ≤ b then -1 else 1

def sampleAssociationEnv : AssociationEnv where
  crypto := sampleCrypto
  nowIso _ := "2024-01-01T00:00:00.000Z"

def emptyAssociationStore : AssociationStore where
  tables := .empty
  candidates := []
  candidateKeys := .nil
  ticks := 0

def sampleNodeId (hex : Char) : String :=
  "00000000-0000-4000-8000-00000000000".push hex

/-- A shared node that is not embedded yet. -/
def plainNode (hex : Char) : RecallAssociativeNodeRow where
  id := sampleNodeId hex
  scope := "default"
  type := "event"
  memoryLane := .sharedLane
  ownerAgentId := none
  ownerTeamId := none
  title := none
  textSummary := none
  slots := []
  embeddingText := none
  createdAt := "2024-01-01 00:00:00+00"
  commitId := none

/-- The node with an embedding and a validation target. -/
def checkedNode (hex : Char) : RecallAssociativeNodeRow :=
  { plainNode hex with
    slots := [("acceptance_checks", .arr [.str "npm test"])]
    embeddingText := some "[1]" }

def twoNodes (m n : RecallAssociativeNodeRow) (h : m.id ≠ n.id) : AssociativeNodes where
  rows := [m, n]
  ids := List.nodup_cons.2 ⟨fun he => h (congrArg Prod.snd (List.mem_singleton.1 he)),
    List.nodup_singleton _⟩

def plainNodes : AssociativeNodes := twoNodes (plainNode 'a') (plainNode 'b') (by decide)

def checkedNodes : AssociativeNodes := twoNodes (checkedNode 'a') (checkedNode 'b') (by decide)

def samplePayload : AssociativeLinkTriggerPayload where
  scope := "default"
  sourceNodeIds := [sampleNodeId 'a']
  sourceCommitId := sampleNodeId 'c'

/-- The candidate of the two nodes. -/
def sampleKey : CandidateKey := ⟨"default", sampleNodeId 'a', sampleNodeId 'b', .supports⟩

def lowThresholds : AssociativeLinkingResolvedConfig where
  promotionScoreThreshold := 1 / 2
  promotionConfidenceThreshold := 1 / 2

/-- The status of the sample candidate. -/
def sampleStatus (s : AssociationStore) : Option AssociativeCandidateStatus :=
  (s.candidate? sampleKey).map (·.status)

end AionisCore.Jobs
