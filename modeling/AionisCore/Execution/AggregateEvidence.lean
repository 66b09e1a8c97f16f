import AionisCore.Execution.VerifierResult

/-!
# What the aggregate evidence says

The aggregate evidence joins the results to the requests through their verifier ids, which are
cut to 128 characters. It says of the requests of a packet what their results say if and only if
no request for a fresh shell shares its id with another request.
-/

namespace AionisCore.Execution

open Lib Lib.JsString Lib.Zod

/-- A request and the result there is for it. -/
structure Answer where
  request : RuntimeVerificationRequestV1
  result : Option RuntimeVerificationResultV1

def Answer.Succeeded (a : Answer) : Prop := ∃ result ∈ a.result, result.commandResult.success = true

def Answer.Failed (a : Answer) : Prop := ∃ result ∈ a.result, result.commandResult.success = false

/-- The results, in any order, are those of some of the requests. -/
structure AnswersFor (requests : List RuntimeVerificationRequestV1)
    (results : List RuntimeVerificationResultV1) (answers : List Answer) : Prop where
  requests : answers.map (·.request) = requests
  own : ∀ a ∈ answers, ∀ result ∈ a.result, result.request = a.request ∧ result.parse = some result
  results : results.Perm (answers.filterMap (·.result))

/-- A flag says of the requests it is about, in their order, what their results say. -/
structure Reports (flag : Option Bool) (asked : List Answer) : Prop where
  passed : flag = some true ↔ asked ≠ [] ∧ ∀ a ∈ asked, a.Succeeded
  failed : flag = some false ↔
    ∃ pre a post, asked = pre ++ a :: post ∧ a.Failed ∧ ∀ b ∈ pre, b.result ≠ none

/-- What the evidence is read as. -/
structure Truthful (e : RuntimeVerifierExecutionEvidenceV1) (answers : List Answer) : Prop where
  afterExit : Reports e.afterExitRevalidated (answers.filter (·.request.afterAgentExit))
  freshShell : Reports e.freshShellProbePassed (answers.filter (·.request.freshShell))
  validation : e.validationPassed = some true ↔ ∀ a ∈ answers, a.Succeeded

/-- No request for a fresh shell has the id of another request. -/
def OwnIds (requests : List RuntimeVerificationRequestV1) : Prop :=
  ∀ pre r post, requests = pre ++ r :: post → r.freshShell = true →
    ∀ other ∈ pre ++ post, other.verifierId ≠ r.verifierId

variable {requests : List RuntimeVerificationRequestV1}
  {results : List RuntimeVerificationResultV1} {answers : List Answer}

/-! ## The loop over the requests -/

section Loop

variable {lookup : String → Option RuntimeVerificationResultV1} {asked : List Answer}

theorem satisfiedLoop_true (h : ∀ a ∈ asked, lookup a.request.verifierId = a.result) :
    satisfiedLoop lookup (asked.map (·.request)) = some true ↔ ∀ a ∈ asked, a.Succeeded := by
  induction asked with
  | nil => simp [satisfiedLoop]
  | cons a asked ih =>
    have hrest := ih fun b hb => h b (List.mem_cons_of_mem a hb)
    rw [List.map_cons, satisfiedLoop, h a List.mem_cons_self, List.forall_mem_cons]
    unfold Answer.Succeeded at hrest ⊢
    cases a.result with
    | none => simp
    | some result =>
      by_cases hs : result.commandResult.success = true
      · simp only [hs, if_true, Option.mem_some_iff, exists_eq_left', true_and, hrest]
      · simp [hs]

theorem satisfiedLoop_false (h : ∀ a ∈ asked, lookup a.request.verifierId = a.result) :
    satisfiedLoop lookup (asked.map (·.request)) = some false ↔
      ∃ pre a post, asked = pre ++ a :: post ∧ a.Failed ∧ ∀ b ∈ pre, b.result ≠ none := by
  induction asked with
  | nil => simp [satisfiedLoop]
  | cons a asked ih =>
    have hrest := ih fun b hb => h b (List.mem_cons_of_mem a hb)
    rw [List.map_cons, satisfiedLoop, h a List.mem_cons_self]
    cases hres : a.result with
    | none =>
      refine iff_of_false nofun ?_
      rintro ⟨pre, b, post, hsplit, ⟨result, hresult, -⟩, hall⟩
      cases pre with
      | nil =>
        obtain ⟨rfl, -⟩ := List.cons.inj hsplit
        rw [hres] at hresult
        cases hresult
      | cons c pre =>
        obtain ⟨rfl, -⟩ := List.cons.inj hsplit
        exact hall a List.mem_cons_self hres
    | some result =>
      by_cases hs : result.commandResult.success = true
      · simp only [hs, if_true]
        rw [hrest]
        refine ⟨fun ⟨pre, b, post, hsplit, hb, hall⟩ => ?_,
          fun ⟨pre, b, post, hsplit, hb, hall⟩ => ?_⟩
        · refine ⟨a :: pre, b, post, by rw [hsplit]; rfl, hb, fun c hc => ?_⟩
          rcases List.mem_cons.1 hc with rfl | hc
          · rw [hres]
            exact nofun
          · exact hall c hc
        · cases pre with
          | nil =>
            obtain ⟨rfl, -⟩ := List.cons.inj hsplit
            obtain ⟨failed, hfailed, hnot⟩ := hb
            rw [hres, Option.mem_some_iff] at hfailed
            rw [← hfailed, hs] at hnot
            cases hnot
          | cons c pre =>
            obtain ⟨rfl, htail⟩ := List.cons.inj hsplit
            exact ⟨pre, b, post, htail, hb, fun c hc => hall c (List.mem_cons_of_mem a hc)⟩
      · dsimp only
        rw [if_neg hs]
        exact iff_of_true rfl
          ⟨[], a, asked, rfl, ⟨result, hres, Bool.eq_false_iff.2 hs⟩, fun _ hb => nomatch hb⟩

/-- Where every request finds a success the verdict is positive. -/
theorem satisfiedLoop_of_success (h : ∀ r ∈ requests, ∃ result,
    lookup r.verifierId = some result ∧ result.commandResult.success = true) :
    satisfiedLoop lookup requests = some true := by
  induction requests with
  | nil => rfl
  | cons r requests ih =>
    obtain ⟨result, hresult, hs⟩ := h r List.mem_cons_self
    rw [satisfiedLoop, hresult]
    dsimp only
    rw [if_pos hs]
    exact ih fun q hq => h q (List.mem_cons_of_mem r hq)

end Loop

/-! ## The join -/

section

variable (h : AnswersFor requests results answers)

include h

/-- A request with an id of its own is joined to its result. -/
theorem AnswersFor.find?_own {pre post : List Answer}
    {a : Answer} (hsplit : answers = pre ++ a :: post)
    (hother : ∀ b ∈ pre ++ post, b.request.verifierId ≠ a.request.verifierId) :
    results.reverse.find? (·.request.verifierId = a.request.verifierId) = a.result := by
  have hnone : ∀ bs : List Answer, (∀ b ∈ bs, b ∈ answers) →
      (∀ b ∈ bs, b.request.verifierId ≠ a.request.verifierId) →
      (bs.filterMap (·.result)).filter (·.request.verifierId = a.request.verifierId) = [] := by
    intro bs hbs hne
    refine List.filter_eq_nil_iff.2 fun result hresult hsame => ?_
    obtain ⟨b, hb, hbr⟩ := List.mem_filterMap.1 hresult
    rw [decide_eq_true_iff, (h.own b (hbs b hb) result hbr).1] at hsame
    exact hne b hb hsame
  have hkept : results.filter (·.request.verifierId = a.request.verifierId) = a.result.toList := by
    have hperm := h.results.filter (·.request.verifierId = a.request.verifierId)
    rw [hsplit, List.filterMap_append, List.filter_append,
      hnone pre (fun b hb => hsplit ▸ List.mem_append_left _ hb)
        fun b hb => hother b (List.mem_append_left _ hb), List.nil_append, List.filterMap_cons]
      at hperm
    have hpost := hnone post
      (fun b hb => hsplit ▸ List.mem_append_right _ (List.mem_cons_of_mem a hb))
      fun b hb => hother b (List.mem_append_right _ hb)
    cases hres : a.result with
    | none =>
      rw [hres] at hperm
      exact (hperm.trans (hpost ▸ .refl _)).eq_nil
    | some result =>
      have hown := (h.own a (hsplit ▸ List.mem_append_right _ List.mem_cons_self) result hres).1
      rw [hres] at hperm
      dsimp only at hperm
      rw [List.filter_cons_of_pos (by rw [hown]; exact decide_eq_true rfl), hpost] at hperm
      exact hperm.eq_singleton
  rw [← List.head?_filter, List.filter_reverse, hkept]
  cases a.result <;> rfl

/-- With ids of their own the requests for a fresh shell are joined to their results. -/
theorem AnswersFor.find?_of_ownIds (hids : OwnIds requests) {a : Answer} (ha : a ∈ answers)
    (hfresh : a.request.freshShell = true) :
    results.reverse.find? (·.request.verifierId = a.request.verifierId) = a.result := by
  obtain ⟨pre, post, hsplit⟩ := List.append_of_mem ha
  refine h.find?_own hsplit fun b hb => ?_
  refine hids (pre.map (·.request)) a.request (post.map (·.request)) ?_ hfresh b.request ?_
  · rw [← h.requests, hsplit, List.map_append, List.map_cons]
  · rw [← List.map_append]
    exact List.mem_map_of_mem hb

/-- With ids of their own the flag of the requests for a fresh shell reports their results. -/
theorem AnswersFor.reports (hids : OwnIds requests)
    {predicate : RuntimeVerificationRequestV1 → Bool}
    (hfresh : ∀ r ∈ requests, predicate r = true → r.freshShell = true) :
    Reports (allRequestedResultsSatisfied requests results predicate)
      (answers.filter (predicate ·.request)) := by
  have hasked : requests.filter predicate =
      (answers.filter (predicate ·.request)).map (·.request) := by
    rw [← h.requests, List.filter_map]
    rfl
  have hlookup : ∀ a ∈ answers.filter (predicate ·.request),
      results.reverse.find? (·.request.verifierId = a.request.verifierId) = a.result := by
    intro a ha
    obtain ⟨ha, hp⟩ := List.mem_filter.1 ha
    exact h.find?_of_ownIds hids ha
      (hfresh _ (h.requests ▸ List.mem_map_of_mem ha) hp)
  unfold allRequestedResultsSatisfied
  dsimp only
  rw [hasked]
  split
  · next hnil =>
    rw [List.map_eq_nil_iff.1 hnil]
    refine ⟨iff_of_false nofun fun hp => hp.1 rfl, iff_of_false nofun ?_⟩
    rintro ⟨pre, a, post, hsplit, -⟩
    simp at hsplit
  · next hne =>
    refine ⟨?_, satisfiedLoop_false hlookup⟩
    rw [satisfiedLoop_true hlookup]
    exact (and_iff_right fun hnil => hne (by rw [hnil]; rfl)).symm

/-! ## The evidence -/

theorem AnswersFor.parsed : ∀ result ∈ results, result.parse = some result := by
  intro result hresult
  obtain ⟨a, ha, har⟩ := List.mem_filterMap.1 (h.results.mem_iff.1 hresult)
  exact (h.own a ha result har).2

/-- As many results as requests are an answer for each request. -/
theorem AnswersFor.validation (hne : requests ≠ []) :
    aggregateValidationPassed requests results = some true ↔ ∀ a ∈ answers, a.Succeeded := by
  rw [aggregateValidationPassed_eq_true, ← h.requests, List.length_map, h.results.length_eq]
  have hfull : answers.length ≤ (answers.filterMap (·.result)).length ↔
      ∀ a ∈ answers, a.result.isSome = true := by
    rw [List.length_filterMap_eq_countP, ← List.countP_eq_length]
    exact ⟨fun hle => le_antisymm List.countP_le_length hle, fun heq => heq.ge⟩
  rw [hfull]
  refine ⟨fun ⟨hall, _, hsome⟩ a ha => ?_, fun hall => ⟨fun result hresult => ?_, ?_, ?_⟩⟩
  · obtain ⟨result, hresult⟩ := Option.isSome_iff_exists.1 (hsome a ha)
    exact ⟨result, hresult, hall result (h.results.mem_iff.2
      (List.mem_filterMap.2 ⟨a, ha, hresult⟩))⟩
  · obtain ⟨a, ha, har⟩ := List.mem_filterMap.1 (h.results.mem_iff.1 hresult)
    obtain ⟨other, hother, hs⟩ := hall a ha
    rw [Option.mem_def, har, Option.some.injEq] at hother
    rwa [hother]
  · rwa [h.requests]
  · intro a ha
    obtain ⟨result, hresult, -⟩ := hall a ha
    exact Option.isSome_iff_exists.2 ⟨result, hresult⟩

theorem AnswersFor.truthful (hids : OwnIds requests) (hq : ∀ r ∈ requests, r.parse = some r)
    (hexit : ∀ r ∈ requests, r.afterAgentExit = true → r.freshShell = true) {claimed : Bool}
    {reasons : List String} {e : RuntimeVerifierExecutionEvidenceV1}
    (he : buildRuntimeVerifierAggregateExecutionEvidenceV1 requests results claimed reasons =
      some (some e)) :
    Truthful e answers := by
  obtain ⟨hsome, hvalidation, hafter, hfresh⟩ := aggregate_flags hq h.parsed he
  have hne : requests ≠ [] := by
    intro hnil
    have hanswers := h.requests
    rw [hnil, List.map_eq_nil_iff] at hanswers
    have hresults := h.results
    rw [hanswers] at hresults
    exact hsome ⟨hnil, hresults.eq_nil⟩
  refine ⟨?_, ?_, ?_⟩
  · rw [hafter]
    exact h.reports hids hexit
  · rw [hfresh]
    exact h.reports hids fun _ _ hp => hp
  · rw [hvalidation]
    exact h.validation hne

end

/-! ## Shared ids -/

/-- A result of a request that succeeded. -/
def successOf (request : RuntimeVerificationRequestV1) : RuntimeVerificationResultV1 where
  request := request
  commandResult := passed
  executionEvidence :=
    { validationPassed := some true
      afterExitRevalidated := none
      freshShellProbePassed := none
      validationBoundary := request.validationBoundary
      failureReason := none
      falseConfidenceDetected := false
      evidenceRefs := [] }

theorem successOf_parse {r : RuntimeVerificationRequestV1} (h : r.parse = some r) :
    (successOf r).parse = some (successOf r) :=
  RuntimeVerificationResultV1.parse_eq_some.2 ⟨h, rfl, rfl⟩

/-- Short references fit the list of the schema. -/
theorem stringList_uniqueStrings {values : List String} (h : ∀ ref ∈ values, length ref ≤ 512) :
    ∃ refs, stringList (uniqueStrings values 64) = some refs := by
  refine ⟨_, (trimmedList_of_clean uniqueStrings_clean).2 ⟨⟨?_, fun ref href => ?_⟩, rfl⟩⟩
  · rw [uniqueStrings, List.length_take]
    omega
  · obtain ⟨⟨y, hy, rfl⟩, -⟩ := mem_distinctStrings.1 (List.mem_of_mem_take href)
    exact (length_trim_le y).trans (h y hy)

/-- The aggregate of requests that succeeded fits its schema. -/
theorem exists_aggregate (hq : ∀ r ∈ requests, r.parse = some r) (hne : requests ≠ [])
    {qs : List RuntimeVerificationRequestV1} (hqs : ∀ r ∈ qs, r.parse = some r) :
    ∃ e, buildRuntimeVerifierAggregateExecutionEvidenceV1 requests (qs.map successOf) false [] =
      some (some e) := by
  have hresults : ∀ r ∈ qs.map successOf, r.parse = some r := by
    intro r hr
    obtain ⟨q, hq, rfl⟩ := List.mem_map.1 hr
    exact successOf_parse (hqs q hq)
  have hreason : firstFailedResult (qs.map successOf) = none := by
    refine List.find?_eq_none.2 fun r hr => ?_
    obtain ⟨q, -, rfl⟩ := List.mem_map.1 hr
    exact Bool.false_ne_true
  have hlist : ∃ refs, stringList (uniqueStrings (aggregateRefs requests (qs.map successOf)) 64) =
      some refs := by
    refine stringList_uniqueStrings fun ref href => ?_
    unfold aggregateRefs at href
    simp only [List.mem_append, List.mem_singleton, List.mem_map, List.mem_flatMap] at href
    rcases href with (rfl | ⟨r, hr, rfl⟩) | ⟨_, ⟨q, -, rfl⟩, hmem⟩
    · decide
    · have hid := (parsed_request (hq r hr)).1.2.2
      have hhead : length "runtime_verifier:" = 17 := by decide
      rw [length_append]
      omega
    · cases hmem
  unfold buildRuntimeVerifierAggregateExecutionEvidenceV1
  rw [mapM_eq_self hq, mapM_eq_self hresults]
  simp only [Option.bind_eq_bind, Option.bind_some, Option.pure_def]
  rw [if_neg fun hnil => hne hnil.1, hreason]
  obtain ⟨e, he⟩ := RuntimeVerifierExecutionEvidenceV1.exists_parse
    (e := {
      validationPassed := aggregateValidationPassed requests (qs.map successOf)
      afterExitRevalidated :=
        allRequestedResultsSatisfied requests (qs.map successOf) (·.afterAgentExit)
      freshShellProbePassed :=
        allRequestedResultsSatisfied requests (qs.map successOf) (·.freshShell)
      validationBoundary :=
        if requests.any (·.validationBoundary = .externalVerifier) then .externalVerifier
        else .runtimeOrchestrator
      failureReason := none
      falseConfidenceDetected :=
        false && (qs.map successOf).any fun r => !r.commandResult.success
      evidenceRefs := uniqueStrings (aggregateRefs requests (qs.map successOf)) 64 })
    ⟨none, rfl⟩ hlist
  exact ⟨e, Option.bind_eq_some_iff.2 ⟨e, he, rfl⟩⟩

/-- Where two requests share an id, one for a fresh shell counts the other's success. -/
theorem exists_untruthful (hq : ∀ r ∈ requests, r.parse = some r)
    {pre post : List RuntimeVerificationRequestV1} {r other : RuntimeVerificationRequestV1}
    (hsplit : requests = pre ++ r :: post) (hfresh : r.freshShell = true)
    (hother : other ∈ pre ++ post) (hid : other.verifierId = r.verifierId) :
    ∃ results answers e, AnswersFor requests results answers ∧
      buildRuntimeVerifierAggregateExecutionEvidenceV1 requests results false [] =
        some (some e) ∧ ¬ Truthful e answers := by
  let answer (q : RuntimeVerificationRequestV1) : Answer := ⟨q, some (successOf q)⟩
  have hsub : ∀ q ∈ pre ++ post, q ∈ requests := by
    intro q hq
    rw [hsplit]
    exact (List.sublist_cons_self r post).append_left pre |>.subset hq
  have hresults : ∀ q ∈ pre ++ post, q.parse = some q := fun q hmem => hq q (hsub q hmem)
  have hanswers : AnswersFor requests ((pre ++ post).map successOf)
      (pre.map answer ++ ⟨r, none⟩ :: post.map answer) := by
    refine ⟨?_, fun a ha result har => ?_, ?_⟩
    · rw [hsplit, List.map_append, List.map_cons, List.map_map, List.map_map]
      simp [answer, Function.comp_def]
    · rcases List.mem_append.1 ha with ha | ha
      · obtain ⟨q, hmem, rfl⟩ := List.mem_map.1 ha
        obtain rfl := Option.mem_some_iff.1 har
        exact ⟨rfl, successOf_parse (hresults q (List.mem_append_left _ hmem))⟩
      · rcases List.mem_cons.1 ha with rfl | ha
        · cases har
        · obtain ⟨q, hmem, rfl⟩ := List.mem_map.1 ha
          obtain rfl := Option.mem_some_iff.1 har
          exact ⟨rfl, successOf_parse (hresults q (List.mem_append_right _ hmem))⟩
    · simp [answer, List.filterMap_append, List.filterMap_map]
  obtain ⟨e, he⟩ := exists_aggregate hq (by rw [hsplit]; simp) hresults
  refine ⟨_, _, e, hanswers, he, fun htrue => ?_⟩
  obtain ⟨-, -, -, hprobe⟩ := aggregate_flags hq hanswers.parsed he
  -- every request finds a success under its id
  have hfound : ∀ q ∈ requests, ∃ result, ((pre ++ post).map successOf).reverse.find?
      (·.request.verifierId = q.verifierId) = some result ∧
        result.commandResult.success = true := by
    intro q hq
    have hsome : ∃ p ∈ pre ++ post, p.verifierId = q.verifierId := by
      rw [hsplit] at hq
      rcases List.mem_append.1 hq with hq | hq
      · exact ⟨q, List.mem_append_left _ hq, rfl⟩
      · rcases List.mem_cons.1 hq with rfl | hq
        · exact ⟨other, hother, hid⟩
        · exact ⟨q, List.mem_append_right _ hq, rfl⟩
    obtain ⟨p, hp, hpq⟩ := hsome
    cases hfind : ((pre ++ post).map successOf).reverse.find?
        (·.request.verifierId = q.verifierId) with
    | none =>
      have hnot := List.find?_eq_none.1 hfind (successOf p)
        (List.mem_reverse.2 (List.mem_map_of_mem hp))
      exact absurd (decide_eq_true hpq) hnot
    | some result =>
      obtain ⟨p', -, rfl⟩ := List.mem_map.1 (List.mem_reverse.1 (List.mem_of_find?_eq_some hfind))
      exact ⟨_, rfl, rfl⟩
  have hr : r ∈ requests := by
    rw [hsplit]
    exact List.mem_append_right _ List.mem_cons_self
  have hpassed : e.freshShellProbePassed = some true := by
    rw [hprobe, allRequestedResultsSatisfied]
    rw [if_neg (List.ne_nil_of_mem (List.mem_filter.2 ⟨hr, hfresh⟩))]
    exact satisfiedLoop_of_success fun q hmem => hfound q (List.mem_filter.1 hmem).1
  obtain ⟨result, hresult, -⟩ := (htrue.freshShell.passed.1 hpassed).2 ⟨r, none⟩
    (List.mem_filter.2 ⟨List.mem_append_right _ List.mem_cons_self, hfresh⟩)
  cases hresult

/-! ## The requests of a packet -/

theorem built_parse {packet : ExecutionPacketV1} {options : RequestOptions}
    (h : buildRuntimeVerificationRequestsFromPacketV1 packet options = some requests) :
    (∀ r ∈ requests, r.parse = some r) ∧
      ∀ r ∈ requests, r.afterAgentExit = true → r.freshShell = true := by
  have hall := mapM_eq_some.1 h
  refine ⟨fun r hr => ?_, fun r hr hafter => ?_⟩
  · obtain ⟨k, -, hk⟩ := exists_left_of_forall₂ hall hr
    exact RuntimeVerificationRequestV1.parse_parse hk
  · obtain ⟨k, hmem, hk⟩ := exists_left_of_forall₂ hall hr
    obtain ⟨-, -, -, -, -, hrk⟩ := RuntimeVerificationRequestV1.parse_eq_some.1 hk
    rw [hrk] at hafter ⊢
    have hpacket := mem_of_mem_firstBy hmem
    unfold packetRequests at hpacket
    rcases List.mem_append.1 hpacket with hcheck | hpending
    · obtain ⟨c, -, hcheck⟩ := List.mem_flatMap.1 hcheck
      obtain ⟨check, -, rfl⟩ := List.mem_map.1 hcheck
      exact Bool.or_eq_true_iff.2 (.inr hafter)
    · split at hpending
      · obtain ⟨v, -, rfl⟩ := List.mem_map.1 hpending
        cases hafter
      · cases hpending

/-- The aggregate evidence says of the requests of a packet what the results say, for every
choice of results, exactly if those for a fresh shell have ids of their own. -/
theorem aggregate_truthful_iff {packet : ExecutionPacketV1} {options : RequestOptions}
    {requests : List RuntimeVerificationRequestV1}
    (hbuilt : buildRuntimeVerificationRequestsFromPacketV1 packet options = some requests) :
    (∀ results answers claimed reasons e, AnswersFor requests results answers →
      buildRuntimeVerifierAggregateExecutionEvidenceV1 requests results claimed reasons =
        some (some e) →
      Truthful e answers) ↔ OwnIds requests := by
  obtain ⟨hq, hexit⟩ := built_parse hbuilt
  refine ⟨fun hall pre r post hsplit hfresh other hother hid => ?_,
    fun hids results answers claimed reasons e hanswers he => ?_⟩
  · obtain ⟨results, answers, e, hanswers, he, hnot⟩ :=
      exists_untruthful hq hsplit hfresh hother hid
    exact hnot (hall results answers false [] e hanswers he)
  · exact hanswers.truthful hids hq hexit he

/-! ## A long state id -/

theorem collapseUnderscores_xs (n : Nat) (cs : List Char) :
    collapseUnderscores (List.replicate n 'x' ++ cs) =
      List.replicate n 'x' ++ collapseUnderscores cs := by
  induction n with
  | zero => rfl
  | succ n ih =>
    rw [List.replicate_succ, List.cons_append, List.cons_append, ← ih]
    rfl

theorem rdropWhile_xs (n : Nat) (cs : List Char) :
    ∃ more, (List.replicate (n + 1) 'x' ++ cs).rdropWhile (· = '_') =
      List.replicate (n + 1) 'x' ++ more := by
  rw [List.rdropWhile, List.reverse_append, List.dropWhile_append]
  split
  · refine ⟨[], ?_⟩
    rw [List.reverse_replicate, List.replicate_succ, List.dropWhile_cons_of_neg (by decide),
      ← List.replicate_succ, List.reverse_replicate, List.append_nil]
  · exact ⟨_, by rw [List.reverse_append, List.reverse_reverse]⟩

theorem takeChars_xs (n : Nat) (cs : List Char) :
    takeChars n (List.replicate n 'x' ++ cs) = List.replicate n 'x' := by
  induction n with
  | zero =>
    cases cs with
    | nil => rfl
    | cons c cs =>
      refine if_neg fun hle => ?_
      unfold width at hle
      split at hle <;> omega
  | succ n ih =>
    rw [List.replicate_succ, List.cons_append, takeChars]
    exact congrArg _ ih

theorem verifierId_xs (parts : List String) : verifierId (xs 128 :: parts) = xs 128 := by
  have hjoin : ∃ more, (":".intercalate (xs 128 :: parts)).toList =
      List.replicate 128 'x' ++ more := by
    cases parts with
    | nil => exact ⟨[], by simp [xs]⟩
    | cons part parts =>
      refine ⟨":".toList ++ (":".intercalate (part :: parts)).toList, ?_⟩
      rw [String.intercalate_cons_cons, String.toList_append, String.toList_append, xs,
        String.toList_ofList, List.append_assoc]
  obtain ⟨more, hmore⟩ := hjoin
  have hmap : (List.replicate 128 'x').map (fun c => if isVerifierIdChar c then c else '_') =
      List.replicate 128 'x' := by
    rw [List.map_replicate]
    rfl
  unfold verifierId
  dsimp only
  rw [hmore, List.map_append, hmap, collapseUnderscores_xs, List.replicate_succ,
    List.cons_append, List.dropWhile_cons_of_neg (by decide), ← List.cons_append,
    ← List.replicate_succ]
  obtain ⟨rest, hrest⟩ := rdropWhile_xs 127 _
  rw [hrest, if_neg (by simp), take, String.toList_ofList, takeChars_xs]
  rfl

def webConstraint : ServiceLifecycleConstraintV1 where
  label := "web"
  revalidateFromFreshShell := true
  healthChecks := ["a", "b"]

/-- Two health checks behind one long state id. -/
def longPacket : ExecutionPacketV1 where
  stateId := xs 128
  serviceLifecycleConstraints := [webConstraint]

/-- A health check of a packet with short texts makes a request. -/
theorem healthCheckRequest_parse {packet : ExecutionPacketV1}
    {constraint : ServiceLifecycleConstraintV1} {i j : Nat} {command id : String}
    (hstate : length packet.stateId ≤ 128) (hrefs : packet.evidenceRefs = [])
    (hlabel : length constraint.label ≤ 128) (hendpoint : constraint.endpoint = none)
    (hid : trimmed (some 128) (verifierId
      [packet.stateId, constraint.label, toString i, toString j]) = some id)
    (hcommand : trimmed (some 4096) command = some command) :
    ∃ r, (healthCheckRequest packet {} constraint i command j).parse = some r ∧
      r.verifierId = id ∧
      r.freshShell = (constraint.revalidateFromFreshShell || constraint.mustSurviveAgentExit) := by
  have hlist : ∃ refs, stringList (healthCheckRequest packet {} constraint i command
      j).evidenceRefs = some refs := by
    unfold healthCheckRequest
    dsimp only
    refine stringList_uniqueStrings fun ref href => ?_
    rw [hendpoint, hrefs] at href
    simp only [List.cons_append, List.nil_append, List.mem_cons, List.append_nil,
      List.not_mem_nil, or_false] at href
    rcases href with rfl | rfl | rfl
    · have hhead : length "execution_packet:" = 17 := by decide
      rw [length_append]
      omega
    · have hhead : length "service_lifecycle:" = 18 := by decide
      rw [length_append]
      omega
    · rw [length_empty]
      omega
  obtain ⟨refs, hlist⟩ := hlist
  exact ⟨{ healthCheckRequest packet {} constraint i command j with
      verifierId := id, evidenceRefs := refs },
    RuntimeVerificationRequestV1.parse_eq_some.2
      ⟨hid, hcommand, rfl, show 0 < 30000 ∧ 30000 ≤ 300000 by decide, hlist, rfl⟩, rfl, rfl⟩

theorem longPacket_request (j : Nat) {command : String}
    (hcommand : trimmed (some 4096) command = some command) :
    ∃ r, (healthCheckRequest longPacket {} webConstraint 0 command j).parse = some r ∧
      r.verifierId = xs 128 ∧ r.freshShell = true := by
  have hid : trimmed (some 128) (xs 128) = some (xs 128) := by
    refine trimmed_eq_some.2 ⟨(xs_trimmed 128).symm, fun hempty => ?_, fun m hm => ?_⟩
    · have hlength := xs_length 128
      rw [show xs 128 = "" from hempty, length_empty] at hlength
      omega
    · obtain rfl := Option.some.inj hm
      exact (xs_length 128).le
  have hcut := verifierId_xs [webConstraint.label, toString 0, toString j]
  exact @healthCheckRequest_parse longPacket webConstraint 0 j command (xs 128)
    (xs_length 128).le rfl (by decide) rfl ((congrArg _ hcut).trans hid) hcommand

/-- The second health check never ran, and the evidence says that its fresh shell passed. -/
theorem shared_id_untruthful : ∃ requests,
    buildRuntimeVerificationRequestsFromPacketV1 longPacket {} = some requests ∧
    ∃ results answers e, AnswersFor requests results answers ∧
      buildRuntimeVerifierAggregateExecutionEvidenceV1 requests results false [] =
        some (some e) ∧ ¬ Truthful e answers := by
  obtain ⟨r₀, hr₀, hid₀, hfresh₀⟩ :=
    longPacket_request 0 (show trimmed (some 4096) "a" = some "a" by decide)
  obtain ⟨r₁, hr₁, hid₁, -⟩ :=
    longPacket_request 1 (show trimmed (some 4096) "b" = some "b" by decide)
  have hbuilt : buildRuntimeVerificationRequestsFromPacketV1 longPacket {} = some [r₀, r₁] :=
    mapM_eq_some.2 (.cons hr₀ (.cons hr₁ .nil))
  exact ⟨_, hbuilt, @exists_untruthful _ (built_parse hbuilt).1 [] _ _ _ rfl hfresh₀
    List.mem_cons_self (hid₁.trans hid₀.symm)⟩

/-- One health check and one pending validation. -/
def webPacket : ExecutionPacketV1 where
  stateId := "s"
  serviceLifecycleConstraints :=
    [{ label := "web", mustSurviveAgentExit := true, healthChecks := ["a"] }]
  pendingValidations := ["b"]

theorem aggregate_truthful_iff_web : ∃ requests,
    buildRuntimeVerificationRequestsFromPacketV1 webPacket {} = some requests ∧
    ((∀ results answers claimed reasons e, AnswersFor requests results answers →
      buildRuntimeVerifierAggregateExecutionEvidenceV1 requests results claimed reasons =
        some (some e) →
      Truthful e answers) ↔ OwnIds requests) := by
  have hsome : (buildRuntimeVerificationRequestsFromPacketV1 webPacket {}).isSome = true := by
    decide +kernel
  obtain ⟨requests, hbuilt⟩ := Option.isSome_iff_exists.1 hsome
  exact ⟨requests, hbuilt, aggregate_truthful_iff hbuilt⟩

end AionisCore.Execution
