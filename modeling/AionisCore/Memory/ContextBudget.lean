import AionisCore.Memory.Context
import Mathlib.Algebra.Order.Floor.Ring

/-!
# The budget of a context

The lines of a context are dropped in an order: the highest importance value first, and of one
value as they were added. What is dropped is the shortest beginning of this order that makes the
text fit, or all but one line. The details of an item go before its head.
-/

namespace AionisCore.Memory

open Lib Lib.JsString Store Util

/-! ## The order -/

theorem removable_perm (lines : List PlacedLine) : (removable lines).Perm lines := by
  refine (List.mergeSort_perm _ _).trans (List.perm_iff_count.2 fun line => ?_)
  simp only [sectionOrder, List.flatMap_cons, List.flatMap_nil, List.append_nil,
    List.count_append]
  have hcount : ∀ s, (lines.filter (·.1.sectionId = s)).count line =
      if line.1.sectionId = s then lines.count line else 0 := by
    intro s
    split
    · next hs => exact List.count_filter (by simpa using hs)
    · next hs =>
      refine List.count_eq_zero_of_not_mem fun hmem => hs ?_
      simpa using (List.mem_filter.1 hmem).2
  rw [hcount, hcount, hcount, hcount]
  cases line.1.sectionId <;> simp

theorem removable_sorted (lines : List PlacedLine) :
    (removable lines).Pairwise fun a b => b.1.importance ≤ a.1.importance := by
  have h := @List.pairwise_mergeSort PlacedLine
    (fun a b => decide (b.1.importance ≤ a.1.importance)) (by simp; omega) (by simp; omega)
    (sectionOrder.flatMap fun s => lines.filter (·.1.sectionId = s))
  exact h.imp fun hab => by simpa using hab

/-! ## The loop -/

/-- What the loop knows after it has dropped some lines. -/
def Compacting.after (lines dropped : List PlacedLine) : Compacting where
  inactive := dropped
  activeCount := lines.length - dropped.length
  droppedLines := dropped.length
  droppedBySection s := dropped.countP (·.1.sectionId = s)
  text := renderText (activeLines lines dropped)

theorem start_eq (lines : List PlacedLine) : Compacting.start lines = .after lines [] := by
  unfold Compacting.start Compacting.after activeLines
  simp

variable {lines dropped : List PlacedLine}

theorem drop_after {line : PlacedLine} (h : line ∉ dropped) :
    (Compacting.after lines dropped).drop lines line = .after lines (dropped ++ [line]) := by
  unfold Compacting.drop
  rw [if_neg (by exact h)]
  simp only [Compacting.after, List.length_append, List.length_singleton, List.countP_append,
    List.countP_singleton, Compacting.mk.injEq, true_and, and_true]
  refine ⟨by omega, funext fun s => ?_⟩
  by_cases hs : s = line.1.sectionId
  · simp [hs]
  · simp [hs, Ne.symm hs]

theorem foldl_drop (h : dropped.Nodup) :
    dropped.foldl (Compacting.drop lines) (Compacting.start lines) = .after lines dropped := by
  induction dropped using List.reverseRecOn with
  | nil => exact start_eq lines
  | append_singleton dropped line ih =>
    have hnodup := List.nodup_append.1 h
    have hline : line ∉ dropped := fun hmem => hnodup.2.2 _ hmem _ (List.mem_singleton.2 rfl) rfl
    rw [List.foldl_append, ih hnodup.1]
    exact drop_after hline

theorem stop_after {budget : Nat} {line : PlacedLine} :
    (Compacting.after lines dropped).stop budget line = true ↔
      length (renderText (activeLines lines dropped)) ≤ budget ∨
        line ∉ dropped ∧ lines.length - dropped.length ≤ 1 := by
  unfold Compacting.stop Compacting.after
  simp only [Bool.or_eq_true, Bool.and_eq_true, decide_eq_true_eq, Bool.not_eq_true',
    decide_not, decide_eq_false_iff_not]

theorem length_activeLines {rest : List PlacedLine} (hperm : (dropped ++ rest).Perm lines)
    (hnodup : lines.Nodup) : (activeLines lines dropped).length = rest.length := by
  have hsplit := List.nodup_append.1 (hperm.nodup_iff.2 hnodup)
  unfold activeLines
  rw [List.length_map, ← (hperm.filter (· ∉ dropped)).length_eq, List.filter_append]
  have hdropped : dropped.filter (· ∉ dropped) = [] := by simp
  have hrest : rest.filter (· ∉ dropped) = rest :=
    List.filter_eq_self.2 fun line hline => by
      simpa using fun hmem => hsplit.2.2 _ hmem _ hline rfl
  rw [hdropped, hrest, List.nil_append]

/-- `dropped` is what a budget asks for. -/
structure Dropped (budget : Nat) (lines dropped : List PlacedLine) : Prop where
  ahead : dropped <+: removable lines
  fits : length (renderText (activeLines lines dropped)) ≤ budget ∨
    (activeLines lines dropped).length = 1
  shortest : ∀ fewer, fewer <+: dropped → fewer ≠ dropped →
    budget < length (renderText (activeLines lines fewer))

theorem compactLines_dropped (budget : Nat) (hnodup : lines.Nodup) :
    ∃ dropped, compactLines (some budget) lines = .after lines dropped ∧
      Dropped budget lines dropped := by
  unfold compactLines
  simp only
  split
  · next hlong =>
    obtain ⟨dropped, rest, horder, heq, hstops⟩ := foldUntil_stops (Compacting.stop budget)
      (Compacting.drop lines) (Compacting.start lines) (removable lines)
    have hperm : (dropped ++ rest).Perm lines := horder ▸ removable_perm lines
    have hnodup' := hperm.nodup_iff.2 hnodup
    have hdropped := (List.nodup_append.1 hnodup').1
    have hlength := hperm.length_eq
    rw [List.length_append] at hlength
    rw [heq, foldl_drop hdropped]
    refine ⟨dropped, rfl, ⟨rest, horder.symm⟩, ?_, ?_⟩
    · rw [length_activeLines hperm hnodup]
      cases hrest : rest with
      | cons line rest' =>
        have hstop := hstops.stopped line (by rw [hrest]; rfl)
        rw [foldl_drop hdropped, stop_after] at hstop
        refine hstop.imp id fun hlast => ?_
        have hcount := hlast.2
        rw [hrest, List.length_cons] at hlength
        rw [List.length_cons]
        omega
      | nil =>
        -- all lines were dropped, which the count of active lines does not let happen
        exfalso
        rw [hrest, List.append_nil] at hnodup'
        rcases List.eq_nil_or_concat dropped with rfl | ⟨before, line, rfl⟩
        · rw [hrest] at hlength
          obtain rfl := List.eq_nil_of_length_eq_zero hlength.symm
          exact absurd hlong (Nat.not_lt_zero _)
        · rw [List.concat_eq_append] at hdropped hlength hstops
          have hbefore := List.nodup_append.1 hdropped
          have hwent := hstops.went before line [] rfl
          rw [foldl_drop hbefore.1, Bool.eq_false_iff, ne_eq, stop_after, not_or] at hwent
          have hline : line ∉ before :=
            fun hmem => hbefore.2.2 _ hmem _ (List.mem_singleton.2 rfl) rfl
          refine hwent.2 ⟨hline, ?_⟩
          rw [hrest, List.length_append, List.length_singleton, List.length_nil] at hlength
          omega
    · rintro fewer ⟨after, rfl⟩ hne
      cases after with
      | nil => exact absurd (List.append_nil _).symm hne
      | cons line after =>
        have hwent := hstops.went fewer line after rfl
        rw [foldl_drop (List.nodup_append.1 hdropped).1, Bool.eq_false_iff, ne_eq, stop_after,
          not_or] at hwent
        exact Nat.not_le.1 hwent.1
  · next hshort =>
    rw [start_eq]
    rw [start_eq] at hshort
    refine ⟨[], rfl, List.nil_prefix, .inl (Nat.not_lt.1 hshort), ?_⟩
    intro fewer hfewer hne
    exact absurd (List.prefix_nil.1 hfewer) hne

/-! ## Heads and details -/

section Items

variable {env : ContextEnv} {ranked : List RankedNode} {nodes : OrderedMap String RecallNodeRow}
  {ruleDefs : OrderedMap String RecallRuleDefRow} {options : ContextBuildOptions}

/-- The first line of an item has the least importance value of its lines. -/
def HeadFirst (item : List SectionLine) : Prop :=
  ∀ head details, item = head :: details → ∀ line ∈ details, head.importance < line.importance

theorem headFirst_singleton (line : SectionLine) : HeadFirst [line] := by
  intro head details h line hline
  obtain ⟨-, rfl⟩ := List.cons.inj h
  cases hline

theorem topicLines_headFirst (n : RecallNodeRow) : HeadFirst (topicLines env options n) := by
  unfold topicLines
  split
  · intro head details h line hline
    obtain ⟨rfl, rfl⟩ := List.cons.inj h
    obtain ⟨id, -, rfl⟩ := List.mem_map.1 hline
    simp only [sectionLine]
    omega
  · split
    · exact headFirst_singleton _
    · exact headFirst_singleton _

theorem ruleLines_headFirst (n : RecallNodeRow) :
    HeadFirst (ruleLines env options ruleDefs n) := by
  intro head details h line hline
  simp only [ruleLines] at h
  obtain ⟨rfl, rfl⟩ := List.cons.inj h
  have himportance : line.importance =
      80 + (compactionPolicy options).sectionImportanceBias .rules := by
    rcases List.mem_append.1 hline with hif | hthen
    · split at hif
      · rw [List.mem_singleton.1 hif]
        rfl
      · cases hif
    · split at hthen
      · rw [List.mem_singleton.1 hthen]
        rfl
      · cases hthen
  rw [himportance]
  simp only [sectionLine]
  omega

theorem contextLines_headFirst {item : List SectionLine}
    (h : item ∈ contextLines env ranked nodes ruleDefs options) : HeadFirst item := by
  unfold contextLines at h
  simp only [List.mem_append, List.mem_map] at h
  obtain ((⟨n, -, rfl⟩ | ⟨n, -, rfl⟩) | ⟨n, -, rfl⟩) | ⟨n, -, rfl⟩ := h
  · exact topicLines_headFirst n
  · exact headFirst_singleton _
  · exact headFirst_singleton _
  · exact ruleLines_headFirst n

/-- What a beginning of the order leaves is no more important than what it takes. -/
theorem Dropped.kept_le {budget : Nat} {lines dropped : List PlacedLine}
    (h : Dropped budget lines dropped) {kept line : PlacedLine} (hkept : kept ∈ lines)
    (hnot : kept ∉ dropped) (hline : line ∈ dropped) :
    kept.1.importance ≤ line.1.importance := by
  obtain ⟨rest, horder⟩ := h.ahead
  have hsorted := removable_sorted lines
  rw [← horder] at hsorted
  have hmem := (removable_perm lines).mem_iff.2 hkept
  rw [← horder, List.mem_append] at hmem
  exact (List.pairwise_append.1 hsorted).2.2 line hline kept (hmem.resolve_left hnot)

/-- No detail outlives its head. -/
theorem Dropped.details {budget : Nat} {items before after : List (List SectionLine)}
    {dropped : List PlacedLine} {head : SectionLine} {details : List SectionLine}
    (h : Dropped budget items.flatten.zipIdx dropped) (hfirst : ∀ item ∈ items, HeadFirst item)
    (hitems : items = before ++ (head :: details) :: after)
    (hhead : (head, before.flatten.length) ∈ dropped) {line : PlacedLine}
    (hline : line ∈ details.zipIdx (before.flatten.length + 1)) : line ∈ dropped := by
  by_contra hnot
  have hlines : line ∈ items.flatten.zipIdx := by
    rw [hitems, List.flatten_append, List.flatten_cons, List.zipIdx_append, List.mem_append,
      List.zipIdx_append, List.mem_append, List.zipIdx_cons, Nat.zero_add]
    exact .inr (.inl (List.mem_cons_of_mem _ hline))
  have hle := h.kept_le hlines hnot hhead
  have hdetail : line.1 ∈ details := List.fst_mem_of_mem_zipIdx hline
  have hlt := hfirst (head :: details) (by rw [hitems]; simp) head details rfl line.1 hdetail
  exact absurd hlt (Nat.not_lt.2 hle)

/-! ## The budget of the options -/

/-- The budget in characters that options set; the one in tokens counts where there is none. -/
inductive HasBudget (options : ContextBuildOptions) : ℚ → Prop
  | chars {b : ℚ} (hb : options.contextCharBudget = some (.finite b)) (hpos : 0 < b) :
    HasBudget options b
  | tokens {t : ℚ} (hchars : ∀ b, options.contextCharBudget = some (.finite b) → b ≤ 0)
    (ht : options.contextTokenBudget = some (.finite t)) (hpos : 0 < t) :
    HasBudget options (4 * max 1 ⌊t⌋)

theorem le_max_floor {b : ℚ} (m : Nat) : m ≤ max 160 ⌊b⌋.toNat ↔ (m : ℚ) ≤ max 160 b := by
  have h160 : m ≤ 160 ↔ (m : ℚ) ≤ 160 := by norm_cast
  rw [le_max_iff, le_max_iff, h160]
  by_cases hm : m = 0
  · subst hm
    simp
  · have hfloor : m ≤ ⌊b⌋.toNat ↔ (m : ℚ) ≤ b := by
      have hint : ((m : ℤ) : ℚ) ≤ b ↔ (m : ℤ) ≤ ⌊b⌋ := Int.le_floor.symm
      rw [Int.cast_natCast] at hint
      rw [hint]
      omega
    rw [hfloor]

theorem resolveContextCharBudget_of {b : ℚ} (h : HasBudget options b) :
    ∃ n, resolveContextCharBudget options = some n ∧ ∀ m : Nat, m ≤ n ↔ (m : ℚ) ≤ max 160 b := by
  cases h with
  | chars hb hpos =>
    refine ⟨max 160 ⌊b⌋.toNat, ?_, le_max_floor⟩
    simp only [resolveContextCharBudget, hb, if_pos hpos]
  | @tokens t hchars ht hpos =>
    have htokens : resolveContextTokenBudget options = some (max 1 ⌊t⌋.toNat) := by
      simp only [resolveContextTokenBudget, ht, if_pos hpos]
    refine ⟨max 160 (max 1 ⌊t⌋.toNat * 4), ?_, fun m => ?_⟩
    · unfold resolveContextCharBudget
      rw [htokens]
      simp only
      split
      · next x hx => rw [if_neg (not_lt.2 (hchars x hx))]; rfl
      · rfl
    · have hfloor : (0 : ℤ) ≤ ⌊t⌋ := Int.floor_nonneg.2 hpos.le
      have hcast : ((max 1 ⌊t⌋.toNat * 4 : ℕ) : ℤ) = 4 * max 1 ⌊t⌋ := by omega
      have hq : ((max 1 ⌊t⌋.toNat * 4 : ℕ) : ℚ) = 4 * ((max 1 ⌊t⌋ : ℤ) : ℚ) := by
        exact_mod_cast hcast
      rw [← hq, le_max_iff, le_max_iff, Nat.cast_le]
      norm_cast

/-! ## The text and its diagnostics -/

/-- What a budget of `b` characters makes of the lines of the items: `order` ranks all lines, and
the lines of its beginning `dropped` are left out. -/
structure WithinBudget (b : ℚ) (items : List (List SectionLine)) (order dropped : List PlacedLine)
    (out : BuiltContext) : Prop where
  all : order.Perm items.flatten.zipIdx
  ranked : order.Pairwise fun x y => y.1.importance ≤ x.1.importance
  ahead : dropped <+: order
  text : out.text = renderText (activeLines items.flatten.zipIdx dropped)
  fits : (length out.text : ℚ) ≤ max 160 b ∨ (activeLines items.flatten.zipIdx dropped).length = 1
  shortest : ∀ fewer, fewer <+: dropped → fewer ≠ dropped →
    max 160 b < length (renderText (activeLines items.flatten.zipIdx fewer))
  kept_le : ∀ kept ∈ items.flatten.zipIdx, kept ∉ dropped → ∀ line ∈ dropped,
    kept.1.importance ≤ line.1.importance
  details : ∀ before after head details, items = before ++ (head :: details) :: after →
    (head, before.flatten.length) ∈ dropped →
      ∀ line ∈ details.zipIdx (before.flatten.length + 1), line ∈ dropped
  droppedLines : out.compaction.droppedLines = dropped.length
  droppedBySection : ∀ s, out.compaction.droppedBySection s =
    dropped.countP fun line => line.1.sectionId = s
  beforeChars : out.compaction.beforeChars = length (renderText items.flatten)
  afterChars : out.compaction.afterChars = length out.text

theorem buildContext_text {out : BuiltContext}
    (h : buildContext env ranked nodes ruleDefs options = .ok out) :
    let lines := (contextLines env ranked nodes ruleDefs options).flatten
    let compacted := compactLines (resolveContextCharBudget options) lines.zipIdx
    out.text = compacted.text ∧
      out.compaction = compactionDiagnostics options (renderText lines) compacted := by
  unfold buildContext at h
  obtain ⟨_, -, h⟩ := bind_eq_ok.1 h
  obtain ⟨_, -, h⟩ := bind_eq_ok.1 h
  obtain ⟨_, -, h⟩ := bind_eq_ok.1 h
  obtain ⟨_, -, h⟩ := bind_eq_ok.1 h
  cases h
  exact ⟨rfl, rfl⟩

/-- The context under a budget. -/
theorem buildContext_withinBudget {b : ℚ} {out : BuiltContext} (hb : HasBudget options b)
    (h : buildContext env ranked nodes ruleDefs options = .ok out) :
    ∃ order dropped,
      WithinBudget b (contextLines env ranked nodes ruleDefs options) order dropped out := by
  obtain ⟨htext, hdiagnostics⟩ := buildContext_text h
  obtain ⟨budget, hbudget, hle⟩ := resolveContextCharBudget_of hb
  rw [hbudget] at htext hdiagnostics
  generalize hitems : contextLines env ranked nodes ruleDefs options = items at *
  have hnodup : items.flatten.zipIdx.Nodup :=
    List.Nodup.of_map Prod.snd (by rw [List.zipIdx_map_snd]; exact List.nodup_range')
  obtain ⟨dropped, hafter, hdropped⟩ := compactLines_dropped budget hnodup
  rw [hafter] at htext hdiagnostics
  refine ⟨removable items.flatten.zipIdx, dropped, ?_⟩
  exact {
    all := removable_perm _
    ranked := removable_sorted _
    ahead := hdropped.ahead
    text := htext
    fits := hdropped.fits.imp (fun hfits => (hle _).1 (htext ▸ hfits)) id
    shortest := fun fewer hfewer hne => lt_of_not_ge fun hlong =>
      Nat.not_le.2 (hdropped.shortest fewer hfewer hne) ((hle _).2 hlong)
    kept_le := fun kept hkept hnot line hline => hdropped.kept_le hkept hnot hline
    details := fun before after head details hsplit hhead line hline =>
      hdropped.details (fun item hitem => contextLines_headFirst (hitems ▸ hitem)) hsplit hhead
        hline
    droppedLines := by rw [hdiagnostics]; rfl
    droppedBySection := fun s => by rw [hdiagnostics]; rfl
    beforeChars := by rw [hdiagnostics]; rfl
    afterChars := by rw [hdiagnostics, htext]; rfl }

/-! ## Contexts that are built -/

/-- A node whose URIs can be written. -/
structure UriSafe (options : ContextBuildOptions) (n : RecallNodeRow) : Prop where
  node : ∃ uri, buildNodeUri options n = .ok uri
  commit : ∃ uri, buildCommitUri options n.commitId = .ok uri

variable {n : RecallNodeRow}

theorem uriSafe_of_isUuid (hid : isUuid n.id = true)
    (hcommit : ∀ c, n.commitId = some c → isUuid c = true) : UriSafe options n := by
  have hplace : ∀ tenantId scope, uriPlace options = some (tenantId, scope) →
      Plain tenantId ∧ Plain scope := by
    intro tenantId scope h
    unfold uriPlace at h
    simp only at h
    split at h
    · cases h
    · next hne =>
      rw [not_or] at hne
      cases h
      exact ⟨⟨trimmed_trim _, hne.1⟩, trimmed_trim _, hne.2⟩
  have htypes : ∀ type ∈ AIONIS_URI_NODE_TYPES, Plain type ∧ type ∈ AIONIS_URI_OBJECT_TYPES := by
    decide
  refine ⟨?_, ?_⟩
  · unfold buildNodeUri
    split
    · exact ⟨_, rfl⟩
    · next tenantId scope hsome =>
      obtain ⟨htenant, hscope⟩ := hplace tenantId scope hsome
      split
      · next htype =>
        obtain ⟨hplain, hknown⟩ := htypes n.type htype
        obtain ⟨uri, huri⟩ := @buildAionisUri_ok ⟨tenantId, scope, n.type, n.id⟩ htenant hscope
          hplain hknown hid
        exact ⟨some uri, by rw [huri]; rfl⟩
      · exact ⟨_, rfl⟩
  · unfold buildCommitUri
    split
    · exact ⟨_, rfl⟩
    · next tenantId scope hsome =>
      obtain ⟨htenant, hscope⟩ := hplace tenantId scope hsome
      simp only
      cases hc : n.commitId with
      | none => exact ⟨none, rfl⟩
      | some c =>
        have huuid := hcommit c hc
        rw [Option.getD_some, (plain_of_isUuid huuid).1, if_neg (plain_of_isUuid huuid).2]
        have hplain : Plain "commit" := by decide
        have hknown : "commit" ∈ AIONIS_URI_OBJECT_TYPES := by decide
        obtain ⟨uri, huri⟩ := @buildAionisUri_ok ⟨tenantId, scope, "commit", c⟩ htenant hscope
          hplain hknown huuid
        exact ⟨some uri, by rw [huri]; rfl⟩

theorem foldlM_pushItem_ok (env : ContextEnv)
    (item : RecallNodeRow → Option String → ContextItem) {ns : List RecallNodeRow}
    (hsafe : ∀ n ∈ ns, UriSafe options n) (out : List ContextItem × List ContextCitation) :
    ∃ out', ns.foldlM (pushItem env options item) out = .ok out' := by
  induction ns generalizing out with
  | nil => exact ⟨out, rfl⟩
  | cons n ns ih =>
    obtain ⟨⟨hhead, hcommit⟩, htail⟩ := List.forall_mem_cons.1 hsafe
    obtain ⟨uri, huri⟩ := hhead
    obtain ⟨commitUri, hcommitUri⟩ := hcommit
    have hcitations : ∃ citations, pushCitation env options out.2 n = .ok citations := by
      unfold pushCitation
      rw [huri, hcommitUri]
      split
      · exact ⟨_, rfl⟩
      · exact ⟨_, rfl⟩
    obtain ⟨citations, hcitations⟩ := hcitations
    have hpush : pushItem env options item out n = .ok (out.1 ++ [item n uri], citations) := by
      unfold pushItem
      rw [huri, hcitations]
      rfl
    rw [List.foldlM_cons, hpush]
    exact ih htail _

theorem mem_sortByLayer {policy : Option MemoryLayerPolicy} {ns : List RecallNodeRow} :
    n ∈ sortByLayer policy ns ↔ n ∈ ns := by
  cases policy with
  | none => exact Iff.rfl
  | some p => exact List.mem_mergeSort

theorem mem_pickTop {types : List String} {limit : Nat} {policy : Option MemoryLayerPolicy}
    (h : n ∈ pickTop ranked nodes types limit policy) :
    n.type ∈ types ∧ ∃ r ∈ ranked, nodes.get r.id = some n := by
  have h := (List.mem_filter.1 (mem_sortByLayer.1 (List.mem_of_mem_take h))).1
  obtain ⟨r, hr, hget⟩ := List.mem_filterMap.1 h
  rw [Option.filter_eq_some_iff, Bool.and_eq_true, decide_eq_true_eq] at hget
  exact ⟨hget.2.1, r, hr, hget.1⟩

theorem mem_contextEvents (h : n ∈ contextEvents ranked nodes options) :
    ∃ limit, n ∈ pickTop ranked nodes ["event", "evidence"] limit options.layerPolicy := by
  refine ⟨if hasSummaryFirstNode ranked nodes options then 24 else 10, ?_⟩
  unfold contextEvents at h
  simp only at h
  have hbase : n ∈ (if hasSummaryFirstNode ranked nodes options then
      ((pickTop ranked nodes ["event", "evidence"]
        (if hasSummaryFirstNode ranked nodes options then 24 else 10)
          options.layerPolicy).filter (·.id ∉ compressionCited ranked nodes options)).take 5
      else (pickTop ranked nodes ["event", "evidence"]
        (if hasSummaryFirstNode ranked nodes options then 24 else 10)
          options.layerPolicy).take 10) := by
    split at h
    · exact List.mem_of_mem_take h
    · exact h
  by_cases hfirst : hasSummaryFirstNode ranked nodes options = true
  · rw [if_pos hfirst] at hbase
    exact (List.mem_filter.1 (List.mem_of_mem_take hbase)).1
  · rw [if_neg hfirst] at hbase
    exact List.mem_of_mem_take hbase

/-- Nothing is refused where the ids of nodes and commits are those that URIs take. -/
theorem buildContext_ok (hsafe : ∀ id n, nodes.get id = some n → UriSafe options n) :
    ∃ out, buildContext env ranked nodes ruleDefs options = .ok out := by
  have hpicked : ∀ {types limit policy} (n : RecallNodeRow),
      n ∈ pickTop ranked nodes types limit policy → UriSafe options n := by
    intro types limit policy n hn
    obtain ⟨-, r, -, hget⟩ := mem_pickTop hn
    exact hsafe r.id n hget
  have htopics : ∀ n ∈ contextTopics ranked nodes options, UriSafe options n :=
    fun n hn => hpicked n (List.mem_mergeSort.1 hn)
  have hevents : ∀ n ∈ contextEvents ranked nodes options, UriSafe options n :=
    fun n hn => (mem_contextEvents hn).elim fun _ => hpicked n
  have hentities : ∀ n ∈ contextEntities ranked nodes options, UriSafe options n := hpicked
  have hrules : ∀ n ∈ contextRules ranked nodes options, UriSafe options n := hpicked
  obtain ⟨out₁, h₁⟩ := foldlM_pushItem_ok env (topicItem env) htopics ([], [])
  obtain ⟨out₂, h₂⟩ := foldlM_pushItem_ok env (entityItem env) hentities out₁
  obtain ⟨out₃, h₃⟩ := foldlM_pushItem_ok env (eventItem env) hevents out₂
  obtain ⟨out₄, h₄⟩ := foldlM_pushItem_ok env (ruleItem env ruleDefs) hrules out₃
  exact ⟨_, bind_eq_ok.2 ⟨out₁, h₁, bind_eq_ok.2 ⟨out₂, h₂, bind_eq_ok.2 ⟨out₃, h₃,
    bind_eq_ok.2 ⟨out₄, h₄, rfl⟩⟩⟩⟩⟩

end Items

def sampleContextEnv : ContextEnv where
  toNumber _ := none
  parseDate _ := none
  deriveExecutionContractFromSlots _ _ := none
  text
    | .str s => s
    | _ => ""
  numberText
    | .num q => toString q.num
    | _ => "NaN"
  countText q := (q.map (toString ·.num)).getD "null"
  stringify
    | .bool b => toString b
    | _ => "null"
  localeCompare s t := if s = t then 0 else if s < t then -1 else 1

def sampleRecallNode (id type : String) (textSummary : Option String) (slots : Json.Fields) :
    RecallNodeRow where
  id := id
  scope := "default"
  type := type
  tier := "hot"
  memoryLane := .sharedLane
  producerAgentId := none
  ownerAgentId := none
  ownerTeamId := none
  title := none
  textSummary := textSummary
  slots := some slots
  embeddingStatus := .ready
  embeddingModel := none
  topicState := none
  memberCount := none
  rawRef := none
  evidenceRef := none
  salience := 1 / 2
  importance := 1 / 2
  confidence := 1 / 2
  createdAt := ""
  updatedAt := ""
  commitId := none

def sampleContextNodes : OrderedMap String RecallNodeRow :=
  .ofValues (·.id) [
    sampleRecallNode "c1" "concept" none [("summary_kind", .str "compression_rollup"),
      ("citations", .arr [.str "e1", .str "e2"])],
    sampleRecallNode "r1" "rule" (some (String.ofList (List.replicate 170 'a')))
      [("if", .bool true)]]

theorem buildContext_withinBudget_rule :
    let ranked := [⟨"c1", 1, 1⟩, ⟨"r1", 1, 1 / 2⟩]
    let options : ContextBuildOptions := { contextCharBudget := some (.finite 5) }
    ∃ out order dropped,
      buildContext sampleContextEnv ranked sampleContextNodes .empty options = .ok out ∧
        WithinBudget 5 (contextLines sampleContextEnv ranked sampleContextNodes .empty options)
          order dropped out := by
  intro ranked options
  have hok : ∃ out, buildContext sampleContextEnv ranked sampleContextNodes .empty options =
      .ok out := buildContext_ok fun _ n _ => ⟨⟨none, rfl⟩, none, rfl⟩
  obtain ⟨out, hout⟩ := hok
  obtain ⟨order, dropped, h⟩ := buildContext_withinBudget (.chars rfl (by norm_num)) hout
  exact ⟨out, order, dropped, hout, h⟩

end AionisCore.Memory
