import AionisCore.Store.SnapshotRestore
import Mathlib.Data.List.Find

/-!
# The decision that feedback is about

Feedback without the id of a decision is given to the newest decision that fits it. The Lite
store, the embedded runtime and Postgres each look it up. They answer alike if the Lite store
neither cuts the decision off nor finds one that is too old.
-/

namespace AionisCore.Store

open Lib Lib.JsString Lib.StableSort Memory

/-- A row of decisions, which has the same columns in all stores. -/
abbrev ExecutionDecisionRow := EmbeddedDecision

/-- What a lookup is asked for. -/
structure FeedbackDecisionArgs where
  scope : String
  runId : Option String
  selectedTool : String
  candidatesJson : List String
  contextSha256 : String

section Rows

variable (args : FeedbackDecisionArgs) (d : ExecutionDecisionRow)

/-- What the statement of the Lite store selects. -/
def comparable : Bool :=
  d.scope = args.scope ∧ d.selectedTool = some args.selectedTool ∧
    d.contextSha256 = args.contextSha256

def fits : Bool := comparable args d ∧ d.candidatesJson = args.candidatesJson

/-- Of the run that is asked for, if one is. -/
def ofRun : Bool := (given args.runId).all fun runId => d.runId = some runId

end Rows

/-! ## The lookups -/

/-- `ORDER BY created_at DESC, id DESC`. -/
def createdDesc : ExecutionDecisionRow → ExecutionDecisionRow → Bool :=
  lex (fun a b => b.createdAt ≤ a.createdAt) fun a b => b.id ≤ a.id

/-- The texts of candidates are equal when the candidates are. -/
def findExecutionDecisionForFeedback (rows : List ExecutionDecisionRow)
    (args : FeedbackDecisionArgs) : Option ExecutionDecisionRow :=
  let selected := ((rows.filter (comparable args)).mergeSort createdDesc).take 50
  (selected.filter (ofRun args)).find? fun row => row.candidatesJson = args.candidatesJson

section Postgres

variable (host : EmbeddedHost)

/-- `ORDER BY created_at DESC LIMIT 1`: any one of the newest rows. -/
def NewestOf (rows : List ExecutionDecisionRow) : Option ExecutionDecisionRow → Prop
  | none => rows = []
  | some d => d ∈ rows ∧ ∀ e ∈ rows, timeOf host e.createdAt ≤ timeOf host d.createdAt

def byRun (rows : List ExecutionDecisionRow) (args : FeedbackDecisionArgs) :
    List ExecutionDecisionRow :=
  match given args.runId with
  | some runId => rows.filter fun d => d.runId = some runId ∧ fits args d
  | none => []

/-- `created_at >= now() - interval '24 hours'`. -/
def recent (nowMs : Int) (d : ExecutionDecisionRow) : Bool :=
  nowMs - 24 * 60 * 60 * 1000 ≤ timeOf host d.createdAt

def fallback (nowMs : Int) (rows : List ExecutionDecisionRow) (args : FeedbackDecisionArgs) :
    List ExecutionDecisionRow :=
  rows.filter fun d => fits args d ∧ recent host nowMs d ∧ (args.runId = none ∨ d.runId = none)

/-- The answers that `inferDecision` of Postgres may give. -/
def inferDecision (nowMs : Int) (rows : List ExecutionDecisionRow) (args : FeedbackDecisionArgs)
    (answer : Option ExecutionDecisionRow) : Prop :=
  if byRun rows args ≠ [] then NewestOf host (byRun rows args) answer
  else NewestOf host (fallback host nowMs rows args) answer

end Postgres

/-- The arguments of the embedded lookup. -/
def FeedbackDecisionArgs.embedded (args : FeedbackDecisionArgs) :
    EmbeddedRuntime.InferDecisionParams where
  scope := args.scope
  runId := args.runId
  selectedTool := some (.str args.selectedTool)
  candidatesJson := some (.arr (args.candidatesJson.map .str))
  contextSha256 := args.contextSha256
  nowUtc := none

/-- The route passes normalised names; run ids are not empty. -/
structure FeedbackDecisionArgs.Valid (args : FeedbackDecisionArgs) : Prop where
  runId : args.runId ≠ some ""
  selectedTool : Plain args.selectedTool
  candidates : ∀ c ∈ args.candidatesJson, Plain c
  distinct : args.candidatesJson.Nodup

/-! ## The Lite store -/

section Lite

variable {args : FeedbackDecisionArgs} {rows : List ExecutionDecisionRow}

theorem ranks_text : Ranks fun a b : String => decide (a ≤ b) where
  trans a b c hab hbc :=
    decide_eq_true (String.le_trans (of_decide_eq_true hab) (of_decide_eq_true hbc))
  total a b := by
    rw [Bool.or_eq_true, decide_eq_true_eq, decide_eq_true_eq]
    exact String.le_total a b

theorem ranks_createdDesc : Ranks createdDesc :=
  (ranks_text.comap EmbeddedDecision.createdAt).flip.lex (ranks_text.comap EmbeddedDecision.id).flip

theorem createdDesc_iff {a b : ExecutionDecisionRow} : createdDesc a b = true ↔
    b.createdAt ≤ a.createdAt ∧ (a.createdAt ≤ b.createdAt → b.id ≤ a.id) := by
  unfold createdDesc
  rw [(ranks_text.comap EmbeddedDecision.createdAt).flip.lex_iff]
  simp only [decide_eq_true_eq]

theorem createdDesc_antisymm (hids : (rows.map (·.id)).Nodup) {a b : ExecutionDecisionRow}
    (ha : a ∈ rows) (hb : b ∈ rows) (hab : createdDesc a b = true) (hba : createdDesc b a = true) :
    a = b := by
  rw [createdDesc_iff] at hab hba
  have hid : a.id = b.id := String.le_antisymm (hba.2 hab.1) (hab.2 hba.1)
  exact List.inj_on_of_nodup_map hids ha hb hid

/-- The rows that the statement puts before a row. -/
def aheadOf (args : FeedbackDecisionArgs) (rows : List ExecutionDecisionRow)
    (d : ExecutionDecisionRow) : Nat :=
  (rows.filter (comparable args)).countP fun e => !createdDesc d e

/-- What the Lite store looks for. -/
def wantedLite (args : FeedbackDecisionArgs) (d : ExecutionDecisionRow) : Bool :=
  fits args d && ofRun args d

theorem comparable_of_wantedLite {d : ExecutionDecisionRow} (h : wantedLite args d = true) :
    comparable args d = true :=
  (of_decide_eq_true ((Bool.and_eq_true _ _).mp h).1).1

theorem find_eq : findExecutionDecisionForFeedback rows args =
    (((rows.filter (comparable args)).mergeSort createdDesc).take 50).find? (wantedLite args) := by
  unfold findExecutionDecisionForFeedback
  simp only
  rw [List.find?_filter]
  refine List.find?_congr fun d hd => ?_
  have hd := (List.mem_filter.1 (List.mem_mergeSort.1 (List.mem_of_mem_take hd))).2
  unfold wantedLite fits
  rw [Bool.eq_iff_iff]
  simp only [Bool.and_eq_true, decide_eq_true_eq, hd, true_and]
  exact and_comm

theorem mem_take_selected (hids : (rows.map (·.id)).Nodup) {d : ExecutionDecisionRow}
    (hd : d ∈ rows) (hwanted : wantedLite args d = true) :
    d ∈ ((rows.filter (comparable args)).mergeSort createdDesc).take 50 ↔
      aheadOf args rows d < 50 := by
  have hnodup : (rows.filter (comparable args)).Nodup := (List.Nodup.of_map _ hids).filter _
  refine ranks_createdDesc.mem_take_iff hnodup (fun a ha b hb => ?_)
    (List.mem_filter.2 ⟨hd, comparable_of_wantedLite hwanted⟩)
  exact createdDesc_antisymm hids (List.mem_filter.1 ha).1 (List.mem_filter.1 hb).1

theorem find_eq_none (hids : (rows.map (·.id)).Nodup) :
    findExecutionDecisionForFeedback rows args = none ↔
      ∀ e ∈ rows, wantedLite args e = true → 50 ≤ aheadOf args rows e := by
  rw [find_eq, List.find?_eq_none]
  refine ⟨fun h e he hwanted => ?_, fun h e he hwanted => ?_⟩
  · by_contra hlt
    exact h e ((mem_take_selected hids he hwanted).2 (Nat.not_le.1 hlt)) hwanted
  · have hmem := (List.mem_filter.1 (List.mem_mergeSort.1 (List.mem_of_mem_take he))).1
    exact absurd ((mem_take_selected hids hmem hwanted).1 he) (Nat.not_lt.2 (h e hmem hwanted))

/-- The first of the wanted rows, if it is not cut off. -/
theorem find_eq_some (hids : (rows.map (·.id)).Nodup) {d : ExecutionDecisionRow} :
    findExecutionDecisionForFeedback rows args = some d ↔
      (d ∈ rows ∧ wantedLite args d = true) ∧ aheadOf args rows d < 50 ∧
        ∀ e ∈ rows, wantedLite args e = true → createdDesc d e = true := by
  have hfound : ∀ x, findExecutionDecisionForFeedback rows args = some x →
      (x ∈ rows ∧ wantedLite args x = true) ∧ aheadOf args rows x < 50 ∧
        ∀ e ∈ rows, wantedLite args e = true → createdDesc x e = true := by
    intro x hx
    rw [find_eq] at hx
    obtain ⟨hmem, hwanted, hfirst⟩ := ranks_createdDesc.find?_take_mergeSort hx
    have hrow := (List.mem_filter.1 (List.mem_mergeSort.1 (List.mem_of_mem_take hmem))).1
    exact ⟨⟨hrow, hwanted⟩, (mem_take_selected hids hrow hwanted).1 hmem, fun e he hwanted' =>
      hfirst e (List.mem_filter.2 ⟨he, comparable_of_wantedLite hwanted'⟩) hwanted'⟩
  refine ⟨hfound d, fun ⟨⟨hd, hwanted⟩, hahead, hfirst⟩ => ?_⟩
  cases hfind : findExecutionDecisionForFeedback rows args with
  | none => exact absurd ((find_eq_none hids).1 hfind d hd hwanted) (Nat.not_le.2 hahead)
  | some x =>
    obtain ⟨⟨hx, hwantedx⟩, -, hfirstx⟩ := hfound x hfind
    rw [createdDesc_antisymm hids hx hd (hfirstx d hd hwanted) (hfirst x hx hwantedx)]

end Lite

/-! ## Postgres and the embedded runtime -/

section Newest

variable {host : EmbeddedHost} {args : FeedbackDecisionArgs} {rows : List ExecutionDecisionRow}
  {nowMs : Int}

/-- The rows of which the newest is meant. -/
def wanted (host : EmbeddedHost) (nowMs : Int) (rows : List ExecutionDecisionRow)
    (args : FeedbackDecisionArgs) : List ExecutionDecisionRow :=
  if byRun rows args ≠ [] then byRun rows args else fallback host nowMs rows args

theorem inferDecision_iff {answer : Option ExecutionDecisionRow} :
    inferDecision host nowMs rows args answer ↔ NewestOf host (wanted host nowMs rows args)
      answer := by
  unfold inferDecision wanted
  split <;> exact Iff.rfl

/-- The first of the rows, newest first, is one of the newest. -/
theorem newestOf_find (hparsed : ∀ d ∈ rows, (host.dateParse d.createdAt).isSome)
    (p : ExecutionDecisionRow → Bool) :
    NewestOf host (rows.filter p) ((rows.mergeSort (decisionsDesc host)).find? p) := by
  have hsort : rows.mergeSort (decisionsDesc host) =
      (rows.mergeSort (rankedDesc host)).take rows.length := by
    rw [mergeSort_congr_on fun a ha b hb => decisionsDesc_eq (hparsed a ha) (hparsed b hb),
      List.take_of_length_le (Nat.le_of_eq (List.length_mergeSort rows))]
  rw [hsort]
  cases hfind : ((rows.mergeSort (rankedDesc host)).take rows.length).find? p with
  | none =>
    refine List.filter_eq_nil_iff.2 fun d hd => List.find?_eq_none.1 hfind d ?_
    rw [← hsort]
    exact List.mem_mergeSort.2 hd
  | some d =>
    obtain ⟨hmem, hp, hfirst⟩ := (ranks_desc host).find?_take_mergeSort hfind
    refine ⟨List.mem_filter.2 ⟨List.mem_mergeSort.1 (List.mem_of_mem_take hmem), hp⟩, ?_⟩
    intro e he
    obtain ⟨he, hpe⟩ := List.mem_filter.1 he
    exact of_decide_eq_true ((ranks_byTime host).flip.lex_iff.1 (hfirst e he hpe)).1

variable {r : EmbeddedRuntime} {now : String}

section

variable (hr : r.Sound host)

include hr

/-- The embedded runtime compares normalised candidates, and holds no others. -/
theorem matches_eq (hargs : args.Valid) {d : ExecutionDecisionRow}
    (hd : d ∈ r.executionDecisionsById.values) (hscope : d.scope = args.scope) :
    args.embedded.matches args.selectedTool d = fits args d := by
  obtain ⟨k, hget⟩ := OrderedMap.mem_values.1 hd
  have hsound := hr.decisions.2 k d hget
  unfold EmbeddedRuntime.InferDecisionParams.matches fits comparable FeedbackDecisionArgs.embedded
  rw [normalizeCandidates_strings hsound.candidates hsound.distinct,
    normalizeCandidates_strings hargs.candidates hargs.distinct]
  simp only [hscope, true_and, decide_eq_true_eq, and_assoc]

theorem id_getExecutionDecision {d : ExecutionDecisionRow}
    (hd : d ∈ r.executionDecisionsById.values) :
    (r.getExecutionDecision d.scope d.id).map (·.id) = some d.id := by
  have hget : r.executionDecisionsById.get (decisionKey d.scope d.id) = some d :=
    hr.decisions.1.mem_values.1 hd
  unfold EmbeddedRuntime.getExecutionDecision
  rw [hget]
  rfl

theorem byRun_eq (hargs : args.Valid) {runId : String} (hrun : given args.runId = some runId) :
    byRun r.executionDecisionsById.values args =
      (r.executionDecisionsById.values.filter (·.scope = args.scope)).filter fun d =>
        d.runId = some runId ∧ args.embedded.matches args.selectedTool d := by
  unfold byRun
  rw [hrun, List.filter_filter]
  refine List.filter_congr fun d hd => ?_
  by_cases hscope : d.scope = args.scope
  · simp only [matches_eq hr hargs hd hscope, hscope, decide_true, Bool.and_true]
  · have hfits : fits args d = false := decide_eq_false fun h =>
      hscope (of_decide_eq_true h.1).1
    simp only [hfits, hscope, Bool.false_eq_true, and_false, decide_false, Bool.and_false]

theorem fallback_eq (hargs : args.Valid) :
    fallback host nowMs r.executionDecisionsById.values args =
      (r.executionDecisionsById.values.filter (·.scope = args.scope)).filter fun d =>
        EmbeddedRuntime.withinDay host (some nowMs) d ∧ args.embedded.matches args.selectedTool d ∧
          ((given args.runId).isSome → d.runId = none) := by
  unfold fallback
  rw [List.filter_filter]
  refine List.filter_congr fun d hd => ?_
  by_cases hscope : d.scope = args.scope
  · obtain ⟨k, hget⟩ := OrderedMap.mem_values.1 hd
    have hrecent : EmbeddedRuntime.withinDay host (some nowMs) d = recent host nowMs d := by
      unfold EmbeddedRuntime.withinDay recent
      rw [parsed_eq (hr.decisions.2 k d hget).created.2]
      rfl
    have hrun : (args.runId = none ∨ d.runId = none) ↔
        ((given args.runId).isSome → d.runId = none) := by
      cases hid : args.runId with
      | none => simp [given]
      | some runId =>
        have hne : runId ≠ "" := fun heq => hargs.runId (heq ▸ hid)
        rw [given_of_ne hne]
        simp
    simp only [matches_eq hr hargs hd hscope, hrecent, hscope, hrun, decide_true, Bool.and_true,
      and_left_comm]
  · have hfits : fits args d = false := decide_eq_false fun h =>
      hscope (of_decide_eq_true h.1).1
    simp only [hfits, hscope, Bool.false_eq_true, false_and, decide_false, Bool.and_false]

/-- The embedded runtime answers with one of the newest of the wanted rows. -/
theorem inferExecutionDecision_newest (hargs : args.Valid)
    (hnow : host.dateParse now = some nowMs) :
    ∃ answer, NewestOf host (wanted host nowMs r.executionDecisionsById.values args) answer ∧
      (r.inferExecutionDecision host now args.embedded).map (·.id) = answer.map (·.id) := by
  have hparsed : ∀ d ∈ r.executionDecisionsById.values.filter (·.scope = args.scope),
      (host.dateParse d.createdAt).isSome := by
    intro d hd
    obtain ⟨k, hget⟩ := OrderedMap.mem_values.1 (List.mem_filter.1 hd).1
    exact (hr.decisions.2 k d hget).created.2
  have htool : normalizeToolName (some (.str args.selectedTool)) = some args.selectedTool :=
    normalizeToolName_orNull (o := some args.selectedTool) fun _ h =>
      Option.some.inj h ▸ hargs.selectedTool
  have hall := newestOf_find hparsed
  have hnow : host.dateParse (args.embedded.nowUtc.getD now) = some nowMs := hnow
  have hlast : ∀ p : ExecutionDecisionRow → Bool, ∃ answer,
      NewestOf host ((r.executionDecisionsById.values.filter (·.scope = args.scope)).filter p)
          answer ∧
        ((((r.executionDecisionsById.values.filter (·.scope = args.scope)).mergeSort
          (decisionsDesc host)).find? p).bind fun d => r.getExecutionDecision d.scope d.id).map
            (·.id) = answer.map (·.id) := by
    intro p
    have hnewest := hall p
    refine ⟨_, hnewest, ?_⟩
    cases hfind : (((r.executionDecisionsById.values.filter (·.scope = args.scope)).mergeSort
      (decisionsDesc host)).find? p) with
    | none => rfl
    | some d =>
      rw [hfind] at hnewest
      exact id_getExecutionDecision hr (List.mem_filter.1 (List.mem_filter.1 hnewest.1).1).1
  unfold EmbeddedRuntime.inferExecutionDecision
  rw [show args.embedded.selectedTool = some (.str args.selectedTool) from rfl, htool, hnow]
  simp only [Option.bind_eq_bind, Option.bind_some]
  cases hrun : given args.runId with
  | none =>
    have hwanted : wanted host nowMs r.executionDecisionsById.values args =
        fallback host nowMs r.executionDecisionsById.values args := by
      unfold wanted byRun
      rw [hrun]
      rfl
    rw [hwanted, fallback_eq hr hargs, show args.embedded.runId = args.runId from rfl, hrun]
    exact hlast _
  | some runId =>
    rw [show args.embedded.runId = args.runId from rfl, hrun]
    simp only [Option.bind_some]
    have hnewest := hall fun d =>
      d.runId = some runId ∧ args.embedded.matches args.selectedTool d
    rw [← byRun_eq hr hargs hrun] at hnewest
    split
    · next d hfind =>
      change List.find? _ (List.mergeSort (r.executionDecisionsById.values.filter
        (·.scope = args.scope)) _) = some d at hfind
      rw [hfind] at hnewest
      have hne : byRun r.executionDecisionsById.values args ≠ [] :=
        List.ne_nil_of_mem hnewest.1
      unfold wanted
      rw [if_pos hne]
      refine ⟨some d, hnewest, id_getExecutionDecision hr ?_⟩
      have hmem := hnewest.1
      rw [byRun_eq hr hargs hrun] at hmem
      exact (List.mem_filter.1 (List.mem_filter.1 hmem).1).1
    · next hfind =>
      change List.find? _ (List.mergeSort (r.executionDecisionsById.values.filter
        (·.scope = args.scope)) _) = none at hfind
      rw [hfind] at hnewest
      have hnil : byRun r.executionDecisionsById.values args = [] := hnewest
      unfold wanted
      rw [if_neg (not_not.2 hnil), fallback_eq hr hargs, hrun]
      exact hlast _

end

end Newest

/-! ## Agreement -/

/-- Texts of times are ordered as the times are, as the texts of `toISOString` are. -/
def TimesSort (host : EmbeddedHost) (rows : List ExecutionDecisionRow) : Prop :=
  ∀ a ∈ rows, ∀ b ∈ rows,
    a.createdAt ≤ b.createdAt ↔ timeOf host a.createdAt ≤ timeOf host b.createdAt

section Agree

variable {host : EmbeddedHost} {args : FeedbackDecisionArgs}
  {rows rows' : List ExecutionDecisionRow} {nowMs : Int}

theorem newestOf_congr (h : rows.Perm rows') (answer : Option ExecutionDecisionRow) :
    NewestOf host rows answer ↔ NewestOf host rows' answer := by
  cases answer with
  | none =>
    refine ⟨fun hnil => ?_, fun hnil => ?_⟩
    · obtain rfl : rows = [] := hnil
      exact List.nil_perm.1 h
    · obtain rfl : rows' = [] := hnil
      exact List.perm_nil.1 h
  | some d => exact and_congr h.mem_iff (forall_congr' fun e => imp_congr h.mem_iff Iff.rfl)

theorem wanted_perm (h : rows.Perm rows') :
    (wanted host nowMs rows args).Perm (wanted host nowMs rows' args) := by
  have hrun : (byRun rows args).Perm (byRun rows' args) := by
    unfold byRun
    split
    · exact h.filter _
    · exact List.Perm.refl _
  unfold wanted
  by_cases hnil : byRun rows args = []
  · have hnil' : byRun rows' args = [] := List.nil_perm.1 (hnil ▸ hrun)
    rw [if_neg (not_not.2 hnil), if_neg (not_not.2 hnil')]
    exact h.filter _
  · have hne' : byRun rows' args ≠ [] := fun hnil' => hnil (List.perm_nil.1 (hnil' ▸ hrun))
    rw [if_pos hnil, if_pos hne']
    exact hrun

theorem aheadOf_perm (h : rows.Perm rows') (d : ExecutionDecisionRow) :
    aheadOf args rows d = aheadOf args rows' d :=
  (h.filter _).countP_eq _

theorem mem_rows_of_mem_wanted {d : ExecutionDecisionRow}
    (h : d ∈ wanted host nowMs rows args) : d ∈ rows := by
  unfold wanted at h
  split at h
  · unfold byRun at h
    split at h
    · exact (List.mem_filter.1 h).1
    · cases h
  · exact (List.mem_filter.1 h).1

/-- What the Lite store looks for is wanted, or too old for what is. -/
theorem wanted_or_older (hargs : args.Valid) {d e : ExecutionDecisionRow}
    (hd : d ∈ wanted host nowMs rows args)
    (he : e ∈ rows) (hlite : wantedLite args e = true) :
    e ∈ wanted host nowMs rows args ∨ timeOf host e.createdAt < timeOf host d.createdAt := by
  obtain ⟨hfits, hof⟩ := (Bool.and_eq_true _ _).mp hlite
  cases hrun : given args.runId with
  | some runId =>
    unfold ofRun at hof
    rw [hrun, Option.all_some, decide_eq_true_eq] at hof
    have hmem : e ∈ byRun rows args := by
      unfold byRun
      rw [hrun]
      exact List.mem_filter.2 ⟨he, decide_eq_true ⟨hof, hfits⟩⟩
    unfold wanted
    rw [if_pos (List.ne_nil_of_mem hmem)]
    exact .inl hmem
  | none =>
    have hfallback : wanted host nowMs rows args = fallback host nowMs rows args := by
      unfold wanted byRun
      rw [hrun]
      rfl
    have hnone : args.runId = none := by
      cases hid : args.runId with
      | none => rfl
      | some runId =>
        rw [hid, given_of_ne fun heq => hargs.runId (heq ▸ hid)] at hrun
        cases hrun
    rw [hfallback] at hd ⊢
    obtain ⟨-, hrecent, -⟩ := of_decide_eq_true (List.mem_filter.1 hd).2
    by_cases hrecent' : recent host nowMs e = true
    · exact .inl (List.mem_filter.2 ⟨he, decide_eq_true ⟨hfits, hrecent', .inl hnone⟩⟩)
    · have hold := of_decide_eq_false (Bool.eq_false_iff.2 hrecent')
      have hyoung := of_decide_eq_true hrecent
      exact .inr (by omega)

/-- The three lookups answer alike if and only if nothing is wanted and the Lite store finds
nothing among its first 50 rows, or one row is the newest by far and among these. -/
theorem lookups_agree_iff {lite : List ExecutionDecisionRow} {r : EmbeddedRuntime} {now : String}
    (hr : r.Sound host) (hargs : args.Valid) (hnow : host.dateParse now = some nowMs)
    (hlite : lite.Perm rows) (hembedded : r.executionDecisionsById.values.Perm rows)
    (hids : (rows.map (·.id)).Nodup) (htimes : TimesSort host rows) :
    (∃ answer : Option String,
        (findExecutionDecisionForFeedback lite args).map (·.id) = answer ∧
          (r.inferExecutionDecision host now args.embedded).map (·.id) = answer ∧
          ∀ d, inferDecision host nowMs rows args d → d.map (·.id) = answer) ↔
      (wanted host nowMs rows args = [] ∧
          ∀ d ∈ rows, wantedLite args d = true → 50 ≤ aheadOf args rows d) ∨
        ∃ d ∈ wanted host nowMs rows args, wantedLite args d = true ∧
          (∀ e ∈ wanted host nowMs rows args, e ≠ d →
            timeOf host e.createdAt < timeOf host d.createdAt) ∧
          aheadOf args rows d < 50 := by
  have hliteIds : (lite.map (·.id)).Nodup := (hlite.map _).nodup_iff.2 hids
  obtain ⟨answer, hnewest, hinfer⟩ := inferExecutionDecision_newest hr hargs hnow
  rw [newestOf_congr (wanted_perm hembedded)] at hnewest
  rw [hinfer]
  simp only [inferDecision_iff]
  refine ⟨?_, ?_⟩
  · rintro ⟨found, hfind, hanswer, hall⟩
    cases answer with
    | none =>
      have hnil : wanted host nowMs rows args = [] := hnewest
      have hnone : findExecutionDecisionForFeedback lite args = none :=
        Option.map_eq_none_iff.1 (hfind.trans hanswer.symm)
      refine .inl ⟨hnil, fun d hd hwanted => ?_⟩
      rw [← aheadOf_perm hlite]
      exact (find_eq_none hliteIds).1 hnone d (hlite.mem_iff.2 hd) hwanted
    | some d =>
      have hd := mem_rows_of_mem_wanted hnewest.1
      obtain ⟨x, hx, hid⟩ := Option.map_eq_some_iff.1 (hfind.trans hanswer.symm)
      obtain ⟨⟨hmem, hwanted⟩, hahead, -⟩ := (find_eq_some hliteIds).1 hx
      obtain rfl := List.inj_on_of_nodup_map hids (hlite.mem_iff.1 hmem) hd hid
      rw [aheadOf_perm hlite] at hahead
      refine .inr ⟨x, hnewest.1, hwanted, fun e he hne => ?_, hahead⟩
      by_contra hle
      have hnewest' : NewestOf host (wanted host nowMs rows args) (some e) :=
        ⟨he, fun y hy => (hnewest.2 y hy).trans (Int.not_lt.1 hle)⟩
      have hid := Option.some.inj ((hall _ hnewest').trans hanswer.symm)
      exact hne (List.inj_on_of_nodup_map hids (mem_rows_of_mem_wanted he) hd hid)
  · rintro (⟨hnil, hahead⟩ | ⟨d, hd, hwanted, hnewer, hahead⟩)
    · have hnone : ∀ a, NewestOf host (wanted host nowMs rows args) a → a = none := by
        intro a ha
        cases a with
        | none => rfl
        | some d =>
          have hmem := ha.1
          rw [hnil] at hmem
          cases hmem
      have hfind : findExecutionDecisionForFeedback lite args = none :=
        (find_eq_none hliteIds).2 fun e he hwanted =>
          aheadOf_perm hlite e ▸ hahead e (hlite.mem_iff.1 he) hwanted
      exact ⟨none, by rw [hfind]; rfl, by rw [hnone _ hnewest]; rfl,
        fun a ha => by rw [hnone _ ha]; rfl⟩
    · have honly : ∀ a, NewestOf host (wanted host nowMs rows args) a → a = some d := by
        intro a ha
        cases a with
        | none =>
          have hnil : wanted host nowMs rows args = [] := ha
          rw [hnil] at hd
          cases hd
        | some x =>
          by_contra hne
          have hlt := hnewer x ha.1 fun heq => hne (congrArg some heq)
          exact absurd (ha.2 d hd) (Int.not_le.2 hlt)
      have hrow := mem_rows_of_mem_wanted hd
      have hfind : findExecutionDecisionForFeedback lite args = some d := by
        refine (find_eq_some hliteIds).2 ⟨⟨hlite.mem_iff.2 hrow, hwanted⟩,
          aheadOf_perm hlite d ▸ hahead, fun e he hwanted' => ?_⟩
        have he := hlite.mem_iff.1 he
        by_cases heq : e = d
        · rw [heq]
          exact ranks_createdDesc.refl d
        · have holder : timeOf host e.createdAt < timeOf host d.createdAt :=
            (wanted_or_older hargs hd he hwanted').elim (fun hmem => hnewer e hmem heq) id
          refine createdDesc_iff.2 ⟨(htimes e he d hrow).2 holder.le, fun hle => ?_⟩
          exact absurd ((htimes d hrow e he).1 hle) (Int.not_le.2 holder)
      exact ⟨some d.id, by rw [hfind]; rfl, by rw [honly _ hnewest]; rfl,
        fun a ha => by rw [honly _ ha]; rfl⟩

end Agree

/-! ## A decision without a run -/

/-- A decision, and what feedback of a run asks for. -/
def sampleDecision (runId : Option String) : ExecutionDecisionRow where
  id := "d"
  scope := "s"
  runId := runId
  selectedTool := some "grep"
  candidatesJson := ["grep", "find"]
  contextSha256 := "c"
  policySha256 := "p"
  sourceRuleIds := []
  metadataJson := .obj []
  createdAt := sampleTime.text
  commitId := none

def sampleFeedback : FeedbackDecisionArgs := ⟨"s", some "run", "grep", ["grep", "find"], "c"⟩

def decidedRuntime (runId : Option String) : EmbeddedRuntime :=
  { executionDecisionsById := .ofValues EmbeddedDecision.key [sampleDecision runId] }

theorem valid_sampleFeedback : sampleFeedback.Valid where
  runId := by decide
  selectedTool := by decide
  candidates := by decide
  distinct := by decide

theorem sound_decidedRuntime (runId : Option String) :
    (decidedRuntime runId).Sound sampleHost := by
  have hsound : (sampleDecision runId).Sound sampleHost := {
    created := sampleTime.iso
    id := (by decide : "d" ≠ "")
    scope := (by decide : "s" ≠ "")
    selectedTool := fun tool htool => Option.some.inj htool ▸ (by decide : Plain "grep")
    candidates := (by decide : ∀ c ∈ ["grep", "find"], Plain c)
    distinct := (by decide : ["grep", "find"].Nodup)
    sourceRuleIds := nofun
    metadata := rfl }
  have hdecisions : DecisionsSound sampleHost (decidedRuntime runId).executionDecisionsById :=
    DecisionsSound.set ⟨OrderedMap.keyed_empty, fun _ _ h => nomatch h⟩ rfl hsound
  exact { EmbeddedRuntime.sound_empty with
    decisions := hdecisions
    decisionCount := (by decide : 1 ≤ 10000) }

/-- A run's feedback is about a decision that no run is linked to, which the Lite store misses. -/
theorem unlinked_decision_missed :
    findExecutionDecisionForFeedback [sampleDecision none] sampleFeedback = none ∧
      ((decidedRuntime none).inferExecutionDecision sampleHost sampleTime.text
        sampleFeedback.embedded).map (·.id) = some "d" ∧
      inferDecision sampleHost 1767225600000 [sampleDecision none] sampleFeedback
        (some (sampleDecision none)) := by
  have hwanted : wanted sampleHost 1767225600000 [sampleDecision none] sampleFeedback =
      [sampleDecision none] := by rfl
  have hnewest : ∀ answer, NewestOf sampleHost [sampleDecision none] answer →
      answer = some (sampleDecision none) := by
    intro answer h
    cases answer with
    | none => cases (h : [sampleDecision none] = [])
    | some d => rw [List.mem_singleton.1 h.1]
  have hids : ([sampleDecision none].map (·.id)).Nodup := List.nodup_singleton _
  refine ⟨(find_eq_none hids).2 ?_, ?_, ?_⟩
  · intro e he hwanted
    rw [List.mem_singleton.1 he] at hwanted
    exact absurd hwanted (by decide)
  · have hnow : sampleHost.dateParse sampleTime.text = some 1767225600000 := rfl
    obtain ⟨answer, hanswer, hid⟩ := inferExecutionDecision_newest (sound_decidedRuntime none)
      valid_sampleFeedback hnow
    rw [hid, hnewest answer (hwanted ▸ hanswer)]
    rfl
  · rw [inferDecision_iff, hwanted]
    exact ⟨List.mem_singleton.2 rfl, fun e he => List.mem_singleton.1 he ▸ le_rfl⟩

theorem lookups_agree_iff_linked :
    ∃ answer : Option String,
      (findExecutionDecisionForFeedback [sampleDecision (some "run")] sampleFeedback).map (·.id) =
          answer ∧
        ((decidedRuntime (some "run")).inferExecutionDecision sampleHost sampleTime.text
          sampleFeedback.embedded).map (·.id) = answer ∧
        ∀ d, inferDecision sampleHost 1767225600000 [sampleDecision (some "run")] sampleFeedback d →
          d.map (·.id) = answer := by
  have htimes : TimesSort sampleHost [sampleDecision (some "run")] := by
    intro a ha b hb
    rw [List.mem_singleton.1 ha, List.mem_singleton.1 hb]
    exact iff_of_true (String.le_refl _) le_rfl
  refine (lookups_agree_iff (sound_decidedRuntime _) valid_sampleFeedback rfl
    (List.Perm.refl _) (List.Perm.refl _) (List.nodup_singleton _) htimes).2 (.inr ?_)
  refine ⟨sampleDecision (some "run"), List.mem_singleton.2 rfl, by decide, fun e he hne => ?_, ?_⟩
  · exact absurd (List.mem_singleton.1 he) hne
  · decide

end AionisCore.Store
