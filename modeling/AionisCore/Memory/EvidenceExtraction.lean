import AionisCore.Execution.VerifierResult
import AionisCore.Memory.EvidenceRecord

/-!
# Where evidence is extracted from

`extractExecutionEvidenceFromSlots` asks a list of sources in order, and the first that says
something answers. Evidence that is compiled from a record goes through a schema that raises, and
the texts gathered for it are as long as the record has them.
-/

namespace AionisCore.Memory

open Lib Lib.JsString Lib.Zod Lib.Json

/-! ## Sources -/

inductive EvidenceSource where
  | stored (value : Option Json)
  | record (record : Fields) (evidenceRefs : List (Option Json))
  | metrics (record : Fields)

/-- The verdict of a record. -/
def recordVerdict (record : Fields) : Option Bool :=
  (booleanField (some record) validationKeys).or
    (firstStatus record ["status", "validation_status", "source_run_status", "result", "outcome"])

/-- The text a record gives as the reason of a failure. -/
def recordFailureText (record : Fields) (evidenceRefs : List (Option Json)) : Option String :=
  (firstText record ["failure_reason", "error", "reason"]).or
    ((firstFailureReason evidenceRefs.reduceOption).or
      (if recordVerdict record = some false then nullableString (get record "summary") else none))

/-- The values under which a record names its references. -/
def refFields (record : Fields) : List (Option Json) :=
  [get record "evidence_refs", get record "evidenceRefs", get record "ref", get record "uri",
    get record "id"]

def successRatio (record : Fields) : Option ℚ :=
  match get record "success_ratio" with
  | some (.num q) => some q
  | _ => none

def metricVerdict (record : Fields) : Option Bool :=
  (booleanField (some record) validationKeys).or
    ((firstStatus record ["status", "validation_status"]).or
      ((successRatio record).map fun q => decide (1 ≤ q)))

def metricFailureText (record : Fields) : Option String :=
  (firstText record ["failure_reason", "error", "reason"]).or
    (if metricVerdict record = some false then some "source_metrics_validation_failed"
    else if (successRatio record).any (· < 1) then some "source_metrics_success_ratio_below_one"
    else none)

def metricRefs (record : Fields) : List String :=
  let refs := uniqueEvidenceRefs (refFields record)
  if refs = [] then ["source.metrics"] else refs

/-- A record says something: it has a verdict, a reason, or claims what its verdicts deny. -/
def Tells (record : Fields) (verdict : Option Bool) (failureText : Option String) : Prop :=
  verdict ≠ none ∨ booleanField (some record) afterExitKeys ≠ none ∨
    booleanField (some record) freshShellKeys ≠ none ∨ failureText ≠ none ∨
    falseConfidence record [verdict, booleanField (some record) afterExitKeys,
      booleanField (some record) freshShellKeys] = true

instance (record : Fields) (verdict : Option Bool) (failureText : Option String) :
    Decidable (Tells record verdict failureText) := inferInstanceAs (Decidable (_ ∨ _))

/-- The texts gathered from a source have at most 256 code units. -/
def TextsFit (failureText : Option String) (refs : List String) : Prop :=
  (∀ text ∈ failureText, length text ≤ 256) ∧ ∀ ref ∈ refs, length ref ≤ 256

namespace EvidenceSource

def Speaks : EvidenceSource → Prop
  | stored value => parseEvidence value ≠ none
  | record r refs => Tells r (recordVerdict r) (recordFailureText r refs)
  | metrics r => Tells r (metricVerdict r) (metricFailureText r)

instance (s : EvidenceSource) : Decidable s.Speaks := by
  cases s <;> unfold Speaks <;> infer_instance

def Fits : EvidenceSource → Prop
  | stored _ => True
  | record r refs => TextsFit (recordFailureText r refs) (uniqueEvidenceRefs (refFields r ++ refs))
  | metrics r => TextsFit (metricFailureText r) (metricRefs r)

/-- What a source answers; the outer `none` stands for a schema error. -/
def result : EvidenceSource → Option (Option ExecutionEvidenceV1)
  | stored value => some (parseEvidence value)
  | record r refs => compileEvidenceFromRecord (some r) refs
  | metrics r => metricEvidence (some (.obj r))

end EvidenceSource

def recordSources (record : Option Fields) (evidenceRefs : List (Option Json)) :
    List EvidenceSource :=
  record.toList.map fun r => .record r evidenceRefs

/-- The entries of an array: those stored as evidence before those it is compiled from. -/
def arraySources (value : Option Json) : List EvidenceSource :=
  match asArray value with
  | none => []
  | some xs => xs.map (fun x => .stored (some x)) ++
      xs.flatMap fun x => recordSources (asRecord (some x)) (xs.map some)

/-- The sources in the order in which they are asked. -/
def extractionSources (slots : Fields) (metrics : Option Json) : List EvidenceSource :=
  let executionResultSummary := asRecord (get slots "execution_result_summary")
  let refs := [get slots "execution_evidence", get slots "execution_packet_v1"]
  [.stored (get slots "execution_evidence_v1"),
    .stored (field executionResultSummary "execution_evidence_v1")] ++
  recordSources executionResultSummary refs ++
  recordSources (asRecord (get slots "compile_summary")) refs ++
  arraySources (get slots "execution_evidence") ++
  arraySources (field executionResultSummary "execution_evidence") ++
  (asRecord metrics).toList.map .metrics

/-! ## The first answer -/

def firstEvidence (sources : List EvidenceSource) : Option (Option ExecutionEvidenceV1) :=
  sources.foldr (fun s rest => orEvidence s.result rest) (some none)

theorem orEvidence_assoc (a b c : Option (Option ExecutionEvidenceV1)) :
    orEvidence (orEvidence a b) c = orEvidence a (orEvidence b c) := by
  match a with
  | none => rfl
  | some none => rfl
  | some (some _) => rfl

theorem firstEvidence_cons (s : EvidenceSource) (sources : List EvidenceSource) :
    firstEvidence (s :: sources) = orEvidence s.result (firstEvidence sources) := rfl

theorem firstEvidence_append (sources sources' : List EvidenceSource) :
    firstEvidence (sources ++ sources') =
      orEvidence (firstEvidence sources) (firstEvidence sources') := by
  induction sources with
  | nil => rfl
  | cons s sources ih =>
    rw [List.cons_append, firstEvidence_cons, ih, firstEvidence_cons, orEvidence_assoc]

theorem firstEvidence_recordSources (record : Option Fields) (refs : List (Option Json)) :
    firstEvidence (recordSources record refs) = compileEvidenceFromRecord record refs := by
  cases record with
  | none => rfl
  | some r => exact orEvidence_none _

theorem firstEvidence_stored (xs : List Json) :
    firstEvidence (xs.map fun x => .stored (some x)) =
      some (xs.findSome? fun x => parseEvidence (some x)) := by
  induction xs with
  | nil => rfl
  | cons x xs ih =>
    rw [List.map_cons, firstEvidence_cons, ih, List.findSome?_cons, EvidenceSource.result]
    cases parseEvidence (some x) <;> rfl

theorem firstEvidence_flatMap (refs : List (Option Json)) (xs : List Json) :
    firstEvidence (xs.flatMap fun x => recordSources (asRecord (some x)) refs) =
      compileFirst refs xs := by
  induction xs with
  | nil => rfl
  | cons x xs ih =>
    rw [List.flatMap_cons, firstEvidence_append, firstEvidence_recordSources, ih, compileFirst]

theorem firstEvidence_arraySources (value : Option Json) :
    firstEvidence (arraySources value) = compileEvidenceFromArray value := by
  unfold arraySources compileEvidenceFromArray
  cases asArray value with
  | none => rfl
  | some xs =>
    dsimp only
    rw [firstEvidence_append, firstEvidence_stored, firstEvidence_flatMap]
    cases xs.findSome? fun x => parseEvidence (some x) <;> rfl

theorem firstEvidence_metrics (metrics : Option Json) :
    firstEvidence ((asRecord metrics).toList.map .metrics) = metricEvidence metrics := by
  cases h : asRecord metrics with
  | none =>
    unfold metricEvidence
    rw [h]
    rfl
  | some r =>
    rw [Option.toList_some, List.map_singleton, firstEvidence_cons, EvidenceSource.result]
    unfold metricEvidence
    rw [h]
    exact orEvidence_none _

theorem extractExecutionEvidenceFromSlots_eq (slots : Fields) (metrics : Option Json) :
    extractExecutionEvidenceFromSlots slots metrics =
      firstEvidence (extractionSources slots metrics) := by
  have hstored : ∀ v w, firstEvidence [.stored v, .stored w] =
      orEvidence (some (parseEvidence v)) (some (parseEvidence w)) := by
    intro v w
    rw [firstEvidence_cons, firstEvidence_cons]
    exact congrArg (orEvidence _) (orEvidence_none _)
  unfold extractExecutionEvidenceFromSlots extractionSources
  simp only [firstEvidence_append, firstEvidence_recordSources, firstEvidence_arraySources,
    firstEvidence_metrics, hstored, orEvidence_assoc]

/-! ## The texts gathered -/

theorem nullableString_plain {v : Option Json} {s : String} (h : nullableString v = some s) :
    Plain s := by
  unfold nullableString at h
  split at h
  · split at h
    · next hne =>
      obtain rfl := Option.some.inj h
      exact ⟨trimmed_trim _, hne⟩
    · cases h
  · cases h

theorem firstText_plain {record : Fields} {keys : List String} {s : String}
    (h : firstText record keys = some s) : Plain s := by
  obtain ⟨k, -, hk⟩ := List.exists_of_findSome?_eq_some h
  exact nullableString_plain hk

mutual

theorem refsOf_plain : (v : Json) → ∀ r ∈ refsOf v, Plain r
  | .null => fun _ h => nomatch h
  | .bool _ => fun _ h => nomatch h
  | .num _ => fun _ h => nomatch h
  | .str s => by
    intro r hr
    rw [refsOf, Option.mem_toList] at hr
    exact nullableString_plain hr
  | .arr xs => by
    intro r hr
    rw [refsOf] at hr
    exact refsOfList_plain xs r (List.mem_eraseDups.1 (List.mem_of_mem_take hr))
  | .obj fields => by
    intro r hr
    have hnested : ∀ k, ∀ r ∈ ((refsOfFields fields).lookup k).getD [], Plain r := by
      intro k r hr
      cases hk : (refsOfFields fields).lookup k with
      | none =>
        rw [hk] at hr
        cases hr
      | some refs =>
        rw [hk] at hr
        obtain ⟨before, after, hfields, -⟩ := List.lookup_eq_some_iff.1 hk
        have hmem : (k, refs) ∈ refsOfFields fields := by
          rw [hfields]
          exact List.mem_append_right _ List.mem_cons_self
        exact refsOfFields_plain fields (k, refs) hmem r hr
    rw [refsOf, List.mem_append] at hr
    rcases hr with hr | hr
    · rcases List.mem_append.1 (List.mem_eraseDups.1 (List.mem_of_mem_take hr)) with hr | hr
      · exact hnested _ r hr
      · exact hnested _ r hr
    · exact firstText_plain (Option.mem_toList.1 hr)

theorem refsOfList_plain : (xs : List Json) → ∀ r ∈ refsOfList xs, Plain r
  | [] => fun _ h => nomatch h
  | x :: xs => by
    intro r hr
    rw [refsOfList, List.mem_append] at hr
    exact hr.elim (refsOf_plain x r) (refsOfList_plain xs r)

theorem refsOfFields_plain : (fs : List (String × Json)) →
    ∀ f ∈ refsOfFields fs, ∀ r ∈ f.2, Plain r
  | [] => fun _ h => nomatch h
  | f :: fs => by
    intro g hg
    rw [refsOfFields, List.mem_cons] at hg
    rcases hg with rfl | hg
    · exact refsOfField_plain f
    · exact refsOfFields_plain fs g hg

theorem refsOfField_plain : (f : String × Json) → ∀ r ∈ (refsOfField f).2, Plain r
  | (_, v) => refsOf_plain v

end

theorem uniqueEvidenceRefs_plain {values : List (Option Json)} :
    (uniqueEvidenceRefs values).length ≤ 32 ∧ ∀ r ∈ uniqueEvidenceRefs values, Plain r := by
  refine ⟨?_, fun r hr => ?_⟩
  · rw [uniqueEvidenceRefs, List.length_take]
    omega
  · obtain ⟨v, -, hv⟩ := List.mem_flatMap.1 (List.mem_eraseDups.1 (List.mem_of_mem_take hr))
    exact refsOf_plain v r hv

mutual

theorem failureReasonOf_plain : (v : Json) → ∀ r ∈ failureReasonOf v, Plain r
  | .null => fun _ h => nomatch h
  | .bool _ => fun _ h => nomatch h
  | .num _ => fun _ h => nomatch h
  | .str _ => fun _ h => nomatch h
  | .arr xs => by
    rw [failureReasonOf]
    exact firstFailureReason_plain xs
  | .obj fields => fun _ h => firstText_plain h

theorem firstFailureReason_plain : (xs : List Json) → ∀ r ∈ firstFailureReason xs, Plain r
  | [] => fun _ h => nomatch h
  | x :: xs => by
    intro r hr
    rw [firstFailureReason, Option.mem_def, Option.or_eq_some_iff] at hr
    rcases hr with hr | ⟨-, hr⟩
    · exact failureReasonOf_plain x r hr
    · exact firstFailureReason_plain xs r hr

end

theorem recordFailureText_plain {record : Fields} {refs : List (Option Json)} {text : String}
    (h : recordFailureText record refs = some text) : Plain text := by
  unfold recordFailureText at h
  rcases Option.or_eq_some_iff.1 h with h | ⟨-, h⟩
  · exact firstText_plain h
  · rcases Option.or_eq_some_iff.1 h with h | ⟨-, h⟩
    · exact firstFailureReason_plain _ text h
    · split at h
      · exact nullableString_plain h
      · cases h

theorem metricFailureText_plain {record : Fields} {text : String}
    (h : metricFailureText record = some text) : Plain text := by
  unfold metricFailureText at h
  rcases Option.or_eq_some_iff.1 h with h | ⟨-, h⟩
  · exact firstText_plain h
  · split at h
    · obtain rfl := Option.some.inj h
      decide
    · split at h
      · obtain rfl := Option.some.inj h
        decide
      · cases h

theorem metricRefs_plain {record : Fields} :
    (metricRefs record).length ≤ 32 ∧ ∀ r ∈ metricRefs record, Plain r := by
  unfold metricRefs
  dsimp only
  split
  · exact ⟨by decide, List.forall_mem_singleton.2 (by decide)⟩
  · exact uniqueEvidenceRefs_plain

/-! ## Sources that answer -/

section Draft

variable {record : Fields} {verdict : Option Bool} {text : Option String} {refs : List String}

theorem parse_recordEvidence (htext : ∀ t ∈ text, Plain t)
    (hrefs : refs.length ≤ 32 ∧ ∀ r ∈ refs, Plain r) :
    (recordEvidence record verdict text refs).parse ≠ none ↔ TextsFit text refs := by
  have htexts : (∃ reason, nullableText (some 256) text = some reason) ↔
      ∀ t ∈ text, length t ≤ 256 := by
    cases text with
    | none => exact iff_of_true ⟨none, rfl⟩ (by simp)
    | some t =>
      obtain ⟨htrim, hne⟩ := htext t rfl
      rw [Execution.nullableText_some_iff, htrim, and_iff_right hne]
      simp
  have hlist : (∃ refs', trimmedList 32 256 refs = some refs') ↔ ∀ r ∈ refs, length r ≤ 256 := by
    simp only [trimmedList_of_clean hrefs.2, exists_and_left, exists_eq, and_true]
    exact and_iff_right hrefs.1
  rw [TextsFit, ← htexts, ← hlist, Option.ne_none_iff_exists']
  constructor
  · rintro ⟨e, he⟩
    obtain ⟨reason, refs', hreason, hrefs', -⟩ := ExecutionEvidenceV1.parse_eq_some.1 he
    exact ⟨⟨reason, hreason⟩, ⟨refs', hrefs'⟩⟩
  · rintro ⟨⟨reason, hreason⟩, ⟨refs', hrefs'⟩⟩
    exact ⟨_, ExecutionEvidenceV1.parse_eq_some.2 ⟨reason, refs', hreason, hrefs', rfl⟩⟩

/-- Evidence is made of what a record tells, and it passes the schema if its texts fit. -/
theorem evidenceIfAny_recordEvidence (htext : ∀ t ∈ text, Plain t)
    (hrefs : refs.length ≤ 32 ∧ ∀ r ∈ refs, Plain r) :
    (Tells record verdict text →
      (evidenceIfAny (recordEvidence record verdict text refs) ≠ none ↔ TextsFit text refs) ∧
        evidenceIfAny (recordEvidence record verdict text refs) ≠ some none) ∧
    (¬ Tells record verdict text →
      evidenceIfAny (recordEvidence record verdict text refs) = some none) := by
  have hsilent : (verdict = none ∧ booleanField (some record) afterExitKeys = none ∧
      booleanField (some record) freshShellKeys = none ∧ text = none ∧
      falseConfidence record [verdict, booleanField (some record) afterExitKeys,
        booleanField (some record) freshShellKeys] = false) ↔ ¬ Tells record verdict text := by
    simp only [Tells, not_or, ne_eq, not_not, Bool.not_eq_true]
  constructor
  · intro htells
    have hany : evidenceIfAny (recordEvidence record verdict text refs) =
        (recordEvidence record verdict text refs).parse.map some :=
      if_neg fun h => hsilent.1 h htells
    rw [hany, ← parse_recordEvidence htext hrefs]
    cases (recordEvidence record verdict text refs).parse <;> simp
  · intro hnot
    exact if_pos (hsilent.2 hnot)

end Draft

namespace EvidenceSource

theorem result_of_not_speaks {s : EvidenceSource} (h : ¬ s.Speaks) : s.result = some none := by
  cases s with
  | stored v => exact congrArg some (not_not.1 h)
  | record r refs =>
    exact (evidenceIfAny_recordEvidence (fun _ => recordFailureText_plain)
      uniqueEvidenceRefs_plain).2 h
  | metrics r =>
    exact (evidenceIfAny_recordEvidence (fun _ => metricFailureText_plain) metricRefs_plain).2 h

theorem result_of_speaks {s : EvidenceSource} (h : s.Speaks) :
    (s.result ≠ none ↔ s.Fits) ∧ s.result ≠ some none := by
  cases s with
  | stored v => exact ⟨iff_of_true nofun trivial, fun hnone => h (Option.some.inj hnone)⟩
  | record r refs =>
    exact (evidenceIfAny_recordEvidence (fun _ => recordFailureText_plain)
      uniqueEvidenceRefs_plain).1 h
  | metrics r =>
    exact (evidenceIfAny_recordEvidence (fun _ => metricFailureText_plain) metricRefs_plain).1 h

end EvidenceSource

/-- Asking the sources raises no error just if the texts of the first one that speaks fit. -/
theorem firstEvidence_ne_none_iff {sources : List EvidenceSource} :
    firstEvidence sources ≠ none ↔
      ∀ s, sources.find? (fun s => s.Speaks) = some s → s.Fits := by
  induction sources with
  | nil => exact iff_of_true nofun fun _ h => nomatch h
  | cons s sources ih =>
    rw [firstEvidence_cons]
    by_cases hspeaks : s.Speaks
    · obtain ⟨hfits, hanswer⟩ := EvidenceSource.result_of_speaks hspeaks
      have hfirst : (∀ s', some s = some s' → s'.Fits) ↔ s.Fits :=
        ⟨fun h => h s rfl, fun h s' hs' => Option.some.inj hs' ▸ h⟩
      rw [List.find?_cons_of_pos (by simpa using hspeaks), hfirst, ← hfits]
      match hresult : s.result with
      | none => exact Iff.rfl
      | some none => exact absurd hresult hanswer
      | some (some e) => exact Iff.rfl
    · rw [List.find?_cons_of_neg (by simpa using hspeaks),
        EvidenceSource.result_of_not_speaks hspeaks]
      exact ih

/-! ## Extraction -/

/-- Extraction returns nothing or evidence that its schema accepts, unless the first source that
speaks has a text that is too long. -/
theorem extraction_returns_iff (slots : Fields) (metrics : Option Json) :
    (∃ r, extractExecutionEvidenceFromSlots slots metrics = some r ∧
      ∀ e ∈ r, parseEvidence (some (.obj e.record)) = some e) ↔
    ∀ s, (extractionSources slots metrics).find? (fun s => s.Speaks) = some s → s.Fits := by
  rw [← firstEvidence_ne_none_iff, ← extractExecutionEvidenceFromSlots_eq,
    Option.ne_none_iff_exists']
  constructor
  · rintro ⟨r, hr, -⟩
    exact ⟨r, hr⟩
  · rintro ⟨r, hr⟩
    refine ⟨r, hr, fun e he => ?_⟩
    obtain rfl := Option.mem_def.1 he
    exact parseEvidence_record_of_parse (checked_extract slots metrics e hr)

/-- Slots whose result summary has nothing but an error text. -/
def errorSlots (text : String) : Fields :=
  [("execution_result_summary", .obj [("error", .str text)])]

theorem errorSlots_raises {text : String} (hplain : Plain text) (hlong : 256 < length text) :
    extractExecutionEvidenceFromSlots (errorSlots text) none = none := by
  have htext : nullableString (some (.str text)) = some text := by
    rw [nullableString, hplain.1, if_pos hplain.2]
  have hmissing : nullableString (get [("error", .str text)] "failure_reason") = none := rfl
  have herror : nullableString (get [("error", .str text)] "error") = some text := htext
  have hreason : recordFailureText [("error", .str text)] [none, none] = some text := by
    rw [recordFailureText, firstText, List.findSome?_cons, hmissing, List.findSome?_cons, herror]
    rfl
  have hspeaks : (EvidenceSource.record [("error", .str text)] [none, none]).Speaks := by
    refine Or.inr (Or.inr (Or.inr (Or.inl ?_)))
    rw [hreason]
    exact Option.some_ne_none _
  have hfirst : (extractionSources (errorSlots text) none).find? (fun s => s.Speaks) =
      some (.record [("error", .str text)] [none, none]) := by
    have hsources : extractionSources (errorSlots text) none =
        [.stored none, .stored none, .record [("error", .str text)] [none, none]] := rfl
    have hstored : ¬ (EvidenceSource.stored none).Speaks := fun h => h rfl
    rw [hsources, List.find?_cons_of_neg (by simpa using hstored),
      List.find?_cons_of_neg (by simpa using hstored),
      List.find?_cons_of_pos (by simpa using hspeaks)]
  by_contra hreturns
  rw [← ne_eq, extractExecutionEvidenceFromSlots_eq, firstEvidence_ne_none_iff] at hreturns
  have hfits := (hreturns _ hfirst).1 text hreason
  omega

/-- An error text of 257 characters in the result summary raises a schema error. -/
theorem long_error_raises :
    extractExecutionEvidenceFromSlots
      [("execution_result_summary", .obj [("error", .str (Execution.xs 257))])] none = none := by
  have hlength := Execution.xs_length 257
  refine errorSlots_raises ⟨Execution.xs_trimmed 257, fun hempty => ?_⟩ (by omega)
  rw [hempty, length_empty] at hlength
  omega

end AionisCore.Memory
