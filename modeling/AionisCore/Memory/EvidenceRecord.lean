import AionisCore.Memory.ExecutionEvidence

/-!
# Evidence as a record

The record a piece of execution evidence is stored and passed on as. The schema
reads it back unchanged when its texts are clean and its references fit, as those
of extracted evidence do.
-/

namespace AionisCore.Memory

open Lib Lib.JsString Lib.Zod Lib.Json

def optBool : Option Bool → Json
  | none => .null
  | some b => .bool b

def optStr : Option String → Json
  | none => .null
  | some s => .str s

def ExecutionValidationBoundary.name : ExecutionValidationBoundary → String
  | unknown => "unknown"
  | agentSelf => "agent_self"
  | runtimeOrchestrator => "runtime_orchestrator"
  | externalVerifier => "external_verifier"

def ExecutionEvidenceV1.record (e : ExecutionEvidenceV1) : Fields :=
  [("schema_version", .str "execution_evidence_v1"),
   ("validation_passed", optBool e.validationPassed),
   ("after_exit_revalidated", optBool e.afterExitRevalidated),
   ("fresh_shell_probe_passed", optBool e.freshShellProbePassed),
   ("validation_boundary", .str e.validationBoundary.name),
   ("failure_reason", optStr e.failureReason),
   ("false_confidence_detected", .bool e.falseConfidenceDetected),
   ("evidence_refs", .arr (e.evidenceRefs.map .str))]

/-- What the reader's schema asks of the references. -/
def RefsFit (refs : List String) : Prop := refs.length ≤ 32 ∧ ∀ r ∈ refs, length r ≤ 256

instance (refs : List String) : Decidable (RefsFit refs) :=
  inferInstanceAs (Decidable (_ ∧ _))

@[simp] theorem nullable_boolean_optBool (b : Option Bool) :
    nullable boolean (some (optBool b)) = some b := by
  cases b <;> rfl

theorem nullable_text_optStr {s : Option String} (h : nullableText (some 256) s = some s) :
    nullable (trimmedString (some 256)) (some (optStr s)) = some s := by
  cases s with
  | none => rfl
  | some s => exact h

@[simp] theorem boundarySchema_boundaryName (b : ExecutionValidationBoundary) :
    executionValidationBoundarySchema (some (.str b.name)) = some b := by
  cases b <;> rfl

variable {e : ExecutionEvidenceV1}

/-- The reader accepts a clean record unchanged if the references fit, and rejects it
otherwise. -/
theorem parseEvidence_record
    (hreason : nullableText (some 256) e.failureReason = some e.failureReason)
    (hrefs : ∀ r ∈ e.evidenceRefs, Trimmed r ∧ r ≠ "") :
    parseEvidence (some (.obj e.record)) = if RefsFit e.evidenceRefs then some e else none := by
  have hlist : evidenceStringList (some (.arr (e.evidenceRefs.map .str))) =
      if RefsFit e.evidenceRefs then some e.evidenceRefs else none := by
    rw [evidenceStringList, array_str]
    split
    · next h => exact (trimmedList_of_clean hrefs).2 ⟨h, rfl⟩
    · next h =>
      rw [Option.eq_none_iff_forall_ne_some]
      exact fun ys hys => h ((trimmedList_of_clean hrefs).1 hys).1
  have hget : ∀ k v, get e.record k = some v →
      get (spread [("schema_version", .str "execution_evidence_v1")] e.record) k = some v := by
    intro k v h
    rw [get_spread, h, Option.some_or]
  rw [parseEvidence, asRecord, Option.bind_some, executionEvidenceV1Schema,
    hget "schema_version" _ rfl, hget "validation_passed" _ rfl,
    hget "after_exit_revalidated" _ rfl, hget "fresh_shell_probe_passed" _ rfl,
    hget "validation_boundary" _ rfl, hget "failure_reason" _ rfl,
    hget "false_confidence_detected" _ rfl, hget "evidence_refs" _ rfl]
  simp only [withDefault, literal, if_true, nullable_boolean_optBool, boundarySchema_boundaryName,
    nullable_text_optStr hreason, boolean, hlist, Option.bind_eq_bind, Option.bind_some,
    Option.pure_def]
  split <;> rfl

theorem ExecutionEvidenceV1.parse_eq_some {e' : ExecutionEvidenceV1} :
    e.parse = some e' ↔ ∃ reason refs, nullableText (some 256) e.failureReason = some reason ∧
      trimmedList 32 256 e.evidenceRefs = some refs ∧
      e' = { e with failureReason := reason, evidenceRefs := refs } := by
  simp only [ExecutionEvidenceV1.parse, Option.bind_eq_bind, Option.bind_eq_some_iff,
    Option.pure_def, Option.some_inj]
  constructor
  · rintro ⟨reason, hreason, refs, hrefs, rfl⟩
    exact ⟨reason, refs, hreason, hrefs, rfl⟩
  · rintro ⟨reason, refs, hreason, hrefs, rfl⟩
    exact ⟨reason, hreason, refs, hrefs, rfl⟩

theorem ExecutionEvidenceV1.parse_parse {e' : ExecutionEvidenceV1} (h : e.parse = some e') :
    e'.parse = some e' := by
  obtain ⟨reason, refs, hreason, hrefs, rfl⟩ := ExecutionEvidenceV1.parse_eq_some.1 h
  exact ExecutionEvidenceV1.parse_eq_some.2 ⟨reason, refs, nullableText_of_nullableText hreason,
    trimmedList_of_trimmedList hrefs, rfl⟩

theorem clean_of_trimmedList {k n : Nat} {xs : List String} (h : trimmedList k n xs = some xs) :
    xs.length ≤ k ∧ ∀ x ∈ xs, (Trimmed x ∧ x ≠ "") ∧ length x ≤ n := by
  obtain ⟨hk, hall⟩ := trimmedList_eq_some.1 h
  refine ⟨hk, fun x hx => ?_⟩
  obtain ⟨ht, hne, hlen⟩ := trimmed_eq_some.1 (List.forall₂_same.1 hall x hx)
  exact ⟨⟨ht.symm, hne⟩, hlen n rfl⟩

/-- Evidence the schema returned is read back from its record. -/
theorem parseEvidence_record_of_parse (h : e.parse = some e) :
    parseEvidence (some (.obj e.record)) = some e := by
  obtain ⟨reason, refs, hreason, hrefs, he⟩ := ExecutionEvidenceV1.parse_eq_some.1 h
  have hreason' : reason = e.failureReason := by rw [he]
  have hrefs' : refs = e.evidenceRefs := by rw [he]
  subst hreason' hrefs'
  obtain ⟨hlen, hclean⟩ := clean_of_trimmedList hrefs
  rw [parseEvidence_record hreason fun r hr => (hclean r hr).1,
    if_pos ⟨hlen, fun r hr => (hclean r hr).2⟩]

/-! ## What extraction returns -/

variable {v : Option Json}

theorem withDefault_eq_some {α : Type} {d x : α} {p : Schema α} (h : withDefault d p v = some x) :
    x = d ∨ p v = some x := by
  cases v with
  | none => exact .inl (Option.some.inj h).symm
  | some v => exact .inr h

theorem nullableText_of_nullable {n : Option Nat} {s : Option String}
    (h : nullable (trimmedString n) v = some s) : nullableText n s = some s := by
  cases s with
  | none => rfl
  | some t =>
    have hv : trimmedString n v = some t := by
      unfold nullable at h
      split at h
      · cases h
      · obtain ⟨u, hu, hut⟩ := Option.map_eq_some_iff.1 h
        rw [hu, Option.some.inj hut]
    unfold trimmedString at hv
    split at hv
    · rw [nullableText, trimmed_of_trimmed hv, Option.map_some]
    · cases hv

theorem trimmedList_of_array {k n : Nat} {xs : List String}
    (h : array k (trimmedString (some n)) v = some xs) : trimmedList k n xs = some xs := by
  unfold array at h
  split at h
  · next ys =>
    split at h
    · next hlen =>
      have hall := mapM_eq_some.1 h
      refine trimmedList_eq_some.2 ⟨hall.length_eq ▸ hlen, List.forall₂_same.2 fun x hx => ?_⟩
      obtain ⟨y, -, hy⟩ := exists_left_of_forall₂ hall hx
      unfold trimmedString at hy
      split at hy
      · exact trimmed_of_trimmed hy
      · cases hy
    · cases h
  · cases h

theorem parse_of_parseEvidence (h : parseEvidence v = some e) : e.parse = some e := by
  obtain ⟨record, -, h⟩ := Option.bind_eq_some_iff.1 h
  simp only [executionEvidenceV1Schema, Option.bind_eq_bind, Option.bind_eq_some_iff,
    Option.pure_def, Option.some_inj] at h
  obtain ⟨-, -, _, -, _, -, _, -, _, -, reason, hreason, _, -, refs, hrefs, rfl⟩ := h
  refine ExecutionEvidenceV1.parse_eq_some.2 ⟨reason, refs, ?_, ?_, rfl⟩
  · rcases withDefault_eq_some hreason with rfl | hreason
    · rfl
    · exact nullableText_of_nullable hreason
  · rcases withDefault_eq_some hrefs with rfl | hrefs
    · rfl
    · exact trimmedList_of_array hrefs

/-- Evidence, where there is any, has passed the schema. -/
def Checked (r : Option (Option ExecutionEvidenceV1)) : Prop :=
  ∀ e, r = some (some e) → e.parse = some e

theorem checked_orEvidence {a b : Option (Option ExecutionEvidenceV1)} (ha : Checked a)
    (hb : Checked b) : Checked (orEvidence a b) := by
  intro e h
  match a with
  | none => cases h
  | some none => exact hb e h
  | some (some e') => exact ha e h

theorem checked_parseEvidence (v : Option Json) : Checked (some (parseEvidence v)) :=
  fun _ h => parse_of_parseEvidence (Option.some.inj h)

theorem checked_evidenceIfAny (e : ExecutionEvidenceV1) : Checked (evidenceIfAny e) := by
  intro e' h
  unfold evidenceIfAny at h
  split at h
  · cases h
  · obtain ⟨u, hu, hue⟩ := Option.map_eq_some_iff.1 h
    obtain rfl := Option.some.inj hue
    exact ExecutionEvidenceV1.parse_parse hu

theorem checked_compileEvidenceFromRecord (record : Option Fields) (refs : List (Option Json)) :
    Checked (compileEvidenceFromRecord record refs) := by
  cases record with
  | none => intro e h; cases h
  | some record => exact checked_evidenceIfAny _

theorem checked_compileFirst (refs : List (Option Json)) (xs : List Json) :
    Checked (compileFirst refs xs) := by
  induction xs with
  | nil => intro e h; cases h
  | cons x xs ih => exact checked_orEvidence (checked_compileEvidenceFromRecord _ _) ih

theorem checked_compileEvidenceFromArray (v : Option Json) :
    Checked (compileEvidenceFromArray v) := by
  unfold compileEvidenceFromArray
  split
  · intro e h; cases h
  · split
    · next xs _ e he =>
      obtain ⟨x, -, hx⟩ := List.exists_of_findSome?_eq_some he
      intro e' h
      cases h
      exact parse_of_parseEvidence hx
    · exact checked_compileFirst _ _

theorem checked_metricEvidence (metrics : Option Json) : Checked (metricEvidence metrics) := by
  unfold metricEvidence
  split
  · intro e h; cases h
  · exact checked_evidenceIfAny _

theorem checked_extract (slots : Fields) (metrics : Option Json) :
    Checked (extractExecutionEvidenceFromSlots slots metrics) := by
  refine checked_orEvidence (checked_parseEvidence _) ?_
  refine checked_orEvidence (checked_parseEvidence _) ?_
  refine checked_orEvidence (checked_compileEvidenceFromRecord _ _) ?_
  refine checked_orEvidence (checked_compileEvidenceFromRecord _ _) ?_
  refine checked_orEvidence (checked_compileEvidenceFromArray _) ?_
  exact checked_orEvidence (checked_compileEvidenceFromArray _) (checked_metricEvidence _)

theorem orEvidence_none (a : Option (Option ExecutionEvidenceV1)) :
    orEvidence a (some none) = a := by
  match a with
  | none => rfl
  | some none => rfl
  | some (some e) => rfl

end AionisCore.Memory
