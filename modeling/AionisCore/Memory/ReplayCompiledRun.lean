import AionisCore.Memory.ReplayCompile
import AionisCore.Memory.ReplayConsent

/-!
# Replaying a compiled run

A compiled step is replayed by the command line that `parseStepArgv` reads from its tool input.
The enrichments leave it alone, and a replay that lets every step pass hands out one command
line a step, so the recorded arguments are executed just if the parser leaves them as they are.
-/

namespace AionisCore.Memory

open Lib Lib.JsString Store

/-! ## Argument lists -/

variable {α : Type} {xs : List α}

theorem filterMap_eq_self {f : α → Option α} : xs.filterMap f = xs ↔ ∀ x ∈ xs, f x = some x := by
  induction xs with
  | nil => exact iff_of_true rfl nofun
  | cons x xs ih =>
    rw [List.forall_mem_cons, ← ih]
    cases hx : f x with
    | none =>
      rw [List.filterMap_cons_none hx]
      refine iff_of_false (fun h => ?_) nofun
      have hlen := List.length_filterMap_le f xs
      rw [h, List.length_cons] at hlen
      omega
    | some y => rw [List.filterMap_cons_some hx, List.cons.injEq, Option.some.injEq]

theorem toStringOrNull_eq_self {s : String} :
    Store.toStringOrNull (some (.str s)) = some s ↔ Plain s := by
  unfold Store.toStringOrNull Plain Trimmed
  dsimp only
  by_cases h : trim s = ""
  · rw [if_neg (not_not.2 h)]
    refine iff_of_false nofun fun ⟨htrim, hne⟩ => hne (htrim.symm.trans h)
  · rw [if_pos h, Option.some.injEq]
    exact ⟨fun htrim => ⟨htrim, fun hempty => h (htrim.trans hempty)⟩, And.left⟩

theorem asStringArray_strings {argv : List String} :
    asStringArray (some (.arr (argv.map .str))) =
      argv.filterMap fun s => Store.toStringOrNull (some (.str s)) := by
  unfold asStringArray
  rw [Json.asArray, Option.getD_some, List.filterMap_map]
  rfl

theorem asStringArray_eq_self {argv : List String} :
    asStringArray (some (.arr (argv.map .str))) = argv ↔ ∀ a ∈ argv, Plain a := by
  rw [asStringArray_strings, filterMap_eq_self]
  exact forall₂_congr fun _ _ => toStringOrNull_eq_self

/-- The argument list of a tool input. -/
def toolArgv (toolInput : Option Json) : List String :=
  Json.textsOf (Json.field (Json.asRecord toolInput) "argv")

theorem textsOf_strings {argv : List String} :
    Json.textsOf (some (.arr (argv.map .str))) = argv := by
  unfold Json.textsOf
  rw [Json.asArray, Option.getD_some, List.filterMap_map]
  exact filterMap_eq_self.2 fun _ _ => rfl

theorem plain_of_toStringOrNull {v : Option Json} {s : String}
    (h : Store.toStringOrNull v = some s) :
    Plain s := by
  unfold Store.toStringOrNull at h
  split at h
  · split at h
    · next hne =>
      obtain rfl := Option.some.inj h
      exact ⟨trimmed_trim _, hne⟩
    · cases h
  · cases h

theorem plain_of_mem_asStringArray {v : Option Json} {s : String} (h : s ∈ asStringArray v) :
    Plain s := by
  obtain ⟨_, -, hs⟩ := List.mem_filterMap.1 h
  exact plain_of_toStringOrNull hs

/-- Every command line is plain. -/
theorem plain_of_mem_parseStepArgv {stepObj : Json.Fields} {toolName : Option String} {a : String}
    (h : a ∈ parseStepArgv stepObj toolName) : Plain a := by
  unfold parseStepArgv at h
  dsimp only at h
  split at h
  · exact plain_of_mem_asStringArray h
  · split at h
    · exact absurd h List.not_mem_nil
    · next command hcommand =>
      obtain rfl | h := List.mem_cons.1 h
      · obtain hgiven | ⟨-, hbash⟩ := Option.or_eq_some_iff.1 hcommand
        · exact plain_of_toStringOrNull hgiven
        · split at hbash
          · obtain rfl := Option.some.inj hbash
            decide
          · cases hbash
      · exact plain_of_mem_asStringArray h

variable {fields : Json.Fields}

/-- Where the parser finds a command line at all, it is the recorded one just if that has plain
arguments, and one at least. -/
theorem parseStepArgv_eq_recorded {stepObj : Json.Fields} {toolName : Option String}
    {argv : List String} (htemplate : Json.get stepObj "tool_input_template" = some (.obj fields))
    (hargv : Json.get fields "argv" = some (.arr (argv.map .str)))
    (hne : parseStepArgv stepObj toolName ≠ []) :
    parseStepArgv stepObj toolName = argv ↔ argv ≠ [] ∧ ∀ a ∈ argv, Plain a := by
  constructor
  · intro heq
    exact ⟨heq ▸ hne, fun a ha => plain_of_mem_parseStepArgv (heq.symm ▸ ha)⟩
  · rintro ⟨hargvNe, hplain⟩
    unfold parseStepArgv
    rw [htemplate, Json.asRecord, Option.some_or, Option.getD_some]
    dsimp only
    rw [hargv, asStringArray_eq_self.2 hplain, if_pos hargvNe]

/-! ## Enriched steps -/

variable {k : String}

theorem replayArgv_congr {step step' : Json.Fields}
    (h : ∀ k ∈ ["tool_input_template", "tool_input", "tool_name"],
      Json.get step k = Json.get step' k) : replayArgv step = replayArgv step' := by
  have htemplate := h "tool_input_template" (by decide)
  have hinput := h "tool_input" (by decide)
  have hname := h "tool_name" (by decide)
  unfold replayArgv replayToolName parseStepArgv
  rw [htemplate, hinput, hname]

theorem replayArgv_set {step : Json.Fields} {v : Json}
    (h : k ∉ ["tool_input_template", "tool_input", "tool_name"]) :
    replayArgv (Json.set step k v) = replayArgv step :=
  replayArgv_congr fun _ hk' => Json.get_set_of_ne fun heq => h (heq ▸ hk')

section Enrich

variable {host : RuleHost} {localeCompare : String → String → Int}

theorem enrichVariables_argv {steps : List Json.Fields} :
    (enrichReplayCompileStepsWithVariables host localeCompare steps).map replayArgv =
      steps.map replayArgv := by
  unfold enrichReplayCompileStepsWithVariables
  dsimp only
  rw [List.map_map]
  refine List.map_congr_left fun step _ => ?_
  dsimp only [Function.comp_apply]
  split
  · rfl
  · split
    · rfl
    · exact replayArgv_set (by decide)

theorem enrichQuality_argv {steps : List Json.Fields} :
    (enrichReplayCompileStepsWithQuality steps).map replayArgv = steps.map replayArgv := by
  unfold enrichReplayCompileStepsWithQuality
  rw [List.map_map]
  refine List.map_congr_left fun step _ => ?_
  exact (replayArgv_set (by decide)).trans (replayArgv_set (by decide))

end Enrich

/-! ## Steps that are left out -/

theorem get_orderedInsert {f : String × Json} :
    Json.get (fields.orderedInsert (fun f g => ¬ units g.1 < units f.1) f) k =
      Json.get (f :: fields) k := by
  induction fields with
  | nil => rfl
  | cons g fields ih =>
    by_cases h : units g.1 < units f.1
    · have hne : g.1 ≠ f.1 := fun heq => List.lt_irrefl _ (heq ▸ h)
      rw [List.orderedInsert_cons, if_neg (not_not.2 h), Json.get_cons, ih, Json.get_cons,
        Json.get_cons, Json.get_cons]
      by_cases hk : k = g.1
      · rw [if_pos hk, if_neg fun heq => hne (hk.symm.trans heq), if_pos hk]
      · rw [if_neg hk, if_neg hk]
    · rw [List.orderedInsert_cons, if_pos h]

theorem get_sortFields : Json.get (sortFields fields) k = Json.get fields k := by
  unfold sortFields
  induction fields with
  | nil => rfl
  | cons f fields ih =>
    rw [List.insertionSort_cons, get_orderedInsert, Json.get_cons, Json.get_cons, ih]

theorem get_canonicalizeFields :
    Json.get (canonicalizeFields fields) k =
      (Json.get fields k).map canonicalizeJsonForFingerprint := by
  induction fields with
  | nil => rfl
  | cons f fields ih =>
    rw [canonicalizeFields, canonicalizeField, Json.get_cons, Json.get_cons, ih]
    split <;> rfl

/-- Objects of one text have fields of one text. -/
theorem get_of_canonical_eq {r r' : Json.Fields}
    (h : canonicalizeJsonForFingerprint (.obj r) = canonicalizeJsonForFingerprint (.obj r'))
    (k : String) :
    (Json.get r k).map canonicalizeJsonForFingerprint =
      (Json.get r' k).map canonicalizeJsonForFingerprint := by
  rw [canonicalizeJsonForFingerprint, canonicalizeJsonForFingerprint, Json.obj.injEq] at h
  rw [← get_canonicalizeFields, ← get_canonicalizeFields, ← get_sortFields, h, get_sortFields]

/-- The same value, whatever the order of its keys. -/
def SameJson (v w : Json) : Prop :=
  canonicalizeJsonForFingerprint v = canonicalizeJsonForFingerprint w

section Same

variable (step : Json.Fields)

def compiledInput : Json := (Json.orElse (Json.get step "tool_input_template") none).getD (.obj [])

def compiledSignature : Json :=
  (Json.orElse (Json.get step "expected_output_signature") none).getD .null

def compiledConditions (name : String) : Json := .arr ((Json.asArray (Json.get step name)).getD [])

end Same

/-- One tool, input, expectations and outcome; both steps succeeded and were not repaired. -/
structure SameReplayStep (last step : Json.Fields) : Prop where
  toolName : replayToolName last = replayToolName step
  toolInput : SameJson (compiledInput last) (compiledInput step)
  signature : SameJson (compiledSignature last) (compiledSignature step)
  preconditions :
    SameJson (compiledConditions last "preconditions") (compiledConditions step "preconditions")
  postconditions :
    SameJson (compiledConditions last "postconditions") (compiledConditions step "postconditions")
  safetyLevel : replaySafetyLevel last = replaySafetyLevel step
  success : compiledOutcome last = "success" ∧ compiledOutcome step = "success"
  unrepaired : compiledRepair last = false ∧ compiledRepair step = false

@[simp] theorem canonicalize_str {s : String} :
    canonicalizeJsonForFingerprint (.str s) = .str s := by
  simp [canonicalizeJsonForFingerprint]

theorem orNull_of_canonical_eq {o o' : Option String}
    (h : canonicalizeJsonForFingerprint (Json.orNull o) =
      canonicalizeJsonForFingerprint (Json.orNull o')) : o = o' := by
  cases o with
  | none =>
    cases o' with
    | none => rfl
    | some s' => cases h
  | some s =>
    cases o' with
    | none => cases h
    | some s' =>
      simp only [Json.orNull, Option.map_some, Option.getD_some, canonicalize_str,
        Json.str.injEq] at h
      rw [h]

theorem sameReplayStep_of_canDrop {last step : Json.Fields}
    (h : canDropAsDuplicate last step = true) : SameReplayStep last step := by
  unfold canDropAsDuplicate at h
  simp only [Bool.and_eq_true, decide_eq_true_eq, Bool.not_eq_true'] at h
  obtain ⟨⟨⟨hfingerprint, hsuccess⟩, hstep⟩, hlast⟩ := h
  have hget := get_of_canonical_eq hfingerprint
  have htext : ∀ s s' : String, some (canonicalizeJsonForFingerprint (.str s)) =
      some (canonicalizeJsonForFingerprint (.str s')) → s = s' := by
    intro s s' heq
    rw [canonicalize_str, canonicalize_str, Option.some.injEq, Json.str.injEq] at heq
    exact heq
  have houtcome := htext _ _ (hget "last_outcome")
  exact {
    toolName := orNull_of_canonical_eq (Option.some.inj (hget "tool_name"))
    toolInput := Option.some.inj (hget "tool_input_template")
    signature := Option.some.inj (hget "expected_output_signature")
    preconditions := Option.some.inj (hget "preconditions")
    postconditions := Option.some.inj (hget "postconditions")
    safetyLevel := htext _ _ (hget "safety_level")
    success := ⟨houtcome.trans hsuccess, hsuccess⟩
    unrepaired := ⟨hlast, hstep⟩ }

/-! ## Order -/

theorem orderedInsert_sorted {le : α → α → Prop} [DecidableRel le] {f : α → ℚ} {a : α}
    (hle : ∀ b ∈ xs, (le a b → f a ≤ f b) ∧ (¬ le a b → f b ≤ f a))
    (hxs : xs.Pairwise fun b c => f b ≤ f c) :
    (xs.orderedInsert le a).Pairwise fun b c => f b ≤ f c := by
  induction xs with
  | nil => exact List.pairwise_singleton _ _
  | cons b xs ih =>
    obtain ⟨hb, hxs'⟩ := List.pairwise_cons.1 hxs
    obtain ⟨hbefore, hafter⟩ := hle b List.mem_cons_self
    by_cases h : le a b
    · rw [List.orderedInsert_cons, if_pos h]
      refine List.pairwise_cons.2 ⟨fun c hc => ?_, hxs⟩
      obtain rfl | hc := List.mem_cons.1 hc
      · exact hbefore h
      · exact (hbefore h).trans (hb c hc)
    · rw [List.orderedInsert_cons, if_neg h]
      have htail := ih (fun c hc => hle c (List.mem_cons_of_mem _ hc)) hxs'
      refine List.pairwise_cons.2 ⟨fun c hc => ?_, htail⟩
      obtain rfl | hc := List.mem_cons.1 ((List.perm_orderedInsert le a xs).mem_iff.1 hc)
      · exact hafter h
      · exact hb c hc

theorem insertionSort_sorted {le : α → α → Prop} [DecidableRel le] {f : α → ℚ}
    (hle : ∀ a ∈ xs, ∀ b ∈ xs, (le a b → f a ≤ f b) ∧ (¬ le a b → f b ≤ f a)) :
    (xs.insertionSort le).Pairwise fun b c => f b ≤ f c := by
  induction xs with
  | nil => exact .nil
  | cons a xs ih =>
    rw [List.insertionSort_cons]
    refine orderedInsert_sorted (fun b hb => ?_) (ih fun b hb c hc =>
      hle b (List.mem_cons_of_mem _ hb) c (List.mem_cons_of_mem _ hc))
    exact hle a List.mem_cons_self b
      (List.mem_cons_of_mem _ ((List.perm_insertionSort le xs).mem_iff.1 hb))

/-- What the record of a step holds: a number as its index, and a list of arguments. -/
structure RecordedStep (row : ReplayNodeRow) : Prop where
  stepIndex : ∃ q, Json.get (replaySlots row) "step_index" = some (.num q)
  argv : ∃ fields, ∃ argv : List String,
    Json.get (replaySlots row) "tool_input" = some (.obj fields) ∧
    Json.get fields "argv" = some (.arr (argv.map .str))

def recordedIndex (row : ReplayNodeRow) : ℚ :=
  match Json.get (replaySlots row) "step_index" with
  | some (.num q) => q
  | _ => 0

theorem sortStepRows_sorted {host : RuleHost} {localeCompare : String → String → Int}
    {rows : List ReplayNodeRow} (hrows : ∀ row ∈ ofKind "step" rows, RecordedStep row) :
    (sortStepRows host localeCompare rows).Pairwise fun a b =>
      recordedIndex a ≤ recordedIndex b := by
  refine insertionSort_sorted fun a ha b hb => ?_
  obtain ⟨p, hp⟩ := (hrows a ha).stepIndex
  obtain ⟨q, hq⟩ := (hrows b hb).stepIndex
  have hindex : ∀ {row : ReplayNodeRow} {r : ℚ},
      Json.get (replaySlots row) "step_index" = some (.num r) →
        rowStepIndex host row = .finite r ∧ recordedIndex row = r := by
    intro row r hr
    unfold rowStepIndex recordedIndex
    rw [hr]
    exact ⟨rfl, rfl⟩
  unfold stepRowLe
  rw [(hindex hp).1, (hindex hq).1, (hindex hp).2, (hindex hq).2]
  by_cases heq : p = q
  · exact ⟨fun _ => heq.le, fun _ => heq.ge⟩
  · have hequals : (JsNumber.finite p).equals (JsNumber.finite q) ≠ true := by
      simpa [JsNumber.equals] using heq
    rw [if_neg hequals]
    simp only [JsNumber.sortsBefore, decide_eq_true_eq]
    exact ⟨id, fun h => (not_le.1 h).le⟩

/-! ## Runs whose steps all pass -/

section Run

variable {σ : Type} {host : RuleHost} {cfg : ReplayRunConfig} {recorder : ReplayRecorder σ}
  {worlds : Nat → ReplayWorld}

theorem replaySteps_raised {s : ReplayRunState σ} {error : RequestError} (steps : List Json)
    (h : s.status = .raised error) : replaySteps host cfg recorder worlds s steps = s := by
  induction steps with
  | nil => rfl
  | cons step steps ih =>
    have hstep : s.step host cfg recorder worlds step = s := by
      unfold ReplayRunState.step
      rw [h]
    unfold replaySteps
    rw [List.foldl_cons, hstep]
    exact ih

/-- A step that passes hands out its command line, and the run goes on. -/
theorem step_of_passed {s : ReplayRunState σ} {step : Json} (hrunning : s.status = .running)
    (hpassed : ReplayStepPassed host cfg (worlds s.reports.length) (replayStepObj step))
    (hreturns : ∀ error, (s.step host cfg recorder worlds step).status ≠ .raised error) :
    (s.step host cfg recorder worlds step).status = .running ∧
      (s.step host cfg recorder worlds step).reports.length = s.reports.length + 1 ∧
      (s.step host cfg recorder worlds step).handed =
        s.handed ++ [(s.reports.length, replayArgv (replayStepObj step))] := by
  have hstep : s.step host cfg recorder worlds step =
      s.process host cfg recorder (worlds s.reports.length) (replayStepObj step) := by
    unfold ReplayRunState.step
    rw [hrunning]
  have hout : s.HandsOut host cfg recorder worlds step := by
    refine ⟨hrunning, ?_, hpassed.1⟩
    cases hbegun : recordStepBefore host cfg recorder s.store (replayStepObj step) with
    | ok begun => exact ⟨begun, rfl⟩
    | error error =>
      refine absurd ?_ (hreturns error)
      rw [hstep]
      unfold ReplayRunState.process
      rw [hbegun]
  obtain ⟨error, herror⟩ | ⟨handled, executed, hfits, hreported⟩ :=
    @process_cases _ host cfg recorder (worlds s.reports.length) s (replayStepObj step)
  · exact absurd (hstep ▸ herror) (hreturns error)
  · refine ⟨?_, ?_, step_handed_of_handsOut hout⟩
    · have hstop : handled.stop = false := by
        rw [← Bool.not_eq_true, hfits.stop]
        exact fun h => h.2.1 (hfits.success.2 hpassed)
      rw [hstep, hreported.status, hstop, if_neg Bool.false_ne_true]
    · rw [hstep, hreported.reports, List.length_append, List.length_singleton]

theorem handed_of_passed {s : ReplayRunState σ} {steps : List Json} (hrunning : s.status = .running)
    (hpassed : ∀ i step, steps[i]? = some step →
      ReplayStepPassed host cfg (worlds (s.reports.length + i)) (replayStepObj step))
    (hreturns : ∀ error, (replaySteps host cfg recorder worlds s steps).status ≠ .raised error) :
    (replaySteps host cfg recorder worlds s steps).handed.map (·.2) =
      s.handed.map (·.2) ++ steps.map fun step => replayArgv (replayStepObj step) := by
  induction steps generalizing s with
  | nil => exact (List.append_nil _).symm
  | cons step steps ih =>
    have hstep : ∀ error, (s.step host cfg recorder worlds step).status ≠ .raised error := by
      intro error herror
      exact hreturns error ((congrArg ReplayRunState.status
        (replaySteps_raised steps herror)).trans herror)
    obtain ⟨hrunning', hreports, hhanded⟩ :=
      step_of_passed hrunning (hpassed 0 step rfl) hstep
    have htail := ih hrunning' (fun i step' hstep' => by
      rw [hreports, Nat.add_assoc, Nat.add_comm 1 i]
      exact hpassed (i + 1) step' hstep') hreturns
    rw [hhanded, List.map_append, List.append_assoc] at htail
    exact htail

end Run

/-! ## Compiled runs -/

/-- The arguments that were recorded for a step. -/
def recordedArgv (step : Json.Fields) : List String :=
  toolArgv (Json.get step "tool_input_template")

theorem textsOf_canonicalizeList {xs : List Json} :
    (canonicalizeList xs).filterMap (Json.textOf ∘ some) = xs.filterMap (Json.textOf ∘ some) := by
  induction xs with
  | nil => rfl
  | cons x xs ih =>
    have hx : Json.textOf (some (canonicalizeJsonForFingerprint x)) = Json.textOf (some x) := by
      cases x <;> simp [canonicalizeJsonForFingerprint, Json.textOf]
    rw [canonicalizeList, List.filterMap_cons, List.filterMap_cons, ih]
    simp only [Function.comp_apply, hx]

/-- The order of keys has no part in the arguments. -/
theorem toolArgv_canonicalize {v : Json} :
    toolArgv (some (canonicalizeJsonForFingerprint v)) = toolArgv (some v) := by
  cases v with
  | obj fields =>
    unfold toolArgv
    rw [canonicalizeJsonForFingerprint, Json.asRecord, Json.asRecord, Json.field, Json.field,
      Option.bind_some, Option.bind_some, get_sortFields, get_canonicalizeFields]
    unfold Json.textsOf
    cases Json.get fields "argv" with
    | none => rfl
    | some w =>
      cases w with
      | arr xs =>
        simpa [canonicalizeJsonForFingerprint, Json.asArray] using textsOf_canonicalizeList
      | obj _ => simp [canonicalizeJsonForFingerprint, Json.asArray]
      | null => simp [canonicalizeJsonForFingerprint, Json.asArray]
      | bool _ => simp [canonicalizeJsonForFingerprint, Json.asArray]
      | num _ => simp [canonicalizeJsonForFingerprint, Json.asArray]
      | str _ => simp [canonicalizeJsonForFingerprint, Json.asArray]
  | arr xs => simp [canonicalizeJsonForFingerprint, toolArgv, Json.asRecord]
  | null => simp [canonicalizeJsonForFingerprint]
  | bool _ => simp [canonicalizeJsonForFingerprint]
  | num _ => simp [canonicalizeJsonForFingerprint]
  | str _ => simp [canonicalizeJsonForFingerprint]

theorem recordedArgv_eq_input {step : Json.Fields} :
    recordedArgv step = toolArgv (some (compiledInput step)) := by
  unfold recordedArgv compiledInput
  cases Json.get step "tool_input_template" with
  | none => rfl
  | some v => cases v <;> rfl

theorem SameReplayStep.argv {last step : Json.Fields} (h : SameReplayStep last step) :
    recordedArgv last = recordedArgv step := by
  rw [recordedArgv_eq_input, recordedArgv_eq_input, ← toolArgv_canonicalize, h.toolInput,
    toolArgv_canonicalize]

/-- The arguments of a row. -/
def rowArgv (row : ReplayNodeRow) : List String :=
  toolArgv (Json.get (replaySlots row) "tool_input")

section Compiled

variable {host : RuleHost} {localeCompare : String → String → Int} {rows : List ReplayNodeRow}

theorem dedupe_steps {steps : List Json.Fields} :
    (dedupeReplayCompileSteps host steps).steps = dropRepeats canDropAsDuplicate none steps := rfl

/-- Leaving out repetitions once is enough. -/
theorem dedupe_dedupe (steps : List Json.Fields) :
    (dedupeReplayCompileSteps host (dedupeReplayCompileSteps host steps).steps).steps =
      (dedupeReplayCompileSteps host steps).steps := by
  rw [dedupe_steps, dedupe_steps]
  exact dropRepeats_dropRepeats

theorem mem_compiledSteps {step : Json.Fields} (h : step ∈ compiledSteps host localeCompare rows) :
    ∃ row ∈ ofKind "step" rows, step = compileStep host rows row := by
  have hraw : step ∈ rawStepsTemplate host localeCompare rows := dropRepeats_sublist.subset h
  obtain ⟨row, hrow, rfl⟩ := List.mem_map.1 hraw
  exact ⟨row, (List.perm_insertionSort _ _).mem_iff.1 hrow, rfl⟩

theorem replayArgv_eq_recorded {step : Json.Fields}
    (hrows : ∀ row ∈ ofKind "step" rows, RecordedStep row)
    (hstep : step ∈ compiledSteps host localeCompare rows) (hne : replayArgv step ≠ []) :
    replayArgv step = recordedArgv step ↔
      recordedArgv step ≠ [] ∧ ∀ a ∈ recordedArgv step, Plain a := by
  obtain ⟨row, hrow, rfl⟩ := mem_compiledSteps hstep
  obtain ⟨fields, argv, hinput, hargv⟩ := (hrows row hrow).argv
  have htemplate : Json.get (compileStep host rows row) "tool_input_template" =
      some (.obj fields) := by
    unfold compileStep
    dsimp only
    rw [hinput]
    rfl
  have hrecorded : recordedArgv (compileStep host rows row) = argv := by
    unfold recordedArgv toolArgv
    rw [htemplate, Json.asRecord, Json.field, Option.bind_some, hargv]
    exact textsOf_strings
  rw [hrecorded]
  exact parseStepArgv_eq_recorded htemplate hargv hne

theorem recordedArgv_compileStep (row : ReplayNodeRow) :
    recordedArgv (compileStep host rows row) = rowArgv row := by
  unfold recordedArgv rowArgv compileStep
  dsimp only
  cases Json.get (replaySlots row) "tool_input" with
  | none => rfl
  | some v => cases v <;> rfl

/-- The steps that are left say the same of the arguments as all steps. -/
theorem forall_compiledSteps_iff {P : List String → Prop} :
    (∀ step ∈ compiledSteps host localeCompare rows, P (recordedArgv step)) ↔
      ∀ row ∈ ofKind "step" rows, P (rowArgv row) := by
  have homits : Omits SameReplayStep none (rawStepsTemplate host localeCompare rows)
      (compiledSteps host localeCompare rows) :=
    dropRepeats_omits fun _ _ => sameReplayStep_of_canDrop
  have hsame : ∀ last step, SameReplayStep last step → P (recordedArgv last) →
      P (recordedArgv step) := by
    intro last step h hlast
    rw [← h.argv]
    exact hlast
  rw [homits.forall_iff (P := fun step => P (recordedArgv step)) hsame nofun]
  unfold rawStepsTemplate
  rw [List.forall_mem_map]
  constructor
  · intro h row hrow
    rw [← @recordedArgv_compileStep host rows row]
    exact h row ((List.perm_insertionSort _ _).mem_iff.2 hrow)
  · intro h row hrow
    rw [recordedArgv_compileStep]
    exact h row ((List.perm_insertionSort _ _).mem_iff.1 hrow)

theorem compile_eq_ok {db : LiteReplayDb} {t : TenantScope} {visibility : ReplayVisibilityArgs}
    {runId : String} {allowPartial : Bool} {template : List Json.Fields}
    (hcompile : replayPlaybookCompileFromRun host localeCompare db t visibility runId
      allowPartial = .ok template)
    (hrows : replayPlaybookCompileRows db t visibility runId = .ok rows) :
    template.map replayArgv = (compiledSteps host localeCompare rows).map replayArgv := by
  unfold replayPlaybookCompileFromRun at hcompile
  obtain ⟨rows', hrows', hcompile⟩ := bind_eq_ok.1 hcompile
  obtain rfl := Except.ok.inj (hrows.symm.trans hrows')
  split at hcompile
  · cases hcompile
  · split at hcompile
    · cases hcompile
    · obtain rfl := Except.ok.inj hcompile
      rw [enrichQuality_argv, enrichVariables_argv]

end Compiled

section Replayed

variable {σ : Type} {host : RuleHost} {localeCompare : String → String → Int}
  {rows : List ReplayNodeRow} {db : LiteReplayDb} {t : TenantScope}
  {visibility : ReplayVisibilityArgs} {runId : String} {allowPartial : Bool}
  {template : List Json.Fields} {cfg : ReplayRunConfig} {recorder : ReplayRecorder σ}
  {worlds : Nat → ReplayWorld} {stableJson : Json → String} {opts : ReplayPlaybookRunOptions}
  {input : ReplayPlaybookRunInput} {store : σ} {s : ReplayRunState σ}

/-- What compiling a run and replaying the playbook do, up to the arguments. -/
structure CompiledInOrder (host : RuleHost) (localeCompare : String → String → Int)
    (rows : List ReplayNodeRow) : Prop where
  /-- The steps of the run, by their index. -/
  steps : (sortStepRows host localeCompare rows).Perm (ofKind "step" rows)
  ordered : (sortStepRows host localeCompare rows).Pairwise fun a b =>
    recordedIndex a ≤ recordedIndex b
  /-- A step is left out only behind one like it. -/
  omits : Omits SameReplayStep none (rawStepsTemplate host localeCompare rows)
    (compiledSteps host localeCompare rows)
  idempotent : ∀ steps : List Json.Fields,
    (dedupeReplayCompileSteps host (dedupeReplayCompileSteps host steps).steps).steps =
      (dedupeReplayCompileSteps host steps).steps

theorem compiledInOrder (hrecorded : ∀ row ∈ ofKind "step" rows, RecordedStep row) :
    CompiledInOrder host localeCompare rows where
  steps := List.perm_insertionSort _ _
  ordered := sortStepRows_sorted hrecorded
  omits := dropRepeats_omits fun _ _ => sameReplayStep_of_canDrop
  idempotent := dedupe_dedupe

theorem stepsRaw_of_template
    (hplaybook : Json.get input.slots "steps_template" = some (.arr (template.map .obj))) :
    (input.stepsRaw.map fun step => replayArgv (replayStepObj step)) =
      (template.map replayArgv).take input.maxSteps := by
  unfold ReplayPlaybookRunInput.stepsRaw
  rw [hplaybook, Json.asArray, Option.getD_some, ← List.map_take, List.map_map, ← List.map_take]
  rfl

/-- A compiled run is replayed with the arguments that were recorded, just if they are plain: those
of the steps that are replayed, and those of all steps where all are replayed. -/
theorem compiled_run_executes_iff
    (hrows : replayPlaybookCompileRows db t visibility runId = .ok rows)
    (hrecorded : ∀ row ∈ ofKind "step" rows, RecordedStep row)
    (hcompile : replayPlaybookCompileFromRun host localeCompare db t visibility runId
      allowPartial = .ok template)
    (hplaybook : Json.get input.slots "steps_template" = some (.arr (template.map .obj)))
    (hreturns : replayPlaybookRunFound host recorder worlds stableJson opts input store =
      .ok (some (cfg, s)))
    (hpassed : ∀ i step, input.stepsRaw[i]? = some step →
      ReplayStepPassed host cfg (worlds i) (replayStepObj step)) :
    CompiledInOrder host localeCompare rows ∧
      (s.handed.map (·.2) =
          ((compiledSteps host localeCompare rows).take input.maxSteps).map recordedArgv ↔
        ∀ step ∈ (compiledSteps host localeCompare rows).take input.maxSteps,
          recordedArgv step ≠ [] ∧ ∀ a ∈ recordedArgv step, Plain a) ∧
      ((compiledSteps host localeCompare rows).length ≤ input.maxSteps →
        (s.handed.map (·.2) = (compiledSteps host localeCompare rows).map recordedArgv ↔
          ∀ row ∈ ofKind "step" rows, rowArgv row ≠ [] ∧ ∀ a ∈ rowArgv row, Plain a)) := by
  obtain ⟨-, rfl, hstatus⟩ := replayPlaybookRunFound_eq_some host recorder worlds hreturns
  have hsteps : (input.stepsRaw.map fun step => replayArgv (replayStepObj step)) =
      ((compiledSteps host localeCompare rows).take input.maxSteps).map replayArgv := by
    rw [stepsRaw_of_template hplaybook, compile_eq_ok hcompile hrows, List.map_take]
  have hhanded : (replayRun host cfg recorder worlds store input.stepsRaw).handed.map (·.2) =
      ((compiledSteps host localeCompare rows).take input.maxSteps).map replayArgv := by
    obtain ⟨error, -, hraised⟩ | ⟨start, -, hhanded, -, -, hstatus'⟩ :=
      replayRun_eq host cfg recorder worlds store input.stepsRaw
    · exact absurd (congrArg ReplayRunState.status hraised) (hstatus error)
    · obtain ⟨error, herror⟩ | hstatus' := hstatus'
      · exact absurd herror (hstatus error)
      · rw [hhanded, handed_of_passed rfl (fun i step hstep => by
          rw [show ([] : List ReplayStepReport).length + i = i from Nat.zero_add i]
          exact hpassed i step hstep) fun error herror => hstatus error (hstatus'.trans herror)]
        exact hsteps
  have hne : ∀ step ∈ (compiledSteps host localeCompare rows).take input.maxSteps,
      replayArgv step ≠ [] := by
    intro step hstep hnil
    have hmem : ([] : List String) ∈ input.stepsRaw.map fun step =>
        replayArgv (replayStepObj step) := by
      rw [hsteps]
      exact List.mem_map.2 ⟨step, hstep, hnil⟩
    obtain ⟨raw, hraw, hempty⟩ := List.mem_map.1 hmem
    obtain ⟨i, hi⟩ := List.mem_iff_getElem?.1 hraw
    have hgate := (replayStepGate_eq_none.1 (hpassed i raw hi).1).2.2.2.1
    exact (commandAllowlistGate_eq_none.1 hgate).1 hempty
  have hiff : (replayRun host cfg recorder worlds store input.stepsRaw).handed.map (·.2) =
        ((compiledSteps host localeCompare rows).take input.maxSteps).map recordedArgv ↔
      ∀ step ∈ (compiledSteps host localeCompare rows).take input.maxSteps,
        recordedArgv step ≠ [] ∧ ∀ a ∈ recordedArgv step, Plain a := by
    rw [hhanded, List.map_inj_left]
    exact forall₂_congr fun step hstep =>
      replayArgv_eq_recorded hrecorded (List.mem_of_mem_take hstep) (hne step hstep)
  refine ⟨compiledInOrder hrecorded, hiff, fun hlength => ?_⟩
  rw [List.take_of_length_le hlength] at hiff
  rw [hiff]
  exact forall_compiledSteps_iff (P := fun argv => argv ≠ [] ∧ ∀ a ∈ argv, Plain a)

end Replayed

/-! ## A recorded run of one step -/

def isRecordedStep (row : ReplayNodeRow) : Bool :=
  match Json.get (replaySlots row) "step_index", Json.get (replaySlots row) "tool_input" with
  | some (.num _), some (.obj fields) =>
    Json.get fields "argv" = some (.arr ((toolArgv (some (.obj fields))).map .str))
  | _, _ => false

theorem recordedStep_of_isRecordedStep {row : ReplayNodeRow} (h : isRecordedStep row = true) :
    RecordedStep row := by
  unfold isRecordedStep at h
  split at h
  · next q fields hindex hinput =>
    exact ⟨⟨q, hindex⟩, fields, toolArgv (some (.obj fields)), hinput, of_decide_eq_true h⟩
  · cases h

def sampleRunId : String := "00000000-0000-4000-8000-000000000001"

def sampleStepId : String := "00000000-0000-4000-8000-000000000002"

def replayRow (nodeId kind createdAt : String) (fields : Json.Fields) : LiteReplayRow where
  nodeId
  scope := "default"
  replayKind := kind
  runId := some sampleRunId
  nodeType := "event"
  slotsJson := .obj (("replay_kind", .str kind) :: fields)
  memoryLane := .sharedLane
  createdAt
  updatedAt := createdAt

/-- The rows of a successful run of one command line. -/
def recordedRun (argv : List String) : LiteReplayDb where
  rows := [
    replayRow "run" "run" "2026-01-01T00:00:00.000Z" [],
    replayRow "step" "step" "2026-01-01T00:00:01.000Z" [
      ("step_id", .str sampleStepId),
      ("step_index", .num 1),
      ("tool_name", .str "command"),
      ("tool_input", .obj [("argv", .arr (argv.map .str))]),
      ("safety_level", .str "auto_ok")],
    replayRow "result" "step_result" "2026-01-01T00:00:02.000Z" [
      ("step_id", .str sampleStepId),
      ("status", .str "success")],
    replayRow "end" "run_end" "2026-01-01T00:00:03.000Z" [("status", .str "success")]]
  primaryKey := show ["run", "step", "result", "end"].Nodup by decide

def defaultTenancy : TenantScope := ⟨"default", "default", "default"⟩

/-- A strict run of a compiled template. -/
def templateInput (template : List Json.Fields) : ReplayPlaybookRunInput :=
  { strictInput .null with slots := [("steps_template", .arr (template.map .obj))] }

/-- The recorded command line is compiled, replayed with success and executed as these lists. -/
def ReplayedAs (argv : List String) (executed : List (List String)) : Prop :=
  ∃ rows template cfg s,
    replayPlaybookCompileRows (recordedRun argv) defaultTenancy ⟨none, none⟩ sampleRunId =
      .ok rows ∧
    (∀ row ∈ ofKind "step" rows, RecordedStep row) ∧
    replayPlaybookCompileFromRun sampleRuleHost (fun _ _ => 0) (recordedRun argv) defaultTenancy
      ⟨none, none⟩ sampleRunId false = .ok template ∧
    replayPlaybookRunFound sampleRuleHost silentRecorder (fun _ => sampleWorld) (fun _ => "")
      (serverOptions [argv.head?.getD ""]) (templateInput template) () = .ok (some (cfg, s)) ∧
    replayRunStatus cfg s.counters = .success ∧
    s.handed.map (·.2) = executed ∧
    (compiledSteps sampleRuleHost (fun _ _ => 0) rows).map recordedArgv = [argv]

/-- The same, computed. -/
def replaysAs (argv : List String) (executed : List (List String)) : Bool :=
  (replayPlaybookCompileRows (recordedRun argv) defaultTenancy ⟨none, none⟩
      sampleRunId).toOption.any fun rows =>
    (ofKind "step" rows).all isRecordedStep &&
    (compiledSteps sampleRuleHost (fun _ _ => 0) rows).map recordedArgv = [argv] &&
    (replayPlaybookCompileFromRun sampleRuleHost (fun _ _ => 0) (recordedRun argv) defaultTenancy
        ⟨none, none⟩ sampleRunId false).toOption.any fun template =>
      ((replayPlaybookRunFound sampleRuleHost silentRecorder (fun _ => sampleWorld)
          (fun _ => "") (serverOptions [argv.head?.getD ""]) (templateInput template)
          ()).toOption.bind id).any fun (cfg, s) =>
        replayRunStatus cfg s.counters = .success && s.handed.map (·.2) = executed

theorem replayedAs_of_replaysAs {argv : List String} {executed : List (List String)}
    (h : replaysAs argv executed = true) : ReplayedAs argv executed := by
  obtain ⟨rows, hrows, h⟩ := (Option.any_eq_true _ _).1 h
  rw [Bool.and_eq_true, Bool.and_eq_true, List.all_eq_true] at h
  obtain ⟨⟨hrecorded, hargv⟩, h⟩ := h
  obtain ⟨template, htemplate, h⟩ := (Option.any_eq_true _ _).1 h
  obtain ⟨⟨cfg, s⟩, hrun, h⟩ := exists_ok_some h
  rw [Bool.and_eq_true] at h
  exact ⟨rows, template, cfg, s, toOption_eq_some.1 hrows,
    fun row hrow => recordedStep_of_isRecordedStep (hrecorded row hrow),
    toOption_eq_some.1 htemplate, hrun, of_decide_eq_true h.1, of_decide_eq_true h.2,
    of_decide_eq_true hargv⟩

/-- Plain arguments are replayed as they were recorded. -/
theorem compiled_run_executes_iff_ls :
    ∃ rows s, (∀ step ∈ (compiledSteps sampleRuleHost (fun _ _ => 0) rows).take 200,
        recordedArgv step ≠ [] ∧ ∀ a ∈ recordedArgv step, Plain a) ∧
      (s : ReplayRunState Unit).handed.map (·.2) = [["ls", "-l"]] := by
  obtain ⟨rows, template, cfg, s, hrows, hrecorded, htemplate, hrun, hsuccess, hexecuted, hargv⟩ :=
    replayedAs_of_replaysAs
      (show replaysAs ["ls", "-l"] [["ls", "-l"]] = true by decide +kernel)
  obtain ⟨-, hs, hstatus⟩ := replayPlaybookRunFound_eq_some _ _ _ hrun
  have hpassed := (replayRun_faithful (hs ▸ hstatus)).success.1 (hs ▸ hsuccess)
  refine ⟨rows, s, ?_, hexecuted⟩
  refine (compiled_run_executes_iff hrows hrecorded htemplate rfl hrun hpassed).2.1.1 ?_
  rw [hexecuted, List.map_take, hargv]
  rfl

/-- A blank argument is dropped, and a padded one is trimmed. -/
theorem padded_arguments_changed :
    ReplayedAs ["printf", " a ", ""] [["printf", "a"]] :=
  replayedAs_of_replaysAs (by decide +kernel)

end AionisCore.Memory
