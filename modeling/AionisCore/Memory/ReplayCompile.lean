import AionisCore.Lib.Repeats
import AionisCore.Memory.Replay
import AionisCore.Memory.ReplayExecution

/-!
# Compiling a recorded run

`replayPlaybookCompileFromRun` makes the steps of a playbook out of the rows of a run: each step
row is paired with the last of its results, repetitions are left out, and the steps are enriched
with the variables found in them and with a score of their quality. The summaries of the
enrichments, the usage estimate and the write of the playbook are left out.
-/

namespace AionisCore.Memory

open Lib Lib.JsString Store

/-- What a number is in JSON text. -/
def JsNumber.toJson : JsNumber → Json
  | .finite q => .num q
  | _ => .null

/-! ## Rows -/

def replaySlots (row : ReplayNodeRow) : Json.Fields := (Json.asRecord (some row.slots)).getD []

def replayKindOf (row : ReplayNodeRow) : String :=
  (Store.toStringOrNull (Json.get (replaySlots row) "replay_kind")).getD ""

def ofKind (kind : String) (rows : List ReplayNodeRow) : List ReplayNodeRow :=
  rows.filter (replayKindOf · = kind)

def replayRunStatusOf (rows : List ReplayNodeRow) : Option String :=
  (ofKind "run_end" rows).getLast?.bind fun row =>
    Store.toStringOrNull (Json.get (replaySlots row) "status")

def rowStepIndex (host : RuleHost) (row : ReplayNodeRow) : JsNumber :=
  host.numberOf (Json.orElse (Json.get (replaySlots row) "step_index") (some (.num 0)))

def rowStepId (row : ReplayNodeRow) : String :=
  (Store.toStringOrNull (Json.get (replaySlots row) "step_id")).getD row.id

/-- The last of the results of a step. -/
def resultByStepId (rows : List ReplayNodeRow) (stepId : String) : Option ReplayNodeRow :=
  ((ofKind "step_result" rows).filter fun row =>
    Store.toStringOrNull (Json.get (replaySlots row) "step_id") = some stepId).getLast?

/-- `a === b`. -/
def JsNumber.equals : JsNumber → JsNumber → Bool
  | .finite p, .finite q => p = q
  | .infinity positive, .infinity positive' => positive == positive'
  | _, _ => false

/-- `a - b <= 0`, where `NaN` counts as `0`. -/
def JsNumber.sortsBefore : JsNumber → JsNumber → Bool
  | .finite p, .finite q => p ≤ q
  | .finite _, .infinity positive => positive
  | .infinity positive, .finite _ => !positive
  | .infinity positive, .infinity positive' => !positive || positive'
  | _, _ => true

section Sorting

variable (host : RuleHost) (localeCompare : String → String → Int)

/-- By step index, then by the time of the record. -/
def stepRowLe (a b : ReplayNodeRow) : Prop :=
  if (rowStepIndex host a).equals (rowStepIndex host b) then
    localeCompare a.createdAt b.createdAt ≤ 0
  else (rowStepIndex host a).sortsBefore (rowStepIndex host b) = true

instance : DecidableRel (stepRowLe host localeCompare) := fun _ _ => by
  unfold stepRowLe
  infer_instance

def sortStepRows (rows : List ReplayNodeRow) : List ReplayNodeRow :=
  (ofKind "step" rows).insertionSort (stepRowLe host localeCompare)

end Sorting

/-- The step of the template that a row becomes. -/
def compileStep (host : RuleHost) (rows : List ReplayNodeRow) (row : ReplayNodeRow) : Json.Fields :=
  let slots := replaySlots row
  let resultSlots := ((resultByStepId rows (rowStepId row)).map replaySlots).getD []
  [ ("step_index", (rowStepIndex host row).toJson),
    ("tool_name", Json.orNull (Store.toStringOrNull (Json.get slots "tool_name"))),
    ("tool_input_template", (Json.orElse (Json.get slots "tool_input") none).getD (.obj [])),
    ("expected_output_signature",
      (Json.orElse (Json.get slots "expected_output_signature") none).getD .null),
    ("preconditions", .arr ((Json.asArray (Json.get slots "preconditions")).getD [])),
    ("postconditions", .arr ((Json.asArray (Json.get resultSlots "postconditions")).getD [])),
    ("retry_policy", ((Json.asRecord (Json.get slots "retry_policy")).map .obj).getD .null),
    ("safety_level",
      .str ((Store.toStringOrNull (Json.get slots "safety_level")).getD "needs_confirm")),
    ("replay_mode", .str "replay_first_reason_if_needed"),
    ("last_outcome", .str ((Store.toStringOrNull (Json.get resultSlots "status")).getD "pending")),
    ("repair_applied_last_run",
      .bool (Json.truthy (Json.orElse (Json.get resultSlots "repair_applied") none))) ]

/-! ## Repetitions -/

/-- The keys of an object in the order of their code units. -/
def sortFields (fields : Json.Fields) : Json.Fields :=
  fields.insertionSort fun f g => ¬ units g.1 < units f.1

mutual

def canonicalizeJsonForFingerprint : Json → Json
  | .arr xs => .arr (canonicalizeList xs)
  | .obj fields => .obj (sortFields (canonicalizeFields fields))
  | v => v

def canonicalizeList : List Json → List Json
  | [] => []
  | x :: xs => canonicalizeJsonForFingerprint x :: canonicalizeList xs

def canonicalizeFields : List (String × Json) → List (String × Json)
  | [] => []
  | f :: fields => canonicalizeField f :: canonicalizeFields fields

def canonicalizeField : String × Json → String × Json
  | (k, v) => (k, canonicalizeJsonForFingerprint v)

end

section Step

variable (step : Json.Fields)

def compiledOutcome : String := (Store.toStringOrNull (Json.get step "last_outcome")).getD "pending"

def compiledRepair : Bool := Json.get step "repair_applied_last_run" = some (.bool true)

/-- The value whose text is the fingerprint of a step. -/
def compiledFingerprint : Json := canonicalizeJsonForFingerprint (.obj [
  ("tool_name", Json.orNull (Store.toStringOrNull (Json.get step "tool_name"))),
  ("tool_input_template",
    (Json.orElse (Json.get step "tool_input_template") none).getD (.obj [])),
  ("expected_output_signature",
    (Json.orElse (Json.get step "expected_output_signature") none).getD .null),
  ("preconditions", .arr ((Json.asArray (Json.get step "preconditions")).getD [])),
  ("postconditions", .arr ((Json.asArray (Json.get step "postconditions")).getD [])),
  ("retry_policy", ((Json.asRecord (Json.get step "retry_policy")).map .obj).getD .null),
  ("safety_level",
    .str ((Store.toStringOrNull (Json.get step "safety_level")).getD "needs_confirm")),
  ("last_outcome", .str (compiledOutcome step))])

end Step

/-- `canDropAsDuplicate`, after the step kept last. -/
def canDropAsDuplicate (last step : Json.Fields) : Bool :=
  compiledFingerprint last = compiledFingerprint step && compiledOutcome step = "success" &&
    !compiledRepair step && !compiledRepair last

structure ReplayCompileDedupe where
  steps : List Json.Fields
  removedCount : Nat
  removedStepIndexes : List Int

/-- `Number(step.step_index ?? NaN)`, cut to an integer. -/
def compiledIndex (host : RuleHost) (step : Json.Fields) : Option Int :=
  (host.numberOf (Json.orElse (Json.get step "step_index") none)).trunc?

def dedupeReplayCompileSteps (host : RuleHost) (steps : List Json.Fields) : ReplayCompileDedupe :=
  let (kept, dropped) := splitRepeats canDropAsDuplicate none steps
  { steps := kept
    removedCount := steps.length - kept.length
    removedStepIndexes := dropped.filterMap (compiledIndex host) }

/-! ## Variables -/

inductive ReplayCompileVariableKind where
  | path
  | url
  | uuid
  | version
  deriving DecidableEq, Repr

def ReplayCompileVariableKind.name : ReplayCompileVariableKind → String
  | .path => "path"
  | .url => "url"
  | .uuid => "uuid"
  | .version => "version"

def isHexChar (c : Char) : Bool := c.isDigit || 'a' ≤ c.toLower && c.toLower ≤ 'f'

/-- `UUID_V4_OR_VX`. -/
def matchesUuid (cs : List Char) : Bool :=
  cs.length = 36 && cs.zipIdx.all fun (c, i) =>
    if i ∈ [8, 13, 18, 23] then c == '-'
    else if i = 14 then '1' ≤ c && c ≤ '8'
    else if i = 19 then c.toLower ∈ ['8', '9', 'a', 'b']
    else isHexChar c

/-- `/^https?:\/\/[^\s]+$/i`. -/
def matchesUrl (cs : List Char) : Bool :=
  let rest := match cs.map Char.toLower with
    | 'h' :: 't' :: 't' :: 'p' :: 's' :: ':' :: '/' :: '/' :: rest => rest
    | 'h' :: 't' :: 't' :: 'p' :: ':' :: '/' :: '/' :: rest => rest
    | _ => []
  rest ≠ [] && !rest.any isWhite

/-- `/^(\/|~\/|\.\.?\/)[^\s]*$/`. -/
def matchesPath (cs : List Char) : Bool :=
  let rest := match cs with
    | '/' :: rest => some rest
    | '~' :: '/' :: rest => some rest
    | '.' :: '/' :: rest => some rest
    | '.' :: '.' :: '/' :: rest => some rest
    | _ => none
  rest.any (!·.any isWhite)

/-- `\d+`, and what follows. -/
def dropDigits (cs : List Char) : Option (List Char) :=
  if cs.head?.any Char.isDigit then some (cs.dropWhile Char.isDigit) else none

def dropDot : List Char → Option (List Char)
  | '.' :: rest => some rest
  | _ => none

/-- `/^v?\d+\.\d+\.\d+(?:[-+][0-9A-Za-z.-]+)?$/`. -/
def matchesVersion (cs : List Char) : Bool :=
  let digits := if cs.head? = some 'v' then cs.tail else cs
  let rest := dropDigits digits >>= dropDot >>= dropDigits >>= dropDot >>= dropDigits
  match rest with
  | some [] => true
  | some (c :: suffix) => (c == '-' || c == '+') && suffix ≠ [] &&
      suffix.all fun c => c.isAlphanum || c == '.' || c == '-'
  | none => false

def detectReplayCompileVariableKind (raw : String) : Option ReplayCompileVariableKind :=
  let v := (trim raw).toList
  if v = [] then none
  else if matchesUuid v then some .uuid
  else if matchesUrl v then some .url
  else if matchesPath v then some .path
  else if matchesVersion v then some .version
  else none

mutual

/-- The strings in a value, each with its path. -/
def collectReplayCompileVariableStrings : Json → String → List (String × String)
  | .str s, path => if trim s ≠ "" then [(path, trim s)] else []
  | .arr xs, path => collectEntryStrings xs path 0
  | .obj fields, path => collectFieldStrings fields path
  | _, _ => []

def collectEntryStrings : List Json → String → Nat → List (String × String)
  | [], _, _ => []
  | x :: xs, path, i =>
    collectReplayCompileVariableStrings x s!"{path}[{i}]" ++ collectEntryStrings xs path (i + 1)

def collectFieldStrings : List (String × Json) → String → List (String × String)
  | [], _ => []
  | f :: fields, path => collectKeyStrings f path ++ collectFieldStrings fields path

def collectKeyStrings : String × Json → String → List (String × String)
  | (k, v), path =>
    if trim k = "" then []
    else
      let key := trim k
      collectReplayCompileVariableStrings v s!"{path}.{key}"

end

structure ReplayCompileCandidate where
  kind : ReplayCompileVariableKind
  sample : String
  stepIndex : Int
  path : String

/-- The strings of a step that look like a variable. -/
def stepCandidates (host : RuleHost) (step : Json.Fields) : List ReplayCompileCandidate :=
  match compiledIndex host step with
  | none => []
  | some stepIndex =>
    let strings (field : String) (otherwise : Json) : List (String × String) :=
      collectReplayCompileVariableStrings
        ((Json.orElse (Json.get step field) none).getD otherwise) field
    (strings "tool_input_template" (.obj []) ++ strings "expected_output_signature" .null ++
      strings "preconditions" (.arr []) ++ strings "postconditions" (.arr [])).filterMap
      fun (path, value) => (detectReplayCompileVariableKind value).map fun kind =>
        { kind, sample := take 160 value, stepIndex, path }

/-- What is known by one name. -/
abbrev ReplayCompileVariableKey := ReplayCompileVariableKind × String

def ReplayCompileCandidate.key (c : ReplayCompileCandidate) : ReplayCompileVariableKey :=
  (c.kind, c.sample)

section Names

variable (localeCompare : String → String → Int) (candidates : List ReplayCompileCandidate)

def occurrences (key : ReplayCompileVariableKey) : Nat := candidates.countP (·.key = key)

/-- The more frequent ones first, then by kind and sample. -/
def variableLe (a b : ReplayCompileVariableKey) : Prop :=
  if occurrences candidates a ≠ occurrences candidates b then
    occurrences candidates b ≤ occurrences candidates a
  else if a.1 ≠ b.1 then localeCompare a.1.name b.1.name ≤ 0
  else localeCompare a.2 b.2 ≤ 0

instance : DecidableRel (variableLe localeCompare candidates) := fun _ _ => by
  unfold variableLe
  infer_instance

def sortedVariables : List ReplayCompileVariableKey :=
  (candidates.map (·.key)).eraseDups.insertionSort (variableLe localeCompare candidates)

/-- The kind, and the place among the variables of the kind. -/
def variableName (key : ReplayCompileVariableKey) : String :=
  let before := (sortedVariables localeCompare candidates).takeWhile (· ≠ key)
  let seq := (before.filter (·.1 = key.1)).length + 1
  s!"{key.1.name}_{seq}"

end Names

def enrichReplayCompileStepsWithVariables (host : RuleHost)
    (localeCompare : String → String → Int) (steps : List Json.Fields) : List Json.Fields :=
  let candidates := steps.flatMap (stepCandidates host)
  steps.map fun step =>
    match compiledIndex host step with
    | none => step
    | some stepIndex =>
      let templateVars := (candidates.filter (·.stepIndex = stepIndex)).take 16
      if templateVars = [] then step
      else Json.set step "template_variables" (.arr (templateVars.map fun c => .obj [
        ("name", .str (variableName localeCompare candidates c.key)),
        ("kind", .str c.kind.name),
        ("sample", .str c.sample),
        ("path", .str c.path)]))

/-! ## Quality -/

/-- `expected != null`, and no object without keys. -/
def hasExpectedSignature (step : Json.Fields) : Bool :=
  match Json.get step "expected_output_signature" with
  | none | some .null | some (.arr _) | some (.obj []) => false
  | _ => true

def hasEntries (step : Json.Fields) (field : String) : Bool :=
  ((Json.asArray (Json.get step field)).getD []) ≠ []

structure ReplayCompileScore where
  score : ℚ
  flags : List String

/-- What a part of a step adds to its score, and the flag it raises. -/
def scoreReplayCompileStep (step : Json.Fields) : ReplayCompileScore :=
  let safety := (Store.toStringOrNull (Json.get step "safety_level")).getD "needs_confirm"
  let outcome := compiledOutcome step
  let parts : List (ℚ × List String) := [
    (1 / 4, []),
    if (Store.toStringOrNull (Json.get step "tool_name")).isNone then
      (-1 / 4, ["missing_tool_name"])
    else (0, []),
    if hasEntries step "preconditions" then (1 / 5, []) else (0, ["missing_preconditions"]),
    if hasEntries step "postconditions" then (3 / 20, []) else (0, ["missing_postconditions"]),
    if hasExpectedSignature step then (3 / 20, []) else (0, ["missing_expected_signature"]),
    if safety = "auto_ok" then (1 / 10, []) else if safety = "needs_confirm" then (1 / 20, [])
    else (0, ["manual_only_step"]),
    if outcome = "success" then (3 / 20, [])
    else if outcome = "failed" then (-1 / 10, ["last_outcome_failed"]) else (0, []),
    if compiledRepair step then (-3 / 20, ["repair_applied_last_run"]) else (0, [])]
  let bounded := max 0 (min 1 (parts.map (·.1)).sum)
  { score := bounded
    flags := parts.flatMap (·.2) ++ if bounded < 1 / 2 then ["low_quality"] else [] }

def enrichReplayCompileStepsWithQuality (steps : List Json.Fields) : List Json.Fields :=
  steps.map fun step =>
    let scored := scoreReplayCompileStep step
    Json.set (Json.set step "quality_score" (.num scored.score)) "quality_flags"
      (.arr (scored.flags.map .str))

/-! ## The steps of the playbook -/

def replayCompileRequiresSuccessfulRun (runId : String) (status : Option String) :
    RequestError :=
  ⟨400, "replay_compile_requires_successful_run",
    "compile_from_run requires run_end status=success unless allow_partial=true",
    some [("run_id", .str runId), ("run_status", .str (status.getD "in_progress"))]⟩

def replayCompileNoSteps (runId : String) : RequestError :=
  ⟨400, "replay_compile_no_steps", "run does not contain replay step nodes",
    some [("run_id", .str runId)]⟩

section Compile

variable (host : RuleHost) (localeCompare : String → String → Int)

def rawStepsTemplate (rows : List ReplayNodeRow) : List Json.Fields :=
  (sortStepRows host localeCompare rows).map (compileStep host rows)

def compiledSteps (rows : List ReplayNodeRow) : List Json.Fields :=
  (dedupeReplayCompileSteps host (rawStepsTemplate host localeCompare rows)).steps

/-- `replayPlaybookCompileFromRun`, up to `stepsTemplate`. -/
def replayPlaybookCompileFromRun (db : LiteReplayDb) (t : TenantScope)
    (visibility : ReplayVisibilityArgs) (runId : String) (allowPartial : Bool) :
    Except RequestError (List Json.Fields) := do
  let rows ← replayPlaybookCompileRows db t visibility runId
  if !allowPartial ∧ replayRunStatusOf rows ≠ some "success" then
    throw (replayCompileRequiresSuccessfulRun runId (replayRunStatusOf rows))
  else if ofKind "step" rows = [] then throw (replayCompileNoSteps runId)
  else
    return enrichReplayCompileStepsWithQuality
      (enrichReplayCompileStepsWithVariables host localeCompare
        (compiledSteps host localeCompare rows))

end Compile

end AionisCore.Memory
