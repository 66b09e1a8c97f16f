import AionisCore.Memory.AnchorSchemas
import AionisCore.Memory.NodeExecutionSurface
import AionisCore.Memory.PreparedWrite
import AionisCore.Util.Normalize

/-!
# Execution-native slots

`normalizeExecutionNativeSlots`: before a node is written, its execution-native record is
rebuilt from its anchor, from its distillation or from what it carries on, and its contract
is derived from the result.
-/

namespace AionisCore.Memory

open Lib Lib.JsString Lib.Schema Util Store

/-- The language and the contract, with `toLowerCase`. -/
structure NativeEnv extends ScoringEnv where
  toLowerCase : String → String

def firstContractTrust (values : List (Option Json)) : Option String :=
  values.findSome? fun
    | some (.str s) => if s ∈ ["authoritative", "advisory", "observational"] then some s else none
    | _ => none

def stringEntries (value : Option Json) : List String :=
  ((Json.asArray value).getD []).filterMap fun
    | .str s => some s
    | _ => none

/-- The distinct non-blank strings of an array. -/
def slotStringList (value : Option Json) (limit : Nat) : List String :=
  uniqueStrings (stringEntries value) limit

def serviceLifecycleList (value : Option Json) : List Json :=
  (((Json.asArray value).getD []).filter fun x => (Json.asRecord (some x)).isSome).take 16

/-- A field that is written when its list is not empty. -/
def unlessEmpty (k : String) (xs : List Json) : Json.Fields :=
  if xs.isEmpty then [] else [(k, .arr xs)]

def optionalText (k : String) (s : Option String) : Json.Fields := Json.optional k (s.map .str)

/-! ## Signatures -/

/-- `value.trim().toLowerCase().replace(/\s+/g, " ")`. -/
def normalizeSignatureLabel (env : NativeEnv) (value : String) : String :=
  String.ofList (collapseWhite false (env.toLowerCase (trim value)).toList)

def isSignatureChar (c : Char) : Bool := c.isAlphanum || c ∈ ['.', '_', ':', '/', '-']

def isLineTerminator (c : Char) : Bool := c.toNat ∈ [0xA, 0xD, 0x2028, 0x2029]

/-- The word of at most 256 characters that the value starts with, where the rest follows white
space and stays on one line. -/
def compactSignature (value : String) : Option String :=
  let (word, rest) := value.toList.span isSignatureChar
  if word.length < 1 ∨ 256 < word.length then none
  else if rest = [] ∨
      (rest.head?.any isWhite ∧ (rest.dropWhile isWhite).all fun c => !isLineTerminator c) then
    some (String.ofList word)
  else none

def extractCompactExecutionSignatureValue (value : Option String) : Option String :=
  (given (value.map trim)).map fun normalized => (compactSignature normalized).getD normalized

/-- The signature that the title of a fact names. -/
def factSignatures (env : NativeEnv) (title value : Option String) : Json.Fields :=
  match given title, value with
  | some title, some value =>
    let label := normalizeSignatureLabel env title
    if label = "task signature" then [("task_signature", .str value)]
    else if label = "error signature" then [("error_signature", .str value)]
    else if label = "workflow signature" then [("workflow_signature", .str value)]
    else []
  | _, _ => []

/-! ## The record -/

/-- What the slots say before the record is rebuilt. -/
structure NativeSource where
  slots : Json.Fields
  existing : Option Json.Fields
  anchor : Option Json.Fields
  summaryKind : Option String
  systemKind : Option String
  compressionLayer : Option String

def nativeSource (slots : Json.Fields) : NativeSource :=
  let anchor := safeParse MemoryAnchorV1Schema (Json.get slots "anchor_v1")
  { slots
    existing := safeParse ExecutionNativeV1Schema (Json.get slots "execution_native_v1")
    anchor
    summaryKind := firstString [Json.get slots "summary_kind"]
    systemKind := firstString [Json.get slots "system_kind"]
    compressionLayer := (toLayerId (firstString [Json.get slots "compression_layer"])).or
      (firstString [Json.field anchor "anchor_level"]) }

/-- The kind of an execution-native record of an anchor. -/
def executionKindOfAnchor (anchor : Json.Fields) : String :=
  let promotion := Json.asRecord (Json.get anchor "workflow_promotion")
  if Json.get anchor "anchor_kind" == some (.str "workflow") then
    if firstString [Json.field promotion "promotion_state"] = some "candidate" then
      "workflow_candidate"
    else "workflow_anchor"
  else if Json.get anchor "anchor_kind" == some (.str "pattern") then "pattern_anchor"
  else "execution_native"

/-- The fields of an anchor that its record takes under their own names. A parsed anchor holds
no empty string and no field that is undefined. -/
def anchorFields : List (String × String) := [
  ("task_signature", "task_signature"),
  ("error_signature", "error_signature"),
  ("workflow_signature", "workflow_signature"),
  ("pattern_signature", "pattern_signature"),
  ("anchor_kind", "anchor_kind"),
  ("anchor_level", "anchor_level"),
  ("tool_set", "tool_set"),
  ("file_path", "file_path"),
  ("target_files", "target_files"),
  ("next_action", "next_action"),
  ("workflow_steps", "key_steps"),
  ("pattern_hints", "pattern_hints"),
  ("service_lifecycle_constraints", "service_lifecycle_constraints"),
  ("pattern_state", "pattern_state"),
  ("credibility_state", "credibility_state"),
  ("selected_tool", "selected_tool"),
  ("workflow_promotion", "workflow_promotion"),
  ("promotion", "promotion"),
  ("maintenance", "maintenance"),
  ("rehydration", "rehydration")]

def anchorNative (source : NativeSource) (anchor : Json.Fields) : Json.Fields :=
  let kind := executionKindOfAnchor anchor
  let summaryKind := source.summaryKind.or (if kind = "execution_native" then none else some kind)
  [("schema_version", .str "execution_native_v1"), ("execution_kind", .str kind),
    ("summary_kind", Json.orNull summaryKind)] ++
    optionalText "compression_layer" source.compressionLayer ++
    optionalText "contract_trust" (firstContractTrust [Json.get anchor "contract_trust"]) ++
    anchorFields.flatMap fun f => Json.optional f.1 (Json.get anchor f.2)

def distilledNative (env : NativeEnv) (source : NativeSource) (summaryKind : String)
    (title textSummary : Option String) : Json.Fields :=
  let evidence := summaryKind = "write_distillation_evidence"
  [("schema_version", .str "execution_native_v1"),
    ("execution_kind", .str (if evidence then "distilled_evidence" else "distilled_fact")),
    ("summary_kind", .str summaryKind),
    ("compression_layer", .str (source.compressionLayer.getD "L1"))] ++
    if evidence then []
    else factSignatures env title (extractCompactExecutionSignatureValue textSummary)

def carriedNative (source : NativeSource) : Json.Fields :=
  let out := source.slots
  let state := Json.asRecord (Json.get out "execution_state_v1")
  let packet := Json.asRecord (Json.get out "execution_packet_v1")
  let trajectory := Json.asRecord (Json.field
    (Json.asRecord (Json.get out "execution_result_summary")) "trajectory_compile_v1")
  let resumeAnchor := (Json.asRecord (Json.field state "resume_anchor")).or
    (Json.asRecord (Json.field packet "resume_anchor"))
  let targetFiles := uniqueStrings (slotStringList (Json.get out "target_files") 24 ++
    slotStringList (Json.field packet "target_files") 24 ++
    slotStringList (Json.field state "owned_files") 24 ++
    slotStringList (Json.field state "modified_files") 24) 24
  let constraints := serviceLifecycleList (Json.orElse
    (Json.orElse (Json.get out "service_lifecycle_constraints")
      (Json.field packet "service_lifecycle_constraints"))
    (Json.field state "service_lifecycle_constraints"))
  [("schema_version", .str "execution_native_v1"), ("execution_kind", .str "execution_native"),
    ("summary_kind", Json.orNull (source.summaryKind.or source.systemKind)),
    ("compression_layer", .str (source.compressionLayer.getD "L0"))] ++
    optionalText "contract_trust" (firstContractTrust [Json.get out "contract_trust",
      Json.field packet "contract_trust", Json.field state "contract_trust"]) ++
    optionalText "task_family" (firstString [Json.get out "task_family", Json.get out "task_kind",
      Json.field trajectory "task_family"]) ++
    optionalText "task_signature" (firstString [Json.get out "task_signature",
      Json.field trajectory "task_signature"]) ++
    optionalText "workflow_signature" (firstString [Json.get out "workflow_signature",
      Json.field trajectory "workflow_signature"]) ++
    optionalText "file_path" (firstString [Json.get out "file_path",
      Json.field resumeAnchor "file_path", targetFiles.head?.map .str]) ++
    unlessEmpty "target_files" (targetFiles.map .str) ++
    optionalText "next_action" (firstString [Json.get out "next_action",
      Json.field packet "next_action", Json.get out "handoff_text"]) ++
    unlessEmpty "workflow_steps" ((slotStringList (Json.get out "workflow_steps") 24).map .str) ++
    unlessEmpty "pattern_hints" ((slotStringList (Json.get out "pattern_hints") 24).map .str) ++
    unlessEmpty "service_lifecycle_constraints" constraints

/-- The record before it is checked. -/
def executionNative? (env : NativeEnv) (slots : Json.Fields) (title textSummary : Option String) :
    Option Json.Fields :=
  let source := nativeSource slots
  let existing := source.existing.getD []
  match source.anchor, source.summaryKind with
  | some anchor, _ => some (Json.spread existing (anchorNative source anchor))
  | none, summaryKind =>
    if summaryKind = some "write_distillation_evidence" ∨
        summaryKind = some "write_distillation_fact" then
      some (Json.spread existing
        (distilledNative env source (summaryKind.getD "") title textSummary))
    else if summaryKind = some "handoff" ∨ source.systemKind = some "session_event" ∨
        source.systemKind = some "session" then
      some (Json.spread existing (carriedNative source))
    else source.existing.map fun existing => Json.spread existing
      (optionalText "compression_layer" source.compressionLayer ++
        optionalText "summary_kind" summaryKind)

/-- A slot that is set from the record where it says nothing. -/
def inherit (slots parsed : Json.Fields) (k : String) : Json.Fields :=
  match Json.get parsed k with
  | some v =>
    if !Json.truthy (Json.get slots k) && Json.truthy (some v) then Json.set slots k v else slots
  | none => slots

def deriveExecutionContractProvenance (summaryKind systemKind : Option String) (hasAnchor : Bool)
    (slots : Json.Fields) : Json.Fields :=
  let anchor := ("source_anchor",
    Json.orNull (firstString [Json.get slots "anchor", Json.get slots "file_path"]))
  let notes (note : String) := ("notes", Json.arr [.str s!"write_execution_native:{note}"])
  let legacy (note : String) := [("source_kind", .str "legacy_projection"), anchor, notes note]
  match hasAnchor, summaryKind with
  | true, _ => legacy "anchor_normalization"
  | false, kind =>
    if kind = some "write_distillation_fact" ∨ kind = some "write_distillation_evidence" then
      [("source_kind", .str "write_distillation"), anchor,
        ("source_summary_version", .str "write_distillation_v1"), notes (kind.getD "")]
    else if kind = some "handoff" ∨ systemKind = some "session_event" ∨
        systemKind = some "session" then
      legacy ((kind.or systemKind).getD "continuity_carrier")
    else legacy "slot_normalization"

/-- The slots with the record and the contract. A record that its schema rejects is thrown. -/
def normalizeExecutionNativeSlots (env : NativeEnv) (slots : Json.Fields)
    (title textSummary : Option String) : Except WriteError Json.Fields := do
  let source := nativeSource slots
  let out ← match executionNative? env slots title textSummary with
    | some native =>
      (orThrow (safeParse ExecutionNativeV1Schema (some (.obj native))) .schema).map fun parsed =>
        let out := Json.set slots "execution_native_v1" (.obj parsed)
        inherit (inherit out parsed "summary_kind") parsed "compression_layer"
    | none => .ok slots
  let provenance := deriveExecutionContractProvenance source.summaryKind source.systemKind
    source.anchor.isSome out
  match env.deriveExecutionContractFromSlots out (some provenance) with
  | some contract => return Json.set out "execution_contract_v1" (.obj contract)
  | none => return out

/-! ## The time of a distilled record -/

variable {env : NativeEnv} {slots out parsed : Json.Fields} {title textSummary : Option String}

theorem get_inherit {k k' : String} (h : k' ≠ k) :
    Json.get (inherit slots parsed k) k' = Json.get slots k' := by
  unfold inherit
  split
  · split
    · exact Json.get_set_of_ne h
    · rfl
  · rfl

/-- The slots that normalization returns hold the record that its schema accepted. -/
theorem get_normalizeExecutionNativeSlots {native : Json.Fields}
    (h : normalizeExecutionNativeSlots env slots title textSummary = .ok out)
    (hnative : executionNative? env slots title textSummary = some native) :
    ∃ parsed, safeParse ExecutionNativeV1Schema (some (.obj native)) = some parsed ∧
      Json.get out "execution_native_v1" = some (.obj parsed) := by
  unfold normalizeExecutionNativeSlots at h
  rw [hnative] at h
  obtain ⟨mid, hmid, h⟩ := bind_eq_ok.1 h
  obtain ⟨parsed, hparsed, rfl⟩ := map_eq_ok.1 hmid
  refine ⟨parsed, orThrow_eq_ok.1 hparsed, ?_⟩
  have hkept : Json.get (inherit (inherit (Json.set slots "execution_native_v1" (.obj parsed))
      parsed "summary_kind") parsed "compression_layer") "execution_native_v1" =
        some (.obj parsed) := by
    rw [get_inherit (by decide), get_inherit (by decide), Json.get_set_self]
  dsimp only at h
  split at h
  · obtain rfl := Except.ok.inj h
    rw [Json.get_set_of_ne (by decide), hkept]
  · obtain rfl := Except.ok.inj h
    exact hkept

end AionisCore.Memory
