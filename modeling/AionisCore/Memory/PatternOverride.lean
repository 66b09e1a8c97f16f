import AionisCore.Lib.Run
import AionisCore.Memory.ImportanceDynamics
import AionisCore.Memory.PatternAnchorSlots

/-!
# Operator overrides of tool patterns

An operator suppresses a pattern anchor and lifts the suppression again, by a record in the
slots of its node that tool selection reads. Feedback on a tool decision writes the slots of
the same node. A history is a sequence of such calls on one store; a call that is refused
leaves the store as it was.
-/

namespace AionisCore.Memory

open Lib Lib.Schema Store Util

/-! ## The override -/

inductive PatternOperatorOverrideMode where
  | shadowLearn
  | hardFreeze
  deriving DecidableEq, Repr

def PatternOperatorOverrideMode.name : PatternOperatorOverrideMode → String
  | shadowLearn => "shadow_learn"
  | hardFreeze => "hard_freeze"

inductive PatternOperatorAction where
  | suppress
  | unsuppress
  deriving DecidableEq, Repr

def PatternOperatorAction.name : PatternOperatorAction → String
  | suppress => "suppress"
  | unsuppress => "unsuppress"

structure PatternOperatorOverride where
  suppressed : Bool
  reason : Option String
  mode : PatternOperatorOverrideMode
  untilTime : Option String
  updatedAt : String
  updatedBy : Option String
  lastAction : PatternOperatorAction
  deriving DecidableEq, Repr

def PatternOperatorOverrideSchema : Schema := .object [
  ("schema_version", .literal (.str "operator_override_v1")),
  ("suppressed", .boolean),
  ("reason", .nullable (.string false 0 none)),
  ("mode", .enum ["shadow_learn", "hard_freeze"]),
  ("until", .nullable (.string false 0 none)),
  ("updated_at", .string false 0 none),
  ("updated_by", .nullable (.string false 0 none)),
  ("last_action", .enum ["suppress", "unsuppress"])]

/-- The record that `buildOperatorOverride` returns. -/
def PatternOperatorOverride.json (o : PatternOperatorOverride) : Json.Fields := [
  ("schema_version", .str "operator_override_v1"),
  ("suppressed", .bool o.suppressed),
  ("reason", Json.orNull o.reason),
  ("mode", .str o.mode.name),
  ("until", Json.orNull o.untilTime),
  ("updated_at", .str o.updatedAt),
  ("updated_by", Json.orNull o.updatedBy),
  ("last_action", .str o.lastAction.name)]

/-- A record that the schema accepted. -/
def operatorOverrideOf (r : Json.Fields) : Option PatternOperatorOverride := do
  let mode ← named PatternOperatorOverrideMode.name [.shadowLearn, .hardFreeze]
    (Json.get r "mode")
  let lastAction ← named PatternOperatorAction.name [.suppress, .unsuppress]
    (Json.get r "last_action")
  return {
    suppressed := boolOf (Json.get r "suppressed")
    reason := Json.textOf (Json.get r "reason")
    mode
    untilTime := Json.textOf (Json.get r "until")
    updatedAt := (Json.textOf (Json.get r "updated_at")).getD ""
    updatedBy := Json.textOf (Json.get r "updated_by")
    lastAction }

def readPatternOperatorOverride (slots : Json.Fields) : Option PatternOperatorOverride :=
  (safeParse PatternOperatorOverrideSchema (Json.get slots "operator_override_v1")).bind
    operatorOverrideOf

/-- An empty `until` is none. -/
def isPatternSuppressed (parseDate : String → Option ℚ) (override : Option PatternOperatorOverride)
    (now : ℚ) : Bool :=
  override.any fun o => o.suppressed &&
    match given o.untilTime with
    | none => true
    | some time => (parseDate time).any (now < ·)

/-! ## Reading an override back -/

theorem parse_orNull (s : Option String) :
    parse (.nullable (.string false 0 none)) (some (Json.orNull s)) =
      some (some (Json.orNull s)) := by
  cases s with
  | none => rfl
  | some s => simp [Json.orNull, parse]

theorem parse_json (o : PatternOperatorOverride) :
    parse PatternOperatorOverrideSchema (some (.obj o.json)) = some (some (.obj o.json)) := by
  obtain ⟨suppressed, reason, mode, untilTime, updatedAt, updatedBy, lastAction⟩ := o
  cases mode <;> cases lastAction <;>
    simp [PatternOperatorOverrideSchema, PatternOperatorOverride.json, parse, parseShape,
      parseField, parse_orNull, Json.optional, PatternOperatorOverrideMode.name,
      PatternOperatorAction.name, Json.get_cons]

theorem operatorOverrideOf_json (o : PatternOperatorOverride) :
    operatorOverrideOf o.json = some o := by
  obtain ⟨suppressed, reason, mode, untilTime, updatedAt, updatedBy, lastAction⟩ := o
  cases mode <;> cases lastAction <;>
    simp [operatorOverrideOf, PatternOperatorOverride.json, named, boolOf,
      PatternOperatorOverrideMode.name, PatternOperatorAction.name, Json.get_cons]

/-- What was stored is what tool selection reads. -/
theorem readPatternOperatorOverride_eq {slots : Json.Fields}
    {override : Option PatternOperatorOverride}
    (h : Json.get slots "operator_override_v1" = override.map fun o => .obj o.json) :
    readPatternOperatorOverride slots = override := by
  unfold readPatternOperatorOverride
  rw [h]
  cases override with
  | none => rfl
  | some o =>
    rw [Option.map_some, safeParse, parse_json]
    exact operatorOverrideOf_json o

/-! ## Operator calls -/

/-- A request that passed `PatternSuppressRequest`. -/
structure PatternSuppressInput where
  tenantId : Option String := none
  scope : Option String := none
  actor : Option String := none
  anchorId : String
  anchorUuid : isUuid anchorId = true
  reason : String
  untilTime : Option String := none
  mode : PatternOperatorOverrideMode := .shadowLearn

/-- A request that passed `PatternUnsuppressRequest`. -/
structure PatternUnsuppressInput where
  tenantId : Option String := none
  scope : Option String := none
  actor : Option String := none
  anchorId : String
  anchorUuid : isUuid anchorId = true
  reason : Option String := none

structure PatternSuppressResponse where
  tenantId : String
  scope : String
  anchorId : String
  anchorUri : String
  selectedTool : Option String
  patternState : Option String
  credibilityState : Option String
  operatorOverride : PatternOperatorOverride

section Operator

variable (env : ScoringEnv) (db : LiteDb)

def resolveNodeSelectedTool (slots : Json.Fields) : Option String :=
  firstString [Json.field (env.deriveExecutionContractFromSlots slots none) "selected_tool",
    Json.field (parseNodeExecutionNative slots) "selected_tool",
    Json.field (parseNodeAnchor slots) "selected_tool"]

def loadPatternAnchorNode (scope anchorId : String) (actor : Option String) :
    Except RequestError LiteNode :=
  match db.findNode { scope, id := some anchorId, consumerAgentId := actor, limit := 1 } with
  | none => .error ⟨404, "pattern_anchor_not_found", "pattern anchor not found",
      some [("anchor_id", .str anchorId)]⟩
  | some row =>
    if row.type ≠ "concept" ∨ resolveNodeAnchorKind row.slots ≠ some "pattern" then
      .error ⟨400, "pattern_anchor_required", "target node is not a pattern anchor",
        some [("anchor_id", .str anchorId), ("node_type", .str row.type)]⟩
    else .ok row

/-- The update of the node of an anchor. -/
def overrideUpdate (scope : String) (row : LiteNode) (nextOverride : PatternOperatorOverride) :
    NodeAnchorUpdate where
  scope
  id := row.id
  slots := Json.set row.slots "operator_override_v1" (.obj nextOverride.json)
  textSummary := some (row.textSummary.getD "")
  salience := row.salience
  importance := row.importance
  confidence := row.confidence
  commitId := some row.commitId

def suppressResponse (tenancy : TenantScope) (row : LiteNode)
    (nextOverride : PatternOperatorOverride) (anchorUri : String) : PatternSuppressResponse where
  tenantId := tenancy.tenantId
  scope := tenancy.scopeKey
  anchorId := row.id
  anchorUri
  selectedTool := resolveNodeSelectedTool env row.slots
  patternState := resolveNodePatternState row.slots
  credibilityState := resolveNodeCredibilityState row.slots
  operatorOverride := nextOverride

/-- The answer, and the store; the store is written before the answer is built. -/
def updatePatternOperatorOverride (tenancy : TenantScope) (actor : Option String)
    (anchorId : String) (nextOverride : PatternOperatorOverride) :
    Except RequestError PatternSuppressResponse × LiteDb :=
  match loadPatternAnchorNode db tenancy.scopeKey anchorId actor with
  | .error e => (.error e, db)
  | .ok row =>
    ((buildAionisUri ⟨tenancy.tenantId, tenancy.scopeKey, row.type, row.id⟩).map
        (suppressResponse env tenancy row nextOverride),
      (db.updateNodeAnchorState (overrideUpdate tenancy.scopeKey row nextOverride)).2)

def PatternSuppressInput.override (body : PatternSuppressInput) (now : String) :
    PatternOperatorOverride where
  suppressed := true
  reason := some body.reason
  mode := body.mode
  untilTime := body.untilTime
  updatedAt := now
  updatedBy := body.actor
  lastAction := .suppress

def PatternUnsuppressInput.override (body : PatternUnsuppressInput) (now : String) :
    PatternOperatorOverride where
  suppressed := false
  reason := body.reason
  mode := .shadowLearn
  untilTime := none
  updatedAt := now
  updatedBy := body.actor
  lastAction := .unsuppress

def suppressPatternAnchorLite (defaults : TenantDefaults) (body : PatternSuppressInput)
    (now : String) : Except RequestError PatternSuppressResponse × LiteDb :=
  match resolveTenantScope ⟨body.tenantId, body.scope⟩ defaults with
  | .error e => (.error e, db)
  | .ok tenancy =>
    updatePatternOperatorOverride env db tenancy body.actor body.anchorId (body.override now)

def unsuppressPatternAnchorLite (defaults : TenantDefaults) (body : PatternUnsuppressInput)
    (now : String) : Except RequestError PatternSuppressResponse × LiteDb :=
  match resolveTenantScope ⟨body.tenantId, body.scope⟩ defaults with
  | .error e => (.error e, db)
  | .ok tenancy =>
    updatePatternOperatorOverride env db tenancy body.actor body.anchorId (body.override now)

end Operator

/-! ## Feedback -/

/-- A new node of a pattern, before it is prepared. -/
structure PatternNodeDraft where
  tenantId : String
  scope : String
  clientId : String
  title : String
  textSummary : String
  slots : Json.Fields
  profile : PriorityProfile

/-- `insertedNode` is the row that `prepareMemoryWrite` and `applyMemoryWrite` make of a draft,
`none` where they refuse it. -/
structure PatternWriteEnv extends PatternEnv where
  insertedNode : PatternNodeDraft → Option LiteNode

structure WriteToolsDecisionPatternAnchorArgs where
  tenantId : String
  scope : String
  feedback : PatternFeedback
  governedPatternStateOverride : Option PatternState := none
  now : ℚ

structure PatternAnchorWriteResult where
  nodeId : String
  clientId : String
  patternSignature : String
  anchor : MemoryAnchorV1

section Feedback

variable (env : PatternWriteEnv) (db : LiteDb) (args : WriteToolsDecisionPatternAnchorArgs)

def patternClientId (patternSignature : String) : String := "tools-pattern:" ++ patternSignature

def findExistingPatternAnchorLite (scope clientId : String) : Option LiteNode :=
  db.findNode { scope, type := some "concept", clientId := some clientId, limit := 1 }

/-- `none` where the stored anchor is invalid. -/
def parseExistingAnchor (slots : Json.Fields) : Option MemoryAnchorV1 :=
  (safeParse MemoryAnchorV1Schema (Json.get slots "anchor_v1")).map existingAnchor

def patternTitle (f : PatternFeedback) : String :=
  truncate (match f.taskCue.filter (· ≠ "") with
    | some cue => "Pattern: prefer " ++ f.selectedTool ++ " for " ++ cue
    | none => "Pattern: prefer " ++ f.selectedTool) 180

/-- `existingNode ? parseExistingAnchor(existingNode) : null`. -/
def existingAnchor? : Option LiteNode → Option (Option MemoryAnchorV1)
  | none => some none
  | some node => (parseExistingAnchor node.slots).map some

/-- The anchor after the event and the slots of its node, `none` where a schema throws. -/
def nextPatternSlots (existingNode : Option LiteNode) : Option (MemoryAnchorV1 × Json.Fields) := do
  let existing ← existingAnchor? existingNode
  let anchor ← buildPatternAnchor args.feedback existing args.governedPatternStateOverride
  let slots ← buildPatternAnchorSlots env.toPatternEnv anchor args.feedback
  return (anchor, slots)

def patternProfile (anchor : MemoryAnchorV1) (slots : Json.Fields) : PriorityProfile :=
  (resolveNodePriorityProfile env.toScoringEnv args.now
    { type := "concept", tier := some "warm", title := some (patternTitle args.feedback),
      textSummary := some anchor.summary, slots }).toPriorityProfile

def patternUpdate (node : LiteNode) (anchor : MemoryAnchorV1) (slots : Json.Fields) :
    NodeAnchorUpdate :=
  let profile := patternProfile env args anchor slots
  { scope := args.scope
    id := node.id
    slots
    textSummary := some anchor.summary
    salience := profile.salience
    importance := profile.importance
    confidence := profile.confidence
    commitId := some args.feedback.feedbackCommitId }

def patternResult (nodeId : String) (anchor : MemoryAnchorV1) : PatternAnchorWriteResult :=
  ⟨nodeId, patternClientId args.feedback.patternSignature, args.feedback.patternSignature, anchor⟩

/-- `none` where the call throws. -/
def writeToolsDecisionPatternAnchor : Option (Option PatternAnchorWriteResult × LiteDb) :=
  let clientId := patternClientId args.feedback.patternSignature
  match findExistingPatternAnchorLite db args.scope clientId with
  | some node => do
    let (anchor, slots) ← nextPatternSlots env args (some node)
    return (some (patternResult args node.id anchor),
      (db.updateNodeAnchorState (patternUpdate env args node anchor slots)).2)
  | none =>
    if args.feedback.feedbackOutcome = .negative then some (none, db)
    else do
      let (anchor, slots) ← nextPatternSlots env args none
      let row ← env.insertedNode {
        tenantId := args.tenantId
        scope := args.scope
        clientId
        title := patternTitle args.feedback
        textSummary := anchor.summary
        slots
        profile := patternProfile env args anchor slots }
      return (some (patternResult args row.id anchor), db.insertNode row)

end Feedback

/-! ## What a call leaves of an override -/

/-- An accepted call has written the override it answers with, a refused one nothing. -/
theorem updatePatternOperatorOverride_spec {env : ScoringEnv} {db : LiteDb}
    {defaults : TenantDefaults} {tenancy : TenantScope} (htenancy : Accepted defaults tenancy)
    {actor : Option String} {anchorId : String} (huuid : isUuid anchorId = true)
    (o : PatternOperatorOverride) :
    (∃ e, updatePatternOperatorOverride env db tenancy actor anchorId o = (.error e, db)) ∨
      ∃ answer row, row ∈ db.nodes ∧ row.scope = tenancy.scopeKey ∧ row.id = anchorId ∧
        answer.anchorId = anchorId ∧ answer.operatorOverride = o ∧
        updatePatternOperatorOverride env db tenancy actor anchorId o =
          (.ok answer, (db.updateNodeAnchorState (overrideUpdate tenancy.scopeKey row o)).2) := by
  have hplain := plain_of_isUuid huuid
  unfold updatePatternOperatorOverride loadPatternAnchorNode
  split
  · next e _ => exact Or.inl ⟨e, rfl⟩
  · next row hload =>
    refine Or.inr ?_
    split at hload
    · cases hload
    · next found hfind =>
      split at hload
      · cases hload
      · next htype =>
        obtain rfl := Except.ok.inj hload
        obtain ⟨hmem, hmatches⟩ := LiteDb.findNode_eq_some hfind
        have hid : found.id = anchorId := LiteDb.matches_id rfl hplain.2 hmatches
        have htype : found.type = "concept" := by
          by_contra hne
          exact htype (Or.inl hne)
        obtain ⟨htenant, -, -⟩ := accepted_iff.1 htenancy
        obtain ⟨uri, huri⟩ := @buildAionisUri_ok
          ⟨tenancy.tenantId, tenancy.scopeKey, found.type, found.id⟩
          ⟨htenant.trimmed, htenant.nonempty⟩ htenancy.plain_scopeKey
          (show JsString.Plain found.type by rw [htype]; decide)
          (show found.type ∈ AIONIS_URI_OBJECT_TYPES by rw [htype]; decide)
          (show isUuid found.id = true by rw [hid]; exact huuid)
        refine ⟨suppressResponse env tenancy found o uri, found, hmem,
          LiteDb.matches_scope hmatches, hid, hid, rfl, ?_⟩
        rw [huri]
        rfl

/-! ## Histories -/

/-- A store, and the override that the last accepted operator call on the anchor has set. -/
structure OverrideState where
  db : LiteDb
  last : Option PatternOperatorOverride

inductive PatternEvent where
  | suppress (body : PatternSuppressInput) (now : String)
  | unsuppress (body : PatternUnsuppressInput) (now : String)
  | feedback (args : WriteToolsDecisionPatternAnchorArgs)

def OverrideState.answered (s : OverrideState) (anchorId : String)
    (answer : Except RequestError PatternSuppressResponse × LiteDb) : OverrideState where
  db := answer.2
  last :=
    match answer.1 with
    | .ok response =>
      if response.anchorId = anchorId then some response.operatorOverride else s.last
    | .error _ => s.last

section Histories

variable (env : PatternWriteEnv) (defaults : TenantDefaults) (anchorId : String)

def OverrideState.step (s : OverrideState) : PatternEvent → Option OverrideState
  | .suppress body now =>
    some (s.answered anchorId (suppressPatternAnchorLite env.toScoringEnv s.db defaults body now))
  | .unsuppress body now =>
    some (s.answered anchorId (unsuppressPatternAnchorLite env.toScoringEnv s.db defaults body now))
  | .feedback args =>
    match writeToolsDecisionPatternAnchor env s.db args with
    | some (_, db) => some { s with db }
    | none => some s

/-- `operator_override_v1` of the anchor. -/
def storedOverride (n : LiteNode) : Option Json := Json.get n.slots "operator_override_v1"

/-- The last operator call suppresses the anchor, and its time is not over. -/
def Suppressing (parseDate : String → Option ℚ) (last : Option PatternOperatorOverride) (now : ℚ) :
    Prop :=
  ∃ o, last = some o ∧ o.lastAction = .suppress ∧
    ∀ time, given o.untilTime = some time → ∃ ms, parseDate time = some ms ∧ now < ms

/-- The anchor holds the override of the last operator call, and tool selection takes it as
suppressed just while that call suppresses it. -/
structure FollowsOperator (s : OverrideState) : Prop where
  stored : ∃ n ∈ s.db.nodes, n.id = anchorId ∧
    storedOverride n = s.last.map (fun o => .obj o.json) ∧
    ∀ now, isPatternSuppressed env.parseDate (readPatternOperatorOverride n.slots) now = true ↔
      Suppressing env.parseDate s.last now

/-- Feedback that goes through does not find the anchor with an override. -/
def FeedbackFirst (s : OverrideState) : PatternEvent → Prop
  | .feedback args => ∀ n,
      findExistingPatternAnchorLite s.db args.scope
        (patternClientId args.feedback.patternSignature) = some n →
      n.id = anchorId → (nextPatternSlots env args (some n)).isSome → storedOverride n = none
  | _ => True

/-! ## Feedback against the operator -/

theorem isPatternSuppressed_some {parseDate : String → Option ℚ} {o : PatternOperatorOverride}
    (hlabel : o.suppressed = true ↔ o.lastAction = .suppress) (now : ℚ) :
    isPatternSuppressed parseDate (some o) now = true ↔ Suppressing parseDate (some o) now := by
  unfold isPatternSuppressed Suppressing
  rw [Option.any_some, Bool.and_eq_true, hlabel]
  constructor
  · rintro ⟨haction, htime⟩
    refine ⟨o, rfl, haction, fun time hgiven => ?_⟩
    rw [hgiven] at htime
    obtain ⟨ms, hms, hlt⟩ := (Option.any_eq_true _ _).1 htime
    exact ⟨ms, hms, of_decide_eq_true hlt⟩
  · rintro ⟨o', ho', haction, htime⟩
    obtain rfl := Option.some.inj ho'
    refine ⟨haction, ?_⟩
    cases hgiven : given o.untilTime with
    | none => rfl
    | some time =>
      obtain ⟨ms, hms, hlt⟩ := htime time hgiven
      exact (Option.any_eq_true _ _).2 ⟨ms, hms, decide_eq_true hlt⟩

variable {env defaults anchorId} {s s' : OverrideState} {db : LiteDb}

theorem FollowsOperator.of_stored {n : LiteNode} (hn : n ∈ s.db.nodes) (hid : n.id = anchorId)
    (hstored : storedOverride n = s.last.map fun o => .obj o.json)
    (hlast : ∀ now, isPatternSuppressed env.parseDate s.last now = true ↔
      Suppressing env.parseDate s.last now) : FollowsOperator env anchorId s := by
  refine ⟨n, hn, hid, hstored, fun now => ?_⟩
  rw [readPatternOperatorOverride_eq hstored]
  exact hlast now

theorem FollowsOperator.suppressed (h : FollowsOperator env anchorId s) (now : ℚ) :
    isPatternSuppressed env.parseDate s.last now = true ↔
      Suppressing env.parseDate s.last now := by
  obtain ⟨n, -, -, hstored, hread⟩ := h.stored
  rw [readPatternOperatorOverride_eq hstored] at hread
  exact hread now

theorem FollowsOperator.of_kept (h : FollowsOperator env anchorId s)
    (hkept : ∀ n ∈ s.db.nodes, n.id = anchorId → n ∈ db.nodes) :
    FollowsOperator env anchorId { s with db } := by
  obtain ⟨n, hn, hid, hstored, -⟩ := h.stored
  exact .of_stored (s := { s with db }) (hkept n hn hid) hid hstored h.suppressed

theorem kept_of_id_ne {u : NodeAnchorUpdate} (h : u.id ≠ anchorId) (n : LiteNode)
    (hn : n ∈ s.db.nodes) (hid : n.id = anchorId) :
    n ∈ (s.db.updateNodeAnchorState u).2.nodes := by
  rw [← NodeAnchorUpdate.on_of_miss (u := u) fun hhit => h (hhit.2.symm.trans hid)]
  exact LiteDb.mem_updateNodeAnchorState hn

/-- An operator call on any anchor leaves what the last call on this one has set. -/
theorem FollowsOperator.operator (h : FollowsOperator env anchorId s) {tenancy : TenantScope}
    (htenancy : Accepted defaults tenancy) {actor : Option String} {id : String}
    (huuid : isUuid id = true) {o : PatternOperatorOverride}
    (hlabel : o.suppressed = true ↔ o.lastAction = .suppress) :
    FollowsOperator env anchorId (s.answered anchorId
      (updatePatternOperatorOverride env.toScoringEnv s.db tenancy actor id o)) := by
  obtain ⟨e, hrefused⟩ | ⟨answer, row, hrow, hscope, hid, hanswer, hoverride, haccepted⟩ :=
    @updatePatternOperatorOverride_spec env.toScoringEnv s.db _ _ htenancy actor _ huuid o
  · rw [hrefused]
    exact h
  · rw [haccepted]
    by_cases hanchor : id = anchorId
    · have hset : storedOverride ((overrideUpdate tenancy.scopeKey row o).on row) =
          some (.obj o.json) := by
        rw [NodeAnchorUpdate.on_of_hit ⟨hscope, rfl⟩]
        show Json.get (Json.set row.slots "operator_override_v1" (.obj o.json)) _ = _
        rw [Json.get_set, if_pos rfl]
      have hkey := (overrideUpdate tenancy.scopeKey row o).on_toNodeKey row
      refine .of_stored (LiteDb.mem_updateNodeAnchorState hrow)
        ((congrArg NodeKey.id hkey).trans (hid.trans hanchor)) ?_ ?_
      · simp only [OverrideState.answered, hanswer, hanchor, if_true, hoverride, Option.map_some]
        exact hset
      · simp only [OverrideState.answered, hanswer, hanchor, if_true, hoverride]
        exact isPatternSuppressed_some hlabel
    · have hother : answer.anchorId ≠ anchorId := by rwa [hanswer]
      simp only [OverrideState.answered, hother, if_false]
      exact h.of_kept fun n hn hnid =>
        kept_of_id_ne (fun heq => hanchor (hid.symm.trans heq)) n hn hnid

theorem storedOverride_nextPatternSlots {args : WriteToolsDecisionPatternAnchorArgs}
    {existingNode : Option LiteNode} {anchor : MemoryAnchorV1} {slots : Json.Fields}
    (h : nextPatternSlots env args existingNode = some (anchor, slots)) :
    Json.get slots "operator_override_v1" = none := by
  unfold nextPatternSlots at h
  obtain ⟨existing, -, h⟩ := Option.bind_eq_some_iff.1 h
  obtain ⟨a, -, h⟩ := Option.bind_eq_some_iff.1 h
  obtain ⟨slots', hslots, h⟩ := Option.bind_eq_some_iff.1 h
  obtain ⟨rfl, rfl⟩ := Prod.mk.inj (Option.some.inj h)
  have hkeys := keys_buildPatternAnchorSlots hslots
  refine List.lookup_eq_none_iff.2 fun f hf => ?_
  have hkey : f.1 ∈ patternAnchorSlotKeys := hkeys ▸ List.mem_map_of_mem hf
  rw [bne_iff_ne]
  rintro heq
  rw [← heq] at hkey
  revert hkey
  decide

/-- Feedback rebuilds the slots of the node it finds, and keeps every other row. -/
theorem FollowsOperator.feedback (h : FollowsOperator env anchorId s)
    {args : WriteToolsDecisionPatternAnchorArgs}
    (hstep : OverrideState.step env defaults anchorId s (.feedback args) = some s') :
    FollowsOperator env anchorId s' ↔ FeedbackFirst env anchorId s (.feedback args) := by
  obtain ⟨n, hn, hid, hstored, -⟩ := h.stored
  simp only [OverrideState.step, writeToolsDecisionPatternAnchor] at hstep
  unfold FeedbackFirst
  dsimp only
  cases hfound : findExistingPatternAnchorLite s.db args.scope
      (patternClientId args.feedback.patternSignature) with
  | none =>
    rw [hfound] at hstep
    refine iff_of_true ?_ fun n hn => nomatch hn
    dsimp only at hstep
    by_cases hnegative : args.feedback.feedbackOutcome = .negative
    · rw [if_pos hnegative] at hstep
      obtain rfl := Option.some.inj hstep
      exact h
    · rw [if_neg hnegative] at hstep
      cases hslots : nextPatternSlots env args none with
      | none =>
        rw [hslots] at hstep
        obtain rfl := Option.some.inj hstep
        exact h
      | some next =>
        rw [hslots] at hstep
        dsimp only [Option.bind_eq_bind, Option.bind_some] at hstep
        cases hrow : env.insertedNode _ with
        | none =>
          rw [hrow] at hstep
          obtain rfl := Option.some.inj hstep
          exact h
        | some row =>
          rw [hrow] at hstep
          obtain rfl := Option.some.inj hstep
          exact h.of_kept fun n hn _ => LiteDb.mem_insertNode hn
  | some node =>
    rw [hfound] at hstep
    dsimp only at hstep
    cases hslots : nextPatternSlots env args (some node) with
    | none =>
      rw [hslots] at hstep
      obtain rfl := Option.some.inj hstep
      refine iff_of_true h ?_
      intro m hm _ hsome
      rw [← hm, hslots] at hsome
      cases hsome
    | some next =>
      rw [hslots] at hstep
      obtain rfl := Option.some.inj hstep
      obtain ⟨hnode, hmatches⟩ := LiteDb.findNode_eq_some hfound
      by_cases hanchor : node.id = anchorId
      · -- The anchor's own slots are rebuilt, and the override is not among them.
        obtain rfl : node = n := LiteDb.eq_of_id hnode hn (hanchor.trans hid.symm)
        have hmem := LiteDb.mem_updateNodeAnchorState
          (u := patternUpdate env args node next.1 next.2) hnode
        have hkey := (patternUpdate env args node next.1 next.2).on_toNodeKey node
        have hrebuilt : storedOverride ((patternUpdate env args node next.1 next.2).on node) =
            none := by
          rw [NodeAnchorUpdate.on_of_hit ⟨LiteDb.matches_scope hmatches, rfl⟩]
          exact storedOverride_nextPatternSlots hslots
        constructor
        · intro hfollows m hm _ _
          obtain rfl := Option.some.inj hm
          obtain ⟨n', hn', hid', hstored', -⟩ := hfollows.stored
          obtain rfl := LiteDb.eq_of_id hmem hn'
            ((congrArg NodeKey.id hkey).trans (hanchor.trans hid'.symm))
          rw [hstored, ← hstored', hrebuilt]
        · intro hfirst
          have hnone := hfirst node rfl hanchor (by rw [hslots]; rfl)
          refine .of_stored hmem ((congrArg NodeKey.id hkey).trans hanchor) ?_ h.suppressed
          rw [hrebuilt, ← hnone, hstored]
      · refine iff_of_true (h.of_kept (kept_of_id_ne hanchor)) ?_
        rintro m hm hid' -
        obtain rfl := Option.some.inj hm
        exact absurd hid' hanchor

theorem FollowsOperator.step (h : FollowsOperator env anchorId s) {e : PatternEvent}
    (hstep : OverrideState.step env defaults anchorId s e = some s') :
    FollowsOperator env anchorId s' ↔ FeedbackFirst env anchorId s e := by
  cases e with
  | suppress body now =>
    obtain rfl := Option.some.inj hstep
    refine iff_of_true ?_ trivial
    unfold suppressPatternAnchorLite
    split
    · exact h
    · next tenancy htenancy =>
      exact h.operator ⟨_, htenancy⟩ body.anchorUuid (iff_of_true rfl rfl)
  | unsuppress body now =>
    obtain rfl := Option.some.inj hstep
    refine iff_of_true ?_ trivial
    unfold unsuppressPatternAnchorLite
    split
    · exact h
    · next tenancy htenancy =>
      exact h.operator ⟨_, htenancy⟩ body.anchorUuid (iff_of_false nofun nofun)
  | feedback args => exact h.feedback hstep

theorem OverrideState.step_total (s : OverrideState) (e : PatternEvent) :
    ∃ s', OverrideState.step env defaults anchorId s e = some s' := by
  cases e with
  | suppress body now => exact ⟨_, rfl⟩
  | unsuppress body now => exact ⟨_, rfl⟩
  | feedback args =>
    simp only [OverrideState.step]
    split
    · exact ⟨_, rfl⟩
    · exact ⟨_, rfl⟩

/-- An anchor holds what the operator has set throughout a history just if no feedback that goes
through finds it with an override. -/
theorem override_follows_operator (env : PatternWriteEnv) (defaults : TenantDefaults)
    (anchorId : String) {s : OverrideState} (events : List PatternEvent)
    (h : FollowsOperator env anchorId s) :
    (∀ pre t, pre <+: events → run (OverrideState.step env defaults anchorId) s pre = some t →
        FollowsOperator env anchorId t) ↔
      Along (OverrideState.step env defaults anchorId) (FeedbackFirst env anchorId) s events :=
  forall_prefix_iff_along (fun s e => s.step_total e) (fun _ _ _ hs hstep => hs.step hstep) h

end Histories

/-! ## A suppressed pattern that counts again -/

/-- The contract of a projection that gives its lists as the schema wants them. -/
def sampleContract (projection : Json.Fields) : Json.Fields :=
  Json.spread [("schema_version", .str "execution_contract_v1"), ("contract_trust", .null),
    ("task_family", .null), ("task_signature", .null), ("workflow_signature", .null),
    ("policy_memory_id", .null), ("selected_tool", .null), ("file_path", .null),
    ("target_files", .arr []), ("next_action", .null), ("workflow_steps", .arr []),
    ("pattern_hints", .arr []), ("service_lifecycle_constraints", .arr []),
    ("outcome", .obj [("acceptance_checks", .arr []), ("success_invariants", .arr []),
      ("dependency_requirements", .arr []), ("environment_assumptions", .arr []),
      ("must_hold_after_exit", .arr []), ("external_visibility_requirements", .arr [])])]
    (Json.set projection "provenance" (.obj (Json.spread
      [("source_kind", .null), ("source_summary_version", .null), ("source_anchor", .null),
        ("evidence_refs", .arr []), ("notes", .arr [])]
      ((Json.asRecord (Json.get projection "provenance")).getD []))))

/-- One date is known. -/
def samplePatternEnv : PatternWriteEnv where
  toNumber
    | .num q => some q
    | _ => none
  parseDate s := if s = "2026-01-01T00:00:00.000Z" then some 1767225600000 else none
  deriveExecutionContractFromSlots slots _ := Json.asRecord (Json.get slots "execution_contract_v1")
  buildExecutionContractFromProjection projection := some (sampleContract projection)
  insertedNode _ := none

def sampleFeedback : PatternFeedback where
  patternSignature := "b1946ac9"
  selectedTool := "edit"
  candidates := ["edit"]
  decision := ⟨"00000000-0000-4000-8000-0000000000d1", some "run-2",
    "2026-01-01T00:00:00.000Z", none⟩
  feedbackCommitId := "00000000-0000-4000-8000-0000000000c1"
  feedbackOutcome := .positive

/-- A pattern with the fields that its schema wants. -/
def samplePatternAnchor : Json.Fields := [
  ("anchor_kind", .str "pattern"), ("anchor_level", .str "L3"),
  ("task_signature", .str "tools_select"), ("pattern_signature", .str "b1946ac9"),
  ("summary", .str "prefer edit"), ("tool_set", .arr [.str "edit"]), ("selected_tool", .str "edit"),
  ("outcome", .obj [("status", .str "success")]),
  ("source", .obj [("source_kind", .str "tool_decision")]), ("payload_refs", .obj []),
  ("schema_version", .str "anchor_v1")]

def samplePatternNode : LiteNode where
  id := "00000000-0000-4000-8000-0000000000a1"
  scope := "default"
  clientId := some "tools-pattern:b1946ac9"
  type := "concept"
  createdAt := "2026-01-01T00:00:00.000Z"
  slots := [("anchor_v1", .obj samplePatternAnchor)]
  salience := 1 / 2
  importance := 1 / 2
  confidence := 1 / 2
  commitId := "00000000-0000-4000-8000-0000000000c1"

def samplePatternState : OverrideState where
  db := { nodes := [samplePatternNode], commits := [], primaryKey := List.nodup_singleton _ }
  last := none

def sampleFeedbackEvent : PatternEvent :=
  .feedback { tenantId := "default", scope := "default", feedback := sampleFeedback,
              now := 1767225600000 }

def sampleSuppressEvent : PatternEvent :=
  .suppress { anchorId := "00000000-0000-4000-8000-0000000000a1", anchorUuid := by decide +kernel,
              reason := "flaky" } "2026-01-01T00:00:00.000Z"

def samplePatternStep : OverrideState → PatternEvent → Option OverrideState :=
  OverrideState.step samplePatternEnv ⟨"default", "default"⟩ samplePatternNode.id

theorem storedOverride_sample : storedOverride samplePatternNode = none := by decide

theorem samplePatternState_follows :
    FollowsOperator samplePatternEnv samplePatternNode.id samplePatternState :=
  .of_stored (n := samplePatternNode) (List.mem_singleton_self _) rfl storedOverride_sample
    fun _ => iff_of_false nofun fun ⟨_, ho, _⟩ => nomatch ho

/-- Feedback before the operator acts, then the operator. -/
theorem override_follows_operator_sample :
    storedOverride samplePatternNode = none ∧
      ∀ pre t, pre <+: [sampleFeedbackEvent, sampleSuppressEvent] →
        run samplePatternStep samplePatternState pre = some t →
        FollowsOperator samplePatternEnv samplePatternNode.id t :=
  ⟨storedOverride_sample,
    (override_follows_operator samplePatternEnv ⟨"default", "default"⟩ samplePatternNode.id
      [sampleFeedbackEvent, sampleSuppressEvent] samplePatternState_follows).2
      ⟨fun n hn _ _ => by
        have hmem := (LiteDb.findNode_eq_some hn).1
        obtain rfl := List.mem_singleton.1 hmem
        exact storedOverride_sample, fun _ _ => ⟨trivial, fun _ _ => trivial⟩⟩⟩

/-- The operator suppresses the pattern, and the next positive feedback drops the override. -/
theorem feedback_lifts_suppression :
    FollowsOperator samplePatternEnv samplePatternNode.id samplePatternState ∧
      ∃ t, run samplePatternStep samplePatternState
          [sampleSuppressEvent, sampleFeedbackEvent] = some t ∧
        (∃ o, t.last = some o ∧ o.suppressed = true ∧ o.untilTime = none) ∧
        (t.db.nodes.map fun n => isPatternSuppressed samplePatternEnv.parseDate
          (readPatternOperatorOverride n.slots) 1767225600000) = [false] ∧
        ¬ FollowsOperator samplePatternEnv samplePatternNode.id t := by
  refine ⟨samplePatternState_follows, ?_⟩
  have hrun : ((run samplePatternStep samplePatternState
      [sampleSuppressEvent, sampleFeedbackEvent]).map fun t =>
        (t.last.map fun o => (o.suppressed, o.untilTime), t.db.nodes.map fun n =>
          (storedOverride n, isPatternSuppressed samplePatternEnv.parseDate
            (readPatternOperatorOverride n.slots) 1767225600000))) =
      some (some (true, none), [(none, false)]) := by decide +kernel
  obtain ⟨t, ht, hview⟩ := Option.map_eq_some_iff.1 hrun
  obtain ⟨hlast, hnodes⟩ := Prod.mk.inj hview
  obtain ⟨o, ho, hfields⟩ := Option.map_eq_some_iff.1 hlast
  obtain ⟨hsuppressed, huntil⟩ := Prod.mk.inj hfields
  refine ⟨t, ht, ⟨o, ho, hsuppressed, huntil⟩, ?_, ?_⟩
  · have hsecond := congrArg (List.map Prod.snd) hnodes
    rwa [List.map_map] at hsecond
  · rintro ⟨n, hn, -, hstored, -⟩
    have hmem := List.mem_map_of_mem (f := fun n : LiteNode => storedOverride n) hn
    have hfirst := congrArg (List.map Prod.fst) hnodes
    rw [List.map_map] at hfirst
    rw [show t.db.nodes.map (fun n => storedOverride n) = [none] from hfirst,
      List.mem_singleton, hstored, ho] at hmem
    cases hmem

end AionisCore.Memory
