import AionisCore.Memory.Tenant
import AionisCore.Store.Nodes

/-!
# The Lite replay store

The mirror table of replay nodes and the lookups of `createReplayAccess`. A
row is found under a scope key; a lookup tries the spellings `scopeVariants`
derives from the key and answers from the first one that has a visible row.
`slots_json` is the value the text denotes.
-/

namespace AionisCore.Store

open Lib Lib.JsString Memory

structure LiteReplayRow where
  nodeId : String
  scope : String
  replayKind : String
  runId : Option String := none
  stepId : Option String := none
  stepIndex : Option Int := none
  playbookId : Option String := none
  versionNum : Option Int := none
  playbookStatus : Option String := none
  nodeType : String
  title : Option String := none
  textSummary : Option String := none
  slotsJson : Json
  memoryLane : MemoryLane
  producerAgentId : Option String := none
  ownerAgentId : Option String := none
  ownerTeamId : Option String := none
  createdAt : String
  updatedAt : String
  commitId : Option String := none

/-- The table `lite_replay_nodes`; `node_id` is its primary key. -/
structure LiteReplayDb where
  rows : List LiteReplayRow
  primaryKey : (rows.map (·.nodeId)).Nodup

/-- A text that is not blank, trimmed. -/
def toStringOrNull : Option Json → Option String
  | some (.str s) => if trim s ≠ "" then some (trim s) else none
  | _ => none

structure ReplayVisibilityArgs where
  consumerAgentId : Option String
  consumerTeamId : Option String

structure ReplayNodeRow where
  id : String
  type : String
  title : Option String
  textSummary : Option String
  slots : Json
  createdAt : String
  updatedAt : String
  commitId : Option String
  memoryLane : MemoryLane
  producerAgentId : Option String
  ownerAgentId : Option String
  ownerTeamId : Option String

structure ReplayPlaybookRow extends ReplayNodeRow where
  versionNum : Int
  playbookStatus : Option String
  playbookId : Option String

def replayNodeFromRow (row : LiteReplayRow) : ReplayNodeRow :=
  { id := row.nodeId
    type := row.nodeType
    title := row.title
    textSummary := row.textSummary
    slots := row.slotsJson
    createdAt := row.createdAt
    updatedAt := row.updatedAt
    commitId := row.commitId
    memoryLane := row.memoryLane
    producerAgentId := row.producerAgentId
    ownerAgentId := row.ownerAgentId
    ownerTeamId := row.ownerTeamId }

def replayPlaybookFromRow (row : LiteReplayRow) : ReplayPlaybookRow :=
  { replayNodeFromRow row with
    versionNum := row.versionNum.getD 1
    playbookStatus := row.playbookStatus
    playbookId := row.playbookId }

/-! ## Spellings of a scope key -/

/-- The characters `.` does not match. -/
def isLineTerminator (c : Char) : Bool := c.toNat ∈ [0xA, 0xD, 0x2028, 0x2029]

def HasLineTerminator (s : String) : Prop := ∃ c ∈ s.toList, isLineTerminator c = true

instance (s : String) : Decidable (HasLineTerminator s) :=
  inferInstanceAs (Decidable (∃ c ∈ s.toList, isLineTerminator c = true))

/-- `/^tenant:([a-zA-Z0-9._-]+)::scope:(.+)$/`: the tenant and the scope of a derived key. -/
def matchScopeKey (scope : String) : Option (String × String) := do
  let rest ← scope.toList.dropPrefix? "tenant:".toList
  let tenantId := rest.takeWhile isTenantChar
  let rawScope ← (rest.dropWhile isTenantChar).dropPrefix? "::scope:".toList
  if tenantId ≠ [] ∧ rawScope ≠ [] ∧ rawScope.all (!isLineTerminator ·) then
    some (String.ofList tenantId, String.ofList rawScope)
  else none

/-- `if (v && !variants.includes(v)) variants.push(v)`. -/
def pushNew (variants : List String) (v : String) : List String :=
  if v ≠ "" ∧ v ∉ variants then variants ++ [v] else variants

def scopeVariants (scope : String) : List String :=
  let raw := fromTenantScopeKey scope "default" "default"
  let variants := if raw ≠ scope then [scope, raw] else [scope]
  match matchScopeKey scope with
  | some (tenantId, rawScope) =>
    pushNew (pushNew variants (fromTenantScopeKey scope tenantId "default")) rawScope
  | none => variants

/-! ## Statements -/

/-- `ORDER BY created_at DESC`. -/
def newestFirst (a b : LiteReplayRow) : Prop := b.createdAt ≤ a.createdAt

/-- `ORDER BY created_at ASC`. -/
def oldestFirst (a b : LiteReplayRow) : Prop := a.createdAt ≤ b.createdAt

/-- `NULL` sorts below every number. -/
def versionLt : Option Int → Option Int → Bool
  | _, none => false
  | none, some _ => true
  | some m, some n => decide (m < n)

/-- `ORDER BY version_num DESC, created_at DESC`. -/
def newestVersionFirst (a b : LiteReplayRow) : Prop :=
  versionLt b.versionNum a.versionNum = true ∨
    b.versionNum = a.versionNum ∧ b.createdAt ≤ a.createdAt

instance : DecidableRel newestFirst := fun _ _ => inferInstanceAs (Decidable (_ ≤ _))
instance : DecidableRel oldestFirst := fun _ _ => inferInstanceAs (Decidable (_ ≤ _))
instance : DecidableRel newestVersionFirst := fun _ _ => inferInstanceAs (Decidable (_ ∨ _))

namespace LiteReplayDb

variable (db : LiteReplayDb)

/-- `SELECT … WHERE scope = ? AND … ORDER BY …`. -/
def select (scope : String) (p : LiteReplayRow → Bool) (r : LiteReplayRow → LiteReplayRow → Prop)
    [DecidableRel r] : List LiteReplayRow :=
  (db.rows.filter fun row => row.scope == scope && p row).insertionSort r

def getRunStmt (scope runId : String) : Option LiteReplayRow :=
  (db.select scope (fun row => row.replayKind == "run" && row.runId == some runId)
    newestFirst).head?

def getStepStmt (scope nodeId : String) : Option LiteReplayRow :=
  db.rows.find? fun row => row.scope == scope && row.nodeId == nodeId && row.replayKind == "step"

def getStepByIndexStmt (scope runId : String) (stepIndex : Int) : Option LiteReplayRow :=
  (db.select scope (fun row => row.replayKind == "step" && row.runId == some runId &&
    row.stepIndex == some stepIndex) newestFirst).head?

def listRunNodesStmt (scope runId : String) : List LiteReplayRow :=
  db.select scope (fun row => row.runId == some runId) oldestFirst

def listPlaybookVersionsStmt (scope playbookId : String) : List LiteReplayRow :=
  db.select scope (fun row => row.replayKind == "playbook" && row.playbookId == some playbookId)
    newestVersionFirst

def getPlaybookVersionStmt (scope playbookId : String) (version : Int) : Option LiteReplayRow :=
  (db.select scope (fun row => row.replayKind == "playbook" && row.playbookId == some playbookId &&
    row.versionNum == some version) newestFirst).head?

end LiteReplayDb

def replayNodeVisible (visibility : ReplayVisibilityArgs) (row : LiteReplayRow) : Bool :=
  row.memoryLane == .sharedLane ||
    visibility.consumerAgentId.any (fun a => a ≠ "" && row.ownerAgentId == some a) ||
    visibility.consumerTeamId.any (fun t => t ≠ "" && row.ownerTeamId == some t)

/-- The visible rows, unless there is none. -/
def someVisible (visibility : ReplayVisibilityArgs) (rows : List LiteReplayRow) :
    Option (List LiteReplayRow) :=
  let visible := rows.filter (replayNodeVisible visibility)
  if visible.isEmpty then none else some visible

/-! ## Lookups

`…In` is what a lookup finds under one spelling of the scope. -/

section Access

variable (db : LiteReplayDb) (visibility : ReplayVisibilityArgs)

def runNodeIn (runId variant : String) : Option ReplayNodeRow :=
  ((db.getRunStmt variant runId).filter (replayNodeVisible visibility)).map replayNodeFromRow

def stepNodeIn (runId : String) (stepIndex : Int) (variant : String) : Option ReplayNodeRow :=
  ((db.getStepByIndexStmt variant runId stepIndex).filter
    (replayNodeVisible visibility)).map replayNodeFromRow

def runNodesIn (runId variant : String) : Option (List ReplayNodeRow) :=
  (someVisible visibility (db.listRunNodesStmt variant runId)).map (·.map replayNodeFromRow)

def playbooksIn (playbookId variant : String) : Option (List ReplayPlaybookRow) :=
  (someVisible visibility (db.listPlaybookVersionsStmt variant playbookId)).map
    (·.map replayPlaybookFromRow)

def playbookIn (playbookId : String) (version : Int) (variant : String) :
    Option ReplayPlaybookRow :=
  ((db.getPlaybookVersionStmt variant playbookId version).filter
    (replayNodeVisible visibility)).map replayPlaybookFromRow

variable (scope : String)

def findRunNodeByRunId (runId : String) : Option ReplayNodeRow :=
  (scopeVariants scope).findSome? (runNodeIn db visibility runId)

def findStepNodeById (stepId : String) : Option ReplayNodeRow :=
  ((db.getStepStmt scope stepId).filter (replayNodeVisible visibility)).map replayNodeFromRow

def findLatestStepNodeByIndex (runId : String) (stepIndex : Int) : Option ReplayNodeRow :=
  (scopeVariants scope).findSome? (stepNodeIn db visibility runId stepIndex)

def listReplayNodesByRunId (runId : String) : List ReplayNodeRow :=
  ((scopeVariants scope).findSome? (runNodesIn db visibility runId)).getD []

def listReplayPlaybookVersions (playbookId : String) : List ReplayPlaybookRow :=
  ((scopeVariants scope).findSome? (playbooksIn db visibility playbookId)).getD []

def getReplayPlaybookVersion (playbookId : String) (version : Int) : Option ReplayPlaybookRow :=
  (scopeVariants scope).findSome? (playbookIn db visibility playbookId version)

end Access

/-! ## The spellings of an accepted pair -/

theorem dropPrefix?_of_not_isPrefixOf {l p : List Char} (h : p.isPrefixOf l = false) :
    l.dropPrefix? p = none := by
  rw [Option.eq_none_iff_forall_ne_some]
  intro rest hrest
  obtain ⟨p', rfl, hp⟩ := List.dropPrefix?_eq_some_iff.1 hrest
  rw [beq_iff_eq] at hp
  rw [hp, List.isPrefixOf_iff_prefix.2 (List.prefix_append _ _)] at h
  cases h

theorem matchScopeKey_of_not_reserved {s : String} (h : reserved s = false) :
    matchScopeKey s = none := by
  unfold matchScopeKey
  rw [dropPrefix?_of_not_isPrefixOf h]
  rfl

theorem matchScopeKey_keyHead {t s : String} (ht : TenantIdOk t) (hs : s ≠ "") :
    matchScopeKey (keyHead t ++ s) = if HasLineTerminator s then none else some (t, s) := by
  have hne : t.toList ≠ [] := by simpa using ht.nonempty
  have hsne : s.toList ≠ [] := by simpa using hs
  have hcolon : "::scope:".toList ++ s.toList = ':' :: (":scope:".toList ++ s.toList) := rfl
  have htake : (t.toList ++ ("::scope:".toList ++ s.toList)).takeWhile isTenantChar = t.toList := by
    rw [List.takeWhile_append_of_pos ht.all, hcolon, List.takeWhile_cons_of_neg (by decide),
      List.append_nil]
  have hdrop : (t.toList ++ ("::scope:".toList ++ s.toList)).dropWhile isTenantChar =
      "::scope:".toList ++ s.toList := by
    rw [List.dropWhile_append_of_pos ht.all, hcolon, List.dropWhile_cons_of_neg (by decide)]
  have hall : s.toList.all (!isLineTerminator ·) = true ↔ ¬ HasLineTerminator s := by
    simp [HasLineTerminator]
  unfold matchScopeKey
  rw [keyHead_append_toList, dropPrefix?_append_self]
  simp only [Option.bind_eq_bind, Option.bind_some, htake, hdrop, dropPrefix?_append_self, hall,
    String.ofList_toList]
  by_cases hlt : HasLineTerminator s
  · rw [if_pos hlt, if_neg fun h => h.2.2 hlt]
  · rw [if_neg hlt, if_pos ⟨hne, hsne, hlt⟩]

theorem scopeVariants_of_no_match {s : String} (h : matchScopeKey s = none) :
    scopeVariants s = [s] := by
  simp [scopeVariants, h, fromTenantScopeKey]

/-- A key is never the scope it was derived from. -/
theorem keyHead_append_ne (t s : String) : keyHead t ++ s ≠ s := by
  intro h
  have hlen := congrArg (fun s => s.toList.length) h
  simp only [keyHead_append_toList, List.length_append] at hlen
  have : 0 < "tenant:".toList.length := by decide
  omega

theorem scopeVariants_keyHead {t s : String} (ht : TenantIdOk t) (hs : s ≠ "") :
    scopeVariants (keyHead t ++ s) =
      if HasLineTerminator s then [keyHead t ++ s] else [keyHead t ++ s, s] := by
  have hm := matchScopeKey_keyHead ht hs
  split
  · next hlt => exact scopeVariants_of_no_match (hm.trans (if_pos hlt))
  · next hlt =>
    rw [if_neg hlt] at hm
    have hne := keyHead_append_ne t s
    generalize hk : keyHead t ++ s = key at hm hne
    have hpush : pushNew [key] s = [key, s] := by simp [pushNew, hs, Ne.symm hne]
    have hdup : pushNew [key, s] s = [key, s] := by simp [pushNew]
    have hkey : pushNew [key] key = [key] := by simp [pushNew]
    have hraw : fromTenantScopeKey key "default" "default" = key := if_pos rfl
    simp only [scopeVariants, hraw, hm, ne_eq, not_true_eq_false, if_false]
    by_cases hd : t = "default"
    · rw [hd, hraw, hkey, hpush]
    · rw [← hk, fromTenantScopeKey_keyHead hd, hk, hpush, hdup]

/-- Lookups of the pair also try its raw scope. -/
def TriesRawScope (d : TenantDefaults) (p : TenantScope) : Prop :=
  p.tenantId ≠ d.defaultTenantId ∧ ¬ HasLineTerminator p.scope

theorem scopeVariants_accepted {d : TenantDefaults} {p : TenantScope} (hp : Accepted d p) :
    (TriesRawScope d p → scopeVariants p.scopeKey = [p.scopeKey, p.scope]) ∧
      (¬ TriesRawScope d p → scopeVariants p.scopeKey = [p.scopeKey]) := by
  obtain ⟨ht, hs, hk⟩ := accepted_iff.1 hp
  by_cases hd : p.tenantId = d.defaultTenantId
  · rw [toTenantScopeKey, if_pos hd] at hk
    have hv := scopeVariants_of_no_match (matchScopeKey_of_not_reserved hs.not_reserved)
    exact ⟨fun h => absurd hd h.1, fun _ => hk ▸ hv⟩
  · rw [toTenantScopeKey, if_neg hd] at hk
    have hv := scopeVariants_keyHead ht hs.nonempty
    rw [← hk] at hv
    exact ⟨fun h => hv.trans (if_neg h.2), fun h =>
      hv.trans (if_pos (not_not.1 fun hlt => h ⟨hd, hlt⟩))⟩

/-! ## Where a row is stored -/

/-- The row with this id is stored under `key`. -/
def StoredUnder (db : LiteReplayDb) (id key : String) : Prop :=
  ∃ row ∈ db.rows, row.nodeId = id ∧ row.scope = key

theorem StoredUnder.unique {db : LiteReplayDb} {id k k' : String} (h : StoredUnder db id k)
    (h' : StoredUnder db id k') : k = k' := by
  obtain ⟨row, hrow, hid, rfl⟩ := h
  obtain ⟨row', hrow', hid', rfl⟩ := h'
  rw [List.inj_on_of_nodup_map db.primaryKey hrow hrow' (hid.trans hid'.symm)]

theorem storedUnder_of_mem_select {db : LiteReplayDb} {scope : String} {p : LiteReplayRow → Bool}
    {r : LiteReplayRow → LiteReplayRow → Prop} [DecidableRel r] {row : LiteReplayRow}
    (h : row ∈ db.select scope p r) : StoredUnder db row.nodeId scope := by
  rw [LiteReplayDb.select, List.mem_insertionSort, List.mem_filter, Bool.and_eq_true,
    beq_iff_eq] at h
  exact ⟨row, h.1, rfl, h.2.1⟩

theorem someVisible_eq_some {visibility : ReplayVisibilityArgs} {rows vs : List LiteReplayRow}
    (h : someVisible visibility rows = some vs) : vs ≠ [] ∧ ∀ row ∈ vs, row ∈ rows := by
  simp only [someVisible, List.isEmpty_iff] at h
  split at h
  · cases h
  · next hne =>
    cases h
    exact ⟨hne, fun row hrow => (List.mem_filter.1 hrow).1⟩

section Stored

variable {db : LiteReplayDb} {visibility : ReplayVisibilityArgs} {variant runId : String}
  {n : ReplayNodeRow}

section Rows

variable {α : Type} (f : LiteReplayRow → α) (id : α → String)
  (hid : ∀ row, id (f row) = row.nodeId) {p : LiteReplayRow → Bool}
  {order : LiteReplayRow → LiteReplayRow → Prop} [DecidableRel order]

include hid

theorem stored_of_head {n : α} (h : ((db.select variant p order).head?.filter
    (replayNodeVisible visibility)).map f = some n) :
    StoredUnder db (id n) variant := by
  obtain ⟨row, hrow, rfl⟩ := Option.map_eq_some_iff.1 h
  rw [hid]
  exact storedUnder_of_mem_select (List.mem_of_head? (Option.filter_eq_some_iff.1 hrow).1)

theorem stored_of_someVisible {ns : List α}
    (h : (someVisible visibility (db.select variant p order)).map (·.map f) = some ns) :
    ns ≠ [] ∧ ∀ n ∈ ns, StoredUnder db (id n) variant := by
  obtain ⟨rows, hrows, rfl⟩ := Option.map_eq_some_iff.1 h
  obtain ⟨hne, hmem⟩ := someVisible_eq_some hrows
  refine ⟨fun hnil => hne (List.map_eq_nil_iff.1 hnil), fun n hn => ?_⟩
  obtain ⟨row, hrow, rfl⟩ := List.mem_map.1 hn
  rw [hid]
  exact storedUnder_of_mem_select (hmem row hrow)

end Rows

theorem runNodeIn_stored (h : runNodeIn db visibility runId variant = some n) :
    StoredUnder db n.id variant :=
  stored_of_head replayNodeFromRow (·.id) (fun _ => rfl) h

theorem stepNodeIn_stored {stepIndex : Int}
    (h : stepNodeIn db visibility runId stepIndex variant = some n) : StoredUnder db n.id variant :=
  stored_of_head replayNodeFromRow (·.id) (fun _ => rfl) h

theorem playbookIn_stored {playbookId : String} {version : Int} {n : ReplayPlaybookRow}
    (h : playbookIn db visibility playbookId version variant = some n) :
    StoredUnder db n.id variant :=
  stored_of_head replayPlaybookFromRow (·.id) (fun _ => rfl) h

theorem runNodesIn_stored {ns : List ReplayNodeRow}
    (h : runNodesIn db visibility runId variant = some ns) :
    ns ≠ [] ∧ ∀ n ∈ ns, StoredUnder db n.id variant :=
  stored_of_someVisible replayNodeFromRow (·.id) (fun _ => rfl) h

theorem playbooksIn_stored {playbookId : String} {ns : List ReplayPlaybookRow}
    (h : playbooksIn db visibility playbookId variant = some ns) :
    ns ≠ [] ∧ ∀ n ∈ ns, StoredUnder db n.id variant :=
  stored_of_someVisible replayPlaybookFromRow (·.id) (fun _ => rfl) h

theorem findStepNodeById_stored {scope stepId : String}
    (h : findStepNodeById db visibility scope stepId = some n) : StoredUnder db n.id scope := by
  obtain ⟨row, hrow, rfl⟩ := Option.map_eq_some_iff.1 h
  have hfind := (Option.filter_eq_some_iff.1 hrow).1
  have hp := List.find?_some hfind
  simp only [Bool.and_eq_true, beq_iff_eq] at hp
  exact ⟨row, List.mem_of_find?_eq_some hfind, rfl, hp.1.1⟩

end Stored

end AionisCore.Store
