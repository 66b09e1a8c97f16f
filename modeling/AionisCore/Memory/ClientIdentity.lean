import AionisCore.Memory.WriteRows

/-!
# Ids from client ids

`prepareWriteBatch` gives a node with a client id the id that its scope key and its client id
determine, and an edge without an id one from its scope, its type and its ends. The texts that are
hashed are joined by colons.
-/

namespace AionisCore.Memory

open Lib Lib.JsString Util Store

/-! ## Batches -/

structure WriteNode where
  id : Option String := none
  clientId : Option String := none
  scope : Option String := none
  /-- `sha256Hex(stableStringify(node))`. -/
  contentSha256 : String
  /-- The node as it is prepared but for its id, its scope and its client id. -/
  prepared : PreparedNode

structure MemoryWriteInput where
  tenantId : Option String := none
  scope : Option String := none
  actor : Option String := none
  parentCommitId : Option String := none
  inputText : Option String := none
  inputSha256 : Option String := none
  modelVersion : Option String := none
  promptVersion : Option String := none
  nodes : List WriteNode := []
  edges : List WriteEdge := []

structure PrepareOptions where
  crypto : Crypto
  /-- `normalizeText`, and `redactPII` where it is on. -/
  normalizeMaybeRedact : String → String
  defaultScope : String
  defaultTenantId : String

def optionalName (v : Option String) : Bool := v.all (· ≠ "")

def optionalUuid (v : Option String) : Bool := v.all isUuid

def WriteRef.wellFormed (value : WriteRef) : Bool :=
  optionalUuid value.id && optionalName value.clientId &&
    (value.id.isSome || value.clientId.isSome)

/-- What `MemoryWriteRequest` asks of the ids, the scopes and the types of edges. -/
def MemoryWriteInput.wellFormed (input : MemoryWriteInput) : Bool :=
  (input.nodes.all fun node =>
    optionalUuid node.id && optionalName node.clientId && optionalName node.scope) &&
  (input.edges.all fun edge =>
    optionalUuid edge.id && optionalName edge.scope && edge.type ∈ EDGE_TYPES &&
      edge.src.wellFormed && edge.dst.wellFormed) &&
  ((given input.inputText).isSome || (given input.inputSha256).isSome)

def stableNodeIdFromClientId (crypto : Crypto) (scope clientId : String) : String :=
  crypto.stableUuid s!"{scope}:node:{trim clientId}"

section Prepare

variable (opts : PrepareOptions) (tenancy : TenantScope)

/-- The first of the nodes so far that is like this, with its place. -/
def priorNode? (seen : List PreparedNode) (p : PreparedNode → Bool) : Option (PreparedNode × Nat) :=
  seen.zipIdx.find? fun (node, _) => p node

def duplicateClientId (clientId : String) (prior : PreparedNode × Nat) (index : Nat)
    (scope : String) : WriteError :=
  .request (badRequest "duplicate_client_id_in_batch" "write batch contains duplicate client_id"
    (some [("client_id", .str clientId), ("first_index", .num prior.2),
      ("duplicate_index", .num index), ("first_scope_key", .str prior.1.scope),
      ("duplicate_scope_key", .str scope)]))

def duplicateNodeId (id : String) (prior : PreparedNode × Nat) (index : Nat) (scope : String)
    (clientId : Option String) : WriteError :=
  .request (badRequest "duplicate_node_id_in_batch" "write batch contains duplicate node id"
    (some [("node_id", .str id), ("first_index", .num prior.2), ("duplicate_index", .num index),
      ("first_scope_key", .str prior.1.scope), ("duplicate_scope_key", .str scope),
      ("first_client_id", Json.orNull prior.1.clientId),
      ("duplicate_client_id", Json.orNull clientId)]))

/-- The scope key of a part of the batch. -/
def partScope (scope : Option String) : String :=
  toTenantScopeKey (resolveWriteScope scope tenancy.scope) tenancy.tenantId opts.defaultTenantId

/-- The client id is trimmed, and no earlier node has it. -/
def checkClientId (seen : List PreparedNode) (scope : String) (clientId : Option String) :
    Except WriteError Unit :=
  if (given clientId).isSome ∧ given (clientId.map trim) = none then
    .error (.thrown "client_id becomes empty after trimming; provide a non-whitespace client_id")
  else
    match given (clientId.map trim) with
    | some c =>
      match priorNode? seen (fun n => n.clientId = some c) with
      | some prior => .error (duplicateClientId c prior seen.length scope)
      | none => .ok ()
    | none => .ok ()

def checkExpectedId (scope : String) (clientId id expectedId : Option String) :
    Except WriteError Unit :=
  match given id, expectedId with
  | some id, some expected =>
    let clientId := clientId.getD "undefined"
    if id ≠ expected then
      .error (.thrown (s!"client_id/id mismatch: scope={scope} client_id={clientId} " ++
        s!"id={id} expected_id={expected}"))
    else .ok ()
  | _, _ => .ok ()

def checkNodeId (seen : List PreparedNode) (scope : String) (clientId : Option String)
    (id : String) : Except WriteError Unit :=
  match priorNode? seen (·.id = id) with
  | some prior => .error (duplicateNodeId id prior seen.length scope clientId)
  | none => .ok ()

/-- A node of the batch behind the nodes `seen`. -/
def prepareNode (seen : List PreparedNode) (node : WriteNode) : Except WriteError PreparedNode := do
  let scope := partScope opts tenancy node.scope
  let clientId := node.clientId.map trim
  checkClientId seen scope node.clientId
  let expectedId := (given clientId).map (stableNodeIdFromClientId opts.crypto scope)
  checkExpectedId scope clientId node.id expectedId
  let id := node.id.getD (expectedId.getD
    (opts.crypto.stableUuid s!"{scope}:node:{node.contentSha256}"))
  checkNodeId seen scope clientId id
  return { node.prepared with id, scope, clientId }

def prepareNodes (seen : List PreparedNode) : List WriteNode → Except WriteError (List PreparedNode)
  | [] => .ok []
  | node :: nodes => do
    let prepared ← prepareNode opts tenancy seen node
    return prepared :: (← prepareNodes (seen ++ [prepared]) nodes)

def checkPrivateRule (node : PreparedNode) : Except WriteError Unit :=
  if node.type = "rule" ∧ node.memoryLane = .privateLane ∧ given node.ownerAgentId = none ∧
      given node.ownerTeamId = none then
    .error (.request (badRequest "invalid_private_rule_owner"
      "private rule requires owner_agent_id or owner_team_id"
      (some [("node_id", .str node.id), ("client_id", Json.orNull node.clientId),
        ("memory_lane", .str node.memoryLane.name), ("type", .str node.type)])))
  else .ok ()

def clientIdToId (nodes : List PreparedNode) : List (String × String) :=
  nodes.filterMap fun node => (given node.clientId).map fun clientId => (clientId, node.id)

/-- The text of a write is normalized unless it is missing or empty. -/
def normalizedInput (text : Option String) : Except WriteError (Option String) :=
  let normalized := text.map fun t => if t = "" then t else opts.normalizeMaybeRedact t
  if (given text).isSome ∧ given normalized = none then
    .error (.thrown
      "input_text becomes empty after normalization; provide non-whitespace content")
  else .ok normalized

def prepareWriteBatch (input : MemoryWriteInput) :
    Except WriteError (Option String × List PreparedNode × List PreparedEdge) := do
  let inputText ← normalizedInput opts input.inputText
  let nodes ← prepareNodes opts tenancy [] input.nodes
  nodes.forM checkPrivateRule
  let edges ← input.edges.mapM (prepareEdge opts.crypto tenancy opts.defaultTenantId inputText
    input.inputSha256 (clientIdToId nodes))
  return (inputText, nodes, edges)

end Prepare

/-- A write without distillation. -/
def prepareMemoryWrite (opts : PrepareOptions) (input : MemoryWriteInput) :
    Except WriteError PreparedWrite := do
  if input.wellFormed = false then throw .schema
  let tenancy ← (resolveTenantScope ⟨input.tenantId, input.scope⟩
    ⟨opts.defaultScope, opts.defaultTenantId⟩).mapError .request
  let (inputText, nodes, edges) ← prepareWriteBatch opts tenancy input
  let prepared : PreparedWrite := {
    tenantId := tenancy.tenantId
    scopePublic := tenancy.scope
    scope := tenancy.scopeKey
    actor := input.actor.getD "system"
    parentCommitId := input.parentCommitId
    inputSha256 := input.inputSha256.getD (opts.crypto.sha256Hex (inputText.getD "undefined"))
    modelVersion := input.modelVersion
    promptVersion := input.promptVersion
    nodes
    edges }
  (assertSingleScopeWrite prepared).mapError .request
  return prepared

/-! ## Joined texts -/

/-- One scope key goes on into the other's client id. -/
def Overlaps (scope clientId scope' clientId' : String) : Prop :=
  (∃ t, scope' = scope ++ ":node:" ++ t ∧ clientId = t ++ ":node:" ++ clientId') ∨
    scope' = scope ++ ":node" ∧ clientId = "node:" ++ clientId'

variable {s c s' c' : String}

theorem Overlaps.text_eq (h : Overlaps s c s' c') : s ++ ":node:" ++ c = s' ++ ":node:" ++ c' := by
  rcases h with ⟨t, rfl, rfl⟩ | ⟨rfl, rfl⟩
  · simp only [String.append_assoc]
  · refine String.toList_injective ?_
    simp only [String.toList_append, List.append_assoc]
    rfl

/-- A text that begins with the separator, and has it behind `u` too. -/
theorem overlaps_of_shift {u : List Char}
    (h : ":node:".toList ++ c.toList = u ++ (":node:".toList ++ c'.toList)) :
    u = [] ∧ c = c' ∨ Overlaps s c (s ++ String.ofList u) c' := by
  rcases List.append_eq_append_iff.1 h with ⟨t, hu, hc⟩ | ⟨v, hsep, hc⟩
  · refine .inr (.inl ⟨String.ofList t, ?_, String.toList_injective ?_⟩)
    · rw [hu, String.ofList_append, String.ofList_toList, String.append_assoc]
    · simp only [String.toList_append, String.toList_ofList, hc, List.append_assoc]
  · have hnode : ":node:".toList = [':', 'n', 'o', 'd', 'e', ':'] := rfl
    rw [hnode] at hsep hc
    simp only [List.cons_eq_append_iff, List.nil_eq_append_iff] at hsep
    rcases hsep with ⟨rfl, rfl⟩ | ⟨u, rfl, ⟨rfl, rfl⟩ | ⟨u, rfl, ⟨rfl, rfl⟩ | ⟨u, rfl, ⟨rfl, rfl⟩ |
      ⟨u, rfl, ⟨rfl, rfl⟩ | ⟨u, rfl, ⟨rfl, rfl⟩ | ⟨u, rfl, rfl, rfl⟩⟩⟩⟩⟩⟩
    · exact .inl ⟨rfl, String.toList_injective (List.append_cancel_left hc).symm⟩
    · cases hc
    · cases hc
    · cases hc
    · cases hc
    · refine .inr (.inr ⟨rfl, String.toList_injective ?_⟩)
      rw [String.toList_append]
      exact (List.cons.inj hc).2.symm
    · refine .inr (.inl ⟨"", ?_, String.toList_injective ?_⟩)
      · rw [String.append_empty]
      · rw [String.empty_append, String.toList_append, hnode]
        exact hc.symm

/-- Two texts that are joined by a separator, where `R` says how one may reach into the other. -/
theorem joined_eq_iff {sep : String} {R : String → String → String → String → Prop}
    (hshift : ∀ {s c s' c' : String} {u : List Char}, s'.toList = s.toList ++ u →
      sep.toList ++ c.toList = u ++ (sep.toList ++ c'.toList) → s = s' ∧ c = c' ∨ R s c s' c')
    (hR : ∀ {s c s' c'}, R s c s' c' → s ++ sep ++ c = s' ++ sep ++ c') :
    s ++ sep ++ c = s' ++ sep ++ c' ↔ s = s' ∧ c = c' ∨ R s c s' c' ∨ R s' c' s c := by
  constructor
  · intro h
    have hlist := congrArg String.toList h
    simp only [String.toList_append, List.append_assoc] at hlist
    rcases List.append_eq_append_iff.1 hlist with ⟨u, hs, hc⟩ | ⟨u, hs, hc⟩
    · exact (hshift hs hc).imp_right .inl
    · exact (hshift hs hc).imp (fun h => ⟨h.1.symm, h.2.symm⟩) .inr
  · rintro (⟨rfl, rfl⟩ | h | h)
    · rfl
    · exact hR h
    · exact (hR h).symm

/-- The texts of two nodes are the same just if their scope keys and client ids are, or overlap. -/
theorem nodeText_eq_iff :
    s ++ ":node:" ++ c = s' ++ ":node:" ++ c' ↔
      s = s' ∧ c = c' ∨ Overlaps s c s' c' ∨ Overlaps s' c' s c := by
  refine joined_eq_iff (fun {s c s' c' u} hs h => ?_) Overlaps.text_eq
  have hs' : s' = s ++ String.ofList u := String.toList_injective (by
    rw [hs, String.toList_append, String.toList_ofList])
  rcases overlaps_of_shift (s := s) h with ⟨rfl, rfl⟩ | h
  · exact .inl ⟨by rw [hs']; exact String.append_empty.symm, rfl⟩
  · exact .inr (hs' ▸ h)

theorem endsText_eq_iff {a b a' b' : String} :
    a ++ ":" ++ b = a' ++ ":" ++ b' ↔
      a = a' ∧ b = b' ∨ (∃ t, a' = a ++ ":" ++ t ∧ b = t ++ ":" ++ b') ∨
        ∃ t, a = a' ++ ":" ++ t ∧ b' = t ++ ":" ++ b := by
  refine joined_eq_iff (R := fun a b a' b' => ∃ t, a' = a ++ ":" ++ t ∧ b = t ++ ":" ++ b')
    (fun {a b a' b' u} ha h => ?_)
    fun ⟨t, ha, hb⟩ => by rw [ha, hb]; simp only [String.append_assoc]
  cases u with
  | nil =>
    rw [List.append_nil] at ha
    exact .inl ⟨String.toList_injective ha.symm,
      String.toList_injective (List.append_cancel_left h)⟩
  | cons c u =>
    have hcolon : ":".toList = [':'] := rfl
    rw [hcolon] at h
    obtain ⟨rfl, hb⟩ := List.cons.inj h
    refine .inr ⟨String.ofList u, String.toList_injective ?_, String.toList_injective ?_⟩
    · simp only [String.toList_append, String.toList_ofList, hcolon, List.append_assoc, ha,
        List.cons_append, List.nil_append]
    · simp only [String.toList_append, String.toList_ofList, hcolon, List.append_assoc]
      exact hb

/-! ## What is prepared -/

section Prepared

variable {opts : PrepareOptions} {tenancy : TenantScope} {input : MemoryWriteInput}

theorem ne_empty_of_isUuid {id : String} (h : isUuid id = true) : id ≠ "" := by
  rintro rfl
  cases h

/-- A node has the id that its scope key and its client id determine. -/
structure NodePrepared (opts : PrepareOptions) (node : WriteNode) (n : PreparedNode) : Prop where
  clientId : n.clientId = node.clientId.map trim
  id : ∀ c, node.clientId = some c → n.id = stableNodeIdFromClientId opts.crypto n.scope c

theorem checkExpectedId_ok {scope id expected : String} {clientId : Option String}
    (hid : id ≠ "") (h : checkExpectedId scope clientId (some id) (some expected) = .ok ()) :
    id = expected := by
  by_contra hdiff
  unfold checkExpectedId at h
  rw [given_of_ne hid] at h
  dsimp only at h
  rw [if_pos hdiff] at h
  cases h

theorem prepareNode_ok {seen : List PreparedNode} {node : WriteNode} {n : PreparedNode}
    (hid : optionalUuid node.id = true) (hclient : optionalName node.clientId = true)
    (h : prepareNode opts tenancy seen node = .ok n) : NodePrepared opts node n := by
  unfold prepareNode at h
  obtain ⟨⟨⟩, hcheck, h⟩ := bind_eq_ok.1 h
  obtain ⟨⟨⟩, hexpected, h⟩ := bind_eq_ok.1 h
  obtain ⟨-, -, h⟩ := bind_eq_ok.1 h
  obtain rfl := Except.ok.inj h
  refine ⟨rfl, fun c hc => ?_⟩
  have hne : c ≠ "" := by simpa [optionalName, hc] using hclient
  have htrim : trim c ≠ "" := by
    intro hempty
    rw [checkClientId, hc, Option.map_some, hempty, given_of_ne hne, if_pos ⟨rfl, rfl⟩] at hcheck
    cases hcheck
  have hstable : stableNodeIdFromClientId opts.crypto (partScope opts tenancy node.scope) (trim c) =
      stableNodeIdFromClientId opts.crypto (partScope opts tenancy node.scope) c := by
    rw [stableNodeIdFromClientId, trim_trim, stableNodeIdFromClientId]
  rw [hc, Option.map_some, given_of_ne htrim, Option.map_some, hstable] at hexpected ⊢
  cases hnode : node.id with
  | none => rfl
  | some id =>
    have hidne : id ≠ "" := ne_empty_of_isUuid (by simpa [optionalUuid, hnode] using hid)
    rw [hnode] at hexpected
    exact checkExpectedId_ok hidne hexpected

theorem prepareNodes_ok {seen : List PreparedNode} {nodes : List WriteNode}
    {ns : List PreparedNode}
    (hvalid : ∀ node ∈ nodes, optionalUuid node.id = true ∧ optionalName node.clientId = true)
    (h : prepareNodes opts tenancy seen nodes = .ok ns) :
    List.Forall₂ (NodePrepared opts) nodes ns := by
  induction nodes generalizing seen ns with
  | nil =>
    cases h
    exact .nil
  | cons node nodes ih =>
    rw [List.forall_mem_cons] at hvalid
    obtain ⟨n, hn, h⟩ := bind_eq_ok.1 h
    obtain ⟨rest, hrest, h⟩ := bind_eq_ok.1 h
    obtain rfl := Except.ok.inj h
    exact .cons (prepareNode_ok hvalid.1.1 hvalid.1.2 hn) (ih hvalid.2 hrest)

/-- An edge without an id has the id that its scope key, its type and its ends determine. -/
structure EdgePrepared (opts : PrepareOptions) (inputName : String) (edge : WriteEdge)
    (e : PreparedEdge) : Prop where
  id : edge.id = none → e.id = opts.crypto.stableUuid
    (e.scope ++ ":edge:" ++ inputName ++ ":" ++ edge.type ++ ":" ++
      (edge.src.text ++ ":" ++ edge.dst.text))

theorem prepareEdge_ok {inputText inputSha256 : Option String} {ids : List (String × String)}
    {edge : WriteEdge} {e : PreparedEdge}
    (h : prepareEdge opts.crypto tenancy opts.defaultTenantId inputText inputSha256 ids edge =
      .ok e) : EdgePrepared opts ((inputText.or inputSha256).getD "noinput") edge e := by
  unfold prepareEdge at h
  obtain ⟨srcId, -, h⟩ := bind_eq_ok.1 h
  obtain ⟨dstId, -, h⟩ := bind_eq_ok.1 h
  obtain rfl := Except.ok.inj h
  refine ⟨fun hid => ?_⟩
  simp only [hid, Option.getD_none, toString, String.append_assoc]

/-- A write that is prepared, the request's tenant and scope being `p`. -/
structure PreparedAs (opts : PrepareOptions) (input : MemoryWriteInput) (p : TenantScope)
    (w : PreparedWrite) : Prop where
  tenancy : resolveTenantScope ⟨input.tenantId, input.scope⟩
    ⟨opts.defaultScope, opts.defaultTenantId⟩ = .ok p
  prepared : prepareMemoryWrite opts input = .ok w

theorem PreparedAs.split {p : TenantScope} {w : PreparedWrite} (h : PreparedAs opts input p w) :
    input.wellFormed = true ∧ w.scope = p.scopeKey ∧
      (∀ n ∈ w.nodes, n.scope = p.scopeKey) ∧ (∀ e ∈ w.edges, e.scope = p.scopeKey) ∧
      List.Forall₂ (NodePrepared opts) input.nodes w.nodes ∧
      ∃ inputName, List.Forall₂ (EdgePrepared opts inputName) input.edges w.edges := by
  have hw := h.prepared
  unfold prepareMemoryWrite at hw
  by_cases hvalid : input.wellFormed = false
  · rw [if_pos hvalid] at hw
    cases hw
  rw [Bool.not_eq_false] at hvalid
  rw [if_neg (by simp [hvalid]), h.tenancy] at hw
  obtain ⟨p', hp, hw⟩ := bind_eq_ok.1 hw
  obtain rfl := Except.ok.inj hp
  obtain ⟨⟨inputText, nodes, edges⟩, hbatch, hw⟩ := bind_eq_ok.1 hw
  obtain ⟨⟨⟩, hsingle, hw⟩ := bind_eq_ok.1 hw
  obtain rfl := Except.ok.inj hw
  obtain ⟨hnodeScope, hedgeScope⟩ := assertSingleScopeWrite_ok (mapError_eq_ok.1 hsingle)
  unfold prepareWriteBatch at hbatch
  obtain ⟨text, -, hbatch⟩ := bind_eq_ok.1 hbatch
  obtain ⟨ns, hns, hbatch⟩ := bind_eq_ok.1 hbatch
  obtain ⟨⟨⟩, -, hbatch⟩ := bind_eq_ok.1 hbatch
  obtain ⟨es, hes, hbatch⟩ := bind_eq_ok.1 hbatch
  obtain ⟨rfl, rfl, rfl⟩ : text = inputText ∧ ns = nodes ∧ es = edges := by
    simpa using Except.ok.inj hbatch
  have hparts := hvalid
  simp only [MemoryWriteInput.wellFormed, Bool.and_eq_true, List.all_eq_true] at hparts
  refine ⟨hvalid, rfl, hnodeScope, hedgeScope, ?_, _,
    (forall₂_of_mapM_ok hes).imp fun _ _ => prepareEdge_ok⟩
  exact prepareNodes_ok (fun node hnode => (hparts.1.1 node hnode).1) hns

end Prepared

/-! ## Identities -/

/-- What an end names: a node by its id, or by a client id. -/
def WriteRef.reference (value : WriteRef) : Bool × String := (value.id.isSome, value.text)

/-- Nodes with client ids have one id only if their scope keys and client ids are the same. -/
def NodesIdentified (w w' : PreparedWrite) : Prop :=
  ∀ n ∈ w.nodes, ∀ n' ∈ w'.nodes, n.clientId.isSome = true → n'.clientId.isSome = true →
    n.id = n'.id → n.scope = n'.scope ∧ n.clientId = n'.clientId

/-- Edges without ids of their own get one id only if scope, type and references are the same. -/
def EdgesIdentified (input : MemoryWriteInput) (w : PreparedWrite) : Prop :=
  ∀ x ∈ input.edges.zip w.edges, ∀ y ∈ input.edges.zip w.edges, x.1.id = none → y.1.id = none →
    x.2.id = y.2.id → x.2.scope = y.2.scope ∧ x.1.type = y.1.type ∧
      x.1.src.reference = y.1.src.reference ∧ x.1.dst.reference = y.1.dst.reference

/-- Two edges of one type: a source goes on into the other's destination, or an id and a client id
read the same. -/
def WriteEdge.Confused (e e' : WriteEdge) : Prop :=
  e.type = e'.type ∧
    ((∃ t, e'.src.text = e.src.text ++ ":" ++ t ∧ e.dst.text = t ++ ":" ++ e'.dst.text) ∨
      e.src.text = e'.src.text ∧ e.dst.text = e'.dst.text ∧
        (e.src.id.isSome ≠ e'.src.id.isSome ∨ e.dst.id.isSome ≠ e'.dst.id.isSome))

theorem append_ne_self {sep t : String} (hsep : sep ≠ "") : s ≠ s ++ sep ++ t := by
  intro h
  have hlist := congrArg String.toList h
  rw [String.toList_append, String.toList_append, List.append_assoc, List.self_eq_append_right,
    List.append_eq_nil_iff] at hlist
  exact hsep (String.toList_injective hlist.1)

theorem not_overlaps_self : ¬ Overlaps s c s c' := by
  rintro (⟨t, hs, -⟩ | ⟨hs, -⟩)
  · exact append_ne_self (by decide) hs
  · rw [← String.append_empty (s := s ++ ":node")] at hs
    exact append_ne_self (by decide) hs

section Identities

variable {opts : PrepareOptions} {input input' : MemoryWriteInput} {p p' : TenantScope}
  {w w' : PreparedWrite}

theorem nodesIdentified_iff (hinj : Function.Injective opts.crypto.stableUuid)
    (h : PreparedAs opts input p w) (h' : PreparedAs opts input' p' w') :
    NodesIdentified w w' ↔ ∀ node ∈ input.nodes, ∀ node' ∈ input'.nodes, ∀ c c',
      node.clientId = some c → node'.clientId = some c' →
        ¬ Overlaps p.scopeKey (trim c) p'.scopeKey (trim c') ∧
          ¬ Overlaps p'.scopeKey (trim c') p.scopeKey (trim c) := by
  obtain ⟨-, -, hscope, -, hnodes, -⟩ := h.split
  obtain ⟨-, -, hscope', -, hnodes', -⟩ := h'.split
  constructor
  · intro hidentified node hnode node' hnode' c c' hc hc'
    obtain ⟨n, hn, hprep⟩ := Table.exists_right_of_forall₂ hnodes hnode
    obtain ⟨n', hn', hprep'⟩ := Table.exists_right_of_forall₂ hnodes' hnode'
    have hkept := hidentified n hn n' hn' (by simp [hprep.clientId, hc])
      (by simp [hprep'.clientId, hc'])
    rw [hprep.id c hc, hprep'.id c' hc', hscope n hn, hscope' n' hn', hprep.clientId,
      hprep'.clientId, hc, hc'] at hkept
    have hdistinct : p.scopeKey ++ ":node:" ++ trim c = p'.scopeKey ++ ":node:" ++ trim c' →
        p.scopeKey = p'.scopeKey := fun htext =>
      (hkept (congrArg opts.crypto.stableUuid htext)).1
    constructor
    · intro hover
      have hover' := hover
      rw [hdistinct hover.text_eq] at hover'
      exact not_overlaps_self hover'
    · intro hover
      have hover' := hover
      rw [hdistinct hover.text_eq.symm] at hover'
      exact not_overlaps_self hover'
  · intro hcond n hn n' hn' hclient hclient' hid
    obtain ⟨node, hnode, hprep⟩ := Table.exists_left_of_forall₂ hnodes hn
    obtain ⟨node', hnode', hprep'⟩ := Table.exists_left_of_forall₂ hnodes' hn'
    rw [hprep.clientId, Option.isSome_map] at hclient
    rw [hprep'.clientId, Option.isSome_map] at hclient'
    obtain ⟨c, hc⟩ := Option.isSome_iff_exists.1 hclient
    obtain ⟨c', hc'⟩ := Option.isSome_iff_exists.1 hclient'
    rw [hprep.id c hc, hprep'.id c' hc', hscope n hn, hscope' n' hn'] at hid
    have htext : p.scopeKey ++ ":node:" ++ trim c = p'.scopeKey ++ ":node:" ++ trim c' := hinj hid
    obtain ⟨hnot, hnot'⟩ := hcond node hnode node' hnode' c c' hc hc'
    rw [hscope n hn, hscope' n' hn', hprep.clientId, hprep'.clientId, hc, hc']
    rcases nodeText_eq_iff.1 htext with ⟨hs, ht⟩ | hover | hover
    · exact ⟨hs, congrArg some ht⟩
    · exact absurd hover hnot
    · exact absurd hover hnot'

theorem edgeText_eq_iff {head type type' ends ends' : String} (h : type ∈ EDGE_TYPES)
    (h' : type' ∈ EDGE_TYPES) :
    head ++ ":" ++ type ++ ":" ++ ends = head ++ ":" ++ type' ++ ":" ++ ends' ↔
      type = type' ∧ ends = ends' := by
  have hcolon : ∀ type ∈ EDGE_TYPES, ':' ∉ type.toList := by decide +kernel
  constructor
  · intro heq
    have hlist := congrArg String.toList heq
    simp only [String.toList_append, List.append_assoc, List.append_cancel_left_eq] at hlist
    obtain ⟨htype, hends⟩ := append_sep_inj (hcolon type h) (hcolon type' h') hlist
    exact ⟨String.toList_injective htype, String.toList_injective hends⟩
  · rintro ⟨rfl, rfl⟩
    rfl

theorem edgesIdentified_iff (hinj : Function.Injective opts.crypto.stableUuid)
    (h : PreparedAs opts input p w) :
    EdgesIdentified input w ↔ ∀ e ∈ input.edges, ∀ e' ∈ input.edges, e.id = none → e'.id = none →
      ¬ e.Confused e' := by
  obtain ⟨hvalid, -, -, hscope, -, inputName, hedges⟩ := h.split
  have htype : ∀ e ∈ input.edges, e.type ∈ EDGE_TYPES := by
    simp only [MemoryWriteInput.wellFormed, Bool.and_eq_true, List.all_eq_true,
      decide_eq_true_eq] at hvalid
    exact fun e he => (hvalid.1.2 e he).1.1.2
  have hids : ∀ x ∈ input.edges.zip w.edges, ∀ y ∈ input.edges.zip w.edges, x.1.id = none →
      y.1.id = none → (x.2.id = y.2.id ↔ x.1.type = y.1.type ∧
        x.1.src.text ++ ":" ++ x.1.dst.text = y.1.src.text ++ ":" ++ y.1.dst.text) := by
    intro x hx y hy hxid hyid
    have hxe := (List.forall₂_iff_zip.1 hedges).2 hx
    have hye := (List.forall₂_iff_zip.1 hedges).2 hy
    rw [hxe.id hxid, hye.id hyid, hinj.eq_iff, hscope _ (List.of_mem_zip hx).2,
      hscope _ (List.of_mem_zip hy).2]
    exact edgeText_eq_iff (htype _ (List.of_mem_zip hx).1) (htype _ (List.of_mem_zip hy).1)
  have hzip : ∀ e ∈ input.edges, ∃ x ∈ input.edges.zip w.edges, x.1 = e := by
    intro e he
    rw [← List.map_fst_zip hedges.length_eq.le] at he
    obtain ⟨x, hx, rfl⟩ := List.mem_map.1 he
    exact ⟨x, hx, rfl⟩
  constructor
  · rintro hidentified e he e' he' hid hid' ⟨hsame, hconfused⟩
    obtain ⟨x, hx, rfl⟩ := hzip e he
    obtain ⟨y, hy, rfl⟩ := hzip e' he'
    have hends : x.1.src.text ++ ":" ++ x.1.dst.text = y.1.src.text ++ ":" ++ y.1.dst.text := by
      rcases hconfused with ⟨t, hsrc, hdst⟩ | ⟨hsrc, hdst, -⟩
      · exact endsText_eq_iff.2 (.inr (.inl ⟨t, hsrc, hdst⟩))
      · rw [hsrc, hdst]
    have hkept := hidentified x hx y hy hid hid' ((hids x hx y hy hid hid').2 ⟨hsame, hends⟩)
    obtain ⟨-, -, hsrc, hdst⟩ := hkept
    rcases hconfused with ⟨t, htext, -⟩ | ⟨-, -, hkind⟩
    · have hsrcText : x.1.src.text = y.1.src.text := congrArg Prod.snd hsrc
      rw [hsrcText] at htext
      exact append_ne_self (by decide) htext
    · exact hkind.elim (fun hne => hne (congrArg Prod.fst hsrc))
        fun hne => hne (congrArg Prod.fst hdst)
  · intro hcond x hx y hy hid hid' heq
    obtain ⟨hsame, hends⟩ := (hids x hx y hy hid hid').1 heq
    have hx' := (List.of_mem_zip hx).1
    have hy' := (List.of_mem_zip hy).1
    refine ⟨(hscope _ (List.of_mem_zip hx).2).trans (hscope _ (List.of_mem_zip hy).2).symm,
      hsame, ?_⟩
    rcases endsText_eq_iff.1 hends with ⟨hsrc, hdst⟩ | ⟨t, hsrc, hdst⟩ | ⟨t, hsrc, hdst⟩
    · have hkind := hcond x.1 hx' y.1 hy' hid hid'
      rw [WriteEdge.Confused, not_and, not_or] at hkind
      have hsame' := (hkind hsame).2
      simp only [hsrc, hdst, true_and, not_or, not_not] at hsame'
      exact ⟨Prod.ext hsame'.1 hsrc, Prod.ext hsame'.2 hdst⟩
    · exact absurd ⟨hsame, .inl ⟨t, hsrc, hdst⟩⟩ (hcond x.1 hx' y.1 hy' hid hid')
    · exact absurd ⟨hsame.symm, .inl ⟨t, hsrc, hdst⟩⟩ (hcond y.1 hy' x.1 hx' hid' hid)

/-- Different client identities get different ids, and so do different edges of a batch, just if no
scope key goes on into a client id, and no end of an edge into another. -/
theorem client_identities_iff (hinj : Function.Injective opts.crypto.stableUuid)
    (h : PreparedAs opts input p w) (h' : PreparedAs opts input' p' w') :
    NodesIdentified w w' ∧ EdgesIdentified input w ↔
      (∀ node ∈ input.nodes, ∀ node' ∈ input'.nodes, ∀ c c',
        node.clientId = some c → node'.clientId = some c' →
          ¬ Overlaps p.scopeKey (trim c) p'.scopeKey (trim c') ∧
            ¬ Overlaps p'.scopeKey (trim c') p.scopeKey (trim c)) ∧
      ∀ e ∈ input.edges, ∀ e' ∈ input.edges, e.id = none → e'.id = none → ¬ e.Confused e' := by
  rw [nodesIdentified_iff hinj h h', edgesIdentified_iff hinj h]

end Identities

/-! ## A collision -/

/-- Ids that are the texts themselves. -/
def plainPrepareOptions : PrepareOptions where
  crypto := { sampleCrypto with stableUuid := id }
  normalizeMaybeRedact := trim
  defaultScope := "default"
  defaultTenantId := "default"

def eventWithClientId (clientId : String) : WriteNode where
  clientId := some clientId
  contentSha256 := ""
  prepared := { id := "", scope := "", type := "event", memoryLane := .sharedLane }

/-- A node in a scope. -/
def nodeInput (scope clientId : String) : MemoryWriteInput where
  scope := some scope
  inputText := some "note"
  nodes := [eventWithClientId clientId]

/-- Two edges between nodes of one batch. -/
def edgesInput : MemoryWriteInput where
  inputText := some "note"
  nodes := ["a", "a:b", "b:c", "c"].map eventWithClientId
  edges := [
    { type := "related_to", src := { clientId := some "a:b" }, dst := { clientId := some "c" } },
    { type := "related_to", src := { clientId := some "a" }, dst := { clientId := some "b:c" } }]

theorem client_identities_iff_note :
    ∃ w w', NodesIdentified w w' ∧ EdgesIdentified (nodeInput "a" "n") w ↔
      (∀ node ∈ (nodeInput "a" "n").nodes, ∀ node' ∈ (nodeInput "b" "n").nodes, ∀ c c',
        node.clientId = some c → node'.clientId = some c' →
          ¬ Overlaps "a" (trim c) "b" (trim c') ∧ ¬ Overlaps "b" (trim c') "a" (trim c)) ∧
      ∀ e ∈ (nodeInput "a" "n").edges, ∀ e' ∈ (nodeInput "a" "n").edges,
        e.id = none → e'.id = none → ¬ e.Confused e' := by
  obtain ⟨w, hw⟩ : ∃ w, prepareMemoryWrite plainPrepareOptions (nodeInput "a" "n") = .ok w :=
    ⟨_, rfl⟩
  obtain ⟨w', hw'⟩ : ∃ w, prepareMemoryWrite plainPrepareOptions (nodeInput "b" "n") = .ok w :=
    ⟨_, rfl⟩
  exact ⟨w, w', @client_identities_iff plainPrepareOptions _ _ ⟨"default", "a", "a"⟩
    ⟨"default", "b", "b"⟩ w w' Function.injective_id ⟨rfl, hw⟩ ⟨rfl, hw'⟩⟩

/-- The node `b:node:c` of scope `a` has the id of the node `c` of scope `a:node:b`, and two edges
of one batch have one id. -/
theorem client_identities_collide :
    ((prepareMemoryWrite plainPrepareOptions (nodeInput "a" "b:node:c")).toOption.map fun w =>
        w.nodes.map fun n => (n.id, n.scope)) = some [("a:node:b:node:c", "a")] ∧
      ((prepareMemoryWrite plainPrepareOptions (nodeInput "a:node:b" "c")).toOption.map fun w =>
        w.nodes.map fun n => (n.id, n.scope)) = some [("a:node:b:node:c", "a:node:b")] ∧
      ((prepareMemoryWrite plainPrepareOptions edgesInput).toOption.map fun w =>
        w.edges.map fun e => (e.id, e.srcId, e.dstId)) =
          some [("default:edge:note:related_to:a:b:c", "default:node:a:b", "default:node:c"),
            ("default:edge:note:related_to:a:b:c", "default:node:a", "default:node:b:c")] := by
  refine ⟨?_, ?_, ?_⟩ <;> decide +kernel

end AionisCore.Memory
