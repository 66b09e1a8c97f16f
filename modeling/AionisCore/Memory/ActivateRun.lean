import AionisCore.Memory.LifecycleLite

/-!
# Runs of activations

What a sequence of `activateMemoryNodesLite` calls leaves of a node. A call
reaches the nodes it finds, and whom it reaches is decided by the keys of the
nodes, which no call changes. A call that reaches a node replaces its slots by
those of one feedback alone.
-/

namespace AionisCore.Memory

open Lib Store Util

/-! ## Whom a call reaches -/

section Reach

variable {db db' : LiteDb} {scope actor : String} {ids clients : List String}

theorem mem_foundRowsOf {row : LiteNode} (h : row ∈ foundRowsOf db scope actor ids clients) :
    row ∈ db.nodes ∧ row.scope = scope := by
  rcases List.mem_append.1 h with h | h
  · obtain ⟨i, -, hi⟩ := List.mem_filterMap.1 h
    have hfind := LiteDb.findNode_eq_some hi
    exact ⟨hfind.1, LiteDb.matches_scope hfind.2⟩
  · obtain ⟨c, -, hc⟩ := List.mem_filterMap.1 h
    have hfind := LiteDb.findNode_eq_some hc
    exact ⟨hfind.1, LiteDb.matches_scope hfind.2⟩

theorem mem_foundRows {row : LiteNode}
    (h : row ∈ (resolveLifecycleNodes db scope actor ids clients).foundRows) :
    row ∈ db.nodes ∧ row.scope = scope := by
  obtain ⟨i, -, hi⟩ := List.mem_filterMap.1 h
  exact mem_foundRowsOf (List.mem_reverse.1 (List.mem_of_find?_eq_some hi))

/-- A resolution depends on the keys of the nodes alone. -/
theorem resolve_keys (scope actor : String) (ids clients : List String)
    (h : db.nodes.map (·.toNodeKey) = db'.nodes.map (·.toNodeKey)) :
    (resolveLifecycleNodes db scope actor ids clients).resolvedNodeIds =
        (resolveLifecycleNodes db' scope actor ids clients).resolvedNodeIds ∧
      (resolveLifecycleNodes db scope actor ids clients).foundRows.map (·.toNodeKey) =
        (resolveLifecycleNodes db' scope actor ids clients).foundRows.map (·.toNodeKey) := by
  have hclient : ∀ c, (findByClient db scope actor c).map (·.toNodeKey) =
      (findByClient db' scope actor c).map (·.toNodeKey) := fun c => LiteDb.findNode_key h _
  have hrows : (foundRowsOf db scope actor ids clients).map (·.toNodeKey) =
      (foundRowsOf db' scope actor ids clients).map (·.toNodeKey) := by
    have hid : ∀ i, (findById db scope actor i).map (·.toNodeKey) =
        (findById db' scope actor i).map (·.toNodeKey) := fun i => LiteDb.findNode_key h _
    simp only [foundRowsOf, List.map_append, List.map_filterMap, hid, hclient]
  have hresolved : (resolveLifecycleNodes db scope actor ids clients).resolvedNodeIds =
      (resolveLifecycleNodes db' scope actor ids clients).resolvedNodeIds := by
    have hpair : ∀ c, ((findByClient db scope actor c).map fun row => (c, row.id)).map (·.2) =
        ((findByClient db' scope actor c).map fun row => (c, row.id)).map (·.2) := by
      intro c
      have := congrArg (Option.map NodeKey.id) (hclient c)
      rw [Option.map_map, Option.map_map] at this ⊢
      exact this
    simp only [resolveLifecycleNodes, List.map_filterMap, hpair]
  refine ⟨hresolved, ?_⟩
  have hfind : ∀ i, ((foundRowsOf db scope actor ids clients).reverse.find? (·.id == i)).map
      (·.toNodeKey) = ((foundRowsOf db' scope actor ids clients).reverse.find? (·.id == i)).map
        (·.toNodeKey) := by
    have hkeys : ∀ (rows : List LiteNode) i, (rows.reverse.find? (·.id == i)).map (·.toNodeKey) =
        (rows.map (·.toNodeKey)).reverse.find? (·.id == i) := by
      intro rows i
      rw [← List.map_reverse, List.find?_map]
      rfl
    intro i
    rw [hkeys, hkeys, hrows]
  have hrowsOf : ∀ d : LiteDb, (resolveLifecycleNodes d scope actor ids clients).foundRows =
      (resolveLifecycleNodes d scope actor ids clients).resolvedNodeIds.filterMap fun i =>
        (foundRowsOf d scope actor ids clients).reverse.find? (·.id == i) := fun _ => rfl
  rw [hrowsOf, hrowsOf, List.map_filterMap, List.map_filterMap, hresolved]
  simp only [hfind]

end Reach

section Run

variable (env : LifecycleEnv)

/-- The ids of the nodes a request finds. -/
def targetIds (db : LiteDb) (body : MemoryNodesActivateInput) : List String :=
  match activateTarget env db body with
  | .ok t => t.resolved.foundRows.map (·.id)
  | .error _ => []

/-- The calls of a sequence that reach the node. -/
def reaching (db : LiteDb) (n : LiteNode) (calls : List ActivateCall) : List ActivateCall :=
  calls.filter fun c => decide (n.id ∈ targetIds env db c.body)

theorem activateTarget_ok {db : LiteDb} {body : MemoryNodesActivateInput} {t : ActivateTarget}
    (h : activateTarget env db body = .ok t) :
    t.resolved = resolveLifecycleNodes db t.tenancy.scopeKey t.actor t.requestedNodeIds
      t.requestedClientIds := by
  unfold activateTarget at h
  obtain ⟨tenancy, -, h⟩ := bind_eq_ok.1 h
  dsimp only at h
  split at h
  · cases h
  · cases h
    rfl

theorem targetIds_keys {db db' : LiteDb}
    (h : db.nodes.map (·.toNodeKey) = db'.nodes.map (·.toNodeKey))
    (body : MemoryNodesActivateInput) : targetIds env db body = targetIds env db' body := by
  unfold targetIds activateTarget
  cases resolveTenantScope ⟨body.tenantId, body.scope⟩ env.defaults with
  | error e => rfl
  | ok tenancy =>
    dsimp only [bind, Except.bind]
    obtain ⟨hids, hrows⟩ := resolve_keys tenancy.scopeKey (body.actor.getD env.defaultActor)
      (uniqStrings ((body.nodeIds.getD []).map lowerId))
      (uniqStrings (((body.clientIds.getD []).map JsString.trim).filter (· ≠ ""))) h
    generalize resolveLifecycleNodes db _ _ _ _ = r at hids hrows ⊢
    generalize resolveLifecycleNodes db' _ _ _ _ = r' at hids hrows ⊢
    rw [hids]
    by_cases hnil : r'.resolvedNodeIds = []
    · rw [if_pos hnil, if_pos hnil]
    · rw [if_neg hnil, if_neg hnil]
      have := congrArg (List.map NodeKey.id) hrows
      rw [List.map_map, List.map_map] at this
      exact this

/-! ## What a call writes -/

/-- The slots of one feedback: its own two counters, and no slot of the node's. -/
structure FreshSlots (c : ActivateCall) (slots : Json.Fields) : Prop where
  other : ∀ k, isFeedbackSlot k = false → Json.get slots k = none
  positive : Json.get slots "feedback_positive" =
    some (.num (increment c.body.outcome .positive : Nat))
  negative : Json.get slots "feedback_negative" =
    some (.num (increment c.body.outcome .negative : Nat))

theorem ne_of_isFeedbackSlot {k k' : String} (hk : isFeedbackSlot k = false)
    (hk' : isFeedbackSlot k' = true) : k ≠ k' := by
  rintro rfl
  rw [hk] at hk'
  cases hk'

theorem activatedState_fresh (c : ActivateCall) (row : LiteNode) :
    FreshSlots c (activatedState env c row).slots := by
  -- activating adds one more slot of its own
  have hactivated : ∀ {k : String} (slots : Json.Fields), k ≠ "last_activated_at" →
      Json.get (if c.body.activate then
        Json.set slots "last_activated_at" (.str c.startedAt) else slots) k = Json.get slots k := by
    intro k slots hk
    split
    · exact Json.get_set_of_ne hk
    · rfl
  unfold activatedState
  refine ⟨fun k hk => ?_, ?_, ?_⟩
  · rw [get_resolveNodeLifecycleSignals (ne_of_isFeedbackSlot hk (by decide))
      (ne_of_isFeedbackSlot hk (by decide)), Option.getD_some,
      hactivated _ (ne_of_isFeedbackSlot hk (by decide))]
    exact get_mergeNodeFeedbackSlots hk
  · rw [get_resolveNodeLifecycleSignals (by decide) (by decide), Option.getD_some,
      hactivated _ (by decide)]
    refine (get_mergeNodeFeedbackSlots_positive _).trans ?_
    simp [asNonNegativeInt]
  · rw [get_resolveNodeLifecycleSignals (by decide) (by decide), Option.getD_some,
      hactivated _ (by decide)]
    refine (get_mergeNodeFeedbackSlots_negative _).trans ?_
    simp [asNonNegativeInt]

theorem foldl_updates_nodes (db : LiteDb) (us : List NodeAnchorUpdate) :
    (us.foldl (fun db u => (db.updateNodeAnchorState u).2) db).nodes =
      db.nodes.map fun n => us.foldl (fun n u => u.on n) n := by
  induction us generalizing db with
  | nil => exact (List.map_id' _).symm
  | cons u us ih =>
    rw [List.foldl_cons, ih]
    exact List.map_map

theorem foldl_on_toNodeKey (us : List NodeAnchorUpdate) (n : LiteNode) :
    (us.foldl (fun n u => u.on n) n).toNodeKey = n.toNodeKey := by
  induction us generalizing n with
  | nil => rfl
  | cons u us ih => rw [List.foldl_cons, ih, u.on_toNodeKey]

theorem foldl_on_of_miss {us : List NodeAnchorUpdate} {n : LiteNode}
    (h : ∀ u ∈ us, ¬ (n.scope = u.scope ∧ n.id = u.id)) :
    us.foldl (fun n u => u.on n) n = n := by
  induction us with
  | nil => rfl
  | cons u us ih =>
    rw [List.foldl_cons, NodeAnchorUpdate.on_of_miss (h u List.mem_cons_self)]
    exact ih fun v hv => h v (List.mem_cons_of_mem _ hv)

theorem foldl_on_of_hit {P : LiteNode → Prop} {us : List NodeAnchorUpdate} {n : LiteNode}
    (hP : ∀ u ∈ us, ∀ n, P (u.apply n))
    (h : P n ∨ ∃ u ∈ us, n.scope = u.scope ∧ n.id = u.id) :
    P (us.foldl (fun n u => u.on n) n) := by
  induction us generalizing n with
  | nil =>
    rcases h with h | ⟨u, hu, -⟩
    · exact h
    · cases hu
  | cons u us ih =>
    refine ih (fun v hv => hP v (List.mem_cons_of_mem _ hv)) ?_
    dsimp only
    by_cases hu : n.scope = u.scope ∧ n.id = u.id
    · rw [NodeAnchorUpdate.on_of_hit hu]
      exact .inl (hP u List.mem_cons_self n)
    · rw [NodeAnchorUpdate.on_of_miss hu]
      rcases h with h | ⟨v, hv, hhit⟩
      · exact .inl h
      · rcases List.mem_cons.1 hv with rfl | hv
        · exact absurd hhit hu
        · exact .inr ⟨v, hv, hhit⟩

theorem activateStep_of_ok {db : LiteDb} {c : ActivateCall} {t : ActivateTarget}
    (ht : activateTarget env db c.body = .ok t) :
    activateStep env db c =
      if t.resolved.foundRows = [] then db else (activateRows env db c t).2 := by
  unfold activateStep activateMemoryNodesLite
  rw [ht]
  dsimp only [bind, Except.bind]
  generalize activateRows env db c t = r
  by_cases hnil : t.resolved.foundRows = []
  · rw [if_pos hnil, if_pos hnil]
    dsimp only [pure, Except.pure]
  · rw [if_neg hnil, if_neg hnil]
    dsimp only [pure, Except.pure]

/-- The updates of a call that found rows. -/
theorem activateRows_nodes (db : LiteDb) (c : ActivateCall) (t : ActivateTarget) :
    ∃ commitId, (activateRows env db c t).2.nodes = db.nodes.map fun n =>
      (t.resolved.foundRows.map (activationUpdate env c t.tenancy.scopeKey commitId)).foldl
        (fun n u => u.on n) n := by
  unfold activateRows
  generalize activationCommit env db c t = args
  dsimp only
  refine ⟨(db.insertCommit env.crypto c.now args).1, ?_⟩
  rw [foldl_updates_nodes, LiteDb.insertCommit_nodes]

/-- One call: the nodes it reaches hold fresh slots, all others are as they were. -/
theorem activateStep_nodes (db : LiteDb) (c : ActivateCall) :
    ∃ f : LiteNode → LiteNode, (activateStep env db c).nodes = db.nodes.map f ∧
      (∀ n, (f n).toNodeKey = n.toNodeKey) ∧
      ∀ n ∈ db.nodes, (n.id ∈ targetIds env db c.body → FreshSlots c (f n).slots) ∧
        (n.id ∉ targetIds env db c.body → f n = n) := by
  unfold targetIds
  cases ht : activateTarget env db c.body with
  | error e =>
    refine ⟨fun n => n, ?_, fun _ => rfl, fun n _ => by simp⟩
    unfold activateStep activateMemoryNodesLite
    rw [ht]
    exact (List.map_id' _).symm
  | ok t =>
    have hres := activateTarget_ok env ht
    rw [activateStep_of_ok env ht]
    dsimp only
    by_cases hnil : t.resolved.foundRows = []
    · rw [if_pos hnil]
      exact ⟨fun n => n, (List.map_id' _).symm, fun _ => rfl, fun n _ => by simp [hnil]⟩
    · obtain ⟨commitId, hnodes⟩ := activateRows_nodes env db c t
      rw [if_neg hnil]
      refine ⟨_, hnodes, fun n => foldl_on_toNodeKey _ n, fun n hn => ?_⟩
      -- an update hits the row it was computed from, and that row alone
      have hhit : ∀ row ∈ t.resolved.foundRows, n.id = row.id → n.scope = t.tenancy.scopeKey := by
        intro row hrow hid
        rw [hres] at hrow
        obtain ⟨hmem, hscope⟩ := mem_foundRows hrow
        rw [LiteDb.eq_of_id hn hmem hid, hscope]
      constructor
      · intro hid
        obtain ⟨row, hrow, hid⟩ := List.mem_map.1 hid
        refine foldl_on_of_hit (P := fun n => FreshSlots c n.slots) (fun u hu n => ?_) (.inr ?_)
        · obtain ⟨row, -, rfl⟩ := List.mem_map.1 hu
          exact activatedState_fresh env c row
        · exact ⟨_, List.mem_map_of_mem hrow, hhit row hrow hid.symm, hid.symm⟩
      · intro hid
        refine foldl_on_of_miss fun u hu hh => hid ?_
        obtain ⟨row, hrow, rfl⟩ := List.mem_map.1 hu
        exact List.mem_map.2 ⟨row, hrow, hh.2.symm⟩

/-! ## What a sequence leaves -/

/-- What is left of `n` once the last call to reach it, if any, was `c`. -/
def LeftBy (n n' : LiteNode) : Option ActivateCall → Prop
  | none => n' = n
  | some c => FreshSlots c n'.slots

/-- The slots after a sequence are those of the last call that reached the node. -/
theorem activateRun_slots (db : LiteDb) (calls : List ActivateCall) {n : LiteNode}
    (hn : n ∈ db.nodes) :
    (activateRun env db calls).nodes.map (·.toNodeKey) = db.nodes.map (·.toNodeKey) ∧
    ∃ n' ∈ (activateRun env db calls).nodes, n'.id = n.id ∧
      LeftBy n n' (reaching env db n calls).getLast? := by
  induction calls using List.reverseRecOn with
  | nil => exact ⟨rfl, n, hn, rfl, rfl⟩
  | append_singleton calls c ih =>
    obtain ⟨hkeys, n', hn', hid, hlast⟩ := ih
    obtain ⟨f, hnodes, hf, hstep⟩ := activateStep_nodes env (activateRun env db calls) c
    have hrun : activateRun env db (calls ++ [c]) =
        activateStep env (activateRun env db calls) c := by
      simp only [activateRun, List.foldl_append, List.foldl_cons, List.foldl_nil]
    have hfid : (f n').id = n.id := by
      rw [← hid, ← hf n']
    have hmem : f n' ∈ (activateRun env db calls).nodes.map f := List.mem_map_of_mem hn'
    rw [hrun, hnodes]
    refine ⟨?_, f n', hmem, hfid, ?_⟩
    · rw [← hkeys, List.map_map]
      exact List.map_congr_left fun m _ => hf m
    · obtain ⟨hhit, hmiss⟩ := hstep n' hn'
      rw [targetIds_keys env hkeys, hid] at hhit hmiss
      unfold reaching
      rw [List.filter_append]
      by_cases hreach : n.id ∈ targetIds env db c.body
      · rw [List.filter_cons_of_pos (by simpa using hreach), List.filter_nil,
          List.getLast?_append_of_ne_nil _ (by simp)]
        exact hhit hreach
      · rw [List.filter_cons_of_neg (by simpa using hreach), List.filter_nil, List.append_nil,
          hmiss hreach]
        exact hlast

/-- A counter slot as the code reads it. -/
def counter (n : LiteNode) (k : String) : Nat := asNonNegativeInt (Json.get n.slots k)

/-- The other slots are unchanged and each counter has grown by the outcomes it counts. -/
structure FeedbackKept (outcomes : List NodeFeedbackOutcome) (n n' : LiteNode) : Prop where
  other : ∀ k, isFeedbackSlot k = false → Json.get n'.slots k = Json.get n.slots k
  positive : counter n' "feedback_positive" =
    counter n "feedback_positive" + outcomes.count .positive
  negative : counter n' "feedback_negative" =
    counter n "feedback_negative" + outcomes.count .negative

/-- Nothing the calls could lose: no slot but feedback ones, zero counters, and no outcome to
count before the last. -/
structure NothingToLose (calls : List ActivateCall) (n : LiteNode) : Prop where
  other : ∀ k, isFeedbackSlot k = false → Json.get n.slots k = none
  positive : counter n "feedback_positive" = 0
  negative : counter n "feedback_negative" = 0
  earlier : ∀ c ∈ calls.dropLast, c.body.outcome = .neutral

theorem count_eq_zero_iff {outcomes : List NodeFeedbackOutcome} :
    outcomes.count .positive = 0 ∧ outcomes.count .negative = 0 ↔ ∀ o ∈ outcomes, o = .neutral := by
  rw [List.count_eq_zero, List.count_eq_zero]
  constructor
  · rintro ⟨hp, hn⟩ o ho
    cases o with
    | positive => exact absurd ho hp
    | negative => exact absurd ho hn
    | neutral => rfl
  · intro h
    exact ⟨fun hp => absurd (h _ hp) (by decide), fun hn => absurd (h _ hn) (by decide)⟩

theorem count_singleton (o counted : NodeFeedbackOutcome) :
    [o].count counted = increment o counted := by
  rw [List.count_singleton, increment]
  by_cases h : o = counted <;> simp [h]

/-- Fresh slots keep the feedback exactly when there was nothing to lose. -/
theorem feedbackKept_iff_of_fresh {n n' : LiteNode} {calls : List ActivateCall} {c : ActivateCall}
    (h : FreshSlots c n'.slots) :
    FeedbackKept ((calls ++ [c]).map (·.body.outcome)) n n' ↔ NothingToLose (calls ++ [c]) n := by
  have hpos : counter n' "feedback_positive" = increment c.body.outcome .positive := by
    rw [counter, h.positive, asNonNegativeInt_natCast]
  have hneg : counter n' "feedback_negative" = increment c.body.outcome .negative := by
    rw [counter, h.negative, asNonNegativeInt_natCast]
  have hcount : ∀ o, ((calls ++ [c]).map (·.body.outcome)).count o =
      (calls.map (·.body.outcome)).count o + increment c.body.outcome o := by
    intro o
    rw [List.map_append, List.count_append, List.map_singleton, count_singleton]
  have hneutral : (∀ d ∈ calls, d.body.outcome = .neutral) ↔
      (calls.map (·.body.outcome)).count .positive = 0 ∧
        (calls.map (·.body.outcome)).count .negative = 0 := by
    rw [count_eq_zero_iff, List.forall_mem_map]
  constructor
  · intro hk
    have hp := hk.positive
    have hm := hk.negative
    rw [hpos, hcount] at hp
    rw [hneg, hcount] at hm
    refine ⟨fun k hf => ?_, by omega, by omega, ?_⟩
    · rw [← hk.other k hf, h.other k hf]
    · rw [List.dropLast_concat, hneutral]
      omega
  · intro hl
    have hzero := hl.earlier
    rw [List.dropLast_concat, hneutral] at hzero
    refine ⟨fun k hf => ?_, ?_, ?_⟩
    · rw [h.other k hf, hl.other k hf]
    · rw [hpos, hcount, hl.positive]
      omega
    · rw [hneg, hcount, hl.negative]
      omega

/-- A sequence of calls keeps a node's slots and counts its outcomes exactly when no call reaches
the node or there was nothing to lose. -/
theorem activateRun_keeps_iff (db : LiteDb) (calls : List ActivateCall) {n : LiteNode}
    (hn : n ∈ db.nodes) :
    ∃ n' ∈ (activateRun env db calls).nodes, n'.id = n.id ∧
      (FeedbackKept ((reaching env db n calls).map (·.body.outcome)) n n' ↔
        reaching env db n calls = [] ∨ NothingToLose (reaching env db n calls) n) := by
  obtain ⟨-, n', hn', hid, hlast⟩ := activateRun_slots env db calls hn
  refine ⟨n', hn', hid, ?_⟩
  rcases List.eq_nil_or_concat' (reaching env db n calls) with hnil | ⟨init, c, hc⟩
  · rw [hnil] at hlast ⊢
    obtain rfl := hlast
    exact iff_of_true ⟨fun _ _ => rfl, rfl, rfl⟩ (.inl rfl)
  · rw [hc, List.getLast?_concat] at hlast
    rw [hc, feedbackKept_iff_of_fresh hlast]
    exact (or_iff_right (List.append_ne_nil_of_right_ne_nil _ (List.cons_ne_nil _ _))).symm

end Run

/-! ## One activation of an anchored node -/

/-- An environment whose resolvers and hashes are constant. -/
def plainEnv : LifecycleEnv where
  crypto := ⟨id, fun _ => "", id⟩
  resolvers := ⟨fun _ => ⟨0, 0, 0⟩, fun _ => .null, fun _ => .null⟩
  text := ⟨4000, false, id⟩
  defaultActor := "local"
  defaults := ⟨"default", "default"⟩

/-- A node with an anchor and three positive feedbacks. -/
def anchoredNode : LiteNode where
  id := "n1"
  scope := "default"
  type := "concept"
  createdAt := "2026-01-01"
  slots := [("anchor_v1", .obj []), ("feedback_positive", .num 3)]
  salience := 0
  importance := 0
  confidence := 0
  commitId := "c0"

def anchoredDb : LiteDb := ⟨[anchoredNode], [], by decide⟩

def positiveCall : ActivateCall :=
  ⟨{ nodeIds := some ["n1"], outcome := .positive, inputSha256 := some "00" }, "t1", "t2"⟩

theorem reaching_positiveCall :
    reaching plainEnv anchoredDb anchoredNode [positiveCall] = [positiveCall] := by rfl

/-- The activation drops the anchor. -/
theorem activation_drops_anchor : ¬ ∀ (env : LifecycleEnv) (db : LiteDb)
    (calls : List ActivateCall), ∀ n ∈ db.nodes, ∃ n' ∈ (activateRun env db calls).nodes,
      n'.id = n.id ∧ FeedbackKept ((reaching env db n calls).map (·.body.outcome)) n n' := by
  intro h
  have hmem : anchoredNode ∈ anchoredDb.nodes := List.mem_singleton.2 rfl
  obtain ⟨n', hn', hid, hkept⟩ := h plainEnv anchoredDb [positiveCall] anchoredNode hmem
  obtain ⟨-, m, hm, hmid, hlast⟩ := activateRun_slots plainEnv anchoredDb [positiveCall] hmem
  rw [reaching_positiveCall] at hlast
  have hfresh : FreshSlots positiveCall n'.slots :=
    LiteDb.eq_of_id hn' hm (hid.trans hmid.symm) ▸ hlast
  have hanchor := hkept.other "anchor_v1" (by decide)
  rw [hfresh.other "anchor_v1" (by decide)] at hanchor
  cases hanchor

theorem activateRun_keeps_iff_anchoredNode :
    ∃ n' ∈ (activateRun plainEnv anchoredDb [positiveCall]).nodes, n'.id = anchoredNode.id ∧
      (FeedbackKept ((reaching plainEnv anchoredDb anchoredNode [positiveCall]).map
          (·.body.outcome)) anchoredNode n' ↔
        reaching plainEnv anchoredDb anchoredNode [positiveCall] = [] ∨
          NothingToLose (reaching plainEnv anchoredDb anchoredNode [positiveCall]) anchoredNode) :=
  activateRun_keeps_iff plainEnv anchoredDb [positiveCall] (List.mem_singleton.2 rfl)

end AionisCore.Memory
