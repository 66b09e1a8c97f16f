import AionisCore.Memory.AutomationFinality

/-!
# Runs without a cancel

As long as a run is not cancelled its nodes are done in the topological order. The order
splits into the nodes that are done and the others; of these only the first may have been
started. `Underway` says so for the loop, `Head` how a call leaves the first of the others.
-/

namespace AionisCore.Memory

open Lib Lib.Table Store

namespace NodeStatus

/-- A terminal node that has succeeded. -/
def done : NodeStatus := { lifecycle := .terminal, outcome := some .succeeded }

/-- A node to which nothing has happened. -/
structure Fresh (n : NodeStatus) : Prop where
  lifecycle : n.lifecycle = .ready ∨ n.lifecycle = .pending
  pauseReason : n.pauseReason = none
  outcome : n.outcome = none

variable {n : NodeStatus}

theorem Fresh.unfinished (h : n.Fresh) : n.lifecycle ≠ .terminal := by
  rcases h.lifecycle with hn | hn <;> rw [hn] <;> decide

theorem Fresh.not_awaiting (h : n.Fresh) : ¬ n.awaitsApproval := by
  intro hawaits
  have hpaused := (of_decide_eq_true hawaits).1
  rcases h.lifecycle with hn | hn <;> rw [hn] at hpaused <;> cases hpaused

theorem Fresh.start (h : n.Fresh) : n.start = { lifecycle := .running } := by
  unfold NodeStatus.start
  rw [h.outcome]

end NodeStatus

namespace RunState

open NodeStatus

variable {graph : AutomationGraph} {shadow resuming : Bool} {k : Nat} {a b : RunState}
  {id : String} {before current rest : List String} {position : Position}

/-- The node is an approval. -/
def isApproval (graph : AutomationGraph) (id : String) : Bool := kindOf graph id = some .approval

/-- The nodes of `before` are done, in their order, and `k` approvals of them were waited for;
the replays that were asked for are of these nodes or of `current`. -/
structure Underway (graph : AutomationGraph) (shadow : Bool) (k : Nat) (a : RunState)
    (before current rest : List String) : Prop where
  order : graph.topologicalOrder = before ++ rest
  before_done : ∀ id ∈ before, a.node id = some done
  starts : ∀ start ∈ a.starts, ∃ pre post, graph.topologicalOrder = pre ++ start.1 :: post ∧
    ∀ id ∈ pre, start.2 id = some done
  once : a.replays.Nodup
  asked : ∀ id ∈ a.replays, id ∈ before ++ current
  approvals : shadow = false → before.countP (isApproval graph) = k

/-- Nothing has happened to the nodes. -/
def AllFresh (a : RunState) (rest : List String) : Prop :=
  ∀ id ∈ rest, ∃ n, a.node id = some n ∧ n.Fresh

/-- How a call leaves the first node that is not done. -/
inductive Head (graph : AutomationGraph) (shadow : Bool) (a : RunState) :
    Position → List String → Prop where
  | completed (hstatus : a.status = { lifecycle := .terminal, outcome := some .succeeded }) :
    Head graph shadow a .returned []
  | waiting {id : String} {rest : List String} (hstatus : a.status = { lifecycle := .running })
    (hnode : a.node id = some { lifecycle := .running }) (hfresh : AllFresh a rest)
    (hkind : kindOf graph id = some .playbook) :
    Head graph shadow a (.replaying id rest) (id :: rest)
  | approval {id : String} {rest : List String}
    (hstatus : a.status = { lifecycle := .paused, pauseReason := some .approvalRequired })
    (hnode : a.node id = some { lifecycle := .paused, pauseReason := some .approvalRequired })
    (hfresh : AllFresh a rest) (hkind : kindOf graph id = some .approval)
    (hdefault : shadow = false) : Head graph shadow a .returned (id :: rest)
  | halted {position : Position} {id : String} {rest : List String} {n : NodeStatus}
    (houtcome : a.status.outcome ≠ some .succeeded)
    (hstatus : ¬ (a.status.lifecycle = .paused ∧ a.status.pauseReason = some .approvalRequired))
    (hquiet : ¬ position.Waiting) (hnode : a.node id = some n)
    (hn : n.outcome ≠ some .succeeded) (hfresh : AllFresh a rest) :
    Head graph shadow a position (id :: rest)

theorem AllFresh.running (h : AllFresh a (id :: rest)) :
    (a.start id).node id = some { lifecycle := .running } := by
  obtain ⟨n, hn, hfresh⟩ := h id List.mem_cons_self
  rw [node_start_self, hn, Option.map_some, hfresh.start]

theorem Underway.calls {calls : List Call} {k' : Nat}
    (h : Underway graph shadow k a before current rest) (hk : k = k') :
    Underway graph shadow k' { a with calls } before current rest :=
  hk ▸ ⟨h.order, h.before_done, h.starts, h.once, h.asked, h.approvals⟩

theorem Head.calls {calls : List Call} (h : Head graph shadow a position rest) :
    Head graph shadow { a with calls } position rest := by
  cases h with
  | completed hstatus => exact .completed hstatus
  | waiting hstatus hnode hfresh hkind => exact .waiting hstatus hnode hfresh hkind
  | approval hstatus hnode hfresh hkind hdefault =>
    exact .approval hstatus hnode hfresh hkind hdefault
  | halted houtcome hstatus hquiet hnode hn hfresh =>
    exact .halted houtcome hstatus hquiet hnode hn hfresh

theorem Underway.status {status : RunStatus}
    (h : Underway graph shadow k a before current rest) :
    Underway graph shadow k { a with status } before current rest :=
  ⟨h.order, h.before_done, h.starts, h.once, h.asked, h.approvals⟩

theorem Underway.stop {status : RunStatus}
    (h : Underway graph shadow k a before [] (id :: rest)) :
    Underway graph shadow k { a with status } before [id] (id :: rest) :=
  ⟨h.order, h.before_done, h.starts, h.once,
    fun j hj => List.mem_append_left _ (List.append_nil before ▸ h.asked j hj), h.approvals⟩

theorem Loop.skip {kind : String → Option NodeKind} {pre : List String}
    (h : Loop kind shadow resuming a (pre ++ rest) b position)
    (hpre : ∀ id ∈ pre, a.node id = some NodeStatus.done) :
    Loop kind shadow resuming a rest b position := by
  induction pre with
  | nil => exact h
  | cons id pre ih =>
    have hdone := hpre id List.mem_cons_self
    have hnot : ∀ {n}, ¬ Startable resuming a id n := by
      intro n hstart
      obtain rfl := Option.some.inj (hstart.node.symm.trans hdone)
      exact hstart.unfinished rfl
    refine ih ?_ fun j hj => hpre j (List.mem_cons_of_mem _ hj)
    cases h with
    | next hround hloop =>
      cases hround with
      | missing => exact hloop
      | skip => exact hloop
      | unknown => exact hloop
      | approve h hawaits =>
        obtain rfl := Option.some.inj (h.symm.trans hdone)
        cases hawaits
      | succeed h => exact absurd h hnot
    | stop hround =>
      cases hround with
      | pause h => exact absurd h hnot
      | fail h => exact absurd h hnot
      | replay h => exact absurd h hnot

/-- A resuming call approves the node that waits. -/
theorem Loop.approve {kind : String → Option NodeKind}
    (h : Loop kind shadow true a (id :: rest) b position)
    (hnode : a.node id = some { lifecycle := .paused, pauseReason := some .approvalRequired })
    (hkind : kind id = some .approval) :
    Loop kind shadow true (a.patchNode id (·.approve)) rest b position := by
  have hnot : ∀ {n}, ¬ Startable true a id n := by
    intro n hstart
    obtain rfl := Option.some.inj (hstart.node.symm.trans hnode)
    exact hstart.not_approved ⟨rfl, rfl⟩
  cases h with
  | next hround hloop =>
    cases hround with
    | missing h => cases h.symm.trans hnode
    | skip h hterminal =>
      obtain rfl := Option.some.inj (h.symm.trans hnode)
      cases hterminal
    | unknown h => cases h.symm.trans hkind
    | approve => exact hloop
    | succeed h => exact absurd h hnot
  | stop hround =>
    cases hround with
    | pause h => exact absurd h hnot
    | fail h => exact absurd h hnot
    | replay h => exact absurd h hnot

theorem countP_resuming_set {calls : List Call} {i : Nat} {old new : Position}
    (h : calls[i]? = some ⟨resuming, old⟩) :
    (calls.set i ⟨resuming, new⟩).countP (·.resuming) = calls.countP (·.resuming) := by
  obtain ⟨hi, hget⟩ := List.getElem?_eq_some_iff.1 h
  rw [List.countP_set hi, hget]
  cases resuming with
  | false => rfl
  | true =>
    have hpos : 0 < calls.countP (·.resuming) :=
      List.countP_pos_iff.2 ⟨_, List.mem_of_getElem? h, rfl⟩
    exact Nat.sub_add_cancel hpos

/-! ## One node -/

section

theorem Underway.not_mem (ha : Underway graph shadow k a before current (id :: rest)) :
    id ∉ before ∧ id ∉ rest := by
  have hnodup := graph.order_spec.1
  rw [ha.order, List.nodup_append] at hnodup
  obtain ⟨-, hrest, hdisjoint⟩ := hnodup
  exact ⟨fun hmem => hdisjoint id hmem id List.mem_cons_self rfl, (List.nodup_cons.1 hrest).1⟩

variable {f : NodeStatus → NodeStatus}

section

variable (ha : Underway graph shadow k a before current (id :: rest))

include ha

theorem Underway.patchNode :
    Underway graph shadow k (a.patchNode id f) before current (id :: rest) := by
  refine ⟨ha.order, fun j hj => ?_, ha.starts, ha.once, ha.asked, ha.approvals⟩
  have hne : j ≠ id := fun h => ha.not_mem.1 (h ▸ hj)
  rw [node_patchNode_of_ne hne]
  exact ha.before_done j hj

theorem Underway.fresh_patchNode (hfresh : AllFresh a rest) : AllFresh (a.patchNode id f) rest := by
  intro j hj
  have hne : j ≠ id := fun h => ha.not_mem.2 (h ▸ hj)
  rw [node_patchNode_of_ne hne]
  exact hfresh j hj

/-- The first node is started, after the nodes before it. -/
theorem Underway.start : Underway graph shadow k (a.start id) before current (id :: rest) := by
  have hpatched := Underway.patchNode (f := (·.start)) ha
  refine ⟨ha.order, hpatched.before_done, fun start hstart => ?_, ha.once, ha.asked, ha.approvals⟩
  rcases List.mem_append.1 hstart with hstart | hstart
  · exact ha.starts start hstart
  · rw [List.mem_singleton.1 hstart]
    exact ⟨before, rest, ha.order, ha.before_done⟩

/-- The first node is done. -/
theorem Underway.advance {k' : Nat}
    (hcurrent : ∀ j ∈ current, j = id) (hdone : (a.node id).map f = some done)
    (hk : shadow = false → k + (if isApproval graph id then 1 else 0) = k') :
    Underway graph shadow k' (a.patchNode id f) (before ++ [id]) [] rest := by
  have hpatched := Underway.patchNode (f := f) ha
  refine ⟨?_, fun j hj => ?_, ha.starts, ha.once, fun j hj => ?_, fun hdefault => ?_⟩
  · rw [List.append_assoc]
    exact ha.order
  · rcases List.mem_append.1 hj with hj | hj
    · exact hpatched.before_done j hj
    · rw [List.mem_singleton.1 hj, node_patchNode_self]
      exact hdone
  · rw [List.append_nil]
    rcases List.mem_append.1 (ha.asked j hj) with hj | hj
    · exact List.mem_append_left _ hj
    · rw [hcurrent j hj]
      exact List.mem_append_right _ List.mem_cons_self
  · rw [List.countP_append, ha.approvals hdefault, List.countP_singleton]
    exact hk hdefault

end

/-! ## The loop -/

theorem Round.progress_stopped
    (h : Round (kindOf graph) shadow resuming a id rest b (.stopped position))
    (ha : Underway graph shadow k a before [] (id :: rest)) (hfresh : AllFresh a (id :: rest))
    (hstatus : a.status = { lifecycle := .running }) :
    Underway graph shadow k b before [id] (id :: rest) ∧
      Head graph shadow b position (id :: rest) := by
  have hrest : AllFresh a rest := fun j hj => hfresh j (List.mem_cons_of_mem _ hj)
  have hstarted := Underway.start ha
  have hstarted_fresh := Underway.fresh_patchNode (f := (·.start)) ha hrest
  cases h with
  | pause _ hkind hdefault =>
    refine ⟨(Underway.patchNode hstarted).stop, .approval ?_ ?_ ?_ hkind hdefault⟩
    · show a.status.pause _ = _
      rw [hstatus]
      rfl
    · show ((a.start id).patchNode id _).node id = _
      rw [node_patchNode_self, hfresh.running]
      rfl
    · exact Underway.fresh_patchNode hstarted hstarted_fresh
  | fail _ hkind =>
    have hnode : ((a.start id).patchNode id (·.fail)).node id =
        some { lifecycle := .terminal, outcome := some .failed } := by
      rw [node_patchNode_self, hfresh.running]
      rfl
    refine ⟨(Underway.patchNode hstarted).stop, .halted ?_ ?_ (fun h => h) hnode nofun ?_⟩
    · exact fun h => by cases h
    · exact fun h => by cases h.1
    · exact Underway.fresh_patchNode hstarted hstarted_fresh
  | replay _ hkind =>
    refine ⟨⟨ha.order, hstarted.before_done, hstarted.starts, ?_, fun j hj => ?_, ha.approvals⟩,
      .waiting hstatus hfresh.running hstarted_fresh hkind⟩
    · refine List.nodup_append.2 ⟨ha.once, List.nodup_singleton _, fun j hj l hl heq => ?_⟩
      rw [List.mem_singleton.1 hl] at heq
      subst heq
      have hmem := ha.asked j hj
      rw [List.append_nil] at hmem
      exact ha.not_mem.1 hmem
    · rcases List.mem_append.1 hj with hj | hj
      · have hmem := ha.asked j hj
        rw [List.append_nil] at hmem
        exact List.mem_append_left _ hmem
      · exact List.mem_append_right _ hj

variable (haccepted : graph.Accepted)

include haccepted

theorem kindOf_of_order (hmem : id ∈ graph.topologicalOrder) :
    ∃ kind, kindOf graph id = some kind := by
  obtain ⟨node, hnode, rfl⟩ := haccepted.mem_order.1 hmem
  have hunique : Table.Unique (·.nodeId) graph.nodes := haccepted.nodup
  exact ⟨_, congrArg (Option.map _) (hunique.row? hnode)⟩

/-- A round at a fresh node that goes on has done the node. -/
theorem Round.progress_next
    (h : Round (kindOf graph) shadow resuming a id rest b .next)
    (ha : Underway graph shadow k a before [] (id :: rest)) (hfresh : AllFresh a (id :: rest)) :
    Underway graph shadow k b (before ++ [id]) [] rest ∧ AllFresh b rest := by
  obtain ⟨m, hm, hm_fresh⟩ := hfresh id List.mem_cons_self
  have hrest : AllFresh a rest := fun j hj => hfresh j (List.mem_cons_of_mem _ hj)
  cases h with
  | missing h => cases h.symm.trans hm
  | skip h hterminal =>
    obtain rfl := Option.some.inj (h.symm.trans hm)
    exact absurd hterminal hm_fresh.unfinished
  | unknown hkind =>
    obtain ⟨kind, hsome⟩ := kindOf_of_order haccepted
      (ha.order ▸ List.mem_append_right before List.mem_cons_self)
    cases hkind.symm.trans hsome
  | approve h hawaits =>
    obtain rfl := Option.some.inj (h.symm.trans hm)
    exact absurd hawaits hm_fresh.not_awaiting
  | succeed h hkind hplaybook happroval =>
    have hstarted := Underway.start ha
    have hstarted_fresh := Underway.fresh_patchNode (f := (·.start)) ha hrest
    refine ⟨Underway.advance hstarted nofun ?_ fun hdefault => ?_,
      Underway.fresh_patchNode hstarted hstarted_fresh⟩
    · rw [hfresh.running]
      rfl
    · have hnot : isApproval graph id = false := by
        refine decide_eq_false fun hsome => ?_
        have hshadow := happroval (Option.some.inj (hkind.symm.trans hsome))
        rw [hdefault] at hshadow
        cases hshadow
      rw [hnot]
      rfl

/-- The loop over fresh nodes. -/
theorem Loop.progress (h : Loop (kindOf graph) shadow resuming a rest b position)
    (ha : Underway graph shadow k a before [] rest) (hfresh : AllFresh a rest)
    (hstatus : a.status = { lifecycle := .running }) :
    ∃ before' rest', Underway graph shadow k b before' (rest'.take 1) rest' ∧
      Head graph shadow b position rest' := by
  induction h generalizing before with
  | @done a =>
    refine ⟨before, [], ⟨ha.order, ha.before_done, ha.starts, ha.once, ha.asked, ha.approvals⟩,
      .completed ?_⟩
    show a.status.complete = _
    rw [hstatus]
    rfl
  | next hround _ ih =>
    obtain ⟨hb, hb_fresh⟩ := Round.progress_next haccepted hround ha hfresh
    exact ih hb hb_fresh (hround.status_of_next.trans hstatus)
  | @stop _ _ id rest _ hround =>
    exact ⟨before, id :: rest, Round.progress_stopped hround ha hfresh hstatus⟩

/-! ## Operations -/

/-- A run without a cancel between two operations. -/
structure Progress (graph : AutomationGraph) (shadow : Bool) (a : RunState) : Prop where
  waits : Waits a
  spec : ∃ position before rest,
    Underway graph shadow (a.calls.countP (·.resuming)) a before (rest.take 1) rest ∧
    Head graph shadow a position rest ∧
    ∀ call ∈ a.calls, call.position.Waiting → call.position = position

theorem Progress.created (h : Continue graph shadow false (.queued graph) b position) :
    Progress graph shadow { b with calls := b.calls ++ [⟨false, position⟩] } := by
  refine ⟨.created h, ?_⟩
  have hcalls := h.calls
  cases h with
  | invalid hnot => exact absurd haccepted hnot
  | loop _ hloop =>
    have hfresh : AllFresh { queued graph with status := { lifecycle := .running } }
        graph.topologicalOrder := by
      intro id hid
      obtain ⟨node, hnode, rfl⟩ := haccepted.mem_order.1 hid
      have hunique : Table.Unique (·.nodeId) graph.nodes := haccepted.nodup
      exact ⟨_, congrArg (Option.map _) (hunique.row? hnode),
        deriveInitialNodeState_state node.nodeId graph, rfl, rfl⟩
    have hnothing : Underway graph shadow 0
        { queued graph with status := { lifecycle := .running } }
        [] [] graph.topologicalOrder :=
      ⟨rfl, nofun, nofun, List.nodup_nil, nofun, fun _ => rfl⟩
    obtain ⟨before, rest, hunderway, hhead⟩ := Loop.progress haccepted hloop hnothing hfresh rfl
    dsimp only
    rw [hcalls]
    refine ⟨position, before, rest, hunderway.calls rfl, hhead.calls, fun call hcall _ => ?_⟩
    rw [List.mem_singleton.1 hcall]

theorem Settle.progress {ended : ReplayEnd} {order : List String}
    (h : Settle (kindOf graph) shadow resuming a id rest ended b position)
    (ha : Underway graph shadow k a before (order.take 1) order)
    (hhead : Head graph shadow a (.replaying id rest) order) :
    ∃ before' rest', Underway graph shadow k b before' (rest'.take 1) rest' ∧
      Head graph shadow b position rest' := by
  cases hhead with
  | halted _ _ hquiet => exact absurd trivial hquiet
  | waiting hstatus hnode hfresh hkind =>
    cases h with
    | threw =>
      refine ⟨before, id :: rest, ha, .halted ?_ ?_ (fun h => h) hnode nofun hfresh⟩
      · rw [hstatus]
        nofun
      · rw [hstatus]
        exact fun h => by cases h.1
    | succeeded hloop =>
      refine Loop.progress haccepted hloop (Underway.advance ha ?_ ?_ fun _ => ?_)
        (Underway.fresh_patchNode ha hfresh) hstatus
      · exact fun j hj => List.mem_singleton.1 hj
      · rw [hnode]
        rfl
      · rw [show isApproval graph id = false from
          decide_eq_false fun h => by cases hkind.symm.trans h]
        rfl
    | partly =>
      have hpaused : (a.patchNode id (·.pause .repairRequired)).node id =
          some { lifecycle := .paused, pauseReason := some .repairRequired } := by
        rw [node_patchNode_self, hnode]
        rfl
      refine ⟨before, id :: rest, (Underway.patchNode ha).status, .halted ?_ ?_
        (fun h => h) hpaused nofun (Underway.fresh_patchNode ha hfresh)⟩
      · show a.status.outcome ≠ _
        rw [hstatus]
        nofun
      · exact fun h => by cases h.2
    | failed =>
      have hfailed : (a.patchNode id (·.fail)).node id =
          some { lifecycle := .terminal, outcome := some .failed } := by
        rw [node_patchNode_self, hnode]
        rfl
      refine ⟨before, id :: rest, (Underway.patchNode ha).status, .halted ?_ ?_
        (fun h => h) hfailed nofun (Underway.fresh_patchNode ha hfresh)⟩
      · exact fun h => by cases h
      · exact fun h => by cases h.1

theorem Progress.step {op : RunOp} (ha : Progress graph shadow a) (hop : op ≠ .cancel)
    (h : Step graph shadow a op b) : Progress graph shadow b := by
  refine ⟨ha.waits.step h, ?_⟩
  obtain ⟨position, before, rest, hunderway, hhead, hcalls⟩ := ha.spec
  cases h with
  | @resume b position hpaused hreason hcontinue =>
    have hb_calls := hcontinue.calls
    cases hcontinue with
    | invalid hnot => exact absurd haccepted hnot
    | loop _ hloop =>
      rw [hunderway.order] at hloop
      have hloop := hloop.skip hunderway.before_done
      cases hhead with
      | completed hstatus =>
        rw [hstatus] at hpaused
        cases hpaused
      | waiting hstatus =>
        rw [hstatus] at hpaused
        cases hpaused
      | halted _ hstatus => exact absurd ⟨hpaused, hreason⟩ hstatus
      | @approval id tail hstatus hnode hfresh hkind hdefault =>
        have happroval : isApproval graph id = true := decide_eq_true hkind
        have hrunning : Underway graph shadow _
            { a with status := { lifecycle := .running } } before
            [id] (id :: tail) := hunderway.status
        obtain ⟨before', rest', hb, hb_head⟩ := Loop.progress haccepted (hloop.approve hnode hkind)
          (Underway.advance hrunning (fun j hj => List.mem_singleton.1 hj)
            (congrArg (Option.map _) hnode) fun _ => congrArg (_ + ·) (if_pos happroval))
          (Underway.fresh_patchNode hrunning hfresh) rfl
        refine ⟨position, before', rest', hb.calls ?_, hb_head.calls, fun call hcall hwaiting => ?_⟩
        · rw [hb_calls, List.countP_append]
          rfl
        · rw [hb_calls] at hcall
          rcases List.mem_append.1 hcall with hcall | hcall
          · rw [hcalls call hcall hwaiting] at hwaiting
            exact hwaiting.elim
          · rw [List.mem_singleton.1 hcall]
  | cancel => exact absurd rfl hop
  | @settle i resuming id rest' ended b position' hcall hsettle =>
    obtain rfl := hcalls _ (List.mem_of_getElem? hcall) trivial
    obtain ⟨before', rest', hb, hb_head⟩ := Settle.progress haccepted hsettle hunderway hhead
    refine ⟨position', before', rest', hb.calls ?_, hb_head.calls, fun call hmem hwaiting => ?_⟩
    · rw [hsettle.calls]
      exact (countP_resuming_set hcall).symm
    · obtain ⟨j, hj⟩ := List.mem_iff_getElem?.1 hmem
      obtain ⟨rfl, -⟩ := ha.waits.of_settle hcall hsettle ⟨call, hj, hwaiting⟩
      rw [hsettle.calls, List.getElem?_set_self (List.getElem?_eq_some_iff.1 hcall).1] at hj
      rw [← Option.some.inj hj]

end

/-- The nodes of the rest have not succeeded. -/
theorem Head.unfinished (h : Head graph shadow a position rest) :
    ∀ id ∈ rest, ∃ n, a.node id = some n ∧ n.outcome ≠ some .succeeded := by
  have hcons : ∀ {id n rest}, a.node id = some n → n.outcome ≠ some .succeeded →
      AllFresh a rest → ∀ j ∈ id :: rest, ∃ n, a.node j = some n ∧ n.outcome ≠ some .succeeded := by
    intro id n rest hnode hn hfresh j hj
    rcases List.mem_cons.1 hj with rfl | hj
    · exact ⟨n, hnode, hn⟩
    · obtain ⟨m, hm, hm_fresh⟩ := hfresh j hj
      exact ⟨m, hm, by rw [hm_fresh.outcome]; nofun⟩
  cases h with
  | completed => exact fun j hj => (List.not_mem_nil hj).elim
  | waiting _ hnode hfresh => exact hcons hnode nofun hfresh
  | approval _ hnode hfresh => exact hcons hnode nofun hfresh
  | halted _ _ _ hnode hn hfresh => exact hcons hnode hn hfresh

/-- The run has succeeded exactly if no node is left. -/
theorem Head.succeeded_iff (h : Head graph shadow a position rest) :
    (a.status.lifecycle = .terminal ∧ a.status.outcome = some .succeeded) ↔ rest = [] := by
  cases h with
  | completed hstatus =>
    rw [hstatus]
    exact iff_of_true ⟨rfl, rfl⟩ rfl
  | waiting hstatus =>
    rw [hstatus]
    exact iff_of_false (fun h => by cases h.1) (List.cons_ne_nil _ _)
  | approval hstatus =>
    rw [hstatus]
    exact iff_of_false (fun h => by cases h.1) (List.cons_ne_nil _ _)
  | halted houtcome => exact iff_of_false (fun h => houtcome h.2) (List.cons_ne_nil _ _)

end RunState

/-! ## The kernel -/

namespace AutomationSystem

open RunState

variable {defaults : AutomationDefaults} {r : String} {s : AutomationSystem} {run : AutomationRun}
  {graph : AutomationGraph} {shadow : Bool} {k : Nat} {before current rest : List String}
  {position : Position}

/-- The node is terminal and has succeeded. -/
def hasSucceeded (node : LiteAutomationRunNodeRecord) : Bool :=
  node.lifecycleState = .terminal ∧ node.terminalOutcome = some .succeeded

theorem Hosts.layout_of_mem (h : s.Hosts run graph) {node : LiteAutomationRunNodeRecord}
    (hnode : node ∈ run.view.nodes) :
    node.nodeId ∈ graph.topologicalOrder ∧ kindOf graph node.nodeId = some node.nodeKind := by
  have hmem : nodeLayout node ∈ run.layout := List.mem_map_of_mem hnode
  rw [h.executes.layout] at hmem
  obtain ⟨source, hsource, hlayout⟩ := List.mem_map.1 hmem
  have hid : source.nodeId = node.nodeId := congrArg Prod.fst hlayout
  have hkind : AutomationNodeKind.column source.kind = node.nodeKind :=
    congrArg (·.2.1) hlayout
  have hunique : Table.Unique (·.nodeId) graph.nodes := h.accepted.nodup
  refine ⟨h.accepted.mem_order.2 ⟨source, hsource, hid⟩, ?_⟩
  rw [← hid, ← hkind]
  exact congrArg (Option.map _) (hunique.row? hsource)

/-- The nodes that have succeeded are those that are done. -/
theorem hasSucceeded_iff (hhosts : s.Hosts run graph)
    (ha : Underway graph shadow k run.state before current rest)
    (hhead : Head graph shadow run.state position rest) {node : LiteAutomationRunNodeRecord}
    (hnode : node ∈ run.view.nodes) : hasSucceeded node ↔ node.nodeId ∈ before := by
  have hstate := hhosts.node_eq hnode
  obtain ⟨horder, -⟩ := hhosts.layout_of_mem hnode
  rw [ha.order] at horder
  constructor
  · intro hsucceeded
    refine (List.mem_append.1 horder).resolve_right fun hrest => ?_
    obtain ⟨n, hn, houtcome⟩ := hhead.unfinished _ hrest
    obtain rfl := Option.some.inj (hstate.symm.trans hn)
    exact houtcome (of_decide_eq_true hsucceeded).2
  · intro hbefore
    have hdone := Option.some.inj (hstate.symm.trans (ha.before_done _ hbefore))
    exact decide_eq_true ⟨congrArg NodeStatus.lifecycle hdone, congrArg NodeStatus.outcome hdone⟩

/-- What a run without a cancel comes to. -/
structure Progressed (run : AutomationRun) : Prop where
  /-- A node is started when the nodes it depends on have succeeded. -/
  started : ∀ start ∈ run.starts, ∃ node ∈ start.nodes, node.nodeId = start.nodeId ∧
    ∀ dep ∈ node.dependsOn, ∃ other ∈ start.nodes, other.nodeId = dep ∧ hasSucceeded other
  replayed : (run.replays.map (·.1)).Nodup
  /-- Every succeeded approval was resumed. -/
  approved : run.view.executionMode = .default →
    (run.view.nodes.countP fun node => node.nodeKind = .approval ∧ hasSucceeded node) =
      run.executions.countP (·.resumeReason.isSome)
  succeeded : (run.view.lifecycleState = .terminal ∧ run.view.terminalOutcome = some .succeeded) ↔
    ∀ node ∈ run.view.nodes, hasSucceeded node

/-- Nodes as the run has them, of a node of the order. -/
theorem exists_of_layout {nodes : List LiteAutomationRunNodeRecord} (haccepted : graph.Accepted)
    (hlayout : nodes.map nodeLayout = graph.nodes.map fun node =>
      (node.nodeId, AutomationNodeKind.column node.kind,
        (deriveInitialNodeState node.nodeId graph).1)) {id : String}
    (hid : id ∈ graph.topologicalOrder) : ∃ node ∈ nodes, node.nodeId = id ∧
      node.dependsOn = (deriveInitialNodeState id graph).1 := by
  obtain ⟨source, hsource, rfl⟩ := haccepted.mem_order.1 hid
  have hmem := List.mem_map_of_mem (f := fun node : AutomationGraphNode =>
    (node.nodeId, AutomationNodeKind.column node.kind,
      (deriveInitialNodeState node.nodeId graph).1)) hsource
  rw [← hlayout] at hmem
  obtain ⟨node, hnode, heq⟩ := List.mem_map.1 hmem
  exact ⟨node, hnode, congrArg Prod.fst heq, congrArg (·.2.2) heq⟩

theorem started_after (hhosts : s.Hosts run graph)
    (ha : Underway graph shadow k run.state before current rest) {start : NodeStart}
    (hstart : start ∈ run.starts) : ∃ node ∈ start.nodes, node.nodeId = start.nodeId ∧
      ∀ dep ∈ node.dependsOn, ∃ other ∈ start.nodes, other.nodeId = dep ∧ hasSucceeded other := by
  obtain ⟨pre, post, horder, hpre⟩ := ha.starts (start.nodeId, statusIn start.nodes)
    (List.mem_map_of_mem hstart)
  have hlayout := (hhosts.executes.starts start hstart).trans hhosts.executes.layout
  obtain ⟨node, hnode, hid, hdepends⟩ := exists_of_layout hhosts.accepted hlayout
    (horder ▸ List.mem_append_right pre List.mem_cons_self)
  refine ⟨node, hnode, hid, fun dep hdep => ?_⟩
  rw [hdepends] at hdep
  have hsource : dep ∈ pre := by
    have hsources : dep ∈ (graph.edges.filter fun edge =>
        edge.target = start.nodeId ∧ edge.type ≠ .onFailure).map (·.source) := by
      unfold deriveInitialNodeState at hdep
      dsimp only at hdep
      split at hdep <;> exact hdep
    obtain ⟨edge, hedge, rfl⟩ := List.mem_map.1 hsources
    obtain ⟨hedge, htarget⟩ := List.mem_filter.1 hedge
    exact hhosts.accepted.source_mem horder hedge (of_decide_eq_true htarget).1
  obtain ⟨other, hother, hdone⟩ := Option.map_eq_some_iff.1 (hpre dep hsource)
  obtain ⟨hmem, hkey⟩ := mem_of_row? hother
  exact ⟨other, hmem, hkey,
    decide_eq_true ⟨congrArg NodeStatus.lifecycle hdone, congrArg NodeStatus.outcome hdone⟩⟩

/-- The nodes of the run and the topological order have the same ids. -/
theorem Hosts.perm_order (h : s.Hosts run graph) :
    (run.view.nodes.map (·.nodeId)).Perm graph.topologicalOrder := by
  rw [h.nodeIds_eq]
  exact h.accepted.order_perm.symm

theorem count_approvals (hhosts : s.Hosts run graph)
    (ha : Underway graph shadow k run.state before current rest)
    (hhead : Head graph shadow run.state position rest) (hdefault : shadow = false) :
    (run.view.nodes.countP fun node => node.nodeKind = .approval ∧ hasSucceeded node) = k := by
  have hnodup := graph.order_spec.1
  have hperm := hhosts.perm_order
  rw [ha.order] at hnodup hperm
  obtain ⟨-, -, hdisjoint⟩ := List.nodup_append.1 hnodup
  have hbefore : before.countP (fun id => isApproval graph id && id ∈ before) =
      before.countP (isApproval graph) :=
    List.countP_congr fun id hid => by rw [decide_eq_true hid, Bool.and_true]
  have hrest : rest.countP (fun id => isApproval graph id && id ∈ before) = 0 := by
    refine List.countP_eq_zero.2 fun id hid happroval => ?_
    have hmem := of_decide_eq_true (Bool.and_eq_true_iff.1 happroval).2
    exact hdisjoint id hmem id hid rfl
  calc
    _ = run.view.nodes.countP fun node => isApproval graph node.nodeId && node.nodeId ∈ before := by
      refine List.countP_congr fun node hnode => ?_
      have hsucceeded := hasSucceeded_iff hhosts ha hhead hnode
      have hkind : isApproval graph node.nodeId ↔ node.nodeKind = .approval := by
        unfold isApproval
        rw [(hhosts.layout_of_mem hnode).2, decide_eq_true_iff, Option.some_inj]
      rw [decide_eq_true_iff, Bool.and_eq_true_iff, hkind, decide_eq_true_iff, hsucceeded]
    _ = (run.view.nodes.map (·.nodeId)).countP fun id => isApproval graph id && id ∈ before := by
      rw [List.countP_map]
      rfl
    _ = (before ++ rest).countP fun id => isApproval graph id && id ∈ before := hperm.countP_eq _
    _ = before.countP (isApproval graph) := by rw [List.countP_append, hbefore, hrest, Nat.add_zero]
    _ = k := ha.approvals hdefault

theorem Progress.progressed (hhosts : s.Hosts run graph)
    (ha : Progress graph run.shadow run.state) : Progressed run := by
  obtain ⟨position, before, rest, hunderway, hhead, -⟩ := ha.spec
  refine ⟨fun start hstart => started_after hhosts hunderway hstart, hunderway.once,
    fun hmode => ?_, ?_⟩
  · have hdefault : run.shadow = false := by
      unfold AutomationRun.shadow
      rw [hmode]
      rfl
    rw [count_approvals hhosts hunderway hhead hdefault]
    exact List.countP_map
  · refine hhead.succeeded_iff.trans ⟨fun hrest node hnode => ?_, fun hall => ?_⟩
    · subst hrest
      refine (hasSucceeded_iff hhosts hunderway hhead hnode).2 ?_
      have hmem := (hhosts.layout_of_mem hnode).1
      rw [hunderway.order, List.append_nil] at hmem
      exact hmem
    · refine List.eq_nil_iff_forall_not_mem.2 fun id hid => ?_
      obtain ⟨node, hnode, rfl⟩ := List.mem_map.1 (hhosts.perm_order.mem_iff.2
        (hunderway.order ▸ List.mem_append_right before hid))
      have hbefore := (hasSucceeded_iff hhosts hunderway hhead hnode).1 (hall node hnode)
      have hnodup := graph.order_spec.1
      rw [hunderway.order] at hnodup
      exact (List.nodup_append.1 hnodup).2.2 _ hbefore _ hid rfl

/-- The event does not cancel the run. -/
def NoCancel (r : String) (_ : AutomationSystem) : AutomationEvent → Prop
  | .cancel request _ => request.runId ≠ r
  | _ => True

instance decidableNoCancel {event : AutomationEvent} : Decidable (NoCancel r s event) :=
  match event with
  | .cancel request _ => inferInstanceAs (Decidable (request.runId ≠ r))
  | .create _ | .run .. | .resume .. | .settle .. => isTrue trivial

/-- In a trace that never cancels the run: nodes are started after those they depend on, no
playbook is replayed twice, approvals are resumed one by one, and the run succeeds with its
last node. -/
theorem uncancelled_run_progresses (σ : Lib.Trace (step defaults)) (h0 : σ.state 0 = {})
    (hcancel : σ.Always (NoCancel r)) (n : Nat) (hrun : (σ.state n).run? r = some run) :
    Progressed run := by
  have hempty : Holds Progress r (σ.state 0) := by
    rw [h0]
    exact holds_empty
  have hholds := Trace.Always.stable hcancel (fun s event s' hs hC h =>
    holds_step (C := fun _ op => op ≠ .cancel) (fun haccepted h => .created haccepted h)
      (fun haccepted ha hop h => ha.step haccepted hop h) hs (fun run op _ hperforms => by
        cases hperforms with
        | resume => nofun
        | cancel hid => exact absurd hid hC
        | settle => nofun) h) hempty (Nat.zero_le n)
  obtain ⟨graph, hhosts, ha⟩ := (hholds.has hrun).spec hrun
  exact Progress.progressed hhosts ha

theorem uncancelled_run_progresses_sample :
    ∃ run, (traceSigned.state 4).run? "r" = some run ∧ Progressed run := by
  have hlive : ((traceSigned.state 4).run? "r").isSome := by decide +kernel
  obtain ⟨run, hrun⟩ := Option.isSome_iff_exists.1 hlive
  exact ⟨run, hrun, uncancelled_run_progresses traceSigned rfl
    (Trace.always_ofRun (by decide +kernel)) 4 hrun⟩

end AutomationSystem

end AionisCore.Memory
