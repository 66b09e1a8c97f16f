import AionisCore.Lib.Linked
import AionisCore.Lib.Query
import AionisCore.Lib.Run
import AionisCore.Memory.CommitJobs
import AionisCore.Memory.WriteRows
import Mathlib.Data.Prod.Lex
import Mathlib.Data.String.Basic

/-!
# The chain of commits

A tools feedback, a rehydration and an activation take the commit of `latestCommit` as the
parent of their own: the one with the greatest `created_at`, and among those of one
millisecond the one with the greatest id, which is derived from a hash.
-/

namespace AionisCore.Memory

open Lib Lib.Table Lib.Query Util Store

/-- The commits of a scope in the order of their insertion. -/
def scopeCommits (t : LiteTables) (scope : String) : List LiteCommitRow :=
  t.commits.filter (·.scope == scope)

/-- The parent of each commit of the scope is the one inserted just before it, and no two
commits have one parent. -/
structure Chained (t : LiteTables) (scope : String) : Prop where
  linked : Linked (·.id) (·.parentCommitId) (scopeCommits t scope)
  children : ∀ c ∈ scopeCommits t scope, ∀ d ∈ scopeCommits t scope,
    c.parentCommitId = d.parentCommitId → c = d

/-- No other commit of the last one's millisecond has a greater id. -/
def LastIsGreatest (t : LiteTables) (scope : String) : Prop :=
  ∀ last ∈ (scopeCommits t scope).getLast?, ∀ c ∈ scopeCommits t scope,
    c.createdAt = last.createdAt → c.id ≤ last.id

variable {t : LiteTables} {scope : String}

theorem chained_iff : Chained t scope ↔
    Linked (·.id) (·.parentCommitId) (scopeCommits t scope) :=
  ⟨Chained.linked, fun h => ⟨h, fun _ hc _ hd => h.eq_of_parent t.commitIds.filter hc hd⟩⟩

/-! ## The latest commit -/

/-- `ORDER BY created_at, id`. -/
def recent (c : LiteCommitRow) : String ×ₗ String := toLex (c.createdAt, c.id)

theorem recent_le {c d : LiteCommitRow} : recent d ≤ recent c ↔
    d.createdAt < c.createdAt ∨ d.createdAt = c.createdAt ∧ d.id ≤ c.id := Prod.Lex.toLex_le_toLex

theorem latestCommit_id (crypto : Crypto) (t : LiteTables) (scope : String) :
    ((liteDb crypto t).latestCommit scope).map (·.id) =
      ((orderByDesc recent (scopeCommits t scope)).head?).map (·.id) := by
  let f (c : LiteCommitRow) : LiteCommit := ⟨c.id, c.scope, c.parentCommitId, c.inputSha256,
    crypto.stableStringify c.diff, c.actor, c.commitHash, c.createdAt⟩
  have hrows : (liteDb crypto t).commits.filter (·.scope == scope) =
      (scopeCommits t scope).map f := List.filter_map
  rw [LiteDb.latestCommit, hrows, ← List.map_insertionSort (fun c d => recent d ≤ recent c) _ f _
    (fun _ _ _ _ => recent_le), List.head?_map, Option.map_map]
  rfl

/-- Under a clock that never goes back, the latest commit is the last one unless another of its
millisecond has a greater id. -/
theorem latestCommit_eq_last_iff (crypto : Crypto)
    (hordered : (scopeCommits t scope).Pairwise (·.createdAt ≤ ·.createdAt)) :
    ((liteDb crypto t).latestCommit scope).map (·.id) =
      (scopeCommits t scope).getLast?.map (·.id) ↔ LastIsGreatest t scope := by
  rw [latestCommit_id]
  cases hlast : (scopeCommits t scope).getLast? with
  | none =>
    have hempty := List.getLast?_eq_none_iff.1 hlast
    rw [head?_orderByDesc_eq_none.2 hempty]
    refine iff_of_true rfl fun last h => ?_
    rw [hlast] at h
    cases h
  | some last =>
    have hmem := List.mem_of_getLast? hlast
    have hsome : (orderByDesc recent (scopeCommits t scope)).head? ≠ none :=
      fun h => List.ne_nil_of_mem hmem (head?_orderByDesc_eq_none.1 h)
    obtain ⟨latest, hlatest⟩ := Option.ne_none_iff_exists'.1 hsome
    obtain ⟨hrow, hmax⟩ := head?_orderByDesc hlatest
    have hbefore : latest.createdAt ≤ last.createdAt := by
      obtain ⟨before, hbefore⟩ := List.getLast?_eq_some_iff.1 hlast
      rw [hbefore] at hordered hrow
      rcases List.mem_append.1 hrow with hold | hlatest
      · exact (List.pairwise_append.1 hordered).2.2 latest hold last (List.mem_singleton_self _)
      · rw [List.mem_singleton.1 hlatest]
    have hlastLe := recent_le.1 (hmax last hmem)
    rw [hlatest, Option.map_some, Option.map_some, Option.some_inj]
    constructor
    · intro hid last' hlast' c hc hwhen
      obtain rfl := Option.some.inj (hlast.symm.trans hlast')
      obtain rfl := t.commitIds.filter.eq hrow hmem hid
      rcases recent_le.1 (hmax c hc) with hlt | ⟨-, hle⟩
      · exact absurd hwhen hlt.ne
      · exact hle
    · intro h
      rcases hlastLe with hlt | ⟨hwhen, hle⟩
      · exact absurd hbefore (not_le_of_gt hlt)
      · exact le_antisymm (h last hlast latest hrow hwhen.symm) hle

/-! ## A commit -/

/-- A commit that is made: the time, and what it inserts. -/
structure CommitStep where
  crypto : Crypto
  now : String
  args : WriteCommitInsertArgs

namespace CommitStep

def rowId (c : CommitStep) : String := c.crypto.stableUuid s!"lite:commit:{c.args.commitHash}"

def after (c : CommitStep) (t : LiteTables) : LiteTables := (t.insertCommit c.crypto c.now c.args).2

/-- A row is inserted: the hash is not known, and the id is not taken. -/
def Inserts (c : CommitStep) (t : LiteTables) : Prop :=
  row? (·.commitHash) t.commits c.args.commitHash = none ∧ row? (·.id) t.commits c.rowId = none

variable {c : CommitStep}

theorem after_of_inserts (h : c.Inserts t) :
    (c.after t).commits = t.commits ++ [c.args.row c.rowId c.now] := by
  obtain ⟨-, hcommits⟩ := @LiteTables.insertCommit_of_new t c.crypto c.now c.args h.1
  exact hcommits.trans (insertOrIgnore_of_new (row?_eq_none.1 h.2))

theorem after_of_not_inserts (h : ¬ c.Inserts t) : (c.after t).commits = t.commits := by
  cases hknown : row? (·.commitHash) t.commits c.args.commitHash with
  | some known => rw [after, LiteTables.insertCommit_of_known hknown]
  | none =>
    obtain ⟨-, hcommits⟩ := @LiteTables.insertCommit_of_new t c.crypto c.now c.args hknown
    refine hcommits.trans (insertOrIgnore_of_known ?_)
    obtain ⟨row, hrow⟩ := Option.ne_none_iff_exists'.1 fun hid => h ⟨hknown, hid⟩
    exact ⟨row, mem_of_row? hrow⟩

/-- The commit adds a row to the scope. -/
def InsertsIn (c : CommitStep) (t : LiteTables) (scope : String) : Prop :=
  c.args.scope = scope ∧ c.Inserts t

theorem scopeCommits_of_inserts (h : c.InsertsIn t scope) :
    scopeCommits (c.after t) scope = scopeCommits t scope ++ [c.args.row c.rowId c.now] := by
  rw [scopeCommits, after_of_inserts h.2, List.filter_append, ← scopeCommits]
  refine congrArg _ (List.filter_eq_self.2 fun row hrow => ?_)
  rw [List.mem_singleton.1 hrow]
  exact beq_iff_eq.2 h.1

theorem scopeCommits_of_not_inserts (h : ¬ c.InsertsIn t scope) :
    scopeCommits (c.after t) scope = scopeCommits t scope := by
  by_cases hins : c.Inserts t
  · have hscope : c.args.scope ≠ scope := fun hscope => h ⟨hscope, hins⟩
    rw [scopeCommits, after_of_inserts hins, List.filter_append, ← scopeCommits]
    refine (congrArg _ (List.filter_eq_nil_iff.2 fun row hrow => ?_)).trans (List.append_nil _)
    rw [List.mem_singleton.1 hrow, beq_iff_eq]
    exact hscope
  · rw [scopeCommits, after_of_not_inserts hins, ← scopeCommits]

/-- A chain stays one just if the commit names the last commit of the scope. -/
theorem chained_after_iff (h : Chained t scope) : Chained (c.after t) scope ↔
    (c.InsertsIn t scope → c.args.parentCommitId = (scopeCommits t scope).getLast?.map (·.id)) := by
  rw [chained_iff]
  by_cases hins : c.InsertsIn t scope
  · rw [scopeCommits_of_inserts hins, linked_append_singleton]
    exact ⟨fun hlinked _ => hlinked.2, fun hparent => ⟨h.linked, hparent hins⟩⟩
  · rw [scopeCommits_of_not_inserts hins]
    exact iff_of_true h.linked fun hins' => absurd hins' hins

end CommitStep

/-! ## Runs -/

/-- The operations on the store of a scope. A tools feedback is its commit and the writes of new
anchors that follow it; one that is rolled back leaves nothing. Whatever else happens commits
in other scopes. -/
inductive ChainOperation (scope : String) where
  | activate (env : LifecycleEnv) (call : ActivateCall)
  | rehydrate (env : LifecycleEnv) (call : RehydrateCall)
  | feedback (crypto : Crypto) (call : RuleCall)
  /-- The write of a new pattern anchor or policy memory, which names no parent. -/
  | anchorWrite (opts : ApplyWriteOptions) (prepared : PreparedWrite)
    (root : prepared.parentCommitId = none)
  | elsewhere (op : LiteOperation)
    (frame : ∀ t, scopeCommits (op.apply t) scope = scopeCommits t scope)

namespace ChainOperation

def toLite : ChainOperation scope → LiteOperation
  | .activate env call => .activate env call
  | .rehydrate env call => .rehydrate env call
  | .feedback crypto call => .rule crypto call
  | .anchorWrite opts prepared _ => .write opts prepared
  | .elsewhere op _ => op

def step (t : LiteTables) (op : ChainOperation scope) : Option LiteTables :=
  some (op.toLite.apply t)

/-- The commit that the operation makes in the scope, if it makes one. -/
def commit? (t : LiteTables) : ChainOperation scope → Option CommitStep
  | .activate env call =>
    match activateTarget env (liteDb env.crypto t) call.body with
    | .ok target =>
      if target.resolved.foundRows = [] then none
      else some ⟨env.crypto, call.now, (activateJob env t call target).args env.crypto⟩
    | .error _ => none
  | .rehydrate env call =>
    match rehydrateTarget env (liteDb env.crypto t) call.body with
    | .ok target =>
      if movableRows call.body target = [] then none
      else some ⟨env.crypto, call.now, (rehydrateJob env t call target).args env.crypto⟩
    | .error _ => none
  | .feedback crypto call =>
    if call.found (liteDb crypto t) then
      some ⟨crypto, call.now, (ruleCommit crypto t call).args crypto⟩
    else none
  | .anchorWrite opts prepared _ =>
    (applyMemoryWrite opts t prepared).toOption.map fun _ =>
      ⟨opts.crypto, opts.now (writeHash opts t prepared),
        commitArgs prepared (buildWriteDiff prepared opts.piiRedaction) (writeHash opts t prepared)⟩
  | .elsewhere _ _ => none

/-- The operation adds a commit to the scope. -/
def InsertsIn (t : LiteTables) (op : ChainOperation scope) : Prop :=
  ∃ c ∈ op.commit? t, c.InsertsIn t scope

/-- The clock is not behind a commit of the scope. -/
def ClockForward (t : LiteTables) (op : ChainOperation scope) : Prop :=
  ∀ c ∈ op.commit? t, ∀ row ∈ scopeCommits t scope, row.createdAt ≤ c.now

/-- A commit is added only when the last one is the greatest of its millisecond, and by a write
of an anchor only as the first of the scope. -/
def KeepsChain (t : LiteTables) : ChainOperation scope → Prop
  | .anchorWrite opts prepared root =>
    @InsertsIn scope t (.anchorWrite opts prepared root) → scopeCommits t scope = []
  | op => InsertsIn t op → LastIsGreatest t scope

theorem scopeCommits_congr {t' : LiteTables} (h : t'.commits = t.commits) :
    scopeCommits t' scope = scopeCommits t scope := by
  rw [scopeCommits, h, ← scopeCommits]

section Record

variable {crypto : Crypto} {now : String} {j : JobCommit}
  {updates : String → List NodeAnchorUpdate}

theorem record_commits : (j.record crypto now updates t).commits =
    (CommitStep.after ⟨crypto, now, j.args crypto⟩ t).commits :=
  (foldl_updateNodeAnchorState _ _).2

theorem scopeCommits_recorded {p : Prop} [Decidable p] :
    scopeCommits ((if p then Except.ok t else
      (.ok (j.record crypto now updates t) : Except RequestError _)).toOption.getD t) scope =
      (if p then none else some (⟨crypto, now, j.args crypto⟩ : CommitStep)).elim
        (scopeCommits t scope) fun c => scopeCommits (c.after t) scope := by
  split
  · rfl
  · exact scopeCommits_congr record_commits

end Record

/-- The commits of the scope after an operation are those after its commit. -/
theorem scopeCommits_apply (t : LiteTables) (op : ChainOperation scope) :
    scopeCommits (op.toLite.apply t) scope =
      (op.commit? t).elim (scopeCommits t scope) fun c => scopeCommits (c.after t) scope := by
  cases op with
  | activate env call =>
    simp only [toLite, LiteOperation.apply, commit?, activateNodes]
    cases activateTarget env (liteDb env.crypto t) call.body with
    | error e => rfl
    | ok target => exact scopeCommits_recorded
  | rehydrate env call =>
    simp only [toLite, LiteOperation.apply, commit?, rehydrateNodes]
    cases rehydrateTarget env (liteDb env.crypto t) call.body with
    | error e => rfl
    | ok target => exact scopeCommits_recorded
  | feedback crypto call =>
    simp only [toLite, LiteOperation.apply, commit?, recordRule]
    split
    · exact scopeCommits_congr record_commits
    · rfl
  | anchorWrite opts prepared root =>
    simp only [toLite, LiteOperation.apply, commit?]
    cases h : applyMemoryWrite opts t prepared with
    | error e => rfl
    | ok written => exact scopeCommits_congr (applyMemoryWrite_ok h).commits
  | elsewhere op frame => exact frame t

variable {op : ChainOperation scope}

/-- An operation names the latest commit of the scope, except a write of an anchor. -/
theorem parent_of_commit? {c : CommitStep} (h : c ∈ op.commit? t) :
    (∃ opts prepared root, op = .anchorWrite opts prepared root ∧ c.args.parentCommitId = none) ∨
      (KeepsChain t op ↔ (InsertsIn t op → LastIsGreatest t scope)) ∧
        c.args.parentCommitId = ((liteDb c.crypto t).latestCommit c.args.scope).map (·.id) := by
  cases op with
  | activate env call =>
    simp only [commit?] at h
    split at h
    · split at h
      · cases h
      · obtain rfl := Option.some.inj h
        exact .inr ⟨Iff.rfl, rfl⟩
    · cases h
  | rehydrate env call =>
    simp only [commit?] at h
    split at h
    · split at h
      · cases h
      · obtain rfl := Option.some.inj h
        exact .inr ⟨Iff.rfl, rfl⟩
    · cases h
  | feedback crypto call =>
    simp only [commit?] at h
    split at h
    · obtain rfl := Option.some.inj h
      exact .inr ⟨Iff.rfl, rfl⟩
    · cases h
  | anchorWrite opts prepared root =>
    obtain ⟨written, -, rfl⟩ := Option.map_eq_some_iff.1 h
    exact .inl ⟨opts, prepared, root, rfl, root⟩
  | elsewhere op frame => cases h

theorem insertsIn_iff {c : CommitStep} (h : c ∈ op.commit? t) :
    InsertsIn t op ↔ c.InsertsIn t scope := by
  constructor
  · rintro ⟨c', hc', hins⟩
    obtain rfl := Option.some.inj (h.symm.trans hc')
    exact hins
  · exact fun hins => ⟨c, h, hins⟩

/-- The times of the scope's commits never go back. -/
def Ordered (t : LiteTables) (scope : String) : Prop :=
  (scopeCommits t scope).Pairwise (·.createdAt ≤ ·.createdAt)

theorem ordered_step (h : Ordered t scope) (hclock : ClockForward t op) :
    Ordered (op.toLite.apply t) scope := by
  unfold Ordered
  rw [scopeCommits_apply]
  cases hcommit : op.commit? t with
  | none => exact h
  | some c =>
    by_cases hins : c.InsertsIn t scope
    · rw [Option.elim_some, CommitStep.scopeCommits_of_inserts hins, List.pairwise_append]
      refine ⟨h, List.pairwise_singleton _ _, fun row hrow last hlast => ?_⟩
      rw [List.mem_singleton.1 hlast]
      exact hclock c hcommit row hrow
    · rw [Option.elim_some, CommitStep.scopeCommits_of_not_inserts hins]
      exact h

/-- An operation keeps the chain of the scope just if it is allowed. -/
theorem chained_step_iff (hordered : Ordered t scope) (h : Chained t scope) :
    Chained (op.toLite.apply t) scope ↔ KeepsChain t op := by
  rw [chained_iff, scopeCommits_apply]
  cases hcommit : op.commit? t with
  | none =>
    have hnone : ¬ InsertsIn t op := by
      rintro ⟨c, hc, -⟩
      rw [hcommit] at hc
      cases hc
    refine iff_of_true h.linked ?_
    cases op <;> exact fun hins => absurd hins hnone
  | some c =>
    rw [Option.elim_some, ← chained_iff, CommitStep.chained_after_iff h, ← insertsIn_iff hcommit]
    rcases parent_of_commit? hcommit with ⟨opts, prepared, root, rfl, hparent⟩ | ⟨hkeeps, hparent⟩
    · refine forall_congr' fun hins => ?_
      rw [hparent, eq_comm, Option.map_eq_none_iff, List.getLast?_eq_none_iff]
    · rw [hkeeps]
      refine forall_congr' fun hins => ?_
      rw [hparent, ((insertsIn_iff hcommit).1 hins).1]
      exact latestCommit_eq_last_iff c.crypto hordered

end ChainOperation

/-- From a fresh store, under a clock that never goes back, the commits of a scope form a chain
throughout just if every commit is added where the last one is the latest. -/
theorem commits_chain_iff (ops : List (ChainOperation scope))
    (hclock : Along ChainOperation.step ChainOperation.ClockForward .empty ops) :
    (∀ before t, before <+: ops → run ChainOperation.step .empty before = some t →
      Chained t scope) ↔
      Along ChainOperation.step ChainOperation.KeepsChain .empty ops := by
  refine forall_prefix_iff_along_of (R := (ChainOperation.Ordered · scope))
    (fun t op => ⟨_, rfl⟩) (fun t op t' h hclock hstep => ?_)
    (fun t op t' hordered _ h hstep => ?_) .nil (chained_iff.2 linked_nil) hclock
  · obtain rfl := Option.some.inj hstep
    exact ChainOperation.ordered_step h hclock
  · obtain rfl := Option.some.inj hstep
    exact ChainOperation.chained_step_iff hordered h

/-! ## Commits of one millisecond -/

def feedbackCall (input : String) : RuleCall where
  scope := "s"
  actor := "a"
  inputSha256 := input
  now := "t"
  job := .toolFeedback "d" "provided" "positive" "grep" "tool" none ["grep"] []

/-- Feedbacks that arrive in one millisecond. -/
def feedbacks (inputs : List String) : List (ChainOperation "s") :=
  inputs.map fun input => .feedback sampleCrypto (feedbackCall input)

instance (t : LiteTables) (op : ChainOperation scope) :
    Decidable (ChainOperation.ClockForward t op) :=
  inferInstanceAs (Decidable (∀ c ∈ op.commit? t, ∀ row ∈ scopeCommits t scope,
    row.createdAt ≤ c.now))

/-- Two commits have one parent. -/
def forked (t : LiteTables) (scope : String) : Bool :=
  (scopeCommits t scope).any fun c => (scopeCommits t scope).any fun d =>
    c.parentCommitId == d.parentCommitId && c.id != d.id

theorem not_chained_of_forked (h : forked t scope = true) : ¬ Chained t scope := by
  intro hchained
  obtain ⟨c, hc, h⟩ := List.any_eq_true.1 h
  obtain ⟨d, hd, h⟩ := List.any_eq_true.1 h
  obtain ⟨hparent, hid⟩ := Bool.and_eq_true_iff.1 h
  rw [hchained.children c hc d hd (beq_iff_eq.1 hparent)] at hid
  exact bne_iff_ne.1 hid rfl

theorem commits_chain_iff_two :
    (∀ before t, before <+: feedbacks ["a", "b"] →
      run ChainOperation.step .empty before = some t → Chained t "s") ↔
      Along ChainOperation.step ChainOperation.KeepsChain .empty (feedbacks ["a", "b"]) :=
  commits_chain_iff (feedbacks ["a", "b"]) (by decide +kernel)

theorem feedbacks_forked :
    (run ChainOperation.step .empty (feedbacks ["b", "a", "c"])).any (forked · "s") := by
  decide +kernel

/-- The second of three feedbacks of one millisecond has the smaller id: the third takes the first
as its parent again. -/
theorem feedbacks_fork :
    Along ChainOperation.step ChainOperation.ClockForward .empty (feedbacks ["b", "a", "c"]) ∧
      ∃ t, run ChainOperation.step .empty (feedbacks ["b", "a", "c"]) = some t ∧
        ¬ Chained t "s" := by
  obtain ⟨t, hrun, hforked⟩ := (Option.any_eq_true _ _).1 feedbacks_forked
  exact ⟨by decide +kernel, t, hrun, not_chained_of_forked hforked⟩

end AionisCore.Memory
