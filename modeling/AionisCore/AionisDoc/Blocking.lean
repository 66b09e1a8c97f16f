import AionisCore.Lib.Readiness
import AionisCore.AionisDoc.GraphEdges
import AionisCore.AionisDoc.PlanRun

/-!
# Refusals and edges

The compiler draws edges from its name tables; the runtime refuses a step while one of the names
it depends on is not among the outputs. A run is seen as one of tasks that wait for names, and
the edges of a document say what is refused in every run just if they match these tasks.
-/

namespace AionisCore.AionisDoc

open Lib NamedTask

/-- The names that are in every object. -/
def inheritedName (k : String) : Bool := k ∈ AionisValue.objectMethods || k = "__proto__"

/-- The names without which the execution is refused. -/
def ExecuteIR.awaited (e : ExecuteIR) : List String := e.dependencies.takeWhile (· ≠ "")

/-- An execution waits for the names it depends on and gives that of its output. -/
def executionTask (es : List ExecuteIR) (i : Nat) : NamedTask String :=
  match es[i]? with
  | none => { needs := [], gives := none, able := false }
  | some e => {
      needs := e.awaited
      gives := e.outputName
      able := !falsy e.module && e.outputRef ≠ some "__proto__" }

/-- The graph of the plan has an edge from one step to another. -/
def PlanEdge (plan : ExecutionPlanV1) (i j : Nat) : Prop :=
  ∃ graph, plan.graph = some graph ∧
    ∃ edge ∈ graph.edges, edge.source = nodeId i ∧ edge.target = nodeId j

/-- No output is stored under the name of the prototype. -/
def KeepsPrototype (runtime : ModuleRegistryExecutionRuntime) (plan : ExecutionPlanV1) : Prop :=
  ∀ i step, plan.executions[i]? = some step →
    Succeeded (lastState runtime plan).nodeResults i → step.outputRef ≠ some "__proto__"

/-- Of the steps that the run gets to, those are refused as blocked that have an edge from a step
that did not finish with status success. -/
def BlocksOnEdges (runtime : ModuleRegistryExecutionRuntime) (plan : ExecutionPlanV1) : Prop :=
  ∀ j < plan.executions.length, j ≤ (lastState runtime plan).nodeResults.length →
    (RefusedAsBlocked plan (lastState runtime plan).nodeResults j ↔
      ∃ i, PlanEdge plan i j ∧ ¬ Succeeded (lastState runtime plan).nodeResults i)

/-! ## Names in the outputs -/

section Names

variable {o : AionisObject} {k name : String}

theorem has_of_proto (h : o.proto = .objectPrototype) :
    o.has k = true ↔ (OrderedMap.getEntry k o.own).isSome ∨ inheritedName k = true := by
  unfold AionisObject.has AionisObject.get inheritedName
  rw [h]
  cases OrderedMap.getEntry k o.own with
  | some v => simp
  | none =>
    by_cases hk : k = "__proto__"
    · simp [hk, AionisValue.reachesAccessor]
    · by_cases hm : k ∈ AionisValue.objectMethods
      · simp [hk, hm, AionisValue.chainEntry]
      · simp [hk, hm, AionisValue.chainEntry]

theorem has_set (h : o.proto = .objectPrototype) (hk : k ≠ "__proto__") (v : AionisValue) :
    (o.set k v).has name = true ↔ name = k ∨ o.has name = true := by
  rw [AionisObject.set_of_ne hk, has_of_proto (by exact h), has_of_proto h]
  dsimp only
  rw [OrderedMap.getEntry_setEntry]
  by_cases hname : name = k
  · simp [hname]
  · simp [hname]

end Names

/-- What the first of the missing names says when the empty name is always missing. -/
theorem unmet_isSome {names : List String} {p : String → Bool} (hempty : p "" = false) :
    ((names.find? fun k => !p k).filter (· ≠ "")).isSome ↔
      ∃ k ∈ names.takeWhile (· ≠ ""), p k = false := by
  induction names with
  | nil => simp
  | cons name names ih =>
    by_cases hname : name = ""
    · simp [hname, hempty]
    · cases hp : p name with
      | false => simp [hp, hname]
      | true =>
        rw [List.find?_cons_of_neg (by simp [hp]), ih, List.takeWhile_cons_of_pos (by simp [hname])]
        simp [hp]

section Tasks

variable {es : List ExecuteIR} {i : Nat} {e : ExecuteIR} {S : Nat → Prop}

theorem executionTask_eq (he : es[i]? = some e) : executionTask es i = {
    needs := e.awaited
    gives := e.outputName
    able := !falsy e.module && e.outputRef ≠ some "__proto__" } := by
  unfold executionTask
  rw [he]

theorem executionTask_gives (i : Nat) :
    (executionTask es i).gives = es[i]?.bind ExecuteIR.outputName := by
  unfold executionTask
  split
  · next h => rw [h]; rfl
  · next e h => rw [h]; rfl

theorem gives_ne_empty : (executionTask es i).gives ≠ some "" := by
  unfold executionTask
  split
  · nofun
  · intro h
    exact (getD_of_filter h).2.2.2 rfl

theorem not_available_empty : ¬ Available inheritedName (executionTask es) S i "" := by
  rintro (h | ⟨k, -, -, hk⟩)
  · revert h
    decide
  · exact gives_ne_empty hk

end Tasks

/-! ## One run -/

/-- The executions of a document in a plan. -/
def LaysOut (plan : ExecutionPlanV1) (es : List ExecuteIR) : Prop :=
  plan.executions = es.mapIdx fun index e => buildExecutionStep e index

section Plan

variable {runtime : ModuleRegistryExecutionRuntime} {plan : ExecutionPlanV1} {es : List ExecuteIR}
  {n : Nat} {s : ExecutionState}

theorem LaysOut.step (h : LaysOut plan es) {e : ExecuteIR} (he : es[n]? = some e) :
    plan.executions[n]? = some (buildExecutionStep e n) := by
  rw [h, List.getElem?_mapIdx, he]
  rfl

theorem LaysOut.execution (h : LaysOut plan es) {step : ExecutionPlanStep}
    (hstep : plan.executions[n]? = some step) :
    ∃ e, es[n]? = some e ∧ step = buildExecutionStep e n := by
  rw [h, List.getElem?_mapIdx] at hstep
  obtain ⟨e, he, rfl⟩ := Option.map_eq_some_iff.1 hstep
  exact ⟨e, he, rfl⟩

theorem LaysOut.length (h : LaysOut plan es) : plan.executions.length = es.length := by
  rw [h, List.length_mapIdx]

/-- What the outputs are after the first `n` steps. -/
structure OutputsAt (es : List ExecuteIR) (S : Nat → Prop) (n : Nat) (outputs : AionisObject) :
    Prop where
  proto : outputs.proto = .objectPrototype
  has : ∀ k, outputs.has k = true ↔ Available inheritedName (executionTask es) S n k

variable {outputs : AionisObject}

theorem OutputsAt.fail {S : Nat → Prop} (h : OutputsAt es S n outputs) (hn : ¬ S n) :
    OutputsAt es S (n + 1) outputs where
  proto := h.proto
  has := by
    intro k
    rw [h.has]
    refine or_congr_right ⟨?_, ?_⟩
    · rintro ⟨i, hi, hS, hk⟩
      exact ⟨i, by omega, hS, hk⟩
    · rintro ⟨i, hi, hS, hk⟩
      have hne : i ≠ n := fun hin => hn (hin ▸ hS)
      exact ⟨i, by omega, hS, hk⟩

/-- An output is stored under the name that the execution gives. -/
theorem storeOutput_cases {e : ExecuteIR} (hproto : e.outputRef ≠ some "__proto__")
    (outputs : AionisObject) (output : AionisValue) :
    e.outputName = none ∧ storeOutput outputs (buildExecutionStep e n) output = outputs ∨
      ∃ name, name ≠ "__proto__" ∧ e.outputName = some name ∧
        storeOutput outputs (buildExecutionStep e n) output = outputs.set name output := by
  have href : (buildExecutionStep e n).outputRef = e.outputRef := rfl
  unfold storeOutput ExecuteIR.outputName
  rw [href]
  cases hname : e.outputRef.filter (· ≠ "") with
  | none => exact .inl ⟨rfl, if_pos ((falsy_iff _).2 hname)⟩
  | some name =>
    obtain ⟨hfalsy, hvalue, hsome, -⟩ := getD_of_filter hname
    rw [hfalsy, if_neg Bool.false_ne_true, hvalue]
    exact .inr ⟨name, fun heq => hproto (heq ▸ hsome), rfl, rfl⟩

theorem OutputsAt.store {S : Nat → Prop} (h : OutputsAt es S n outputs) (hn : S n) {e : ExecuteIR}
    (he : es[n]? = some e) (hproto : e.outputRef ≠ some "__proto__") (output : AionisValue) :
    OutputsAt es S (n + 1) (storeOutput outputs (buildExecutionStep e n) output) := by
  have hgives : (executionTask es n).gives = e.outputName := by rw [executionTask_eq he]
  have hsucc : ∀ k, Available inheritedName (executionTask es) S (n + 1) k ↔
      e.outputName = some k ∨ Available inheritedName (executionTask es) S n k := by
    intro k
    constructor
    · rintro (hk | ⟨i, hi, hS, hk⟩)
      · exact Or.inr (Or.inl hk)
      · by_cases hin : i = n
        · rw [hin, hgives] at hk
          exact Or.inl hk
        · exact Or.inr (Or.inr ⟨i, by omega, hS, hk⟩)
    · rintro (hk | hk)
      · exact Or.inr ⟨n, Nat.lt_succ_self n, hn, hgives.trans hk⟩
      · exact hk.imp_right fun ⟨i, hi, hS, hk⟩ => ⟨i, by omega, hS, hk⟩
  obtain ⟨hname, hstored⟩ | ⟨name, hne, hname, hstored⟩ := storeOutput_cases hproto outputs output
  · rw [hstored]
    refine ⟨h.proto, fun k => ?_⟩
    rw [hsucc, h.has, hname]
    simp
  · rw [hstored]
    refine ⟨by rw [AionisObject.set_of_ne hne]; exact h.proto, fun k => ?_⟩
    rw [has_set h.proto hne, hsucc, h.has, hname, Option.some.injEq, eq_comm (a := k)]

theorem outputsAt_of_stateAt (hes : LaysOut plan es) (hkeeps : KeepsPrototype runtime plan)
    (hs : stateAt runtime plan n = some s) :
    OutputsAt es (Succeeded (lastState runtime plan).nodeResults) n s.outputs := by
  induction n generalizing s with
  | zero =>
    obtain rfl := Option.some.inj hs
    refine ⟨rfl, fun k => ?_⟩
    rw [has_of_proto rfl]
    constructor
    · rintro (hk | hk)
      · cases hk
      · exact Or.inl hk
    · rintro (hk | ⟨_, hi, -⟩)
      · exact Or.inr hk
      · cases hi
  | succ n ih =>
    obtain ⟨u, step, hu, hstep, hs⟩ := stateAt_succ.1 hs
    have hend := stepEnd_eq hu hstep
    have hout := ih hu
    unfold advance at hs
    cases hr : runStep runtime plan n u.outputs step with
    | raised message =>
      rw [hr] at hs
      cases hs
    | failed message =>
      rw [hr] at hs hend
      obtain rfl := Option.some.inj hs
      refine hout.fail fun hsucceeded => ?_
      obtain ⟨output, artifacts, evidence, hend'⟩ := succeeded_iff.1 hsucceeded
      rw [hend] at hend'
      cases hend'
    | success output artifacts evidence =>
      rw [hr] at hs hend
      obtain rfl := Option.some.inj hs
      have hsucceeded := succeeded_iff.2 ⟨_, _, _, hend⟩
      obtain ⟨e, he, rfl⟩ := hes.execution hstep
      exact hout.store hsucceeded he (hkeeps n _ hstep hsucceeded) output

/-- A step is refused just if it is blocked among those that succeeded. -/
theorem unmet_iff_blocked {S : Nat → Prop} {e : ExecuteIR} (he : es[n]? = some e)
    (h : OutputsAt es S n outputs) :
    (unmetDependency (buildExecutionStep e n) outputs).isSome ↔
      Blocked inheritedName (executionTask es) S n := by
  have hempty : outputs.has "" = false := by
    rw [← Bool.not_eq_true, h.has]
    exact not_available_empty
  unfold unmetDependency missingDependency Blocked
  rw [unmet_isSome hempty, executionTask_eq he]
  refine exists_congr fun k => and_congr_right fun _ => ?_
  rw [← h.has, Bool.not_eq_true]

theorem refusedAsBlocked_iff_blocked (hes : LaysOut plan es) (hkeeps : KeepsPrototype runtime plan)
    (hs : stateAt runtime plan n = some s) {e : ExecuteIR} (he : es[n]? = some e) :
    RefusedAsBlocked plan (lastState runtime plan).nodeResults n ↔
      Blocked inheritedName (executionTask es)
        (Succeeded (lastState runtime plan).nodeResults) n := by
  rw [refusedAsBlocked_iff hs (hes.step he)]
  exact unmet_iff_blocked he (outputsAt_of_stateAt hes hkeeps hs)

end Plan

section Admissible

variable {runtime : ModuleRegistryExecutionRuntime} {plan : ExecutionPlanV1} {es : List ExecuteIR}
  {n : Nat}

theorem exists_stateAt (hle : n ≤ (lastState runtime plan).nodeResults.length) :
    ∃ s, stateAt runtime plan n = some s := by
  obtain ⟨last, hlast, -⟩ := exists_last runtime plan
  have hlength := stateAt_length hlast
  exact Option.isSome_iff_exists.1 (stateAt_isSome_of_le (n := n) (by rw [hlast]; rfl) (by omega))

theorem runStep_success {turn : Nat} {outputs : AionisObject} {step : ExecutionPlanStep}
    {output : AionisValue} {artifacts evidence : List AionisValue}
    (h : runStep runtime plan turn outputs step = .success output artifacts evidence) :
    unmetDependency step outputs = none ∧ falsy step.module = false := by
  unfold runStep at h
  split at h
  · cases h
  · next hunmet =>
    split at h
    · cases h
    · next hmodule => exact ⟨hunmet, by simpa using hmodule⟩

theorem admissible_succeeded (hes : LaysOut plan es) (hkeeps : KeepsPrototype runtime plan) :
    Admissible inheritedName (executionTask es)
      (Succeeded (lastState runtime plan).nodeResults) := by
  intro i hi
  obtain ⟨output, artifacts, evidence, hend⟩ := succeeded_iff.1 hi
  obtain ⟨s, hs, hend⟩ := Option.bind_eq_some_iff.1 hend
  obtain ⟨step, hstep, hr⟩ := Option.map_eq_some_iff.1 hend
  obtain ⟨hunmet, hmodule⟩ := runStep_success hr
  have hproto := hkeeps i step hstep hi
  obtain ⟨e, he, rfl⟩ := hes.execution hstep
  have hout := outputsAt_of_stateAt hes hkeeps hs
  have hblocked : ¬ Blocked inheritedName (executionTask es)
      (Succeeded (lastState runtime plan).nodeResults) i := by
    rw [← unmet_iff_blocked he hout, hunmet]
    nofun
  constructor
  · have hmodule : falsy e.module = false := hmodule
    have hproto : e.outputRef ≠ some "__proto__" := hproto
    rw [executionTask_eq he]
    simp [hmodule, hproto]
  · intro k hk
    by_contra hnot
    exact hblocked ⟨k, hk, hnot⟩

end Admissible

/-! ## Every set of successes -/

/-- A runtime on which the steps of a set succeed, unless they are refused or have no module. -/
def choosingRuntime (S : Nat → Bool) : ModuleRegistryExecutionRuntime where
  runtimeId := "choosing"
  registry := fun _ => some {
    manifest := { outputContract := some (.mk .string none none none none) }
    handler := fun turn _ _ => .value (if S turn then .str "" else .null) }
  capabilities := fun _ => true

section Choosing

variable {S : Nat → Bool} {plan : ExecutionPlanV1} {es : List ExecuteIR} {n : Nat}

theorem runModule_choosing (outputs : AionisObject) (step : ExecutionPlanStep) (module : String) :
    ∃ definition, (choosingRuntime S).registry module = some definition ∧
      (S n = true → runModule (choosingRuntime S) plan n outputs step module definition =
        .success (.str "") [] []) ∧
      (S n = false → ∃ message,
        runModule (choosingRuntime S) plan n outputs step module definition = .failed message) := by
  refine ⟨_, rfl, fun h => ?_, fun h => ?_⟩
  · simp [runModule, missingModuleCapabilities, acceptResult, normalizeOutcome,
      AionisValue.asObject, producedList, validateValueAgainstContract, requireThat,
      AionisValue.isString, contractErrors, h]
  · simp only [runModule, missingModuleCapabilities, acceptResult, normalizeOutcome,
      AionisValue.asObject, validateValueAgainstContract, requireThat, AionisValue.isString, h]
    exact ⟨_, rfl⟩

theorem runStep_choosing (outputs : AionisObject) (step : ExecutionPlanStep) :
    (∃ message, runStep (choosingRuntime S) plan n outputs step = .failed message ∧
      (unmetDependency step outputs ≠ none ∨ falsy step.module = true ∨ S n = false)) ∨
    (runStep (choosingRuntime S) plan n outputs step = .success (.str "") [] [] ∧ S n = true) := by
  unfold runStep
  cases hunmet : unmetDependency step outputs with
  | some dependency => exact Or.inl ⟨_, rfl, Or.inl nofun⟩
  | none =>
    dsimp only
    by_cases hmodule : falsy step.module = true
    · rw [if_pos hmodule]
      exact Or.inl ⟨_, rfl, Or.inr (Or.inl hmodule)⟩
    · rw [if_neg hmodule]
      obtain ⟨definition, hdefinition, hsucceeds, hfails⟩ :=
        @runModule_choosing S plan n outputs step (step.module.getD "")
      rw [hdefinition]
      cases hS : S n with
      | true => exact Or.inr ⟨hsucceeds hS, rfl⟩
      | false =>
        obtain ⟨message, hfailed⟩ := hfails hS
        exact Or.inl ⟨message, hfailed, Or.inr (Or.inr rfl)⟩

theorem stateAt_choosing (hle : n ≤ plan.executions.length) :
    ∃ s, stateAt (choosingRuntime S) plan n = some s := by
  induction n with
  | zero => exact ⟨_, rfl⟩
  | succ n ih =>
    obtain ⟨s, hs⟩ := ih (by omega)
    have hstep : plan.executions[n]? = some plan.executions[n] := List.getElem?_eq_getElem hle
    obtain ⟨message, hr, -⟩ | ⟨hr, -⟩ :=
      @runStep_choosing S plan n s.outputs plan.executions[n]
    · exact ⟨_, stateAt_succ.2 ⟨s, _, hs, hstep, by rw [advance, hr]⟩⟩
    · exact ⟨_, stateAt_succ.2 ⟨s, _, hs, hstep, by rw [advance, hr]⟩⟩

theorem length_choosing :
    (lastState (choosingRuntime S) plan).nodeResults.length = plan.executions.length := by
  obtain ⟨s, hs⟩ := @stateAt_choosing S plan plan.executions.length le_rfl
  have hend : stateAt (choosingRuntime S) plan (plan.executions.length + 1) = none := by
    refine Option.eq_none_iff_forall_ne_some.2 fun t ht => ?_
    have hle := stateAt_le_length ht
    omega
  rw [lastState_of_stateAt hs hend, stateAt_length hs]

theorem of_succeeded_choosing (h : Succeeded (lastState (choosingRuntime S) plan).nodeResults n) :
    S n = true := by
  obtain ⟨output, artifacts, evidence, hend⟩ := succeeded_iff.1 h
  obtain ⟨s, hs, hend⟩ := Option.bind_eq_some_iff.1 hend
  obtain ⟨step, hstep, hr⟩ := Option.map_eq_some_iff.1 hend
  obtain ⟨message, hfailed, -⟩ | ⟨-, hS⟩ := @runStep_choosing S plan n s.outputs step
  · rw [hfailed] at hr
    cases hr
  · exact hS

variable (hes : LaysOut plan es)
  (hS : Admissible inheritedName (executionTask es) fun i => S i = true)

include hes hS

theorem keepsPrototype_choosing : KeepsPrototype (choosingRuntime S) plan := by
  intro i step hstep hsucceeded
  obtain ⟨e, he, rfl⟩ := hes.execution hstep
  have hable := (hS i (of_succeeded_choosing hsucceeded)).1
  rw [executionTask_eq he] at hable
  simp only [Bool.and_eq_true, decide_eq_true_eq] at hable
  exact hable.2

/-- The steps that may succeed in one run are those that succeed in a run. -/
theorem succeeded_choosing (i : Nat) :
    Succeeded (lastState (choosingRuntime S) plan).nodeResults i ↔ S i = true := by
  refine ⟨of_succeeded_choosing, fun hi => ?_⟩
  induction i using Nat.strongRecOn with
  | ind i ih =>
    obtain ⟨hable, hneeds⟩ := hS i hi
    obtain ⟨e, he⟩ : ∃ e, es[i]? = some e := by
      cases he : es[i]? with
      | some e => exact ⟨e, rfl⟩
      | none =>
        simp [executionTask, he] at hable
    have hkeeps := keepsPrototype_choosing hes hS
    have hstep := hes.step he
    have hlt := (List.getElem?_eq_some_iff.1 hstep).1
    obtain ⟨s, hs⟩ := @stateAt_choosing S plan i (Nat.le_of_lt hlt)
    have hout := outputsAt_of_stateAt hes hkeeps hs
    have hunmet : unmetDependency (buildExecutionStep e i) s.outputs = none := by
      rw [← Option.not_isSome_iff_eq_none, unmet_iff_blocked he hout]
      rintro ⟨k, hk, hmissing⟩
      exact hmissing ((hneeds k hk).mono fun j hj hSj => ih j hj hSj)
    have hmodule : falsy (buildExecutionStep e i).module = false := by
      rw [executionTask_eq he] at hable
      simp only [Bool.and_eq_true, Bool.not_eq_true'] at hable
      exact hable.1
    obtain ⟨message, -, hbad⟩ | ⟨hr, -⟩ :=
      @runStep_choosing S plan i s.outputs (buildExecutionStep e i)
    · rw [hunmet, hmodule, hi] at hbad
      simp at hbad
    · exact succeeded_iff.2 ⟨_, _, _, by rw [stepEnd_eq hs hstep, hr]⟩

end Choosing

/-! ## The edges of a document -/

section Document

variable {ir : AionisDocIR} {diagnostics : List Diagnostic} {es : List ExecuteIR} {i j : Nat}
  {type : EdgeType}

theorem laysOut (ir : AionisDocIR) (graph : Option ExecutionGraph)
    (diagnostics : List Diagnostic) :
    LaysOut (buildExecutionPlanV1 ir graph diagnostics) ir.executions := rfl

theorem upstream_le {dependency : String} (h : upstream es j dependency = some i) : i ≤ j := by
  unfold upstream at h
  rw [Option.or_eq_some_iff] at h
  obtain h | ⟨-, h⟩ := h
  · exact Nat.le_of_lt_succ (producer_eq_some.1 h).1
  · exact Nat.le_of_lt_succ (List.mem_range.1 (List.mem_of_find?_eq_some h))

theorem edge_data_iff : Edge es i j .dataDependency ↔ ∃ e name, es[j]? = some e ∧
    e.inputName = some name ∧ producer es (j + 1) name = some i := by
  refine exists_congr fun e => ?_
  rw [sourcesAt, List.mem_append, Option.mem_toList, Option.map_eq_some_iff, List.mem_filterMap,
    or_iff_left (by rintro ⟨_, -, h⟩; obtain ⟨_, -, h⟩ := Option.map_eq_some_iff.1 h; cases h)]
  simp [Option.bind_eq_some_iff]

theorem edge_sequence_iff : Edge es i j .sequenceDependency ↔ ∃ e, es[j]? = some e ∧
    ∃ name ∈ e.dependencies, upstream es j name = some i := by
  refine exists_congr fun e => and_congr_right fun _ => ?_
  rw [sourcesAt, List.mem_append, Option.mem_toList, Option.map_eq_some_iff, List.mem_filterMap,
    or_iff_right (by rintro ⟨_, -, h⟩; cases h)]
  simp

theorem Edge.le (h : Edge es i j type) : i ≤ j := by
  cases type with
  | dataDependency =>
    obtain ⟨e, name, -, -, hk⟩ := edge_data_iff.1 h
    exact Nat.le_of_lt_succ (producer_eq_some.1 hk).1
  | sequenceDependency =>
    obtain ⟨e, -, dependency, -, hk⟩ := edge_sequence_iff.1 h
    exact upstream_le hk

theorem graph_edge_iff :
    (∃ graph, (buildExecutionPlanV1 ir (buildExecutionGraph ir).1 diagnostics).graph =
      some graph ∧ ⟨nodeId i, nodeId j, type⟩ ∈ graph.edges) ↔
      ir.doc ≠ none ∧ Edge ir.executions i j type := by
  constructor
  · rintro ⟨graph, hgraph, hedge⟩
    obtain ⟨i', j', type', hij, heq⟩ := (mem_edges hgraph _).1 hedge
    obtain ⟨hi, hj, rfl⟩ := ExecutionEdge.mk.inj heq
    obtain rfl := nodeId_injective hi
    obtain rfl := nodeId_injective hj
    refine ⟨fun hdoc => ?_, hij⟩
    have hnone := buildExecutionGraph_eq_none.2 hdoc
    rw [show (buildExecutionGraph ir).1 = some graph from hgraph] at hnone
    cases hnone
  · rintro ⟨hdoc, hij⟩
    obtain ⟨graph, hgraph⟩ := Option.ne_none_iff_exists'.1 (mt buildExecutionGraph_eq_none.1 hdoc)
    exact ⟨graph, hgraph, (mem_edges hgraph _).2 ⟨i, j, type, hij, rfl⟩⟩

theorem planEdge_iff :
    PlanEdge (buildExecutionPlanV1 ir (buildExecutionGraph ir).1 diagnostics) i j ↔
      ir.doc ≠ none ∧ ∃ type, Edge ir.executions i j type := by
  rw [← exists_and_left]
  constructor
  · rintro ⟨graph, hgraph, ⟨source, target, type⟩, hedge, rfl, rfl⟩
    exact ⟨type, graph_edge_iff.1 ⟨graph, hgraph, hedge⟩⟩
  · rintro ⟨type, h⟩
    obtain ⟨graph, hgraph, hedge⟩ := graph_edge_iff.2 h
    exact ⟨graph, hgraph, _, hedge, rfl, rfl⟩

theorem edge_of_awaited {k : String} (hk : k ∈ (executionTask es j).needs)
    (hearlier : ∃ i < j, (executionTask es i).gives = some k) :
    ∃ i, Edge es i j .sequenceDependency ∧ (executionTask es i).gives = some k := by
  cases he : es[j]? with
  | none =>
    rw [executionTask, he] at hk
    cases hk
  | some e =>
    rw [executionTask_eq he] at hk
    have hmem : k ∈ e.dependencies := (List.takeWhile_sublist _).subset hk
    cases hproducer : producer es (j + 1) k with
    | none =>
      obtain ⟨i, hi, hik⟩ := hearlier
      exact absurd ((executionTask_gives i).symm.trans hik)
        (producer_eq_none.1 hproducer i (by omega))
    | some i =>
      refine ⟨i, edge_sequence_iff.2 ⟨e, he, k, hmem, ?_⟩, ?_⟩
      · rw [upstream, hproducer]
        rfl
      · exact (executionTask_gives i).trans (producer_eq_some.1 hproducer).2.1

theorem not_blocked_of_length_le {S : Nat → Prop} (h : es.length ≤ j) :
    ¬ Blocked inheritedName (executionTask es) S j := by
  rintro ⟨k, hk, -⟩
  rw [executionTask, List.getElem?_eq_none h] at hk
  cases hk

end Document

theorem exists_planned (source : String) : ∃ ir plan, (compileAionisDoc source).ir = ir ∧
    (compileAionisDoc source).plan = plan ∧
    (∀ i j, PlanEdge plan i j ↔ ir.doc ≠ none ∧ ∃ type, Edge ir.executions i j type) ∧
    LaysOut plan ir.executions :=
  ⟨_, _, rfl, rfl, fun _ _ => planEdge_iff, laysOut _ _ _⟩

/-- A step is refused just where a predecessor in the graph did not succeed, in every run that
stores no output under `__proto__`, just if the dependencies of the document match its edges. -/
theorem refused_iff_predecessor_failed (source : String) :
    (∀ runtime, KeepsPrototype runtime (compileAionisDoc source).plan →
      BlocksOnEdges runtime (compileAionisDoc source).plan) ↔
    NamedTask.Matches inheritedName (executionTask (compileAionisDoc source).ir.executions)
      (PlanEdge (compileAionisDoc source).plan) := by
  obtain ⟨ir, plan, hir, hplan, hedge, hes⟩ := exists_planned source
  rw [hir, hplan]
  clear hir hplan
  have hle : ∀ i j, PlanEdge plan i j → i ≤ j := fun i j h =>
    have ⟨_, htype⟩ := ((hedge i j).1 h).2
    htype.le
  constructor
  · intro h
    refine (NamedTask.matches_iff hle ?_).1 fun S hS j => ?_
    · intro j k hk hearlier
      by_cases hdoc : ir.doc = none
      · exact Or.inr fun i hij => ((hedge i j).1 hij).1 hdoc
      · obtain ⟨i, hij, hik⟩ := edge_of_awaited hk hearlier
        exact Or.inl ⟨i, (hedge i j).2 ⟨hdoc, _, hij⟩, hik⟩
    · classical
      have hchoice : Admissible inheritedName (executionTask ir.executions)
          fun i => decide (S i) = true := by simpa using hS
      have hkeeps := keepsPrototype_choosing hes hchoice
      have hsucceeded := succeeded_choosing hes hchoice
      have hsets : Succeeded (lastState (choosingRuntime fun i => decide (S i)) plan).nodeResults =
          S := by
        funext i
        rw [hsucceeded i]
        exact decide_eq_true_eq
      by_cases hj : j < plan.executions.length
      · have hlength := @length_choosing (fun i => decide (S i)) plan
        obtain ⟨s, hs⟩ := @stateAt_choosing (fun i => decide (S i)) plan j (by omega)
        obtain ⟨e, he, -⟩ := hes.execution (List.getElem?_eq_getElem hj)
        have hblocks := h _ hkeeps j hj (by omega)
        rw [refusedAsBlocked_iff_blocked hes hkeeps hs he, hsets] at hblocks
        exact hblocks
      · rw [hes.length] at hj
        refine iff_of_false (not_blocked_of_length_le (by omega)) ?_
        rintro ⟨i, hij, -⟩
        obtain ⟨-, type, e, he, -⟩ := (hedge i j).1 hij
        have hlt := (List.getElem?_eq_some_iff.1 he).1
        omega
  · intro h runtime hkeeps j hj hreached
    obtain ⟨s, hs⟩ := exists_stateAt hreached
    obtain ⟨e, he, -⟩ := hes.execution (List.getElem?_eq_getElem hj)
    rw [refusedAsBlocked_iff_blocked hes hkeeps hs he]
    exact h.blocked_iff (admissible_succeeded hes hkeeps) hle j

/-- The second execution reads the output of the first without depending on it. -/
def undeclaredReader : String :=
  "@doc \x7bid:'d',version:'1'\x7d\n@execute \x7bmodule:'a',output_ref:'out.a'\x7d\n" ++
  "@execute \x7bmodule:'b',input_ref:'out.a'\x7d"

/-- The reader runs although what it reads was never made. -/
theorem reader_runs_on_missing_output :
    (∀ d ∈ (compileAionisDoc undeclaredReader).diagnostics, d.code ≠ "UNKNOWN_DEPENDENCY") ∧
      (compileAionisDoc undeclaredReader).plan.graph.map (·.edges) =
        some [⟨nodeId 0, nodeId 1, .dataDependency⟩] ∧
      (lastState (choosingRuntime fun i => i == 1)
          (compileAionisDoc undeclaredReader).plan).nodeResults.map
        (fun r => (r.status, r.error.isSome)) = [(.failed, true), (.success, false)] ∧
      ¬ ∀ runtime, BlocksOnEdges runtime (compileAionisDoc undeclaredReader).plan := by
  obtain ⟨hknown, hgraph, hresults, hlength⟩ :
      (∀ d ∈ (compileAionisDoc undeclaredReader).diagnostics, d.code ≠ "UNKNOWN_DEPENDENCY") ∧
      (compileAionisDoc undeclaredReader).plan.graph.map (·.edges) =
        some [⟨nodeId 0, nodeId 1, .dataDependency⟩] ∧
      (lastState (choosingRuntime fun i => i == 1)
          (compileAionisDoc undeclaredReader).plan).nodeResults.map
        (fun r => (r.status, r.error.isSome)) = [(.failed, true), (.success, false)] ∧
      (compileAionisDoc undeclaredReader).plan.executions.length = 2 := by decide +kernel
  refine ⟨hknown, hgraph, hresults, fun h => ?_⟩
  obtain ⟨graph, hsome, hedges⟩ := Option.map_eq_some_iff.1 hgraph
  have hedge : PlanEdge (compileAionisDoc undeclaredReader).plan 0 1 :=
    ⟨graph, hsome, _, by rw [hedges]; exact List.mem_singleton_self _, rfl, rfl⟩
  have hcount := congrArg List.length hresults
  rw [List.length_map] at hcount
  have hblocks := (h (choosingRuntime fun i => i == 1) 1 (by omega)
    (by rw [hcount]; decide)).2 ⟨0, hedge, fun hsucceeded => ?_⟩
  · obtain ⟨step, dependency, -, hmessage⟩ := hblocks
    obtain ⟨result, hresult, herror⟩ := Option.bind_eq_some_iff.1 hmessage
    have hat := congrArg (·[1]?) hresults
    rw [List.getElem?_map, hresult] at hat
    have hnone := (Prod.mk.inj (Option.some.inj hat)).2
    rw [herror] at hnone
    cases hnone
  · obtain ⟨result, hresult, hstatus⟩ := Option.map_eq_some_iff.1 hsucceeded
    have hat := congrArg (·[0]?) hresults
    rw [List.getElem?_map, hresult] at hat
    have hfailed := (Prod.mk.inj (Option.some.inj hat)).1
    rw [hstatus] at hfailed
    cases hfailed

end AionisCore.AionisDoc
