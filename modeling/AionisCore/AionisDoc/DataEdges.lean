import AionisCore.AionisDoc.Blocking

/-!
# Reads and data edges

Which output a step takes its input from depends on the names of the outputs alone. In a run in
which every step succeeds, the names are those of the earlier executions, so that the reads of
such a run are known from the document, as its edges are.
-/

namespace AionisCore.AionisDoc

open Lib NamedTask

/-! ## What a step reads -/

/-- The name of the output in which a step finds its input, if it takes it from one. -/
def inputKey (has : String → Bool) (step : ExecutionPlanStep) : Option String :=
  match step.input with
  | some _ => none
  | none =>
    if falsy step.inputRef then none
    else
      let ref := step.inputRef.getD ""
      if ref = "ctx" ∨ "ctx.".toList.isPrefixOf ref.toList = true then none
      else if has ref then some ref
      else match splitDots ref with
        | rootRef :: name :: _ :: _ =>
          if (rootRef = "run" ∨ rootRef = "out") ∧ has s!"{rootRef}.{name}" then
            some s!"{rootRef}.{name}"
          else none
        | _ => none

/-- The place of the input inside the output of that name. -/
def inputPath (key ref : String) : List String := if key = ref then [] else (splitDots ref).drop 2

section InputKey

variable {plan : ExecutionPlanV1} {step : ExecutionPlanStep} {outputs : AionisObject} {key : String}

theorem outputValue_of_has {ref : String} (h : outputs.has ref = true) :
    outputValue outputs ref = (outputs.get ref).getD .null := by
  obtain ⟨v, hv⟩ := Option.isSome_iff_exists.1 h
  unfold outputValue
  rw [hv]
  rfl

theorem outputValue_of_nested {ref rootRef name segment : String} {rest : List String}
    (href : ¬ outputs.has ref = true) (hsplit : splitDots ref = rootRef :: name :: segment :: rest)
    (hkey : (rootRef = "run" ∨ rootRef = "out") ∧ outputs.has s!"{rootRef}.{name}") :
    outputValue outputs ref =
      (Runtime.getPathValue (outputs.get s!"{rootRef}.{name}") (segment :: rest)).getD .null := by
  have hnone : outputs.get ref = none := by
    rw [← Option.not_isSome_iff_eq_none]
    exact href
  unfold outputValue
  rw [hnone, hsplit]
  dsimp only
  rw [if_pos hkey]

/-- The input of a step is inside the output of that name. -/
theorem resolveExecutionInput_of_inputKey (hkey : inputKey outputs.has step = some key) :
    resolveExecutionInput plan outputs step =
      (Runtime.getPathValue (outputs.get key)
        (inputPath key (step.inputRef.getD ""))).getD .null := by
  unfold inputKey at hkey
  split at hkey
  · cases hkey
  · next hinput =>
    unfold resolveExecutionInput inputPath
    rw [hinput]
    dsimp only at hkey ⊢
    split at hkey
    · cases hkey
    · next hfalsy =>
      rw [if_neg hfalsy]
      split at hkey
      · cases hkey
      · next hctx =>
        rw [if_neg fun h => hctx (Or.inl h), if_neg fun h => hctx (Or.inr h)]
        split at hkey
        · next hhas =>
          obtain rfl := Option.some.inj hkey
          rw [if_pos rfl, outputValue_of_has hhas]
          rfl
        · next hhas =>
          split at hkey
          · next rootRef name segment rest hsplit =>
            split at hkey
            · next hnested =>
              obtain rfl := Option.some.inj hkey
              have hne : s!"{rootRef}.{name}" ≠ step.inputRef.getD "" := by
                intro heq
                rw [heq] at hnested
                exact hhas hnested.2
              rw [outputValue_of_nested hhas hsplit hnested, if_neg hne, hsplit]
              rfl
            · cases hkey
          · cases hkey

end InputKey

/-! ## Runs in which every step succeeds -/

def AllSucceeded (runtime : ModuleRegistryExecutionRuntime) (plan : ExecutionPlanV1) : Prop :=
  ∀ i < plan.executions.length, Succeeded (lastState runtime plan).nodeResults i

/-- The step at `i` is the latest before the one at `j` that stores its output under the name. -/
def LatestOutput (plan : ExecutionPlanV1) (i j : Nat) (key : String) : Prop :=
  i < j ∧ plan.executions[i]?.bind (·.outputRef) = some key ∧
    ∀ k, i < k → k < j → plan.executions[k]?.bind (·.outputRef) ≠ some key

/-- In the run, the step at `j` takes its input from the output of the step at `i`. -/
def ReadsOutput (runtime : ModuleRegistryExecutionRuntime) (plan : ExecutionPlanV1) (i j : Nat) :
    Prop :=
  ∃ s step key, stateAt runtime plan j = some s ∧ plan.executions[j]? = some step ∧
    inputKey s.outputs.has step = some key ∧ LatestOutput plan i j key

def DataEdge (plan : ExecutionPlanV1) (i j : Nat) : Prop :=
  ∃ graph, plan.graph = some graph ∧ ⟨nodeId i, nodeId j, .dataDependency⟩ ∈ graph.edges

/-- Edges go forward, and a step reads an output only along a data edge. -/
def EdgesCoverReads (plan : ExecutionPlanV1) : Prop :=
  (∀ i j, PlanEdge plan i j → i < j) ∧
    ∀ runtime, KeepsPrototype runtime plan → AllSucceeded runtime plan →
      ∀ i j, ReadsOutput runtime plan i j → DataEdge plan i j

/-- The names that are there for the execution at `j` when all before it succeeded. -/
def namedBefore (es : List ExecuteIR) (j : Nat) (k : String) : Bool :=
  inheritedName k || (producer es j k).isSome

/-- The execution whose output the one at `j` reads when all succeed. -/
def readSource (es : List ExecuteIR) (j : Nat) (e : ExecuteIR) : Option Nat :=
  (inputKey (namedBefore es j) (buildExecutionStep e j)).bind (producer es j)

/-- The execution at `j` names itself. -/
def NamesItself (es : List ExecuteIR) (j : Nat) (e : ExecuteIR) : Prop :=
  (∃ name, e.outputName = some name ∧ (e.inputName = some name ∨ name ∈ e.dependencies)) ∨
    (nodeId j ∈ e.dependencies ∧ producer es (j + 1) (nodeId j) = none)

/-- Each execution has a module and waits only for names of earlier outputs. -/
def MayAllSucceed (es : List ExecuteIR) : Prop :=
  Admissible inheritedName (executionTask es) fun i => i < es.length

/-- No execution names itself, and where all can succeed, what is read is the output that the
reference names in full. -/
structure NamesOutputs (ir : AionisDocIR) : Prop where
  forward : ir.doc ≠ none → ∀ j e, ir.executions[j]? = some e → ¬ NamesItself ir.executions j e
  inFull : MayAllSucceed ir.executions → ∀ j e i, ir.executions[j]? = some e →
    readSource ir.executions j e = some i →
      ir.doc ≠ none ∧ producer ir.executions j (e.inputRef.getD "") = some i

section Forward

variable {es : List ExecuteIR} {j : Nat} {e : ExecuteIR} {name : String}

theorem producer_self (he : es[j]? = some e) :
    producer es (j + 1) name = some j ↔ e.outputName = some name := by
  rw [producer_eq_some, he, Option.bind_some]
  exact ⟨fun h => h.2.1, fun h => ⟨Nat.lt_succ_self j, h, fun k hk hkj => by omega⟩⟩

theorem find_nodeId_self :
    ((List.range (j + 1)).find? fun i => nodeId i = name) = some j ↔ nodeId j = name := by
  constructor
  · intro h
    simpa using List.find?_some h
  · rintro rfl
    have hnone : (List.range j).find? (fun i => decide (nodeId i = nodeId j)) = none := by
      rw [List.find?_eq_none]
      intro i hi heq
      rw [List.mem_range] at hi
      have := nodeId_injective (of_decide_eq_true heq)
      omega
    rw [find_range_succ, hnone]
    simp

theorem upstream_self (he : es[j]? = some e) : upstream es j name = some j ↔
    e.outputName = some name ∨ (producer es (j + 1) name = none ∧ nodeId j = name) := by
  unfold upstream
  rw [Option.or_eq_some_iff, producer_self he, find_nodeId_self]

/-- An execution has an edge from itself just if it names itself. -/
theorem edge_self_iff (he : es[j]? = some e) : (∃ type, Edge es j j type) ↔ NamesItself es j e := by
  unfold NamesItself
  constructor
  · rintro ⟨_ | _, h⟩
    · obtain ⟨e', name, he', hname, hk⟩ := edge_data_iff.1 h
      obtain rfl := Option.some.inj (he.symm.trans he')
      exact Or.inl ⟨name, (producer_self he).1 hk, Or.inl hname⟩
    · obtain ⟨e', he', name, hmem, hk⟩ := edge_sequence_iff.1 h
      obtain rfl := Option.some.inj (he.symm.trans he')
      obtain hname | ⟨hnone, rfl⟩ := (upstream_self he).1 hk
      · exact Or.inl ⟨name, hname, Or.inr hmem⟩
      · exact Or.inr ⟨hmem, hnone⟩
  · have hdependency : ∀ name ∈ e.dependencies, upstream es j name = some j →
        ∃ type, Edge es j j type := fun name hmem hname =>
      ⟨_, edge_sequence_iff.2 ⟨e, he, name, hmem, hname⟩⟩
    rintro (⟨name, hname, hinput | hmem⟩ | ⟨hmem, hnone⟩)
    · exact ⟨_, edge_data_iff.2 ⟨e, name, he, hinput, (producer_self he).2 hname⟩⟩
    · exact hdependency name hmem ((upstream_self he).2 (Or.inl hname))
    · exact hdependency _ hmem ((upstream_self he).2 (Or.inr ⟨hnone, rfl⟩))

end Forward

section Reads

variable {runtime : ModuleRegistryExecutionRuntime} {plan : ExecutionPlanV1} {es : List ExecuteIR}
  {i j : Nat} {e : ExecuteIR} {s : ExecutionState}

theorem inputKey_ne_empty {has : String → Bool} {step : ExecutionPlanStep} {key : String}
    (h : inputKey has step = some key) : key ≠ "" := by
  unfold inputKey at h
  split at h
  · cases h
  · split at h
    · cases h
    · next hfalsy =>
      dsimp only at h
      split at h
      · cases h
      · split at h
        · obtain rfl := Option.some.inj h
          intro hempty
          rw [falsy, hempty] at hfalsy
          exact hfalsy rfl
        · split at h
          · next rootRef name segment rest hsplit =>
            split at h
            · obtain rfl := Option.some.inj h
              intro hempty
              have hlist := congrArg String.toList hempty
              simp [toString, String.toList_append] at hlist
            · cases h
          · cases h

theorem inputKey_refines {has : String → Bool} {key : String}
    (h : inputKey has (buildExecutionStep e j) = some key) :
    e.inputName = some (e.inputRef.getD "") := by
  unfold inputKey at h
  split at h
  · cases h
  · split at h
    · cases h
    · next hfalsy =>
      have href : (buildExecutionStep e j).inputRef = e.inputRef := rfl
      rw [href] at hfalsy
      cases hname : e.inputRef.filter (· ≠ "") with
      | none => exact absurd ((falsy_iff _).2 hname) hfalsy
      | some name =>
        rw [ExecuteIR.inputName, hname, (getD_of_filter hname).2.1]

/-- The outputs before a step of a run in which every step succeeds. -/
theorem has_eq_namedBefore (hes : LaysOut plan es) (hkeeps : KeepsPrototype runtime plan)
    (hall : AllSucceeded runtime plan) (hs : stateAt runtime plan j = some s)
    (hj : j < es.length) : s.outputs.has = namedBefore es j := by
  funext k
  rw [Bool.eq_iff_iff, (outputsAt_of_stateAt hes hkeeps hs).has, namedBefore, Bool.or_eq_true,
    Option.isSome_iff_exists]
  refine or_congr_right ?_
  constructor
  · rintro ⟨i, hi, -, hik⟩
    cases hproducer : producer es j k with
    | none =>
      exact absurd ((executionTask_gives i).symm.trans hik) (producer_eq_none.1 hproducer i hi)
    | some i => exact ⟨i, rfl⟩
  · rintro ⟨i, hi⟩
    obtain ⟨hlt, hik, -⟩ := producer_eq_some.1 hi
    exact ⟨i, hlt, hall i (by rw [hes.length]; omega), (executionTask_gives i).trans hik⟩

theorem latestOutput_iff (hes : LaysOut plan es) {key : String} (hkey : key ≠ "") :
    LatestOutput plan i j key ↔ producer es j key = some i := by
  have hname : ∀ k : Nat, plan.executions[k]?.bind ExecutionPlanStep.outputRef = some key ↔
      es[k]?.bind ExecuteIR.outputName = some key := by
    intro k
    rw [hes, List.getElem?_mapIdx]
    cases es[k]? with
    | none => rfl
    | some e =>
      show e.outputRef = some key ↔ e.outputRef.filter (· ≠ "") = some key
      rw [Option.filter_eq_some_iff]
      exact ⟨fun h => ⟨h, by simpa using hkey⟩, fun h => h.1⟩
  unfold LatestOutput
  rw [producer_eq_some, hname]
  refine and_congr_right fun _ => and_congr_right fun _ => forall_congr' fun k => ?_
  exact imp_congr_right fun _ => imp_congr_right fun _ => not_congr (hname k)

/-- What a step reads in such a run is known from the document. -/
theorem readsOutput_iff (hes : LaysOut plan es) (hkeeps : KeepsPrototype runtime plan)
    (hall : AllSucceeded runtime plan) (hs : stateAt runtime plan j = some s)
    (he : es[j]? = some e) :
    ReadsOutput runtime plan i j ↔ readSource es j e = some i := by
  have hhas := has_eq_namedBefore hes hkeeps hall hs (List.getElem?_eq_some_iff.1 he).1
  have hstep := hes.step he
  unfold readSource
  rw [Option.bind_eq_some_iff]
  constructor
  · rintro ⟨s', step, key, hs', hstep', hkey, hlatest⟩
    obtain rfl := Option.some.inj (hs.symm.trans hs')
    obtain rfl := Option.some.inj (hstep.symm.trans hstep')
    rw [hhas] at hkey
    exact ⟨key, hkey, (latestOutput_iff hes (inputKey_ne_empty hkey)).1 hlatest⟩
  · rintro ⟨key, hkey, hproducer⟩
    refine ⟨s, _, key, hs, hstep, by rw [hhas]; exact hkey, ?_⟩
    exact (latestOutput_iff hes (inputKey_ne_empty hkey)).2 hproducer

end Reads

theorem dataEdge_iff {ir : AionisDocIR} {diagnostics : List Diagnostic} {i j : Nat} :
    DataEdge (buildExecutionPlanV1 ir (buildExecutionGraph ir).1 diagnostics) i j ↔
      ir.doc ≠ none ∧ ∃ e name, ir.executions[j]? = some e ∧ e.inputName = some name ∧
        producer ir.executions (j + 1) name = some i := by
  rw [← edge_data_iff]
  exact graph_edge_iff

/-- Edges go forward and cover what is read in every run that succeeds throughout, and stores no
output under `__proto__`, just if the executions name outputs in full and not themselves. -/
theorem edges_cover_reads (source : String) :
    EdgesCoverReads (compileAionisDoc source).plan ↔ NamesOutputs (compileAionisDoc source).ir := by
  obtain ⟨ir, plan, hir, hplan, hedge, hes⟩ := exists_planned source
  have hdata : ∀ i j, DataEdge plan i j ↔ ir.doc ≠ none ∧ ∃ e name, ir.executions[j]? = some e ∧
      e.inputName = some name ∧ producer ir.executions (j + 1) name = some i := by
    rw [← hplan, ← hir]
    exact fun i j => dataEdge_iff
  rw [hir, hplan]
  clear hir hplan
  constructor
  · rintro ⟨hforward, hreads⟩
    refine ⟨fun hdoc j e he hself => ?_, fun hmay j e i he hsource => ?_⟩
    · have hlt := hforward j j ((hedge j j).2 ⟨hdoc, (edge_self_iff he).2 hself⟩)
      exact absurd hlt (Nat.lt_irrefl j)
    · have hchoice : Admissible inheritedName (executionTask ir.executions)
          fun i => decide (i < ir.executions.length) = true := by simpa [MayAllSucceed] using hmay
      have hkeeps := keepsPrototype_choosing hes hchoice
      have hall : AllSucceeded (choosingRuntime fun i => decide (i < ir.executions.length))
          plan := by
        intro i hi
        rw [hes.length] at hi
        exact (succeeded_choosing hes hchoice i).2 (decide_eq_true hi)
      have hj : j < ir.executions.length := (List.getElem?_eq_some_iff.1 he).1
      obtain ⟨s, hs⟩ := @stateAt_choosing (fun i => decide (i < ir.executions.length)) plan j
        (by rw [hes.length]; omega)
      have hreadsOutput := (readsOutput_iff hes hkeeps hall hs he).2 hsource
      obtain ⟨hdoc, e', name, he', hname, hproducer⟩ :=
        (hdata i j).1 (hreads _ hkeeps hall i j hreadsOutput)
      obtain rfl := Option.some.inj (he.symm.trans he')
      refine ⟨hdoc, ?_⟩
      rw [(getD_of_filter hname).2.1]
      obtain ⟨-, -, -, -, -, -, hlt, -⟩ := hreadsOutput
      rw [producer] at hproducer
      split at hproducer
      · have heq := Option.some.inj hproducer
        omega
      · exact hproducer
  · intro h
    refine ⟨fun i j hij => ?_, fun runtime hkeeps hall i j hread => ?_⟩
    · obtain ⟨hdoc, type, htype⟩ := (hedge i j).1 hij
      refine Nat.lt_of_le_of_ne htype.le fun heq => ?_
      subst heq
      obtain ⟨e, he, hsource⟩ := htype
      exact h.forward hdoc i e he ((edge_self_iff he).1 ⟨type, e, he, hsource⟩)
    · obtain ⟨s, step, key, hs, hstep, hkey, hlatest⟩ := hread
      obtain ⟨e, he, rfl⟩ := hes.execution hstep
      have hmay : MayAllSucceed ir.executions := by
        have hadmissible := admissible_succeeded hes hkeeps
        have hsets : Succeeded (lastState runtime plan).nodeResults =
            fun i => i < ir.executions.length := by
          funext i
          rw [← hes.length]
          refine propext ⟨fun hi => ?_, hall i⟩
          obtain ⟨_, _, _, hend⟩ := succeeded_iff.1 hi
          obtain ⟨_, -, hend⟩ := Option.bind_eq_some_iff.1 hend
          obtain ⟨_, hstep, -⟩ := Option.map_eq_some_iff.1 hend
          exact (List.getElem?_eq_some_iff.1 hstep).1
        rw [hsets] at hadmissible
        exact hadmissible
      have hsource := (readsOutput_iff (i := i) hes hkeeps hall hs he).1
        ⟨s, _, key, hs, hstep, hkey, hlatest⟩
      obtain ⟨hdoc, hproducer⟩ := h.inFull hmay j e i he hsource
      have hname := inputKey_refines hkey
      refine (hdata i j).2 ⟨hdoc, e, _, he, hname, ?_⟩
      have hself : e.outputName ≠ some (e.inputRef.getD "") := fun hout =>
        h.forward hdoc j e he (Or.inl ⟨_, hout, Or.inl hname⟩)
      rw [producer, he, Option.bind_some, if_neg hself]
      exact hproducer

/-- The execution takes its input from the output of its own name. -/
def selfReader : String :=
  "@doc \x7bid:'d',version:'1'\x7d\n" ++
  "@execute \x7bmodule:'a',input_ref:'out.a',output_ref:'out.a'\x7d"

/-- The node is in the table of outputs before its own reference is looked up. -/
theorem self_reader_has_edge_from_itself :
    (compileAionisDoc selfReader).diagnostics = [] ∧
      (compileAionisDoc selfReader).plan.graph.map (·.edges) =
        some [⟨nodeId 0, nodeId 0, .dataDependency⟩] ∧
      ¬ EdgesCoverReads (compileAionisDoc selfReader).plan := by
  obtain ⟨hclean, hgraph⟩ : (compileAionisDoc selfReader).diagnostics = [] ∧
      (compileAionisDoc selfReader).plan.graph.map (·.edges) =
        some [⟨nodeId 0, nodeId 0, .dataDependency⟩] := by decide +kernel
  refine ⟨hclean, hgraph, fun h => ?_⟩
  obtain ⟨graph, hsome, hedges⟩ := Option.map_eq_some_iff.1 hgraph
  have hlt := h.1 0 0 ⟨graph, hsome, _, by rw [hedges]; exact List.mem_singleton_self _, rfl, rfl⟩
  exact absurd hlt (Nat.lt_irrefl 0)

end AionisCore.AionisDoc
