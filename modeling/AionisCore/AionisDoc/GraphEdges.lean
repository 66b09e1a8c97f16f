import AionisCore.AionisDoc.Compile

/-!
# The edges of the execution graph

`producer es n name` is the latest of the first `n` executions that has an output of the name.
While the graph is built, the two name tables hold exactly the producers and the identifiers of
the executions met so far, the current one among them; `edgesAt` is what one execution adds.
-/

namespace AionisCore.AionisDoc

open Lib

/-- The name of an output, an empty one being none. -/
def ExecuteIR.outputName (e : ExecuteIR) : Option String := e.outputRef.filter (· ≠ "")

def ExecuteIR.inputName (e : ExecuteIR) : Option String := e.inputRef.filter (· ≠ "")

def ExecuteIR.dependencies (e : ExecuteIR) : List String := e.dependsOn.getD []

theorem falsy_iff (s : Option String) : falsy s = true ↔ s.filter (· ≠ "") = none := by
  cases s with
  | none => simp [falsy]
  | some s => simp [falsy]

theorem getD_of_filter {s : Option String} {name : String} (h : s.filter (· ≠ "") = some name) :
    falsy s = false ∧ s.getD "" = name ∧ s = some name ∧ name ≠ "" := by
  rw [Option.filter_eq_some_iff] at h
  obtain ⟨rfl, hne⟩ := h
  have hne : name ≠ "" := by simpa using hne
  exact ⟨by simp [falsy, hne], rfl, rfl, hne⟩

theorem nodeId_injective {i j : Nat} (h : nodeId i = nodeId j) : i = j := by
  have hlist := congrArg String.toList h
  simp only [nodeId, String.toList_append] at hlist
  have hrepr : (toString (i + 1)).toList = (toString (j + 1)).toList := by
    simpa using hlist
  have hvalue := congrArg (fun cs => Nat.ofDigitChars 10 cs 0) hrepr
  simp only [Nat.toString_eq_repr, Nat.toList_repr, Nat.ofDigitChars_ten_toDigits] at hvalue
  omega

theorem nodeId_ne_empty (i : Nat) : nodeId i ≠ "" := by
  intro h
  have hlist := congrArg String.toList h
  simp [nodeId, String.toList_append] at hlist

/-! ## Producers -/

/-- The latest of the first `n` executions with an output of the name. -/
def producer (es : List ExecuteIR) : Nat → String → Option Nat
  | 0, _ => none
  | n + 1, name =>
    if es[n]?.bind ExecuteIR.outputName = some name then some n else producer es n name

section Producer

variable {es : List ExecuteIR} {n i : Nat} {name : String}

theorem producer_eq_some : producer es n name = some i ↔
    i < n ∧ es[i]?.bind ExecuteIR.outputName = some name ∧
      ∀ k, i < k → k < n → es[k]?.bind ExecuteIR.outputName ≠ some name := by
  induction n with
  | zero => simp [producer]
  | succ n ih =>
    rw [producer]
    split
    · next h =>
      rw [Option.some.injEq]
      constructor
      · rintro rfl
        exact ⟨Nat.lt_succ_self n, h, fun k hk hkn => by omega⟩
      · rintro ⟨hi, -, hlast⟩
        by_contra hne
        exact hlast n (by omega) (Nat.lt_succ_self n) h
    · next h =>
      rw [ih]
      constructor
      · rintro ⟨hi, hname, hlast⟩
        refine ⟨by omega, hname, fun k hk hkn heq => ?_⟩
        by_cases hkeq : k = n
        · exact h (hkeq ▸ heq)
        · exact hlast k hk (by omega) heq
      · rintro ⟨hi, hname, hlast⟩
        have hin : i ≠ n := fun heq => h (heq ▸ hname)
        exact ⟨by omega, hname, fun k hk hkn => hlast k hk (by omega)⟩

theorem producer_eq_none : producer es n name = none ↔
    ∀ i, i < n → es[i]?.bind ExecuteIR.outputName ≠ some name := by
  induction n with
  | zero => simp [producer]
  | succ n ih =>
    rw [producer]
    split
    · next h =>
      refine iff_of_false nofun fun hall => hall n (Nat.lt_succ_self n) h
    · next h =>
      rw [ih]
      constructor
      · intro hall i hi heq
        by_cases hin : i = n
        · exact h (hin ▸ heq)
        · exact hall i (by omega) heq
      · exact fun hall i hi => hall i (by omega)

end Producer

/-! ## Edges -/

/-- The execution that a dependency of the one at `j` names. -/
def upstream (es : List ExecuteIR) (j : Nat) (dependency : String) : Option Nat :=
  (producer es (j + 1) dependency).or
    ((List.range (j + 1)).find? fun i => nodeId i = dependency)

/-- The edges into the execution at `j`, by the places they come from. -/
def sourcesAt (es : List ExecuteIR) (j : Nat) (e : ExecuteIR) : List (Nat × EdgeType) :=
  ((e.inputName.bind (producer es (j + 1))).map fun i => (i, EdgeType.dataDependency)).toList ++
    e.dependencies.filterMap fun dependency =>
      (upstream es j dependency).map fun i => (i, EdgeType.sequenceDependency)

def edgesAt (es : List ExecuteIR) (j : Nat) : List ExecutionEdge :=
  match es[j]? with
  | some e => (sourcesAt es j e).map fun p => ⟨nodeId p.1, nodeId j, p.2⟩
  | none => []

/-- An edge of the graph between the executions at two places. -/
def Edge (es : List ExecuteIR) (i j : Nat) (type : EdgeType) : Prop :=
  ∃ e, es[j]? = some e ∧ (i, type) ∈ sourcesAt es j e

/-- What the tables hold after the first `n` executions. -/
structure Tables (ir : AionisDocIR) (n : Nat) (s : GraphState) : Prop where
  byOutput : ∀ name, OrderedMap.getEntry name s.nodeByOutputRef =
    (producer ir.executions n name).map nodeId
  byId : ∀ name, OrderedMap.getEntry name s.nodeById =
    ((List.range n).find? fun i => nodeId i = name).map nodeId
  edges : s.edges = (List.range n).flatMap (edgesAt ir.executions)
  diagnostics : ∀ j < n, ∀ e, ir.executions[j]? = some e → ∀ dependency ∈ e.dependencies,
    upstream ir.executions j dependency = none →
      GraphState.unknownDependency ir e dependency ∈ s.diagnostics
  known : ∀ d ∈ s.diagnostics, d.code = "UNKNOWN_DEPENDENCY"

section Build

variable {ir : AionisDocIR} {s : GraphState} {n : Nat} {e : ExecuteIR}

theorem producer_register (h : Tables ir n s) (he : ir.executions[n]? = some e) (name : String) :
    OrderedMap.getEntry name (s.register e n).nodeByOutputRef =
      (producer ir.executions (n + 1) name).map nodeId := by
  rw [producer, he, Option.bind_some]
  unfold GraphState.register ExecuteIR.outputName
  dsimp only
  cases hname : e.outputRef.filter (· ≠ "") with
  | none =>
    rw [if_pos ((falsy_iff _).2 hname), if_neg nofun]
    exact h.byOutput name
  | some output =>
    obtain ⟨hfalsy, houtput, -⟩ := getD_of_filter hname
    rw [hfalsy, if_neg Bool.false_ne_true, houtput, OrderedMap.getEntry_setEntry, h.byOutput]
    by_cases heq : name = output
    · rw [if_pos heq, if_pos (congrArg some heq.symm)]
      rfl
    · rw [if_neg heq, if_neg fun h => heq (Option.some.inj h).symm]

theorem find_range_succ (p : Nat → Bool) (n : Nat) :
    (List.range (n + 1)).find? p =
      ((List.range n).find? p).or (if p n then some n else none) := by
  rw [List.range_succ, List.find?_append, List.find?_singleton]

theorem byId_register (h : Tables ir n s) (name : String) :
    OrderedMap.getEntry name (s.register e n).nodeById =
      ((List.range (n + 1)).find? fun i => nodeId i = name).map nodeId := by
  unfold GraphState.register
  dsimp only
  rw [OrderedMap.getEntry_setEntry, h.byId, find_range_succ]
  by_cases heq : name = nodeId n
  · have hnone : (List.range n).find? (fun i => decide (nodeId i = name)) = none := by
      rw [List.find?_eq_none]
      intro i hi
      have hne : nodeId i ≠ name := by
        rw [heq]
        intro hid
        have := nodeId_injective hid
        rw [List.mem_range] at hi
        omega
      simp [hne]
    rw [if_pos heq, hnone, Option.none_or, if_pos (by simp [heq])]
    rfl
  · have hne : ¬ nodeId n = name := fun h => heq h.symm
    rw [if_neg heq, if_neg (by simp [hne]), Option.or_none]

theorem upstreamOf_register (h : Tables ir n s) (he : ir.executions[n]? = some e)
    (dependency : String) :
    (s.register e n).upstreamOf dependency = (upstream ir.executions n dependency).map nodeId := by
  unfold GraphState.upstreamOf upstream
  rw [producer_register h he, byId_register h, Option.map_or]

theorem edges_register (h : Tables ir n s) (he : ir.executions[n]? = some e) :
    (s.register e n).inputEdges e n ++ (s.register e n).dependencyEdges e n =
      edgesAt ir.executions n := by
  unfold edgesAt sourcesAt
  rw [he]
  dsimp only
  rw [List.map_append]
  congr 1
  · unfold GraphState.inputEdges ExecuteIR.inputName
    cases hname : e.inputRef.filter (· ≠ "") with
    | none =>
      rw [if_pos ((falsy_iff _).2 hname)]
      rfl
    | some input =>
      obtain ⟨hfalsy, hinput, -⟩ := getD_of_filter hname
      rw [hfalsy, if_neg Bool.false_ne_true, hinput, producer_register h he, Option.bind_some]
      cases producer ir.executions (n + 1) input <;> rfl
  · unfold GraphState.dependencyEdges ExecuteIR.dependencies
    rw [List.map_filterMap]
    refine List.filterMap_congr fun dependency _ => ?_
    rw [upstreamOf_register h he, Option.map_map, Option.map_map]
    rfl

theorem Tables.addExecution (h : Tables ir n s) (he : ir.executions[n]? = some e) :
    Tables ir (n + 1) (s.addExecution ir e n) where
  byOutput := producer_register h he
  byId := fun name => byId_register (e := e) h name
  edges := by
    have hedges : (s.register e n).edges = s.edges := rfl
    unfold GraphState.addExecution
    dsimp only
    rw [List.append_assoc, edges_register h he, hedges, h.edges, List.range_succ,
      List.flatMap_append, List.flatMap_singleton]
  diagnostics := by
    intro j hj e' he' dependency hmem hnone
    unfold GraphState.addExecution
    dsimp only
    rw [List.mem_append]
    by_cases hjn : j = n
    · right
      obtain rfl := hjn
      obtain rfl := Option.some.inj (he.symm.trans he')
      refine List.mem_filterMap.2 ⟨dependency, hmem, ?_⟩
      rw [upstreamOf_register h he, hnone]
      rfl
    · exact Or.inl (h.diagnostics j (by omega) e' he' dependency hmem hnone)
  known := by
    intro d hd
    unfold GraphState.addExecution at hd
    dsimp only at hd
    rw [List.mem_append] at hd
    obtain hd | hd := hd
    · exact h.known d hd
    · obtain ⟨dependency, -, hd⟩ := List.mem_filterMap.1 hd
      split at hd
      · cases hd
      · obtain rfl := Option.some.inj hd
        rfl

theorem tables_empty : Tables ir 0 {} where
  byOutput := fun _ => rfl
  byId := fun _ => rfl
  edges := rfl
  diagnostics := fun _ hj => absurd hj (Nat.not_lt_zero _)
  known := nofun

theorem tables_addExecutions {pre : List ExecuteIR} (h : Tables ir pre.length s)
    {rest : List ExecuteIR} (hes : ir.executions = pre ++ rest) :
    Tables ir ir.executions.length (GraphState.addExecutions ir s pre.length rest) := by
  induction rest generalizing pre s with
  | nil =>
    rw [List.append_nil] at hes
    rw [hes]
    exact h
  | cons e rest ih =>
    have he : ir.executions[pre.length]? = some e := by
      rw [hes, List.getElem?_append_right le_rfl, Nat.sub_self]
      rfl
    have hnext := h.addExecution he
    have hlength : (pre ++ [e]).length = pre.length + 1 := by simp
    rw [← hlength] at hnext
    rw [GraphState.addExecutions, ← hlength]
    exact ih hnext (by rw [hes, List.append_assoc, List.singleton_append])

end Build

theorem graph_tables (ir : AionisDocIR) :
    Tables ir ir.executions.length (GraphState.addExecutions ir {} 0 ir.executions) :=
  @tables_addExecutions ir {} [] tables_empty ir.executions rfl

/-- The edges of a graph are those between the executions of the document. -/
theorem mem_edges {ir : AionisDocIR} {graph : ExecutionGraph}
    (h : (buildExecutionGraph ir).1 = some graph) (edge : ExecutionEdge) :
    edge ∈ graph.edges ↔
      ∃ i j type, Edge ir.executions i j type ∧ edge = ⟨nodeId i, nodeId j, type⟩ := by
  unfold buildExecutionGraph at h
  split at h
  · cases h
  · obtain rfl := Option.some.inj h
    dsimp only
    rw [(graph_tables ir).edges, List.mem_flatMap]
    constructor
    · rintro ⟨j, -, hedge⟩
      unfold edgesAt at hedge
      split at hedge
      · next e he =>
        obtain ⟨⟨i, type⟩, hsource, rfl⟩ := List.mem_map.1 hedge
        exact ⟨i, j, type, ⟨e, he, hsource⟩, rfl⟩
      · cases hedge
    · rintro ⟨i, j, type, ⟨e, he, hsource⟩, rfl⟩
      refine ⟨j, List.mem_range.2 (List.getElem?_eq_some_iff.1 he).1, ?_⟩
      unfold edgesAt
      rw [he]
      exact List.mem_map.2 ⟨(i, type), hsource, rfl⟩

theorem buildExecutionGraph_eq_none {ir : AionisDocIR} :
    (buildExecutionGraph ir).1 = none ↔ ir.doc = none := by
  unfold buildExecutionGraph
  split
  · next h => exact iff_of_true rfl h
  · next h => exact iff_of_false nofun (by rw [h]; nofun)

end AionisCore.AionisDoc
