import AionisCore.Memory.AutomationLite
import AionisCore.Memory.AutomationValidation

/-!
# What the values of a node depend on

A node reads parameters and outputs through its bindings. Its inputs and its artifacts depend on
the parameters and on the outputs of the nodes that it names, and pass strings of the data on as
they are. A condition that asks whether a value exists resolves the value a second time, and then
a string of the data may be taken for a binding.
-/

namespace AionisCore.Memory

open Lib Lib.JsString

/-! ## Readings -/

/-- What a node reads: its inputs, its artifacts and the result of its condition. -/
@[ext] structure NodeReading where
  inputs : ResolvedFields
  artifacts : List (Option Json)
  passed : Bool

namespace AutomationGraphNode

variable (node : AutomationGraphNode)

def artifacts (ctx : BindingContext) : List (Option Json) :=
  match node.kind with
  | .artifactGate refs => refs.map fun ref => resolveBindingValue ctx (.str ref)
  | _ => []

def reading (ctx : BindingContext) (identical : Bool) : NodeReading where
  inputs := resolveFields ctx (node.inputs.getD [])
  artifacts := node.artifacts ctx
  passed := match node.kind with
    | .condition expression => evaluateConditionExpression expression ctx identical
    | _ => true

end AutomationGraphNode

/-- A started node goes on in the same way where it reads the same. -/
theorem runNode_congr {run : AutomationRun} {e : AutomationExecution} {turn : AutomationTurn}
    {node : AutomationGraphNode} {ctx ctx' : BindingContext} {rest : List String}
    (h : node.reading ctx' (turn.identical node.nodeId) =
      node.reading ctx (turn.identical node.nodeId)) :
    (run.runNode e turn node.nodeId (resolveFields ctx' (node.inputs.getD [])) ctx' rest
      node.kind).1 =
    (run.runNode e turn node.nodeId (resolveFields ctx (node.inputs.getD [])) ctx rest
      node.kind).1 := by
  obtain ⟨hinputs, hartifacts, hpassed⟩ := NodeReading.mk.inj h
  rw [hinputs]
  unfold AutomationGraphNode.artifacts at hartifacts
  generalize hkind : node.kind = kind at hartifacts hpassed
  cases kind with
  | approval approvalKey =>
    simp only [AutomationRun.runNode]
    rw [apply_ite Prod.fst, apply_ite Prod.fst]
    rfl
  | condition expression =>
    have hpassed : evaluateConditionExpression expression ctx' (turn.identical node.nodeId) =
        evaluateConditionExpression expression ctx (turn.identical node.nodeId) := hpassed
    simp only [AutomationRun.runNode]
    rw [hpassed, apply_ite Prod.fst, apply_ite Prod.fst]
    rfl
  | artifactGate refs =>
    have hresolved : (refs.map fun ref => (ref, resolveBindingValue ctx' (.str ref))) =
        refs.map fun ref => (ref, resolveBindingValue ctx (.str ref)) :=
      List.map_congr_left fun ref href =>
        congrArg (Prod.mk ref) (List.map_inj_left.1 hartifacts ref href)
    simp only [AutomationRun.runNode]
    rw [hresolved, apply_ite Prod.fst, apply_ite Prod.fst]
    rfl
  | playbook playbookId version mode => rfl

/-! ## Dependence on the outputs -/

/-- The contexts have the same parameters and the same outputs of the nodes. -/
structure BindingContext.Agree (names : List String) (ctx ctx' : BindingContext) : Prop where
  params : ctx'.params = ctx.params
  number : ctx'.number = ctx.number
  outputs : ∀ name ∈ names, Json.get ctx'.nodeOutputs name = Json.get ctx.nodeOutputs name

variable {ctx ctx' : BindingContext}

theorem BindingContext.Agree.mono {names names' : List String}
    (h : BindingContext.Agree names ctx ctx') (hsub : ∀ name ∈ names', name ∈ names) :
    BindingContext.Agree names' ctx ctx' :=
  ⟨h.params, h.number, fun name hname => h.outputs name (hsub name hname)⟩

mutual

theorem resolveBindingValue_congr : {value : Json} →
    BindingContext.Agree (collectBindingRefs value) ctx ctx' →
    resolveBindingValue ctx' value = resolveBindingValue ctx value
  | .null, _ | .bool _, _ | .num _, _ => rfl
  | .str s, h => by
    simp only [resolveBindingValue, h.params, h.number]
    split
    · rfl
    · split
      · next nodeId path hpath =>
        split
        · rfl
        · next hne =>
          have hmem : trim nodeId ∈ collectBindingRefs (.str s) := by
            simp [collectBindingRefs, hpath, hne]
          rw [h.outputs _ hmem]
      · rfl
  | .arr items, h => by
    rw [resolveBindingValue, resolveBindingValue, resolveItems_congr h]
  | .obj fields, h => by
    rw [resolveBindingValue, resolveBindingValue, resolveFields_congr h]

theorem resolveItems_congr : {items : List Json} →
    BindingContext.Agree (collectItems items) ctx ctx' →
    resolveItems ctx' items = resolveItems ctx items
  | [], _ => rfl
  | item :: items, h => by
    rw [resolveItems, resolveItems,
      resolveBindingValue_congr (h.mono fun _ hname => List.mem_append_left _ hname),
      resolveItems_congr (h.mono fun _ hname => List.mem_append_right _ hname)]

theorem resolveFields_congr : {fields : List (String × Json)} →
    BindingContext.Agree (collectFields fields) ctx ctx' →
    resolveFields ctx' fields = resolveFields ctx fields
  | [], _ => rfl
  | field :: fields, h => by
    rw [resolveFields, resolveFields,
      resolveField_congr (h.mono fun _ hname => List.mem_append_left _ hname),
      resolveFields_congr (h.mono fun _ hname => List.mem_append_right _ hname)]

theorem resolveField_congr : {field : String × Json} →
    BindingContext.Agree (collectField field) ctx ctx' →
    resolveField ctx' field = resolveField ctx field
  | (k, value), h => by rw [resolveField, resolveField, resolveBindingValue_congr h]

end

/-! ## Strings of the data -/

mutual

/-- A function on all strings of a value. -/
def mapStrings (f : String → String) : Json → Json
  | .str s => .str (f s)
  | .arr items => .arr (mapItems f items)
  | .obj fields => .obj (mapFields f fields)
  | value => value

def mapItems (f : String → String) : List Json → List Json
  | [] => []
  | item :: items => mapStrings f item :: mapItems f items

def mapFields (f : String → String) : List (String × Json) → List (String × Json)
  | [] => []
  | field :: fields => mapField f field :: mapFields f fields

def mapField (f : String → String) : String × Json → String × Json
  | (k, value) => (k, mapStrings f value)

end

def BindingContext.mapStrings (f : String → String) (ctx : BindingContext) : BindingContext where
  params := mapFields f ctx.params
  nodeOutputs := mapFields f ctx.nodeOutputs
  number := ctx.number

mutual

/-- The strings of a value that are no bindings. -/
def literals : Json → List String
  | .str s =>
    if (bindingPath "$params." s).isSome || (bindingPath "$nodes." s).isSome then [] else [s]
  | .arr items => literalsOfItems items
  | .obj fields => literalsOfFields fields
  | _ => []

def literalsOfItems : List Json → List String
  | [] => []
  | item :: items => literals item ++ literalsOfItems items

def literalsOfFields : List (String × Json) → List String
  | [] => []
  | field :: fields => literalsOfField field ++ literalsOfFields fields

def literalsOfField : String × Json → List String
  | (_, value) => literals value

end

variable {f : String → String}

theorem mapItems_eq_map (items : List Json) : mapItems f items = items.map (mapStrings f) := by
  induction items with
  | nil => rfl
  | cons item items ih => rw [mapItems, ih, List.map_cons]

theorem get_mapFields (fields : Json.Fields) (k : String) :
    Json.get (mapFields f fields) k = (Json.get fields k).map (mapStrings f) := by
  induction fields with
  | nil => rfl
  | cons field fields ih =>
    rw [mapFields, mapField, Json.get_cons, Json.get_cons, ih]
    split <;> rfl

/-- What a part of a path names in a value. -/
def stepInto (number : String → Option ℚ) (cur : Option Json) (part : String) : Option Json :=
  match cur with
  | some (.arr items) => (indexOf number items.length part).bind (items[·]?)
  | some (.obj fields) => Json.get fields part
  | _ => none

variable {number : String → Option ℚ} {path : List String} {cur expr : Option Json}

theorem getPathValue_cons {part : String} (hpart : part ≠ "") :
    getPathValue number cur (part :: path) =
      (stepInto number cur part).elim (some .null) fun value =>
        getPathValue number (some value) path := by
  rcases cur with _ | value
  · simp only [getPathValue, if_neg hpart, stepInto, Option.elim_none]
  · cases value with
    | arr items =>
      simp only [getPathValue, if_neg hpart, stepInto]
      cases (indexOf number items.length part).bind (items[·]?) <;> rfl
    | obj fields =>
      simp only [getPathValue, if_neg hpart, stepInto]
      cases Json.get fields part <;> rfl
    | _ => simp only [getPathValue, if_neg hpart, stepInto, Option.elim_none]

theorem getPathValue_empty :
    getPathValue number cur ("" :: path) = getPathValue number cur path := by
  rcases cur with _ | value
  · simp only [getPathValue, if_true]
  · cases value <;> simp only [getPathValue, if_true]

theorem stepInto_mapStrings {part : String} :
    stepInto number (cur.map (mapStrings f)) part =
      (stepInto number cur part).map (mapStrings f) := by
  rcases cur with _ | value
  · rfl
  · cases value with
    | arr items =>
      simp only [Option.map_some, mapStrings, stepInto, mapItems_eq_map, List.length_map,
        Option.map_bind, List.getElem?_map, Function.comp_def]
    | obj fields => exact get_mapFields fields part
    | _ => rfl

/-- A path leads to the same place whatever the strings are. -/
theorem getPathValue_mapStrings {number : String → Option ℚ} {path : List String}
    {cur : Option Json} : getPathValue number (cur.map (mapStrings f)) path =
      (getPathValue number cur path).map (mapStrings f) := by
  induction path generalizing cur with
  | nil => rfl
  | cons part path ih =>
    by_cases hpart : part = ""
    · rw [hpart, getPathValue_empty, getPathValue_empty, ih]
    · rw [getPathValue_cons hpart, getPathValue_cons hpart, stepInto_mapStrings]
      cases stepInto number cur part with
      | none => rfl
      | some value => exact @ih (some value)

def mapResolved (f : String → String) (fields : ResolvedFields) : ResolvedFields :=
  fields.map fun field => (field.1, field.2.map (mapStrings f))

theorem definedFields_mapResolved (fields : ResolvedFields) :
    definedFields (mapResolved f fields) = mapFields f (definedFields fields) := by
  induction fields with
  | nil => rfl
  | cons field fields ih =>
    obtain ⟨k, _ | value⟩ := field
    · exact ih
    · exact congrArg ((k, mapStrings f value) :: ·) ih

mutual

/-- Strings of the data are passed on as they are: a function on them that keeps the literals of
a value can be applied afterwards as well. -/
theorem resolveBindingValue_mapStrings : {value : Json} → (∀ s ∈ literals value, f s = s) →
    resolveBindingValue (ctx.mapStrings f) value =
      (resolveBindingValue ctx value).map (mapStrings f)
  | .null, _ | .bool _, _ | .num _, _ => rfl
  | .str s, h => by
    simp only [resolveBindingValue, BindingContext.mapStrings]
    cases hparams : bindingPath "$params." s with
    | some path => exact @getPathValue_mapStrings f ctx.number path (some (.obj ctx.params))
    | none =>
      cases hnodes : bindingPath "$nodes." s with
      | none =>
        have hs : f s = s := h s (by simp [literals, hparams, hnodes])
        simp [mapStrings, hs]
      | some parts =>
        cases parts with
        | nil =>
          obtain ⟨rest, -, hrest⟩ := bindingPath_eq_some.1 hnodes
          exact absurd (List.map_eq_nil_iff.1 hrest.symm) (List.splitOn_ne_nil _ _)
        | cons nodeId path =>
          dsimp only
          split
          · rfl
          · rw [get_mapFields, getPathValue_mapStrings]
  | .arr items, h => by
    rw [resolveBindingValue, resolveBindingValue, resolveItems_mapStrings h]
    rfl
  | .obj fields, h => by
    rw [resolveBindingValue, resolveBindingValue, resolveFields_mapStrings h,
      definedFields_mapResolved]
    rfl

theorem resolveItems_mapStrings : {items : List Json} →
    (∀ s ∈ literalsOfItems items, f s = s) →
    resolveItems (ctx.mapStrings f) items = mapItems f (resolveItems ctx items)
  | [], _ => rfl
  | item :: items, h => by
    rw [resolveItems, resolveItems, mapItems,
      resolveBindingValue_mapStrings fun s hs => h s (List.mem_append_left _ hs),
      resolveItems_mapStrings fun s hs => h s (List.mem_append_right _ hs)]
    cases resolveBindingValue ctx item <;> rfl

theorem resolveFields_mapStrings : {fields : List (String × Json)} →
    (∀ s ∈ literalsOfFields fields, f s = s) →
    resolveFields (ctx.mapStrings f) fields = mapResolved f (resolveFields ctx fields)
  | [], _ => rfl
  | field :: fields, h => by
    rw [resolveFields, resolveFields, mapResolved, List.map_cons,
      resolveField_mapStrings fun s hs => h s (List.mem_append_left _ hs),
      resolveFields_mapStrings fun s hs => h s (List.mem_append_right _ hs)]
    rfl

theorem resolveField_mapStrings : {field : String × Json} →
    (∀ s ∈ literalsOfField field, f s = s) →
    resolveField (ctx.mapStrings f) field =
      ((resolveField ctx field).1, (resolveField ctx field).2.map (mapStrings f))
  | (k, value), h => by rw [resolveField, resolveField, resolveBindingValue_mapStrings h]

end

/-! ## Conditions -/

/-- What a condition decides on: a truth value, or the fields of an object. -/
inductive Decided where
  | value (b : Bool)
  | object (obj : ResolvedFields)

def decidedOn (ctx : BindingContext) (expr : Option Json) : Decided :=
  match expr with
  | some (.bool b) => .value b
  | some (.obj fields) => .object (resolveFields ctx fields)
  | expr =>
    match expr.bind (resolveBindingValue ctx) with
    | some (.obj fields) => .object (resolvedFields fields)
    | _ => .value (Json.truthy expr)

/-- The value whose existence decides, if none of the other fields does. -/
def Decided.existing : Decided → Option Json
  | .value _ => none
  | .object obj =>
    if (obj.lookup "equals").isSome || (obj.lookup "not_equals").isSome then none
    else (obj.lookup "exists").join

/-- `evaluateConditionExpression` without the second resolution. -/
def Decided.result (identical : Bool) : Decided → Bool
  | .value b => b
  | .object obj =>
    let read := fun k => (obj.lookup k).join
    let same := fun k => strictEqual identical ((read "left").getD .null) ((read k).getD .null)
    if (obj.lookup "equals").isSome then same "equals"
    else if (obj.lookup "not_equals").isSome then !same "not_equals"
    else if (obj.lookup "exists").isSome then
      match read "exists" with
      | none | some .null => false
      | some _ => true
    else Json.truthy (Json.orElse (read "value") (Json.orElse (read "result") (some (.bool false))))

/-- A string, taken for a binding, names nothing. -/
def namesNothing (ctx : BindingContext) (s : String) : Bool :=
  match resolveBindingValue ctx (.str s) with
  | none | some .null => true
  | some _ => false

variable {identical : Bool}

theorem evaluateConditionExpression_decided :
    evaluateConditionExpression expr ctx identical =
      match decidedOn ctx expr with
      | .value b => b
      | .object obj => evaluateCondition ctx identical obj := by
  rcases expr with _ | expr
  · rfl
  · cases expr with
    | null | bool _ | num _ | obj _ => rfl
    | str s =>
      simp only [evaluateConditionExpression, decidedOn]
      cases (some (Json.str s)).bind (resolveBindingValue ctx) with
      | none => rfl
      | some value => cases value <;> rfl
    | arr items => rfl

/-- Where the value that exists or not is a string, it is taken for a binding if it reads like
one. Otherwise the second resolution changes nothing. -/
theorem evaluateConditionExpression_eq :
    evaluateConditionExpression expr ctx identical =
      match (decidedOn ctx expr).existing with
      | some (.str s) => !namesNothing ctx s
      | _ => (decidedOn ctx expr).result identical := by
  rw [evaluateConditionExpression_decided]
  cases decidedOn ctx expr with
  | value b => rfl
  | object obj =>
    simp only [evaluateCondition, Decided.existing, Decided.result]
    by_cases hequals : (obj.lookup "equals").isSome = true
    · simp [hequals]
    by_cases hnot : (obj.lookup "not_equals").isSome = true
    · simp [hequals, hnot]
    cases hexists : obj.lookup "exists" with
    | none => simp [hequals, hnot]
    | some existing =>
      rcases existing with _ | existing
      · simp [hequals, hnot]
      · cases existing with
        | str s =>
          simp only [hequals, hnot, Bool.false_eq_true, if_false, Bool.or_self,
            Option.isSome_some, if_true, Option.join_some, Option.bind_some, namesNothing]
          rcases resolveBindingValue ctx (.str s) with _ | value
          · rfl
          · cases value <;> rfl
        | _ => simp [hequals, hnot, resolveBindingValue]

/-! ## When a node depends on nothing else -/

namespace AutomationGraphNode

variable (node : AutomationGraphNode)

/-- The condition of the node is decided without a second resolution. -/
def DecidedOnce (ctx : BindingContext) (identical : Bool) : Prop :=
  ∀ expression, node.kind = .condition expression →
    (node.reading ctx identical).passed = (decidedOn ctx expression).result identical

/-- The node reads the same wherever the parameters and the outputs of the nodes that it names are
the same, and takes no string of the data for a binding. -/
def DependsOnRefs (ctx : BindingContext) (identical : Bool) : Prop :=
  (∀ ctx', BindingContext.Agree node.refs ctx ctx' →
    node.reading ctx' identical = node.reading ctx identical) ∧ node.DecidedOnce ctx identical

/-- If the node's condition asks whether a string exists, then this, taken for a binding, names
something, and no node that the node does not name itself. -/
def ExistingNamed (ctx : BindingContext) : Prop :=
  ∀ expression s, node.kind = .condition expression →
    (decidedOn ctx expression).existing = some (.str s) →
    namesNothing ctx s = false ∧ ∀ name ∈ collectBindingRefs (.str s), name ∈ node.refs

end AutomationGraphNode

theorem decidedOn_congr
    (h : BindingContext.Agree ((expr.map collectBindingRefs).getD []) ctx ctx') :
    decidedOn ctx' expr = decidedOn ctx expr := by
  rcases expr with _ | expr
  · rfl
  · have hvalue := @resolveBindingValue_congr ctx ctx' expr h
    cases expr with
    | obj fields => exact congrArg Decided.object (resolveFields_congr h)
    | _ => simp only [decidedOn, Option.bind_some, hvalue]

theorem refs_of_condition {node : AutomationGraphNode} {expression : Option Json}
    (hkind : node.kind = .condition expression) :
    ∀ name ∈ (expression.map collectBindingRefs).getD [], name ∈ node.refs := by
  intro name hname
  unfold AutomationGraphNode.refs
  rw [List.mem_eraseDups, hkind]
  exact List.mem_append_right _ hname

theorem refs_of_inputs {node : AutomationGraphNode} :
    ∀ name ∈ collectFields (node.inputs.getD []), name ∈ node.refs := by
  intro name hname
  unfold AutomationGraphNode.refs
  rw [List.mem_eraseDups]
  exact List.mem_append_left _ hname

/-- Inputs and artifacts depend on nothing else. -/
theorem inputs_artifacts_congr {node : AutomationGraphNode} {identical : Bool}
    (h : BindingContext.Agree node.refs ctx ctx') :
    (node.reading ctx' identical).inputs = (node.reading ctx identical).inputs ∧
    (node.reading ctx' identical).artifacts = (node.reading ctx identical).artifacts := by
  refine ⟨resolveFields_congr (h.mono refs_of_inputs), ?_⟩
  simp only [AutomationGraphNode.reading, AutomationGraphNode.artifacts]
  generalize hkind : node.kind = kind
  cases kind with
  | artifactGate refs =>
    refine List.map_congr_left fun ref href =>
      resolveBindingValue_congr (h.mono fun name hname => ?_)
    unfold AutomationGraphNode.refs
    rw [List.mem_eraseDups, hkind]
    refine List.mem_append_right _ ?_
    rw [mem_collectItems]
    obtain ⟨hbinds, hne⟩ := mem_collectBindingRefs.1 hname
    exact ⟨⟨.str ref, List.mem_map_of_mem href, hbinds⟩, hne⟩
  | _ => rfl

theorem result_of_existing {d : Decided} {s : String} (h : d.existing = some (.str s)) :
    d.result identical = true := by
  cases d with
  | value b => cases h
  | object obj =>
    simp only [Decided.existing] at h
    split at h
    · cases h
    · next hother =>
      rw [Bool.or_eq_true, not_or] at hother
      have hexists := Option.join_eq_some_iff.1 h
      simp [Decided.result, hother, hexists]

theorem getPathValue_null : getPathValue number (some .null) path = some .null := by
  induction path with
  | nil => rfl
  | cons part path ih =>
    by_cases hpart : part = ""
    · rw [hpart, getPathValue_empty, ih]
    · rw [getPathValue_cons hpart]
      rfl

theorem namesNothing_of_null {name s : String} (hname : name ∈ collectBindingRefs (.str s))
    (hnull : Json.get ctx.nodeOutputs name = some .null) : namesNothing ctx s = true := by
  have hparams : bindingPath "$params." s = none := by
    by_contra hsome
    obtain ⟨path, hpath⟩ := Option.ne_none_iff_exists'.1 hsome
    obtain ⟨rest, hrest, -⟩ := bindingPath_eq_some.1 hpath
    obtain ⟨⟨rest', hrest', -⟩, -⟩ := mem_collectBindingRefs_str.1 hname
    have hsecond := congrArg (·[1]?) (hrest.symm.trans hrest')
    revert hsecond
    simp
  rw [collectBindingRefs] at hname
  unfold namesNothing
  rw [resolveBindingValue, hparams]
  generalize bindingPath "$nodes." s = nodes at hname ⊢
  rcases nodes with _ | _ | ⟨nodeId, path⟩
  · cases hname
  · cases hname
  · dsimp only at hname ⊢
    split at hname
    · cases hname
    · next hne => rw [if_neg hne, ← List.mem_singleton.1 hname, hnull, getPathValue_null]

/-- A node depends on nothing but what it names, and takes no string of the data for a binding,
exactly if its condition does not ask for the existence of a string that names nothing or a node
it does not name itself. -/
theorem dependsOnRefs_iff (node : AutomationGraphNode) (ctx : BindingContext) (identical : Bool) :
    node.DependsOnRefs ctx identical ↔ node.ExistingNamed ctx := by
  refine ⟨?_, fun h => ⟨fun ctx' hagree => ?_, ?_⟩⟩
  · rintro ⟨hsame, honce⟩ expression s hkind hexisting
    have hpassed : ∀ ctx', (node.reading ctx' identical).passed =
        evaluateConditionExpression expression ctx' identical := by
      intro ctx'
      simp only [AutomationGraphNode.reading, hkind]
    have htrue : namesNothing ctx s = false := by
      have hresult := honce expression hkind
      rw [hpassed, evaluateConditionExpression_eq, hexisting,
        result_of_existing hexisting] at hresult
      simpa using hresult
    refine ⟨htrue, fun name hname => ?_⟩
    by_contra hnot
    let ctx' : BindingContext :=
      { ctx with nodeOutputs := Json.set ctx.nodeOutputs name .null }
    have hagree : BindingContext.Agree node.refs ctx ctx' := by
      refine ⟨rfl, rfl, fun other hother => ?_⟩
      have hne : other ≠ name := fun heq => hnot (heq ▸ hother)
      exact Json.get_set_of_ne hne
    have hnothing : namesNothing ctx' s = true :=
      namesNothing_of_null hname (Json.get_set_self _ _ _)
    have heq := congrArg NodeReading.passed (hsame ctx' hagree)
    rw [hpassed, hpassed, evaluateConditionExpression_eq, evaluateConditionExpression_eq,
      decidedOn_congr (hagree.mono (refs_of_condition hkind)), hexisting] at heq
    simp [hnothing, htrue] at heq
  · obtain ⟨hinputs, hartifacts⟩ := @inputs_artifacts_congr ctx ctx' node identical hagree
    have hpassed : (node.reading ctx' identical).passed = (node.reading ctx identical).passed := by
      simp only [AutomationGraphNode.reading]
      generalize hkind : node.kind = kind
      cases kind with
      | condition expression =>
        simp only [evaluateConditionExpression_eq,
          decidedOn_congr (hagree.mono (refs_of_condition hkind))]
        split
        · next s hexisting =>
          have hs := @resolveBindingValue_congr ctx ctx' (.str s)
            (hagree.mono (h expression s hkind hexisting).2)
          simp only [namesNothing, hs]
        · rfl
      | _ => rfl
    exact NodeReading.ext hinputs hartifacts hpassed
  · intro expression hkind
    have hpassed : (node.reading ctx identical).passed =
        evaluateConditionExpression expression ctx identical := by
      simp only [AutomationGraphNode.reading, hkind]
    rw [hpassed, evaluateConditionExpression_eq]
    split
    · next s hexisting =>
      rw [result_of_existing hexisting, (h expression s hkind hexisting).1]
      rfl
    · rfl

/-- The strings of the inputs and of the artifacts of a node that are no bindings. -/
def AutomationGraphNode.literals (node : AutomationGraphNode) : List String :=
  literalsOfFields (node.inputs.getD []) ++
    match node.kind with
    | .artifactGate refs => literalsOfItems (refs.map .str)
    | _ => []

theorem artifacts_mapStrings {node : AutomationGraphNode}
    (h : ∀ s ∈ node.literals, f s = s) :
    node.artifacts (ctx.mapStrings f) = (node.artifacts ctx).map (Option.map (mapStrings f)) := by
  unfold AutomationGraphNode.artifacts
  unfold AutomationGraphNode.literals at h
  generalize node.kind = kind at h
  cases kind with
  | artifactGate refs =>
    have hrefs : ∀ s ∈ literalsOfItems (refs.map .str), f s = s := fun s hs =>
      h s (List.mem_append_right _ hs)
    clear h
    induction refs with
    | nil => rfl
    | cons ref refs ih =>
      have hhead := @resolveBindingValue_mapStrings ctx f (.str ref) fun s hs =>
        hrefs s (List.mem_append_left _ hs)
      simp only [List.map_cons, hhead]
      exact congrArg _ (ih fun s hs => hrefs s (List.mem_append_right _ hs))
  | _ => rfl

/-- What a node reads. Its inputs and artifacts depend on nothing but the parameters and the
outputs of the nodes that it names, and pass strings of the data on as they are. Its condition
does so exactly if it does not ask for the existence of a string that, taken for a binding, names
nothing or a node that the node itself does not name. -/
theorem node_dependence_iff (node : AutomationGraphNode) (ctx : BindingContext)
    (identical : Bool) :
    (∀ ctx', BindingContext.Agree node.refs ctx ctx' →
      (node.reading ctx' identical).inputs = (node.reading ctx identical).inputs ∧
      (node.reading ctx' identical).artifacts = (node.reading ctx identical).artifacts) ∧
    (∀ f, (∀ s ∈ node.literals, f s = s) →
      (node.reading (ctx.mapStrings f) identical).inputs =
        mapResolved f (node.reading ctx identical).inputs ∧
      (node.reading (ctx.mapStrings f) identical).artifacts =
        (node.reading ctx identical).artifacts.map (Option.map (mapStrings f))) ∧
    (node.DependsOnRefs ctx identical ↔ node.ExistingNamed ctx) :=
  ⟨fun _ => inputs_artifacts_congr,
    fun _ h => ⟨resolveFields_mapStrings fun s hs => h s (List.mem_append_left _ hs),
      artifacts_mapStrings h⟩,
    dependsOnRefs_iff node ctx identical⟩

/-- What a started node makes of the run. -/
def AutomationGraphNode.transition (node : AutomationGraphNode) (ctx : BindingContext)
    (run : AutomationRun) (e : AutomationExecution) (turn : AutomationTurn) (rest : List String) :
    AutomationRun :=
  (run.runNode e turn node.nodeId (resolveFields ctx (node.inputs.getD [])) ctx rest node.kind).1

/-- Nodes that are not named have no part in how the run goes on. -/
theorem transition_agree {node : AutomationGraphNode} (hexisting : node.ExistingNamed ctx)
    (h : BindingContext.Agree node.refs ctx ctx') :
    node.transition ctx' = node.transition ctx := by
  funext run e turn rest
  exact runNode_congr (((dependsOnRefs_iff node ctx _).2 hexisting).1 ctx' h)

/-- A gate on the parameter `x`, beside a node `b`. -/
def gateNode : AutomationGraphNode where
  nodeId := "c"
  kind := .condition (some (.obj [("exists", .str "$params.x")]))

def gateGraph : AutomationGraph where
  nodes := [{ nodeId := "b", kind := .approval none }, gateNode]
  edges := []

/-- The parameter `x` and the output of `b`. -/
def gateContext (x : String) (output : Json.Fields) : BindingContext where
  params := [("x", .str x)]
  nodeOutputs := [("b", .obj output)]
  number _ := none

theorem node_dependence_iff_plain : gateNode.DependsOnRefs (gateContext "done" []) false := by
  refine (node_dependence_iff gateNode (gateContext "done" []) false).2.2.2 ?_
  rintro expression s hkind hexisting
  cases hkind
  have hs : some (Json.str "done") = some (Json.str s) := hexisting
  cases hs
  exact ⟨by decide, nofun⟩

theorem transition_agree_plain : gateNode.transition (gateContext "done" [("y", .null)]) =
    gateNode.transition (gateContext "done" []) := by
  refine transition_agree ?_ ⟨rfl, rfl, by simp [show gateNode.refs = [] by decide]⟩
  rintro expression s hkind hexisting
  cases hkind
  have hs : some (Json.str "done") = some (Json.str s) := hexisting
  cases hs
  exact ⟨by decide, List.forall_mem_nil _⟩

/-- The gate names no node, but it depends on the output of `b` where `x` is `$nodes.b.y`. -/
theorem gate_depends_on_unnamed :
    (∃ validation, validateAutomationGraph gateGraph = .ok validation) ∧
    gateNode ∈ gateGraph.nodes ∧ gateNode.refs = [] ∧
    (gateNode.reading (gateContext "$nodes.b.y" [("y", .bool true)]) false).passed = true ∧
    (gateNode.reading (gateContext "$nodes.b.y" []) false).passed = false ∧
    ¬ gateNode.DependsOnRefs (gateContext "$nodes.b.y" [("y", .bool true)]) false := by
  have hrefs : gateNode.refs = [] := by decide
  have hwith : (gateNode.reading (gateContext "$nodes.b.y" [("y", .bool true)]) false).passed =
      true := by decide
  have hwithout : (gateNode.reading (gateContext "$nodes.b.y" []) false).passed = false := by
    decide
  refine ⟨⟨_, rfl⟩, by simp [gateGraph], hrefs, hwith, hwithout, fun ⟨hsame, _⟩ => ?_⟩
  have heq := congrArg NodeReading.passed (hsame (gateContext "$nodes.b.y" [])
    ⟨rfl, rfl, by simp [hrefs]⟩)
  rw [hwith, hwithout] at heq
  cases heq

end AionisCore.Memory
