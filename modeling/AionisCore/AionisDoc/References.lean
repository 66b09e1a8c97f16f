import AionisCore.AionisDoc.DataEdges

/-!
# What references denote

The compiler parses a reference into a scope and a path and looks it up in the document or the
context; what it denotes beyond these is inside the output of the latest earlier execution whose
name begins it. The runtime takes the text of the reference apart by itself.
-/

namespace AionisCore.AionisDoc

open Lib Lib.JsString

/-! ## Walks -/

/-- The compiler and the runtime walk a path alike. -/
theorem getPathValue_eq (v : Option AionisValue) (path : List String) :
    ResolveRefs.getPathValue v path = Runtime.getPathValue v path := by
  induction path generalizing v with
  | nil => cases v <;> rfl
  | cons segment path ih =>
    have hnone : ∀ path, Runtime.getPathValue none path = none := by
      intro path
      cases path <;> rfl
    unfold ResolveRefs.getPathValue Runtime.getPathValue
    cases v.bind AionisValue.asObject with
    | none => rfl
    | some o =>
      dsimp only
      split
      · exact ih _
      · next h =>
        have hget : o.get segment = none := by
          rw [← Option.not_isSome_iff_eq_none]
          exact h
        rw [hget, hnone]

/-! ## References as segments -/

section Split

variable {cs ds : List Char}

theorem splitOn_of_not_mem {sep : Char} (h : sep ∉ cs) : splitOn sep cs = [cs] := by
  induction cs with
  | nil => rfl
  | cons c cs ih =>
    rw [List.mem_cons, not_or] at h
    rw [splitOn, if_neg (Ne.symm h.1), ih h.2]

theorem splitOn_append {sep : Char} (h : sep ∉ cs) :
    splitOn sep (cs ++ sep :: ds) = cs :: splitOn sep ds := by
  induction cs with
  | nil => rw [List.nil_append, splitOn, if_pos rfl]
  | cons c cs ih =>
    rw [List.mem_cons, not_or] at h
    rw [List.cons_append, splitOn, if_neg (Ne.symm h.1), ih h.2]

theorem splitOn_ne_nil {sep : Char} : splitOn sep cs ≠ [] := by
  cases cs with
  | nil => exact List.cons_ne_nil _ _
  | cons c cs =>
    rw [splitOn]
    split
    · exact List.cons_ne_nil _ _
    · split
      · exact List.cons_ne_nil _ _
      · exact List.cons_ne_nil _ _

/-- The parts of a text put it together again. -/
theorem intercalate_splitOn (sep : Char) (cs : List Char) :
    List.intercalate [sep] (splitOn sep cs) = cs := by
  induction cs with
  | nil => rfl
  | cons c cs ih =>
    rw [splitOn]
    split
    · next hc =>
      obtain ⟨part, parts, hparts⟩ := List.exists_cons_of_ne_nil (@splitOn_ne_nil cs sep)
      rw [hparts] at ih ⊢
      rw [hc, List.intercalate_cons_cons]
      exact congrArg (sep :: ·) ih
    · split
      · next hnil => exact absurd hnil splitOn_ne_nil
      · next part parts hparts =>
        rw [hparts] at ih
        cases parts with
        | nil =>
          rw [List.intercalate_singleton] at ih ⊢
          rw [ih]
        | cons next parts =>
          rw [List.intercalate_cons_cons] at ih ⊢
          rw [← ih, List.cons_append, List.cons_append]

end Split

theorem splitDots_injective {s t : String} (h : splitDots s = splitDots t) : s = t := by
  have hlists : splitOn '.' s.toList = splitOn '.' t.toList :=
    List.map_injective_iff.2 (fun a b hab => String.ofList_injective hab) h
  have hjoined := congrArg (List.intercalate ['.']) hlists
  rw [intercalate_splitOn, intercalate_splitOn] at hjoined
  exact String.toList_injective hjoined

theorem scopePart_ne_dot {c : Char} (h : isScopePart c = true) : c ≠ '.' := by
  rintro rfl
  revert h
  decide

/-- The segments of a reference, as the compiler sees it, are those of its trimmed text. -/
theorem splitDots_of_parseRef {ref : String} {binding : RefBinding}
    (h : parseRef ref = some binding) : splitDots (trim ref) = binding.scope :: binding.path := by
  unfold parseRef at h
  unfold splitDots trim
  rw [String.toList_ofList]
  split at h
  · next c cs hcs =>
    dsimp only at h
    split at h
    · cases h
    · next hc =>
      have hdot : '.' ∉ c :: cs.takeWhile isScopePart := by
        rw [List.mem_cons, not_or]
        constructor
        · rintro rfl
          exact hc (by decide)
        · intro hmem
          exact scopePart_ne_dot (List.mem_takeWhile_imp hmem) rfl
      have hsplit := List.takeWhile_append_dropWhile (p := isScopePart) (l := cs)
      rw [hcs, ← hsplit]
      split at h
      · next hrest =>
        obtain rfl := Option.some.inj h
        rw [hrest, List.append_nil, splitOn_of_not_mem hdot]
        simp
      · next path hrest =>
        split at h
        · obtain rfl := Option.some.inj h
          rw [hrest, ← List.cons_append, splitOn_append hdot]
          simp
        · cases h
      · cases h
  · cases h

/-! ## What a reference denotes -/

/-- The latest of the first executions whose output name begins the segments, and the rest of
them. -/
def latestPrefix (es : List ExecuteIR) (segments : List String) : Nat → Option (Nat × List String)
  | 0 => none
  | n + 1 =>
    match es[n]?.bind ExecuteIR.outputName with
    | some name =>
      if (splitDots name).isPrefixOf segments then
        some (n, segments.drop (splitDots name).length)
      else latestPrefix es segments n
    | none => latestPrefix es segments n

def outputOf (results : List ExecutionNodeResult) (i : Nat) : Option AionisValue :=
  results[i]?.bind (·.output)

/-- What a reference of the execution at `j` denotes in a run. -/
def denotedValue (ir : AionisDocIR) (results : List ExecutionNodeResult) (j : Nat)
    (binding : RefBinding) : Option AionisValue :=
  if binding.scope = "ctx" ∨ binding.scope = "doc" then boundValue ir binding
  else (latestPrefix ir.executions (binding.scope :: binding.path) j).bind fun p =>
    Runtime.getPathValue (outputOf results p.1) p.2

/-- Every step with a reference and no inline input gets what the reference denotes. -/
def GetsReferences (runtime : ModuleRegistryExecutionRuntime) (ir : AionisDocIR)
    (plan : ExecutionPlanV1) : Prop :=
  ∀ j e ref, ir.executions[j]? = some e → e.input = none → e.inputName = some ref →
    ∃ s binding v, stateAt runtime plan j = some s ∧ parseRef ref = some binding ∧
      denotedValue ir (lastState runtime plan).nodeResults j binding = some v ∧
      resolveExecutionInput plan s.outputs (buildExecutionStep e j) = v

/-- The reference is written without surrounding blanks, and is one into the context, the whole
name of the latest output that begins it, or goes on from a name of two segments in the scope of
run or out, into a value that is there, no output having its whole name. -/
def Followed (ir : AionisDocIR) (results : List ExecutionNodeResult) (j : Nat) (ref : String)
    (binding : RefBinding) : Prop :=
  trim ref = ref ∧ (binding.scope = "ctx" ∨ (binding.scope ≠ "doc" ∧
    ∃ i rest, latestPrefix ir.executions (binding.scope :: binding.path) j = some (i, rest) ∧
      (rest = [] ∨ ((binding.scope = "run" ∨ binding.scope = "out") ∧
        (binding.scope :: binding.path).length = rest.length + 2 ∧
        producer ir.executions j ref = none ∧
        (Runtime.getPathValue (outputOf results i) rest).isSome))))

section Denoted

variable {es : List ExecuteIR} {segments rest : List String} {n i : Nat}

theorem latestPrefix_eq_some (h : latestPrefix es segments n = some (i, rest)) :
    i < n ∧ (∃ name, es[i]?.bind ExecuteIR.outputName = some name ∧
        segments = splitDots name ++ rest) ∧
      ∀ k, i < k → k < n → ∀ name, es[k]?.bind ExecuteIR.outputName = some name →
        ¬ splitDots name <+: segments := by
  induction n with
  | zero => cases h
  | succ n ih =>
    have hlater : (∀ name, es[n]?.bind ExecuteIR.outputName = some name →
        ¬ splitDots name <+: segments) → latestPrefix es segments n = some (i, rest) →
        i < n + 1 ∧ (∃ name, es[i]?.bind ExecuteIR.outputName = some name ∧
          segments = splitDots name ++ rest) ∧
        ∀ k, i < k → k < n + 1 → ∀ name, es[k]?.bind ExecuteIR.outputName = some name →
          ¬ splitDots name <+: segments := by
      intro hn h
      obtain ⟨hlt, hname, hlast⟩ := ih h
      refine ⟨by omega, hname, fun k hk hkn name hkname => ?_⟩
      by_cases hkeq : k = n
      · exact hn name (hkeq ▸ hkname)
      · exact hlast k hk (by omega) name hkname
    rw [latestPrefix] at h
    split at h
    · next name hname =>
      split at h
      · next hprefix =>
        obtain ⟨rfl, rfl⟩ := Prod.mk.inj (Option.some.inj h)
        refine ⟨Nat.lt_succ_self n, ⟨name, hname, ?_⟩, fun k hk hkn => by omega⟩
        exact (List.prefix_iff_eq_append.1 (List.isPrefixOf_iff_prefix.1 hprefix)).symm
      · next hprefix =>
        refine hlater (fun name' hname' => ?_) h
        obtain rfl := Option.some.inj (hname.symm.trans hname')
        exact fun hpre => hprefix (List.isPrefixOf_iff_prefix.2 hpre)
    · next hname =>
      refine hlater (fun name' hname' => ?_) h
      rw [hname] at hname'
      cases hname'

theorem mergeContextFrames_eq (context : List ContextIR) :
    mergeContextFrames (context.map (·.data)) = buildMergedContext context := by
  unfold mergeContextFrames buildMergedContext
  rw [List.foldl_map]
  rfl

end Denoted

/-! ## What is stored -/

section Stored

variable {runtime : ModuleRegistryExecutionRuntime} {plan : ExecutionPlanV1} {es : List ExecuteIR}
  {n : Nat} {s : ExecutionState}

theorem get_set_of_ne {o : AionisObject} {name : String} (hname : name ≠ "__proto__")
    (v : AionisValue) (k : String) :
    (o.set name v).get k = if k = name then some v else o.get k := by
  rw [AionisObject.set_of_ne hname]
  unfold AionisObject.get
  dsimp only
  rw [OrderedMap.getEntry_setEntry]
  by_cases hk : k = name
  · rw [if_pos hk, if_pos hk]
  · rw [if_neg hk, if_neg hk]

/-- What stands under a name is the output of the latest step of the name. -/
theorem get_of_producer (hes : LaysOut plan es) (hkeeps : KeepsPrototype runtime plan)
    (hall : AllSucceeded runtime plan) (hs : stateAt runtime plan n = some s) {k : String} {i : Nat}
    (hi : producer es n k = some i) :
    ∃ v, s.outputs.get k = some v ∧ outputOf (lastState runtime plan).nodeResults i = some v := by
  induction n generalizing s with
  | zero => cases hi
  | succ n ih =>
    obtain ⟨u, step, hu, hstep, hs⟩ := stateAt_succ.1 hs
    have hlt := (List.getElem?_eq_some_iff.1 hstep).1
    obtain ⟨output, artifacts, evidence, hend⟩ := succeeded_iff.1 (hall n hlt)
    have hproto := hkeeps n step hstep (hall n hlt)
    have hr : runStep runtime plan n u.outputs step = .success output artifacts evidence :=
      Option.some.inj ((stepEnd_eq hu hstep).symm.trans hend)
    obtain ⟨-, -, ⟨_, hbad, -⟩ | ⟨_, hbad, -⟩ | ⟨_, _, _, hgood, -, hresult, -⟩⟩ :=
      result_of_stepEnd hend
    · cases hbad
    · cases hbad
    · obtain ⟨rfl, rfl, rfl⟩ := StepEnd.success.inj hgood
      obtain ⟨e, he, rfl⟩ := hes.execution hstep
      have hproto : e.outputRef ≠ some "__proto__" := hproto
      rw [advance, hr] at hs
      obtain rfl := Option.some.inj hs
      rw [producer, he, Option.bind_some] at hi
      have hstored : (u.succeed (buildExecutionStep e n) output artifacts evidence).outputs =
          storeOutput u.outputs (buildExecutionStep e n) output := rfl
      rw [hstored]
      obtain ⟨hname, hsame⟩ | ⟨name, hne, hname, hset⟩ :=
        storeOutput_cases hproto u.outputs output
      · rw [hname, if_neg (Option.some_ne_none k).symm] at hi
        rw [hsame]
        exact ih hu hi
      · rw [hset, get_set_of_ne hne]
        rw [hname] at hi
        by_cases hk : k = name
        · rw [if_pos (congrArg some hk.symm)] at hi
          obtain rfl := Option.some.inj hi
          exact ⟨output, if_pos hk, hresult⟩
        · rw [if_neg fun h => hk (Option.some.inj h).symm] at hi
          rw [if_neg hk]
          exact ih hu hi

end Stored

/-! ## What the runtime finds -/

section Found

variable {runtime : ModuleRegistryExecutionRuntime} {plan : ExecutionPlanV1} {ir : AionisDocIR}
  {j : Nat} {e : ExecuteIR} {ref : String} {binding : RefBinding} {s : ExecutionState}
  {path : List String}

theorem splitOn_eq_of_splitDots {segment : String} (h : splitDots ref = segment :: path) :
    splitOn '.' ref.toList = segment.toList :: path.map String.toList := by
  have hmap := congrArg (List.map String.toList) h
  unfold splitDots at hmap
  rw [List.map_map, List.map_cons] at hmap
  simpa [Function.comp_def] using hmap

theorem ctx_text (h : splitDots ref = "ctx" :: path) :
    (ref = "ctx" ∧ path = []) ∨
      (ref ≠ "ctx" ∧ "ctx.".toList.isPrefixOf ref.toList = true ∧
        splitDots (String.ofList (ref.toList.drop 4)) = path) := by
  have hsplit := splitOn_eq_of_splitDots h
  have hjoin := intercalate_splitOn '.' ref.toList
  rw [hsplit] at hjoin
  cases path with
  | nil =>
    left
    rw [List.map_nil, List.intercalate_singleton] at hjoin
    exact ⟨(String.toList_injective hjoin).symm, rfl⟩
  | cons segment path =>
    right
    rw [List.map_cons, List.intercalate_cons_cons] at hjoin
    have htext : ref.toList =
        "ctx.".toList ++ List.intercalate ['.'] (segment.toList :: path.map String.toList) := by
      rw [← hjoin]
      rfl
    refine ⟨?_, ?_, ?_⟩
    · rintro rfl
      have hlength := congrArg List.length htext
      rw [List.length_append] at hlength
      simp only [String.reduceToList, List.length_cons, List.length_nil] at hlength
      omega
    · rw [List.isPrefixOf_iff_prefix, htext]
      exact List.prefix_append _ _
    · have hdrop : ref.toList.drop 4 =
          List.intercalate ['.'] (segment.toList :: path.map String.toList) := by
        rw [htext]
        exact List.drop_left' rfl
      have hdot : '.' ∉ "ctx".toList := by decide
      rw [htext, show "ctx.".toList = "ctx".toList ++ ['.'] from rfl, List.append_assoc,
        List.singleton_append, splitOn_append hdot] at hsplit
      unfold splitDots
      rw [String.toList_ofList, hdrop, (List.cons.inj hsplit).2]
      simp [Function.comp_def]

/-- A text that begins like a reference into the context has its scope. -/
theorem scope_ctx_of_text {scope : String} (h : splitDots ref = scope :: path)
    (hctx : ref = "ctx" ∨ "ctx.".toList.isPrefixOf ref.toList = true) : scope = "ctx" := by
  have hsplit := splitOn_eq_of_splitDots h
  obtain rfl | hprefix := hctx
  · have hhead := (List.cons.inj h).1
    rw [← hhead]
    rfl
  · obtain ⟨rest, hrest⟩ := List.isPrefixOf_iff_prefix.1 hprefix
    have hdot : '.' ∉ "ctx".toList := by decide
    rw [← hrest, show "ctx.".toList = "ctx".toList ++ ['.'] from rfl, List.append_assoc,
      List.singleton_append, splitOn_append hdot] at hsplit
    exact (String.toList_injective (List.cons.inj hsplit).1).symm

theorem resolve_ctx {plan : ExecutionPlanV1} {outputs : AionisObject} {step : ExecutionPlanStep}
    (hinput : step.input = none) (href : step.inputRef = some ref) (hne : ref ≠ "")
    (hsplit : splitDots ref = "ctx" :: path) :
    resolveExecutionInput plan outputs step =
      (Runtime.getPathValue (some (.ofObject plan.context.merged)) path).getD .null := by
  have hfalsy : falsy (some ref) = false := by simp [falsy, hne]
  unfold resolveExecutionInput
  rw [hinput, href]
  dsimp only
  rw [if_neg (by rw [hfalsy]; exact Bool.false_ne_true), Option.getD_some]
  obtain ⟨rfl, rfl⟩ | ⟨hctx, hprefix, rfl⟩ := ctx_text hsplit
  · rw [if_pos rfl]
    rfl
  · rw [if_neg hctx, if_pos hprefix]

theorem inputKey_of_text (has : String → Bool) {step : ExecutionPlanStep}
    (hinput : step.input = none) (href : step.inputRef = some ref) (hne : ref ≠ "") {scope : String}
    (hsplit : splitDots ref = scope :: path) (hscope : scope ≠ "ctx") : inputKey has step =
      if has ref then some ref
      else match splitDots ref with
        | rootRef :: name :: _ :: _ =>
          if (rootRef = "run" ∨ rootRef = "out") ∧ has s!"{rootRef}.{name}" then
            some s!"{rootRef}.{name}"
          else none
        | _ => none := by
  have hfalsy : falsy (some ref) = false := by simp [falsy, hne]
  have hctx : ¬ (ref = "ctx" ∨ "ctx.".toList.isPrefixOf ref.toList = true) := fun h =>
    hscope (scope_ctx_of_text hsplit h)
  unfold inputKey
  rw [hinput, href]
  dsimp only
  rw [if_neg (by rw [hfalsy]; exact Bool.false_ne_true), Option.getD_some]
  exact if_neg hctx

/-- A reference that is not reported has its parts, and those into the document or the context
have a value. -/
theorem bound_of_not_reported (hreported : refDiagnostics ir e = [])
    (href : e.inputName = some ref) :
    ∃ binding, parseRef ref = some binding ∧
      (binding.scope = "ctx" ∨ binding.scope = "doc" → (boundValue ir binding).isSome) := by
  obtain ⟨hfalsy, hvalue, -⟩ := getD_of_filter href
  unfold refDiagnostics at hreported
  rw [hfalsy, if_neg Bool.false_ne_true, hvalue] at hreported
  dsimp only at hreported
  cases hbinding : parseRef ref with
  | none =>
    rw [hbinding] at hreported
    cases hreported
  | some binding =>
    rw [hbinding] at hreported
    have hnone : validateBinding ir binding e = none := Option.toList_eq_nil_iff.1 hreported
    refine ⟨binding, rfl, fun hscope => ?_⟩
    unfold validateBinding at hnone
    dsimp only at hnone
    split at hnone
    · cases hnone
    · split at hnone
      · cases hnone
      · next hctx =>
        split at hnone
        · cases hnone
        · next hdoc =>
          rw [Option.isSome_iff_ne_none]
          intro hunbound
          obtain hscope | hscope := hscope
          · exact hctx ⟨hscope, by rw [hunbound]; rfl⟩
          · exact hdoc ⟨hscope, by rw [hunbound]; rfl⟩

theorem inheritedName_segment {k : String} (h : inheritedName k = true) :
    (splitDots k).length = 1 := by
  have hall : ∀ k ∈ "__proto__" :: AionisValue.objectMethods, (splitDots k).length = 1 := by decide
  refine hall k ?_
  unfold inheritedName at h
  rw [Bool.or_eq_true, decide_eq_true_eq, decide_eq_true_eq] at h
  obtain h | rfl := h
  · exact List.mem_cons_of_mem _ h
  · exact List.mem_cons_self

theorem eq_of_splitDots_two {name scope segment : String} (h : splitDots name = [scope, segment]) :
    name = s!"{scope}.{segment}" := by
  have hjoin := intercalate_splitOn '.' name.toList
  rw [splitOn_eq_of_splitDots h, List.map_singleton, List.intercalate_cons_cons,
    List.intercalate_singleton] at hjoin
  apply String.toList_injective
  rw [← hjoin]
  simp [toString, String.toList_append]

end Found

section Run

variable {runtime : ModuleRegistryExecutionRuntime} {plan : ExecutionPlanV1} {ir : AionisDocIR}
  {j : Nat} {e : ExecuteIR} {ref : String} {binding : RefBinding} {s : ExecutionState}

/-- A reference that is followed finds what it denotes among the outputs. -/
theorem found_of_followed (hes : LaysOut plan ir.executions) (hkeeps : KeepsPrototype runtime plan)
    (hall : AllSucceeded runtime plan) (hs : stateAt runtime plan j = some s)
    (he : ir.executions[j]? = some e) (hinput : e.input = none) (href : e.inputName = some ref)
    (hbinding : parseRef ref = some binding) (htrim : trim ref = ref)
    (hctx : binding.scope ≠ "ctx") {i : Nat} {rest : List String}
    (hlatest : latestPrefix ir.executions (binding.scope :: binding.path) j = some (i, rest))
    (hrest : rest = [] ∨ ((binding.scope = "run" ∨ binding.scope = "out") ∧
      (binding.scope :: binding.path).length = rest.length + 2 ∧
      producer ir.executions j ref = none ∧
      (Runtime.getPathValue (outputOf (lastState runtime plan).nodeResults i) rest).isSome)) :
    ∃ v, Runtime.getPathValue (outputOf (lastState runtime plan).nodeResults i) rest = some v ∧
      resolveExecutionInput plan s.outputs (buildExecutionStep e j) = v := by
  obtain ⟨-, -, hsome, hne⟩ := getD_of_filter href
  have hgetD : (buildExecutionStep e j).inputRef.getD "" = ref := (getD_of_filter href).2.1
  have hsplit := splitDots_of_parseRef hbinding
  rw [htrim] at hsplit
  obtain ⟨hij, ⟨name, hname, hsegments⟩, hlast⟩ := latestPrefix_eq_some hlatest
  have hhas := has_eq_namedBefore hes hkeeps hall hs (List.getElem?_eq_some_iff.1 he).1
  have hinput : (buildExecutionStep e j).input = none := hinput
  have hkey := inputKey_of_text s.outputs.has hinput hsome hne hsplit hctx
  have hproducer : producer ir.executions j name = some i := by
    refine producer_eq_some.2 ⟨hij, hname, fun k hk hkj hkname => ?_⟩
    exact hlast k hk hkj name hkname ⟨rest, hsegments.symm⟩
  obtain ⟨v, hget, hout⟩ := get_of_producer hes hkeeps hall hs hproducer
  have hhasName : s.outputs.has name = true := by rw [AionisObject.has, hget]; rfl
  by_cases hnil : rest = []
  · subst hnil
    rw [List.append_nil, ← hsplit] at hsegments
    obtain rfl := splitDots_injective hsegments
    rw [if_pos hhasName] at hkey
    refine ⟨v, hout, ?_⟩
    rw [resolveExecutionInput_of_inputKey hkey, hgetD, hget, inputPath, if_pos rfl]
    rfl
  · obtain ⟨hscope, hlength, hnone, hpresent⟩ := hrest.resolve_left hnil
    obtain ⟨v', hv'⟩ := Option.isSome_iff_exists.1 hpresent
    obtain ⟨segment, rest', rfl⟩ := List.exists_cons_of_ne_nil hnil
    have htwo : (splitDots name).length = 2 := by
      rw [hsegments, List.length_append] at hlength
      omega
    obtain ⟨root, second, hroot⟩ := List.length_eq_two.1 htwo
    rw [hroot, List.cons_append, List.cons_append, List.nil_append] at hsegments
    obtain rfl := (List.cons.inj hsegments).1
    have hnot : ¬ s.outputs.has ref = true := by
      rw [hhas, namedBefore, hnone, Option.isSome_none, Bool.or_false]
      intro hinherited
      have hone := inheritedName_segment hinherited
      rw [hsplit, hsegments] at hone
      simp at hone
    obtain rfl := eq_of_splitDots_two hroot
    rw [if_neg hnot, hsplit, hsegments] at hkey
    dsimp only at hkey
    rw [if_pos ⟨hscope, hhasName⟩] at hkey
    have hdiffers : s!"{binding.scope}.{second}" ≠ ref := by
      rintro rfl
      exact hnot hhasName
    refine ⟨v', hv', ?_⟩
    rw [resolveExecutionInput_of_inputKey hkey, hgetD, hget, inputPath, if_neg hdiffers, hsplit,
      hsegments, ← hout]
    exact congrArg (·.getD .null) hv'

end Run

/-- In a run that succeeds throughout, and stores no output under `__proto__`, every step gets what
its reference denotes, where each reference is one that the runtime follows. -/
theorem references_reach_steps (source : String) (runtime : ModuleRegistryExecutionRuntime)
    (hclean : ∀ d ∈ (compileAionisDoc source).diagnostics, d.severity ≠ .error)
    (hkeeps : KeepsPrototype runtime (compileAionisDoc source).plan)
    (hall : AllSucceeded runtime (compileAionisDoc source).plan)
    (hfollowed : ∀ j e ref binding, (compileAionisDoc source).ir.executions[j]? = some e →
      e.input = none → e.inputName = some ref → parseRef ref = some binding →
        Followed (compileAionisDoc source).ir
          (lastState runtime (compileAionisDoc source).plan).nodeResults j ref binding) :
    GetsReferences runtime (compileAionisDoc source).ir (compileAionisDoc source).plan := by
  have hreported : ∀ e ∈ (compileAionisDoc source).ir.executions,
      refDiagnostics (compileAionisDoc source).ir e = [] := by
    intro e he
    rw [List.eq_nil_iff_forall_not_mem]
    intro d hd
    refine hclean d ?_ ?_
    · refine List.mem_append_left _ (List.mem_append_right _ ?_)
      exact List.mem_flatMap.2 ⟨e, he, hd⟩
    · unfold refDiagnostics at hd
      split at hd
      · cases hd
      · dsimp only at hd
        split at hd
        · rw [List.mem_singleton.1 hd]
          rfl
        · rw [Option.mem_toList] at hd
          unfold validateBinding at hd
          dsimp only at hd
          split at hd
          · rw [← Option.some.inj hd]
            rfl
          · split at hd
            · rw [← Option.some.inj hd]
              rfl
            · split at hd
              · rw [← Option.some.inj hd]
                rfl
              · cases hd
  have hmerged : (compileAionisDoc source).plan.context.merged =
      buildMergedContext (compileAionisDoc source).ir.context := mergeContextFrames_eq _
  have hes : LaysOut (compileAionisDoc source).plan (compileAionisDoc source).ir.executions :=
    laysOut _ _ _
  obtain ⟨ir, hir⟩ : ∃ ir, ir = (compileAionisDoc source).ir := ⟨_, rfl⟩
  obtain ⟨plan, hplan⟩ : ∃ plan, plan = (compileAionisDoc source).plan := ⟨_, rfl⟩
  rw [← hir] at hreported hmerged hes hfollowed ⊢
  rw [← hplan] at hmerged hes hkeeps hall hfollowed ⊢
  intro j e ref he hinput href
  obtain ⟨binding, hbinding, hbound⟩ := bound_of_not_reported
    (hreported e (List.mem_of_getElem? he)) href
  obtain ⟨-, -, hsome, hne⟩ := getD_of_filter href
  have hlt : j < plan.executions.length := by
    rw [hes.length]
    exact (List.getElem?_eq_some_iff.1 he).1
  obtain ⟨_, _, _, hend⟩ := succeeded_iff.1 (hall j hlt)
  obtain ⟨s, hs, -⟩ := Option.bind_eq_some_iff.1 hend
  obtain ⟨htrim, hscope⟩ := hfollowed j e ref binding he hinput href hbinding
  refine ⟨s, binding, ?_⟩
  by_cases hctx : binding.scope = "ctx"
  · obtain ⟨v, hv⟩ := Option.isSome_iff_exists.1 (hbound (Or.inl hctx))
    have hsplit := splitDots_of_parseRef hbinding
    rw [htrim, hctx] at hsplit
    refine ⟨v, hs, hbinding, ?_, ?_⟩
    · rw [denotedValue, if_pos (Or.inl hctx), hv]
    · have hinput : (buildExecutionStep e j).input = none := hinput
      rw [resolve_ctx hinput hsome hne hsplit, hmerged, ← getPathValue_eq]
      unfold boundValue at hv
      rw [if_pos hctx] at hv
      rw [hv]
      rfl
  · obtain ⟨hdoc, i, rest, hlatest, hrest⟩ := hscope.resolve_left hctx
    obtain ⟨v, hv, hresolve⟩ := found_of_followed hes hkeeps hall hs he hinput href hbinding htrim
      hctx hlatest hrest
    refine ⟨v, hs, hbinding, ?_, hresolve⟩
    rw [denotedValue, if_neg (by rintro (h | h); exacts [hctx h, hdoc h]), hlatest]
    exact hv

theorem keepsPrototype_of_names {runtime : ModuleRegistryExecutionRuntime} {plan : ExecutionPlanV1}
    (h : ∀ name ∈ plan.executions.map (·.outputRef), name ≠ some "__proto__") :
    KeepsPrototype runtime plan := fun _ _ hstep _ =>
  h _ (List.mem_map_of_mem (List.mem_of_getElem? hstep))

theorem allSucceeded_of_results {runtime : ModuleRegistryExecutionRuntime} {plan : ExecutionPlanV1}
    (h : (lastState runtime plan).nodeResults.map (·.status) =
      plan.executions.map fun _ => .success) : AllSucceeded runtime plan := by
  intro i hi
  have hstatus := congrArg (·[i]?) h
  rw [List.getElem?_map, List.getElem?_map, List.getElem?_eq_getElem hi] at hstatus
  exact hstatus

/-- One step reads the context, the next the output of the first. -/
def sampleReferences : String :=
  "@doc \x7bid:'d',version:'1'\x7d\n@context \x7bgoal:'g'\x7d\n" ++
  "@execute \x7bmodule:'a',input_ref:'ctx.goal',output_ref:'run.a'\x7d\n" ++
  "@execute \x7bmodule:'b',input_ref:'run.a'\x7d"

theorem sampleReferences_facts :
    (∀ d ∈ (compileAionisDoc sampleReferences).diagnostics, d.severity ≠ .error) ∧
    (∀ name ∈ (compileAionisDoc sampleReferences).plan.executions.map (·.outputRef),
      name ≠ some "__proto__") ∧
    ((lastState (choosingRuntime fun _ => true)
        (compileAionisDoc sampleReferences).plan).nodeResults.map (·.status) =
      (compileAionisDoc sampleReferences).plan.executions.map fun _ => .success) ∧
    (compileAionisDoc sampleReferences).ir.executions.map ExecuteIR.inputName =
      [some "ctx.goal", some "run.a"] ∧
    latestPrefix (compileAionisDoc sampleReferences).ir.executions ["run", "a"] 1 =
      some (0, []) := by decide +kernel

theorem sampleReferences_followed (j : Nat) (e : ExecuteIR) (ref : String) (binding : RefBinding)
    (he : (compileAionisDoc sampleReferences).ir.executions[j]? = some e)
    (href : e.inputName = some ref) (hbinding : parseRef ref = some binding) :
    Followed (compileAionisDoc sampleReferences).ir
      (lastState (choosingRuntime fun _ => true)
        (compileAionisDoc sampleReferences).plan).nodeResults j ref binding := by
  obtain ⟨-, -, -, hnames, hlatest⟩ := sampleReferences_facts
  have hname : [some "ctx.goal", some "run.a"][j]? = some (some ref) := by
    rw [← hnames, List.getElem?_map, he, ← href]
    rfl
  have hlt : j < 2 := (List.getElem?_eq_some_iff.1 hname).1
  have hcases : j = 0 ∧ ref = "ctx.goal" ∨ j = 1 ∧ ref = "run.a" := by
    clear he hnames
    interval_cases j
    · exact Or.inl ⟨rfl, (Option.some.inj (Option.some.inj hname)).symm⟩
    · exact Or.inr ⟨rfl, (Option.some.inj (Option.some.inj hname)).symm⟩
  obtain ⟨rfl, rfl⟩ | ⟨rfl, rfl⟩ := hcases
  · have hparsed : parseRef "ctx.goal" = some ⟨"ctx.goal", "ctx", ["goal"]⟩ := by decide
    obtain rfl := Option.some.inj (hparsed.symm.trans hbinding)
    exact ⟨by decide, Or.inl rfl⟩
  · have hparsed : parseRef "run.a" = some ⟨"run.a", "run", ["a"]⟩ := by decide
    obtain rfl := Option.some.inj (hparsed.symm.trans hbinding)
    exact ⟨by decide, Or.inr ⟨by decide, 0, [], hlatest, Or.inl rfl⟩⟩

theorem references_reach_steps_sample :
    GetsReferences (choosingRuntime fun _ => true) (compileAionisDoc sampleReferences).ir
      (compileAionisDoc sampleReferences).plan := by
  obtain ⟨hclean, hnames, hstatus, -⟩ := sampleReferences_facts
  have hkeeps := @keepsPrototype_of_names (choosingRuntime fun _ => true) _ hnames
  have hall := allSucceeded_of_results hstatus
  exact references_reach_steps sampleReferences (choosingRuntime fun _ => true) hclean hkeeps hall
    fun j e ref binding he _ => sampleReferences_followed j e ref binding he

/-- The step refers to a field of the document. -/
def documentReader : String :=
  "@doc \x7bid:'d',version:'1',x:'v'\x7d\n@execute \x7bmodule:'a',input_ref:'doc.x'\x7d"

/-- The compiler resolves a reference into the document; at run time it is null. -/
theorem document_reference_becomes_null :
    (compileAionisDoc documentReader).diagnostics = [] ∧
      AllSucceeded (choosingRuntime fun _ => true) (compileAionisDoc documentReader).plan ∧
      (compileAionisDoc documentReader).plan.executions.map (fun step =>
        (resolveExecutionInput (compileAionisDoc documentReader).plan {} step).isNull) = [true] ∧
      ¬ GetsReferences (choosingRuntime fun _ => true) (compileAionisDoc documentReader).ir
        (compileAionisDoc documentReader).plan := by
  obtain ⟨hclean, hstatus, hnull, hexecution, hdenoted⟩ :
      (compileAionisDoc documentReader).diagnostics = [] ∧
      ((lastState (choosingRuntime fun _ => true)
          (compileAionisDoc documentReader).plan).nodeResults.map (·.status) =
        (compileAionisDoc documentReader).plan.executions.map fun _ => .success) ∧
      (compileAionisDoc documentReader).plan.executions.map (fun step =>
        (resolveExecutionInput (compileAionisDoc documentReader).plan {} step).isNull) = [true] ∧
      (compileAionisDoc documentReader).ir.executions[0]?.map
        (fun e => (e.inputName, e.input.isNone)) = some (some "doc.x", true) ∧
      (denotedValue (compileAionisDoc documentReader).ir
        (lastState (choosingRuntime fun _ => true)
          (compileAionisDoc documentReader).plan).nodeResults 0 ⟨"doc.x", "doc", ["x"]⟩).map
        AionisValue.isNull = some false := by decide +kernel
  refine ⟨hclean, allSucceeded_of_results hstatus, hnull, fun h => ?_⟩
  obtain ⟨e, he, heq⟩ := Option.map_eq_some_iff.1 hexecution
  obtain ⟨hname, hinput⟩ := Prod.mk.inj heq
  obtain ⟨s, binding, v, hs, hbinding, hv, hresolve⟩ :=
    h 0 e "doc.x" he (Option.isNone_iff_eq_none.1 hinput) hname
  obtain rfl := Option.some.inj hs
  have hparsed : parseRef "doc.x" = some ⟨"doc.x", "doc", ["x"]⟩ := by decide
  obtain rfl := Option.some.inj (hparsed.symm.trans hbinding)
  have hes : LaysOut (compileAionisDoc documentReader).plan
    (compileAionisDoc documentReader).ir.executions := laysOut _ _ _
  have hat := congrArg (·[0]?) hnull
  rw [List.getElem?_map, hes.step he, Option.map_some, hresolve] at hat
  rw [hv] at hdenoted
  have hfalse := Option.some.inj hdenoted
  have htrue := Option.some.inj hat
  rw [hfalse] at htrue
  cases htrue

end AionisCore.AionisDoc
