import AionisCore.Memory.RuleRank

/-!
# Conditions with several entries

`matchPattern` reads an object as the conjunction of its entries only where no key begins with
`$`: of the logic operators the first decides alone, and beside other entries an operator is taken
for the name of a field.
-/

namespace AionisCore.Memory

open Lib

/-! ## Entries that are consulted -/

def isOperator (k : String) : Bool := "$".toList.isPrefixOf k.toList

/-- With a logic operator in it, an object's match depends on no other entry. -/
def consulted (decides : Option String) (k : String) : Bool :=
  match decides with
  | some op => k = op
  | none => true

mutual

/-- The paths of `addedPaths` that belong to consulted entries at every depth. -/
def testedPaths (path : String) : Json → List String
  | .null => []
  | .obj [] => pathHere path
  | .obj (f :: fields) =>
    testedByField path (logicOperator (f :: fields)) f ++
      testedByFields path (logicOperator (f :: fields)) fields
  | .arr _ => pathHere path
  | .bool _ => pathHere path
  | .num _ => pathHere path
  | .str _ => pathHere path

def testedByFields (path : String) (decides : Option String) : List (String × Json) → List String
  | [] => []
  | f :: fields => testedByField path decides f ++ testedByFields path decides fields

def testedByField (path : String) (decides : Option String) : String × Json → List String
  | (k, v) =>
    if consulted decides k = false then []
    else if k = "$and" ∨ k = "$or" then testedByOperand path v
    else if k = "$not" then testedPaths path v
    else if "$".toList.isPrefixOf k.toList then pathHere path
    else testedPaths (nextPath path k) v

def testedByOperand (path : String) : Json → List String
  | .arr patterns => testedByItems path patterns
  | _ => []

def testedByItems (path : String) : List Json → List String
  | [] => []
  | p :: patterns => testedPaths path p ++ testedByItems path patterns

end

/-- No more than one entry, or no operator. -/
def keysEntrywise (keys : List String) : Bool :=
  keys.length ≤ 1 || keys.all fun k => !isOperator k

mutual

/-- All objects of a condition have no more than one entry, or no operator. -/
def entrywise : Json → Bool
  | .obj fields => keysEntrywise (fields.map (·.1)) && fieldsEntrywise fields
  | _ => true

def fieldsEntrywise : List (String × Json) → Bool
  | [] => true
  | f :: fields => fieldEntrywise f && fieldsEntrywise fields

def fieldEntrywise : String × Json → Bool
  | (k, v) =>
    if k = "$and" ∨ k = "$or" then operandEntrywise v
    else if k ≠ "$not" ∧ "$".toList.isPrefixOf k.toList then true
    else entrywise v

def operandEntrywise : Json → Bool
  | .arr patterns => itemsEntrywise patterns
  | _ => true

def itemsEntrywise : List Json → Bool
  | [] => true
  | p :: patterns => entrywise p && itemsEntrywise patterns

end

/-- An object condition is the conjunction of its entries, each being what it is alone: without one
of them it matches no less, and every path that is counted belongs to entries that are
consulted. -/
structure ActsAsConjunction (host : RuleHost) (fields : Json.Fields) (exceptions : List Json)
    (ctx : Option Json) : Prop where
  conjunction : ruleMatchesContext host (.obj fields) (.arr exceptions) ctx =
    ((fields.all fun f => matchPattern host (.obj [f]) ctx) &&
      exceptions.all fun ex => !matchPattern host ex ctx)
  monotone : ∀ k, ruleMatchesContext host (.obj fields) (.arr exceptions) ctx = true →
    ruleMatchesContext host (.obj (fields.filter fun f => f.1 ≠ k)) (.arr exceptions) ctx = true
  tested : collectConditionPaths (.obj fields) ⊆ testedPaths "" (.obj fields)

section Match

variable {host : RuleHost} {fields : Json.Fields} {exceptions : List Json} {ctx : Option Json}

theorem ruleMatchesContext_obj :
    ruleMatchesContext host (.obj fields) (.arr exceptions) ctx =
      (matchPattern host (.obj fields) ctx &&
        exceptions.all fun ex => !matchPattern host ex ctx) := by
  cases fields with
  | nil => simp [ruleMatchesContext, unconditional, matchPattern, logicOperator, leafOperator,
      matchEntries, Json.asArray]
  | cons f fields => simp [ruleMatchesContext, unconditional, Json.truthy, Json.asArray]

theorem matchEntries_eq_all :
    matchEntries host fields ctx = fields.all fun f => matchEntry host f ctx := by
  induction fields with
  | nil => rfl
  | cons f fields ih => rw [matchEntries, ih, List.all_cons]

theorem get_isSome {k : String} : (Json.get fields k).isSome = true ↔ k ∈ fields.map (·.1) := by
  rw [Json.get, List.lookup_isSome_iff]
  simp

theorem isOperator_of_logic {op : String} (h : op ∈ ["$and", "$or", "$not"]) :
    isOperator op = true := by
  simp only [List.mem_cons, List.not_mem_nil, or_false] at h
  rcases h with rfl | rfl | rfl <;> decide

theorem logicOperator_mem {op : String} (h : logicOperator fields = some op) :
    op ∈ ["$and", "$or", "$not"] ∧ op ∈ fields.map (·.1) := by
  have hsome := @List.find?_some _ (fun op => (Json.get fields op).isSome) _ _ h
  exact ⟨List.mem_of_find?_eq_some h, get_isSome.1 hsome⟩

/-- Without operators all entries are fields. -/
theorem matchPattern_of_plain (h : ∀ k ∈ fields.map (·.1), isOperator k = false) :
    logicOperator fields = none ∧
      matchPattern host (.obj fields) ctx = fields.all fun f => matchEntry host f ctx := by
  have hlogic : logicOperator fields = none := by
    cases hop : logicOperator fields with
    | none => rfl
    | some op =>
      obtain ⟨hop, hmem⟩ := logicOperator_mem hop
      exact absurd (isOperator_of_logic hop) (by simp [h op hmem])
  have hleaf : leafOperator fields = none := by
    unfold leafOperator
    split
    · next f =>
      have hf := h f.1 (by simp)
      rw [isOperator] at hf
      rw [hf]
      rfl
    · rfl
  refine ⟨hlogic, ?_⟩
  rw [matchPattern, hlogic]
  dsimp only
  rw [hleaf]
  exact matchEntries_eq_all

theorem matchPattern_single_of_plain {f : String × Json} (h : isOperator f.1 = false) :
    matchPattern host (.obj [f]) ctx = matchEntry host f ctx := by
  rw [(matchPattern_of_plain (by simpa using h)).2, List.all_cons, List.all_nil, Bool.and_true]

theorem matchPattern_empty : matchPattern host (.obj []) ctx = true := by
  rw [(matchPattern_of_plain (by simp)).2]
  rfl

/-! ## Where an object is a conjunction -/

theorem keysEntrywise_iff {keys : List String} :
    keysEntrywise keys = true ↔ keys.length ≤ 1 ∨ ∀ k ∈ keys, isOperator k = false := by
  simp [keysEntrywise]

/-- In an entrywise object all entries are consulted. -/
theorem consulted_of_keys (h : keysEntrywise (fields.map (·.1)) = true) :
    ∀ f ∈ fields, consulted (logicOperator fields) f.1 = true := by
  intro f hf
  cases hop : logicOperator fields with
  | none => rfl
  | some op =>
    obtain ⟨hlogic, hmem⟩ := logicOperator_mem hop
    rcases keysEntrywise_iff.1 h with hlength | hplain
    · match fields, hlength with
      | [f'], _ =>
        obtain rfl := List.mem_singleton.1 hf
        have hkey : op = f.1 := by simpa using hmem
        simp [consulted, hkey]
    · exact absurd (isOperator_of_logic hlogic) (by simp [hplain op hmem])

mutual

theorem testedPaths_eq (path : String) :
    ∀ c : Json, entrywise c = true → testedPaths path c = addedPaths path c
  | .null, _ => rfl
  | .bool _, _ => rfl
  | .num _, _ => rfl
  | .str _, _ => rfl
  | .arr _, _ => rfl
  | .obj [], _ => rfl
  | .obj (f :: fields), h => by
    rw [entrywise, Bool.and_eq_true, fieldsEntrywise, Bool.and_eq_true] at h
    have hall := consulted_of_keys h.1
    rw [testedPaths, addedPaths, testedByField_eq path _ f h.2.1 (hall f List.mem_cons_self),
      testedByFields_eq path _ fields h.2.2 fun f' hf => hall f' (List.mem_cons_of_mem _ hf)]

theorem testedByFields_eq (path : String) (decides : Option String) :
    ∀ fields : List (String × Json), fieldsEntrywise fields = true →
      (∀ f ∈ fields, consulted decides f.1 = true) →
      testedByFields path decides fields = addedByFields path fields
  | [], _, _ => rfl
  | f :: fields, h, hall => by
    rw [fieldsEntrywise, Bool.and_eq_true] at h
    rw [testedByFields, addedByFields,
      testedByField_eq path decides f h.1 (hall f List.mem_cons_self),
      testedByFields_eq path decides fields h.2 fun f' hf => hall f' (List.mem_cons_of_mem _ hf)]

theorem testedByField_eq (path : String) (decides : Option String) :
    ∀ f : String × Json, fieldEntrywise f = true → consulted decides f.1 = true →
      testedByField path decides f = addedByField path f
  | (k, v), h, hall => by
    rw [fieldEntrywise] at h
    rw [testedByField, addedByField, if_neg (by simpa using hall)]
    by_cases hmany : k = "$and" ∨ k = "$or"
    · rw [if_pos hmany] at h
      rw [if_pos hmany, if_pos hmany]
      cases v with
      | arr patterns => exact testedByItems_eq path patterns h
      | _ => rfl
    · rw [if_neg hmany] at h
      rw [if_neg hmany, if_neg hmany]
      by_cases hnot : k = "$not"
      · rw [if_neg (fun hk => hk.1 hnot)] at h
        rw [if_pos hnot, if_pos hnot]
        exact testedPaths_eq path v h
      · rw [if_neg hnot, if_neg hnot]
        by_cases hop : "$".toList.isPrefixOf k.toList = true
        · rw [if_pos hop, if_pos hop]
        · rw [if_neg (fun hk => hop hk.2)] at h
          rw [if_neg hop, if_neg hop]
          exact testedPaths_eq (nextPath path k) v h

theorem testedByItems_eq (path : String) :
    ∀ patterns : List Json, itemsEntrywise patterns = true →
      testedByItems path patterns = addedByItems path patterns
  | [], _ => rfl
  | p :: patterns, h => by
    rw [itemsEntrywise, Bool.and_eq_true] at h
    rw [testedByItems, addedByItems, testedPaths_eq path p h.1, testedByItems_eq path patterns h.2]

end

theorem collectConditionPaths_tested (hkeys : keysEntrywise (fields.map (·.1)) = true)
    (hwithin : fieldsEntrywise fields = true) :
    collectConditionPaths (.obj fields) ⊆ testedPaths "" (.obj fields) := by
  have hentrywise : entrywise (.obj fields) = true := by
    rw [entrywise, hkeys, hwithin]
    rfl
  intro path hpath
  rw [testedPaths_eq "" _ hentrywise]
  exact List.mem_eraseDups.1 hpath

theorem actsAsConjunction_of_single (h : fields.length ≤ 1)
    (hwithin : fieldsEntrywise fields = true) :
    ActsAsConjunction host fields exceptions ctx := by
  have hkeys : keysEntrywise (fields.map (·.1)) = true :=
    keysEntrywise_iff.2 (.inl (by simpa using h))
  have htested := collectConditionPaths_tested hkeys hwithin
  match fields, h, htested with
  | [], _, htested =>
    refine ⟨?_, fun k hmatch => hmatch, htested⟩
    rw [ruleMatchesContext_obj, matchPattern_empty]
    rfl
  | [f], _, htested =>
    refine ⟨?_, fun k hmatch => ?_, htested⟩
    · rw [ruleMatchesContext_obj, List.all_cons, List.all_nil, Bool.and_true]
    · rw [ruleMatchesContext_obj, Bool.and_eq_true] at hmatch ⊢
      refine ⟨?_, hmatch.2⟩
      by_cases hk : f.1 = k
      · rw [List.filter_cons_of_neg (by simpa using hk)]
        exact matchPattern_empty
      · rw [List.filter_cons_of_pos (by simpa using hk)]
        exact hmatch.1

theorem actsAsConjunction_of_plain (h : ∀ k ∈ fields.map (·.1), isOperator k = false)
    (hwithin : fieldsEntrywise fields = true) :
    ActsAsConjunction host fields exceptions ctx := by
  have htested := collectConditionPaths_tested (keysEntrywise_iff.2 (.inr h)) hwithin
  refine ⟨?_, fun k hmatch => ?_, htested⟩
  · rw [ruleMatchesContext_obj, (matchPattern_of_plain h).2]
    congr 1
    rw [Bool.eq_iff_iff, List.all_eq_true, List.all_eq_true]
    refine forall₂_congr fun f hf => ?_
    rw [matchPattern_single_of_plain (h f.1 (List.mem_map_of_mem hf))]
  · have hrest : ∀ k' ∈ (fields.filter fun f => f.1 ≠ k).map (·.1), isOperator k' = false := by
      intro k' hk'
      obtain ⟨f, hf, rfl⟩ := List.mem_map.1 hk'
      exact h f.1 (List.mem_map_of_mem (List.mem_filter.1 hf).1)
    rw [ruleMatchesContext_obj, Bool.and_eq_true] at hmatch ⊢
    rw [(matchPattern_of_plain h).2, List.all_eq_true] at hmatch
    rw [(matchPattern_of_plain hrest).2, List.all_eq_true]
    exact ⟨fun f hf => hmatch.1 f (List.mem_filter.1 hf).1, hmatch.2⟩

end Match

/-! ## Where it is not -/

/-- An operand with which a logic operator holds of the empty record. -/
def holdingOperand (op : String) : Json :=
  if op = "$and" then .arr [] else if op = "$or" then .arr [.obj []] else .num 1

/-- A value with which an entry does not hold of the empty record. -/
def failingValue (k : String) : Json :=
  if k = "$not" ∨ k = "$ne" then .obj [] else if k = "$exists" then .bool false else .num 1

section Counterexamples

variable {host : RuleHost}

theorem holdingOperand_holds {op : String} (h : op ∈ ["$and", "$or", "$not"])
    (fields : Json.Fields)
    (hget : fields.find? (fun f => f.1 = op) = some (op, holdingOperand op)) :
    matchLogic host op fields (some (.obj [])) = true := by
  induction fields with
  | nil => cases hget
  | cons f fields ih =>
    rw [matchLogic]
    by_cases hf : f.1 = op
    · rw [List.find?_cons_of_pos (by simpa using hf)] at hget
      obtain rfl := Option.some.inj hget
      rw [if_pos rfl]
      simp only [List.mem_cons, List.not_mem_nil, or_false] at h
      rcases h with rfl | rfl | rfl
      · simp [matchOperand, holdingOperand, matchOperands, matchAll]
      · simp [matchOperand, holdingOperand, matchOperands, matchAny, matchPattern_empty]
      · simp [matchOperand, holdingOperand, matchPattern, deepEqualTo, deepEqual]
    · rw [List.find?_cons_of_neg (by simpa using hf)] at hget
      rw [if_neg hf]
      exact ih hget

theorem matchPattern_operator {k : String} {v : Json} {ctx : Option Json}
    (h : isOperator k = true) (hlogic : k ∉ ["$and", "$or", "$not"]) :
    matchPattern host (.obj [(k, v)]) ctx = opEval host k v ctx := by
  have hnone : logicOperator [(k, v)] = none := by
    cases hop : logicOperator [(k, v)] with
    | none => rfl
    | some op =>
      obtain ⟨hmem, hkey⟩ := logicOperator_mem hop
      obtain rfl : op = k := by simpa using hkey
      exact absurd hmem hlogic
  have hleaf : leafOperator [(k, v)] = some (k, v) := by
    simp only [leafOperator]
    exact if_pos h
  rw [matchPattern, hnone]
  dsimp only
  rw [hleaf]

theorem foldl_pathStep_none (parts : List String) : parts.foldl pathStep none = none := by
  induction parts with
  | nil => rfl
  | cons p parts ih => exact ih

theorem entryValue_empty (k : String) : entryValue (some (.obj [])) k = none := by
  unfold entryValue
  split
  · unfold getByPath
    split
    · rfl
    · cases hparts : splitDots k with
      | nil =>
        have hne : splitDots k ≠ [] := by
          rw [splitDots, ne_eq, List.map_eq_nil_iff]
          exact List.splitOn_ne_nil _ _
        exact absurd hparts hne
      | cons p parts => exact foldl_pathStep_none parts
  · rfl

theorem failingValue_fails (k : String) :
    matchPattern host (.obj [(k, failingValue k)]) (some (.obj [])) = false := by
  by_cases hop : isOperator k = true
  · by_cases hlogic : k ∈ ["$and", "$or", "$not"]
    · simp only [List.mem_cons, List.not_mem_nil, or_false] at hlogic
      rcases hlogic with rfl | rfl | rfl
      · simp [matchPattern, logicOperator, matchLogic, matchOperand, failingValue, matchOperands]
      · simp [matchPattern, logicOperator, matchLogic, matchOperand, failingValue, matchOperands]
      · have hnot : logicOperator [("$not", failingValue "$not")] = some "$not" := rfl
        rw [matchPattern, hnot]
        simp [matchLogic, matchOperand, failingValue, matchPattern_empty]
    · rw [matchPattern_operator hop hlogic]
      unfold opEval failingValue
      simp only [List.mem_cons, List.not_mem_nil, or_false, not_or] at hlogic
      by_cases hne : k = "$ne"
      · subst hne
        simp [deepEqualTo, deepEqual, deepEqualFields]
      · by_cases hexists : k = "$exists"
        · subst hexists
          simp [Json.truthy]
        · simp [hne, hexists, hlogic, deepEqualTo, deepEqual, Json.asArray, numberTest, containsOp,
            regexOp]
  · rw [Bool.not_eq_true] at hop
    have hvalue : failingValue k = .num 1 := by
      have hk : ∀ op, isOperator op = true → k ≠ op := by
        rintro op h rfl
        rw [h] at hop
        cases hop
      rw [failingValue, if_neg (by
        rintro (h | h)
        · exact hk "$not" (by decide) h
        · exact hk "$ne" (by decide) h), if_neg (hk "$exists" (by decide))]
    rw [matchPattern_single_of_plain hop, matchEntry, entryValue_empty, hvalue]
    rfl

/-- A value with which an entry holds of the sample context as a field. -/
def fieldValue (k : String) : Json := if k = "$exists" then .bool false else .obj []

/-- A context of which an operator does not hold with its value as a field. -/
def failingContext (k : String) : Json :=
  if k = "$exists" then .obj [("$exists", .bool false)]
  else if k = "$ne" then .obj [] else .obj [("a", .num 1)]

theorem fieldValue_matches (k : String) :
    matchEntry host (k, fieldValue k) (some (failingContext k)) = true := by
  rw [matchEntry]
  by_cases h : k = "$exists"
  · subst h
    have hvalue : entryValue (some (failingContext "$exists")) "$exists" = some (.bool false) := by
      decide +kernel
    rw [hvalue]
    simp [fieldValue, matchPattern, deepEqualTo, deepEqual]
  · rw [fieldValue, if_neg h]
    exact matchPattern_empty

theorem fieldValue_fails {k : String} (hop : isOperator k = true)
    (hlogic : k ∉ ["$and", "$or", "$not"]) :
    matchPattern host (.obj [(k, fieldValue k)]) (some (failingContext k)) = false := by
  rw [matchPattern_operator hop hlogic]
  unfold opEval fieldValue failingContext
  by_cases hexists : k = "$exists"
  · subst hexists
    simp [Json.truthy]
  · by_cases hne : k = "$ne"
    · subst hne
      simp [deepEqualTo, deepEqual, deepEqualFields]
    · simp [hne, hexists, deepEqualTo, deepEqual, Json.asArray, numberTest, containsOp, regexOp]

end Counterexamples

theorem logicOperator_eq (fields : Json.Fields) :
    logicOperator fields = ["$and", "$or", "$not"].find? fun op => op ∈ fields.map (·.1) := by
  unfold logicOperator
  congr 1
  funext op
  rw [Bool.eq_iff_iff, get_isSome, decide_eq_true_eq]

theorem leafOperator_of_length {fields : Json.Fields} (h : 1 < fields.length) :
    leafOperator fields = none := by
  unfold leafOperator
  split
  · simp at h
  · rfl

/-- The object with these keys and these values. -/
def objectOf (keys : List String) (value : String → Json) : Json.Fields :=
  keys.map fun k => (k, value k)

theorem objectOf_keys (keys : List String) (value : String → Json) :
    (objectOf keys value).map (·.1) = keys := by
  rw [objectOf, List.map_map]
  exact List.map_id keys

variable {keys : List String}

theorem find?_objectOf {value : String → Json} {k : String} (h : k ∈ keys) :
    (objectOf keys value).find? (fun f => f.1 = k) = some (k, value k) := by
  induction keys with
  | nil => cases h
  | cons k' keys ih =>
    rw [objectOf, List.map_cons]
    by_cases hk : k' = k
    · rw [hk, List.find?_cons_of_pos (by simp)]
    · rw [List.find?_cons_of_neg (by simpa using hk)]
      exact ih ((List.mem_cons.1 h).resolve_left (Ne.symm hk))

theorem exists_other (hkeys : keys.Nodup) (h : 1 < keys.length) (k : String) :
    ∃ k' ∈ keys, k' ≠ k := by
  by_contra hall
  push Not at hall
  rw [List.eq_replicate_of_mem hall, List.nodup_replicate] at hkeys
  omega

/-- An object that matches although one of its entries does not is no conjunction. -/
theorem not_actsAsConjunction {host : RuleHost} {fields : Json.Fields} {ctx : Option Json}
    {f : String × Json} (hf : f ∈ fields) (hmatch : matchPattern host (.obj fields) ctx = true)
    (hfails : matchPattern host (.obj [f]) ctx = false) :
    ¬ ActsAsConjunction host fields [] ctx := by
  intro hacts
  have hconj := hacts.conjunction
  rw [ruleMatchesContext_obj, hmatch, List.all_nil, Bool.and_true, Bool.and_true] at hconj
  have hall := List.all_eq_true.1 hconj.symm f hf
  rw [hfails] at hall
  cases hall

theorem fieldsEntrywise_objectOf {value : String → Json}
    (h : ∀ k ∈ keys, fieldEntrywise (k, value k) = true) :
    fieldsEntrywise (objectOf keys value) = true := by
  induction keys with
  | nil => rfl
  | cons k keys ih =>
    rw [objectOf, List.map_cons, fieldsEntrywise, h k List.mem_cons_self, Bool.true_and]
    exact ih fun k' hk' => h k' (List.mem_cons_of_mem _ hk')

theorem fieldEntrywise_flat {k : String} {v : Json} (hv : entrywise v = true)
    (hitems : ∀ patterns, v = .arr patterns → itemsEntrywise patterns = true) :
    fieldEntrywise (k, v) = true := by
  rw [fieldEntrywise]
  split
  · cases v with
    | arr patterns => exact hitems patterns rfl
    | _ => rfl
  · split
    · rfl
    · exact hv

theorem holdingOperand_entrywise (k op : String) :
    fieldEntrywise (k, holdingOperand op) = true := by
  unfold holdingOperand
  split_ifs <;> refine fieldEntrywise_flat rfl fun patterns h => ?_ <;> cases h <;> rfl

theorem failingValue_entrywise (k : String) : fieldEntrywise (k, failingValue k) = true := by
  unfold failingValue
  split_ifs <;> refine fieldEntrywise_flat rfl fun patterns h => ?_ <;> cases h

theorem fieldValue_entrywise (k k' : String) : fieldEntrywise (k', fieldValue k) = true := by
  unfold fieldValue
  split_ifs <;> refine fieldEntrywise_flat rfl fun patterns h => ?_ <;> cases h

/-- Where the conditions within are entrywise, an object is the conjunction of its entries, whatever
the values and the context, just if it has no more than one, or no key begins with `$`. -/
theorem rule_conjunction_iff {keys : List String} (hkeys : keys.Nodup) :
    (∀ host fields exceptions ctx, fields.map (·.1) = keys → fieldsEntrywise fields = true →
      ActsAsConjunction host fields exceptions ctx) ↔
    keysEntrywise keys = true := by
  rw [keysEntrywise_iff]
  constructor
  · intro hacts
    by_contra hnot
    push Not at hnot
    obtain ⟨hlength, k, hk, hop⟩ := hnot
    rw [ne_eq, Bool.not_eq_false] at hop
    cases hfirst : ["$and", "$or", "$not"].find? fun op => decide (op ∈ keys) with
    | some op =>
      -- The first logic operator holds, and another entry does not.
      have hlogic : op ∈ ["$and", "$or", "$not"] := List.mem_of_find?_eq_some hfirst
      have hmem : op ∈ keys := by simpa using List.find?_some hfirst
      obtain ⟨k', hk', hne⟩ := exists_other hkeys hlength op
      set value : String → Json := fun k =>
        if k = op then holdingOperand op else failingValue k with hvalue
      have hwithin : fieldsEntrywise (objectOf keys value) = true := by
        refine fieldsEntrywise_objectOf fun k _ => ?_
        simp only [hvalue]
        split
        · exact holdingOperand_entrywise k op
        · exact failingValue_entrywise k
      have hmatch : matchPattern sampleRuleHost (.obj (objectOf keys value))
          (some (.obj [])) = true := by
        rw [matchPattern, logicOperator_eq, objectOf_keys, hfirst]
        refine holdingOperand_holds hlogic _ ?_
        rw [find?_objectOf hmem, hvalue]
        dsimp only
        rw [if_pos rfl]
      refine not_actsAsConjunction (List.mem_map_of_mem hk') hmatch ?_
        (hacts _ _ _ _ (objectOf_keys keys _) hwithin)
      have hfails : value k' = failingValue k' := if_neg hne
      rw [hfails]
      exact failingValue_fails k'
    | none =>
      -- All entries are taken for fields, also the operator.
      have hlogic : k ∉ ["$and", "$or", "$not"] := fun h => by
        simpa [hk] using List.find?_eq_none.1 hfirst k h
      set value : String → Json := fun k' => if k' = k then fieldValue k else .obj [] with hvalue
      have hwithin : fieldsEntrywise (objectOf keys value) = true := by
        refine fieldsEntrywise_objectOf fun k' _ => ?_
        simp only [hvalue]
        split
        · exact fieldValue_entrywise k k'
        · exact fieldEntrywise_flat rfl nofun
      have hmatch : matchPattern sampleRuleHost (.obj (objectOf keys value))
          (some (failingContext k)) = true := by
        have hleaf : leafOperator (objectOf keys value) = none :=
          leafOperator_of_length (by simpa [objectOf] using hlength)
        rw [matchPattern, logicOperator_eq, objectOf_keys, hfirst]
        dsimp only
        rw [hleaf]
        dsimp only
        rw [matchEntries_eq_all, List.all_eq_true]
        intro f hf
        obtain ⟨k', -, rfl⟩ := List.mem_map.1 hf
        by_cases heq : k' = k
        · have hfield : value k' = fieldValue k := if_pos heq
          rw [hfield, heq]
          exact fieldValue_matches k
        · have hempty : value k' = .obj [] := if_neg heq
          rw [hempty, matchEntry]
          exact matchPattern_empty
      refine not_actsAsConjunction (List.mem_map_of_mem hk) hmatch ?_
        (hacts _ _ _ _ (objectOf_keys keys _) hwithin)
      have hfield : value k = fieldValue k := if_pos rfl
      rw [hfield]
      exact fieldValue_fails hop hlogic
  · rintro (hlength | hplain) host fields exceptions ctx rfl hwithin
    · exact actsAsConjunction_of_single (by simpa using hlength) hwithin
    · exact actsAsConjunction_of_plain hplain hwithin

theorem rule_conjunction_iff_tool :
    (∀ host fields exceptions ctx, fields.map (·.1) = ["$and", "tool"] →
      fieldsEntrywise fields = true → ActsAsConjunction host fields exceptions ctx) ↔
    keysEntrywise ["$and", "tool"] = true :=
  rule_conjunction_iff (by decide)

/-- With an empty `$and` beside it, a condition on the tool matches every context, and its path is
still counted. -/
theorem tool_condition_ignored :
    ruleMatchesContext sampleRuleHost (.obj [("tool", .str "x")]) (.arr [])
        (some (.obj [("tool", .str "y")])) = false ∧
      ruleMatchesContext sampleRuleHost (.obj [("tool", .str "x"), ("$and", .arr [])]) (.arr [])
        (some (.obj [("tool", .str "y")])) = true ∧
      collectConditionPaths (.obj [("tool", .str "x"), ("$and", .arr [])]) = ["tool"] ∧
      testedPaths "" (.obj [("tool", .str "x"), ("$and", .arr [])]) = [] := by
  refine ⟨?_, ?_, ?_, ?_⟩ <;> decide +kernel

end AionisCore.Memory
