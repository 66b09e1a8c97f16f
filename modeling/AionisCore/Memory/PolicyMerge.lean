import AionisCore.Lib.JsonPath
import AionisCore.Memory.RulesEvaluate

/-!
# Merging policy patches

`buildAppliedPolicy` merges the patches of rules into one policy, the later over the earlier:
records are merged, lists united, and any other value is overwritten, which is recorded as a
conflict where the values differ.
-/

namespace AionisCore.Memory

open Lib Lib.Json

/-- A conflict at the path of these keys. -/
structure PolicyConflict where
  keys : List String
  winnerRuleNodeId : String
  deriving DecidableEq

/-- `path`, or `"$"` at the root. -/
def PolicyConflict.path (c : PolicyConflict) : String :=
  if c.keys = [] then "$" else ".".intercalate c.keys

/-- The entries of both lists, each at its first place. -/
def mergeArrays (a b : List Json) : List Json := (a ++ b).eraseDups

mutual

/-- `mergeDeep` of two values that are defined. -/
def mergeDeep (base : Json) : Json → Json
  | .arr b =>
    match base with
    | .arr a => .arr (mergeArrays a b)
    | _ => .arr b
  | .obj b =>
    match base with
    | .obj a => .obj (mergeFields a b)
    | _ => .obj b
  | patch => patch

/-- The loop over the entries of a patch. -/
def mergeFields (out : List (String × Json)) : List (String × Json) → List (String × Json)
  | [] => out
  | f :: rest => mergeFields (mergeField out f) rest

def mergeField (out : List (String × Json)) : String × Json → List (String × Json)
  | (k, v) =>
    Json.set out k
      (match get out k with
        | none => v
        | some base => mergeDeep base v)

end

/-- `if (stableKey(base) !== stableKey(patch)) conflicts.push(…)`. The texts of two values are the
same just if the values are. -/
def overwritten (winner : String) (path : List String) (base patch : Json) : List PolicyConflict :=
  if base = patch then [] else [⟨path, winner⟩]

mutual

/-- The conflicts that `mergeDeep` records. -/
def mergeConflicts (winner : String) (path : List String) (base : Json) :
    Json → List PolicyConflict
  | .arr b =>
    match base with
    | .arr _ => []
    | _ => overwritten winner path base (.arr b)
  | .obj b =>
    match base with
    | .obj a => fieldsConflicts winner path a b
    | _ => overwritten winner path base (.obj b)
  | patch => overwritten winner path base patch

def fieldsConflicts (winner : String) (path : List String) (out : List (String × Json)) :
    List (String × Json) → List PolicyConflict
  | [] => []
  | f :: rest =>
    fieldConflicts winner path out f ++ fieldsConflicts winner path (mergeField out f) rest

def fieldConflicts (winner : String) (path : List String) (out : List (String × Json)) :
    String × Json → List PolicyConflict
  | (k, v) =>
    match get out k with
    | none => []
    | some base => mergeConflicts winner (path ++ [k]) base v

end

/-! ## Values of a merge -/

/-- Both are records, or both lists, or they are the same. -/
def Alike (v w : Json) : Prop :=
  isRecord v = true ∧ isRecord w = true ∨ isArray v = true ∧ isArray w = true ∨ v = w

/-- What a value becomes under one that is merged over it. -/
def mergeOver (base : Option Json) (v : Json) : Json :=
  match base with
  | none => v
  | some b => mergeDeep b v

section Values

variable {base patch : Json} {out fields : Fields} {k : String} {path : List String}

theorem get_mergeField (f : String × Json) :
    get (mergeField out f) k =
      if k = f.1 then some (mergeOver (get out k) f.2) else get out k := by
  rw [mergeField, get_set]
  by_cases hk : k = f.1
  · rw [if_pos hk, if_pos hk, hk]
    cases get out f.1 <;> rfl
  · rw [if_neg hk, if_neg hk]

theorem get_mergeFields (hkeys : (fields.map (·.1)).Nodup) :
    get (mergeFields out fields) k =
      match get fields k with
      | none => get out k
      | some v => some (mergeOver (get out k) v) := by
  induction fields generalizing out with
  | nil => rfl
  | cons f fields ih =>
    rw [List.map_cons, List.nodup_cons] at hkeys
    rw [mergeFields, ih hkeys.2, get_mergeField, get_cons]
    by_cases hk : k = f.1
    · have hnone : get fields k = none := by
        cases hget : get fields k with
        | none => rfl
        | some v =>
          have hmem := List.mem_map_of_mem (f := (·.1)) (mem_of_get hget)
          rw [hk] at hmem
          exact absurd hmem hkeys.1
      rw [hnone, if_pos hk, if_pos hk]
    · rw [if_neg hk, if_neg hk]

theorem mergeDeep_of_not_alike (h : isRecord base = false ∨ isRecord patch = false)
    (h' : isArray base = false ∨ isArray patch = false) : mergeDeep base patch = patch := by
  cases patch with
  | obj b =>
    cases base with
    | obj a => simp [isRecord] at h
    | _ => rfl
  | arr b =>
    cases base with
    | arr a => simp [isArray] at h'
    | _ => rfl
  | _ => rfl

theorem valueAt_of_not_record {v : Json} (h : isRecord v = false) (k : String) :
    valueAt v (k :: path) = none ∧ blocks v (k :: path) = true := by
  cases v with
  | obj fields => cases h
  | _ => exact ⟨rfl, rfl⟩

/-- The value at a path of a merge: the patch's over the base's, if the patch has one there, and
the base's, if the patch has nothing on the way. -/
theorem valueAt_mergeDeep (hpatch : Distinct patch) :
    valueAt (mergeDeep base patch) path =
      match valueAt patch path with
      | some v => some (mergeOver (valueAt base path) v)
      | none => if blocks patch path then none else valueAt base path := by
  induction path generalizing base patch with
  | nil => rfl
  | cons k path ih =>
    by_cases hpatchRecord : isRecord patch = true
    · by_cases hbaseRecord : isRecord base = true
      · cases patch with
        | obj fields =>
          cases base with
          | obj out =>
            have hfields := distinctFields_iff.1 hpatch.2
            rw [mergeDeep, valueAt, get_mergeFields hpatch.1, valueAt, blocks, valueAt]
            cases hget : get fields k with
            | none => rfl
            | some v =>
              rw [Option.bind_some, Option.bind_some, Option.any_some]
              cases hbase : get out k with
              | none =>
                rw [Option.bind_none, mergeOver]
                cases valueAt v path with
                | none => simp
                | some w => rfl
              | some b =>
                rw [Option.bind_some]
                exact ih (hfields _ (mem_of_get hget))
          | _ => cases hbaseRecord
        | _ => cases hpatchRecord
      · -- The record of the patch takes the place of what was there.
        rw [Bool.not_eq_true] at hbaseRecord
        have harray : isArray patch = false := by
          cases patch with
          | obj fields => rfl
          | _ => cases hpatchRecord
        rw [mergeDeep_of_not_alike (.inl hbaseRecord) (.inr harray),
          (valueAt_of_not_record hbaseRecord k).1]
        cases valueAt patch (k :: path) with
        | none => simp
        | some v => rfl
    · rw [Bool.not_eq_true] at hpatchRecord
      obtain ⟨hnone, hblocks⟩ := @valueAt_of_not_record path patch hpatchRecord k
      rw [hnone, hblocks, if_pos rfl]
      have hmerged : isRecord (mergeDeep base patch) = false := by
        cases patch with
        | obj fields => cases hpatchRecord
        | arr b => cases base <;> rfl
        | _ => rfl
      exact (valueAt_of_not_record hmerged k).1

end Values

/-! ## Conflicts of a merge -/

section Conflicts

variable {winner : String} {base patch v w u : Json} {path : List String} {c : PolicyConflict}

theorem Alike.refl (v : Json) : Alike v v := .inr (.inr rfl)

theorem Alike.symm (h : Alike v w) : Alike w v := by
  rcases h with ⟨hv, hw⟩ | ⟨hv, hw⟩ | rfl
  · exact .inl ⟨hw, hv⟩
  · exact .inr (.inl ⟨hw, hv⟩)
  · exact .refl v

theorem isArray_of_isRecord (h : isRecord v = true) : isArray v = false := by
  cases v with
  | obj fields => rfl
  | _ => cases h

theorem Alike.isRecord_eq (h : Alike v w) : isRecord v = isRecord w := by
  rcases h with ⟨hv, hw⟩ | ⟨hv, hw⟩ | rfl
  · rw [hv, hw]
  · have hnot : ∀ {v : Json}, isArray v = true → isRecord v = false := by
      intro v hv
      by_contra hr
      rw [isArray_of_isRecord (Bool.eq_true_of_not_eq_false hr)] at hv
      cases hv
    rw [hnot hv, hnot hw]
  · rfl

theorem Alike.isArray_eq (h : Alike v w) : isArray v = isArray w := by
  rcases h with ⟨hv, hw⟩ | ⟨hv, hw⟩ | rfl
  · rw [isArray_of_isRecord hv, isArray_of_isRecord hw]
  · rw [hv, hw]
  · rfl

theorem Alike.trans (h : Alike v w) (h' : Alike w u) : Alike v u := by
  rcases h with ⟨hv, hw⟩ | ⟨hv, hw⟩ | rfl
  · exact .inl ⟨hv, by rw [← h'.isRecord_eq, hw]⟩
  · exact .inr (.inl ⟨hv, by rw [← h'.isArray_eq, hw]⟩)
  · exact h'

theorem Alike.eq_of_isScalar (h : Alike v w) (hv : isScalar v = true) : v = w := by
  rw [isScalar, Bool.and_eq_true, Bool.not_eq_true', Bool.not_eq_true'] at hv
  rcases h with ⟨hr, -⟩ | ⟨ha, -⟩ | h
  · rw [hv.1] at hr
    cases hr
  · rw [hv.2] at ha
    cases ha
  · exact h

/-- What is merged over a value is alike to it, or takes its place. -/
theorem mergeDeep_alike : Alike (mergeDeep base patch) patch := by
  cases patch with
  | obj b => cases base <;> exact .inl ⟨rfl, rfl⟩
  | arr b => cases base <;> exact .inr (.inl ⟨rfl, rfl⟩)
  | _ => exact .refl _

theorem mergeOver_alike {base : Option Json} : Alike (mergeOver base v) v := by
  cases base with
  | none => exact .refl v
  | some b => exact mergeDeep_alike

theorem mem_overwritten :
    c ∈ overwritten winner path base patch ↔ c = ⟨path, winner⟩ ∧ base ≠ patch := by
  unfold overwritten
  split
  · next h => simp [h]
  · next h => simp [h]

/-- Of values that are not both records the merge records one conflict, if they are not alike. -/
theorem mem_mergeConflicts_flat (h : isRecord base = false ∨ isRecord patch = false) :
    c ∈ mergeConflicts winner path base patch ↔ c = ⟨path, winner⟩ ∧ ¬ Alike base patch := by
  have hoverwritten : isArray base = false ∨ isArray patch = false →
      (c ∈ overwritten winner path base patch ↔ c = ⟨path, winner⟩ ∧ ¬ Alike base patch) := by
    intro harray
    rw [mem_overwritten]
    refine and_congr_right fun _ => not_congr ⟨fun heq => .inr (.inr heq), fun halike => ?_⟩
    rcases halike with ⟨hb, hp⟩ | ⟨hb, hp⟩ | heq
    · simp [hb, hp] at h
    · simp [hb, hp] at harray
    · exact heq
  cases patch with
  | obj b =>
    cases base with
    | obj a => simp [isRecord] at h
    | _ => exact hoverwritten (.inr rfl)
  | arr b =>
    cases base with
    | arr a =>
      refine iff_of_false List.not_mem_nil fun hc => hc.2 (.inr (.inl ⟨rfl, rfl⟩))
    | _ => exact hoverwritten (.inl rfl)
  | _ => exact hoverwritten (.inr rfl)

/-- The place of a conflict: the base and the patch have values there that are not alike. -/
def ClashAt (base patch : Json) (keys : List String) : Prop :=
  ∃ b v, valueAt base keys = some b ∧ valueAt patch keys = some v ∧ ¬ Alike b v

theorem mem_conflicts_flat_iff (h : isRecord base = false ∨ isRecord patch = false) :
    c ∈ mergeConflicts winner path base patch ↔
      ∃ keys, c = ⟨path ++ keys, winner⟩ ∧ ClashAt base patch keys := by
  rw [mem_mergeConflicts_flat h]
  constructor
  · rintro ⟨rfl, halike⟩
    exact ⟨[], by rw [List.append_nil], base, patch, rfl, rfl, halike⟩
  · rintro ⟨keys, rfl, b, v, hb, hv, halike⟩
    cases keys with
    | nil =>
      obtain rfl := Option.some.inj hb
      obtain rfl := Option.some.inj hv
      exact ⟨by rw [List.append_nil], halike⟩
    | cons k keys =>
      rcases h with h | h
      · rw [(valueAt_of_not_record h k).1] at hb
        cases hb
      · rw [(valueAt_of_not_record h k).1] at hv
        cases hv

mutual

/-- A merge records a conflict at every path at which both have values that are not alike. -/
theorem mem_mergeConflicts (winner : String) (c : PolicyConflict) :
    ∀ (patch base : Json) (path : List String), Distinct patch →
      (c ∈ mergeConflicts winner path base patch ↔
        ∃ keys, c = ⟨path ++ keys, winner⟩ ∧ ClashAt base patch keys)
  | .null, _, _, _ => mem_conflicts_flat_iff (.inr rfl)
  | .bool _, _, _, _ => mem_conflicts_flat_iff (.inr rfl)
  | .num _, _, _, _ => mem_conflicts_flat_iff (.inr rfl)
  | .str _, _, _, _ => mem_conflicts_flat_iff (.inr rfl)
  | .arr _, _, _, _ => mem_conflicts_flat_iff (.inr rfl)
  | .obj fields, base, path, hdistinct => by
    by_cases hrecord : isRecord base = true
    · cases base with
      | obj out =>
        rw [mergeConflicts, mem_fieldsConflicts winner c fields out path hdistinct.1 hdistinct.2]
        constructor
        · rintro ⟨k, v, b, hmem, hget, keys, rfl, b', v', hb, hv, halike⟩
          refine ⟨k :: keys, by rw [List.append_assoc]; rfl, b', v', ?_, ?_, halike⟩
          · rw [valueAt, hget]
            exact hb
          · rw [valueAt, get_of_mem hdistinct.1 hmem]
            exact hv
        · rintro ⟨keys, rfl, b', v', hb, hv, halike⟩
          cases keys with
          | nil =>
            obtain rfl := Option.some.inj hb
            obtain rfl := Option.some.inj hv
            exact absurd (.inl ⟨rfl, rfl⟩) halike
          | cons k keys =>
            rw [valueAt] at hb hv
            obtain ⟨b, hget, hb⟩ := Option.bind_eq_some_iff.1 hb
            obtain ⟨v, hgetv, hv⟩ := Option.bind_eq_some_iff.1 hv
            exact ⟨k, v, b, mem_of_get hgetv, hget, keys,
              by rw [List.append_assoc]; rfl, b', v', hb, hv, halike⟩
      | _ => cases hrecord
    · rw [Bool.not_eq_true] at hrecord
      exact mem_conflicts_flat_iff (.inl hrecord)

theorem mem_fieldsConflicts (winner : String) (c : PolicyConflict) :
    ∀ (fields : List (String × Json)) (out : Fields) (path : List String),
      (fields.map (·.1)).Nodup → DistinctFields fields →
      (c ∈ fieldsConflicts winner path out fields ↔
        ∃ k v b, (k, v) ∈ fields ∧ get out k = some b ∧
          ∃ keys, c = ⟨path ++ [k] ++ keys, winner⟩ ∧ ClashAt b v keys)
  | [], _, _, _, _ => by simp [fieldsConflicts]
  | f :: fields, out, path, hkeys, hdistinct => by
    rw [List.map_cons, List.nodup_cons] at hkeys
    rw [fieldsConflicts, List.mem_append, mem_fieldConflicts winner c f out path hdistinct.1,
      mem_fieldsConflicts winner c fields (mergeField out f) path hkeys.2 hdistinct.2]
    have hget : ∀ k v, (k, v) ∈ fields → get (mergeField out f) k = get out k := by
      intro k v hmem
      rw [get_mergeField, if_neg]
      rintro rfl
      exact hkeys.1 (List.mem_map_of_mem (f := (·.1)) hmem)
    constructor
    · rintro (⟨b, hb, hc⟩ | ⟨k, v, b, hmem, hb, hc⟩)
      · exact ⟨f.1, f.2, b, List.mem_cons_self, hb, hc⟩
      · rw [hget k v hmem] at hb
        exact ⟨k, v, b, List.mem_cons_of_mem _ hmem, hb, hc⟩
    · rintro ⟨k, v, b, hmem, hb, hc⟩
      rcases List.mem_cons.1 hmem with rfl | hmem
      · exact .inl ⟨b, hb, hc⟩
      · exact .inr ⟨k, v, b, hmem, by rw [hget k v hmem]; exact hb, hc⟩

theorem mem_fieldConflicts (winner : String) (c : PolicyConflict) :
    ∀ (f : String × Json) (out : Fields) (path : List String), DistinctField f →
      (c ∈ fieldConflicts winner path out f ↔
        ∃ b, get out f.1 = some b ∧
          ∃ keys, c = ⟨path ++ [f.1] ++ keys, winner⟩ ∧ ClashAt b f.2 keys)
  | (k, v), out, path, hdistinct => by
    rw [fieldConflicts]
    cases hget : get out k with
    | none => simp
    | some b =>
      dsimp only
      rw [mem_mergeConflicts winner c v b (path ++ [k]) hdistinct]
      simp

end

end Conflicts

/-! ## The applied policy -/

/-- A rule as `buildAppliedPolicy` receives it. -/
structure PolicyRule where
  ruleNodeId : String
  state : String
  commitId : String
  thenPatch : Json.Fields

structure AppliedPolicy where
  policy : Json := .obj []
  sources : List PolicySource := []
  conflicts : List PolicyConflict := []

/-- The body of the loop over the rules. -/
def AppliedPolicy.add (acc : AppliedPolicy) (r : PolicyRule) : AppliedPolicy where
  policy := mergeDeep acc.policy (.obj r.thenPatch)
  sources := acc.sources ++ [{
    ruleNodeId := r.ruleNodeId
    state := r.state
    commitId := r.commitId
    touchedPaths := policyTouchedPaths r.thenPatch }]
  conflicts := acc.conflicts ++ mergeConflicts r.ruleNodeId [] acc.policy (.obj r.thenPatch)

def buildAppliedPolicy (rules : List PolicyRule) : AppliedPolicy := rules.foldl .add {}

/-- The value that a rule sets a path to. -/
def PolicyRule.value (r : PolicyRule) (keys : List String) : Option Json :=
  valueAt (.obj r.thenPatch) keys

section Applied

variable {rules pre post : List PolicyRule} {r : PolicyRule} {keys : List String} {b v : Json}

theorem buildAppliedPolicy_concat (rules : List PolicyRule) (r : PolicyRule) :
    buildAppliedPolicy (rules ++ [r]) = (buildAppliedPolicy rules).add r := by
  rw [buildAppliedPolicy, List.foldl_append]
  rfl

theorem policy_concat (hr : Distinct (.obj r.thenPatch)) :
    valueAt (buildAppliedPolicy (rules ++ [r])).policy keys =
      match r.value keys with
      | some v => some (mergeOver (valueAt (buildAppliedPolicy rules).policy keys) v)
      | none => if blocks (.obj r.thenPatch) keys then none
          else valueAt (buildAppliedPolicy rules).policy keys := by
  rw [buildAppliedPolicy_concat]
  exact valueAt_mergeDeep hr

/-- A value of the policy is alike to that of the last rule that sets its path. -/
theorem exists_last_setter (hrules : ∀ r ∈ rules, Distinct (.obj r.thenPatch)) (hkeys : keys ≠ [])
    (h : valueAt (buildAppliedPolicy rules).policy keys = some b) :
    ∃ pre r post v, rules = pre ++ r :: post ∧ r.value keys = some v ∧ Alike b v ∧
      ∀ r' ∈ post, r'.value keys = none := by
  induction rules using List.reverseRecOn with
  | nil =>
    cases keys with
    | nil => exact absurd rfl hkeys
    | cons k keys => cases h
  | append_singleton rules r ih =>
    have hprior : ∀ r ∈ rules, Distinct (.obj r.thenPatch) := fun r hr =>
      hrules r (List.mem_append_left _ hr)
    rw [policy_concat (hrules r (by simp))] at h
    cases hv : r.value keys with
    | some v =>
      rw [hv] at h
      obtain rfl := Option.some.inj h
      exact ⟨rules, r, [], v, rfl, hv, mergeOver_alike, fun _ hr => nomatch hr⟩
    | none =>
      rw [hv] at h
      dsimp only at h
      split at h
      · cases h
      · obtain ⟨pre, r', post, v, rfl, hr', halike, hpost⟩ := ih hprior h
        refine ⟨pre, r', post ++ [r], v, by simp, hr', halike, fun r'' hr'' => ?_⟩
        rcases List.mem_append.1 hr'' with hr'' | hr''
        · exact hpost r'' hr''
        · rw [List.mem_singleton.1 hr'', hv]

/-- The last value that is set at a path stays, if no later rule has anything on the way. -/
theorem policy_of_last_setter (hrules : ∀ s ∈ pre ++ r :: post, Distinct (.obj s.thenPatch))
    (hv : r.value keys = some v)
    (hpost : ∀ r' ∈ post, r'.value keys = none ∧ blocks (.obj r'.thenPatch) keys = false) :
    ∃ b, valueAt (buildAppliedPolicy (pre ++ r :: post)).policy keys = some b ∧ Alike b v := by
  induction post using List.reverseRecOn with
  | nil =>
    rw [policy_concat (hrules r (by simp)), hv]
    exact ⟨_, rfl, mergeOver_alike⟩
  | append_singleton post r' ih =>
    have hassoc : pre ++ r :: (post ++ [r']) = (pre ++ r :: post) ++ [r'] := by simp
    rw [hassoc] at hrules ⊢
    obtain ⟨hnone, hblocks⟩ := hpost r' (by simp)
    rw [policy_concat (hrules r' (by simp)), hnone]
    dsimp only
    rw [if_neg (by simp [hblocks])]
    exact ih (fun r hr => hrules r (List.mem_append_left _ hr)) fun r hr =>
      hpost r (List.mem_append_left _ hr)

/-- Behind a rule with anything on the way, the path has no value until a rule sets it again. -/
theorem policy_of_blocked (hrules : ∀ s ∈ pre ++ r :: post, Distinct (.obj s.thenPatch))
    (hblocks : blocks (.obj r.thenPatch) keys = true) (hpost : ∀ r' ∈ post, r'.value keys = none) :
    valueAt (buildAppliedPolicy (pre ++ r :: post)).policy keys = none := by
  induction post using List.reverseRecOn with
  | nil =>
    rw [policy_concat (hrules r (by simp)), PolicyRule.value, valueAt_of_blocks hblocks]
    exact if_pos hblocks
  | append_singleton post r' ih =>
    have hassoc : pre ++ r :: (post ++ [r']) = (pre ++ r :: post) ++ [r'] := by simp
    rw [hassoc] at hrules ⊢
    rw [policy_concat (hrules r' (by simp)), hpost r' (by simp)]
    dsimp only
    split
    · rfl
    · exact ih (fun r hr => hrules r (List.mem_append_left _ hr)) fun r hr =>
        hpost r (List.mem_append_left _ hr)

/-- A path has a value just if some rule sets it, no later one does, and none of those has anything
on the way. -/
theorem policy_set_iff (hrules : ∀ r ∈ rules, Distinct (.obj r.thenPatch)) (hkeys : keys ≠ []) :
    (valueAt (buildAppliedPolicy rules).policy keys).isSome ↔
      ∃ pre r post, rules = pre ++ r :: post ∧ (r.value keys).isSome ∧
        ∀ r' ∈ post, r'.value keys = none ∧ blocks (.obj r'.thenPatch) keys = false := by
  constructor
  · intro h
    obtain ⟨b, hb⟩ := Option.isSome_iff_exists.1 h
    obtain ⟨pre, r, post, v, rfl, hv, -, hpost⟩ := exists_last_setter hrules hkeys hb
    refine ⟨pre, r, post, rfl, hv ▸ rfl, fun r' hr' => ⟨hpost r' hr', ?_⟩⟩
    by_contra hblocks
    obtain ⟨front, back, rfl⟩ := List.append_of_mem hr'
    have hsplit : pre ++ r :: (front ++ r' :: back) = pre ++ r :: front ++ r' :: back := by simp
    rw [hsplit] at hrules hb
    rw [policy_of_blocked hrules (Bool.not_eq_false _ ▸ hblocks) fun s hs =>
      hpost s (List.mem_append_right _ (List.mem_cons_of_mem _ hs))] at hb
    cases hb
  · rintro ⟨pre, r, post, rfl, hv, hpost⟩
    obtain ⟨v, hv⟩ := Option.isSome_iff_exists.1 hv
    obtain ⟨b, hb, -⟩ := policy_of_last_setter hrules hv hpost
    exact hb ▸ rfl

/-- The conflicts of a policy: where a rule's value is not alike to what the rules before it make
of the path. -/
theorem mem_conflicts_iff {c : PolicyConflict}
    (hrules : ∀ r ∈ rules, Distinct (.obj r.thenPatch)) :
    c ∈ (buildAppliedPolicy rules).conflicts ↔
      ∃ pre r post, rules = pre ++ r :: post ∧ c.winnerRuleNodeId = r.ruleNodeId ∧
        ClashAt (buildAppliedPolicy pre).policy (.obj r.thenPatch) c.keys := by
  induction rules using List.reverseRecOn with
  | nil => simp [buildAppliedPolicy]
  | append_singleton rules r ih =>
    rw [buildAppliedPolicy_concat, AppliedPolicy.add, List.mem_append,
      ih fun r hr => hrules r (List.mem_append_left _ hr),
      mem_mergeConflicts r.ruleNodeId c _ _ _ (hrules r (by simp))]
    constructor
    · rintro (⟨pre, r', post, rfl, hwinner, hclash⟩ | ⟨keys, rfl, hclash⟩)
      · exact ⟨pre, r', post ++ [r], by simp, hwinner, hclash⟩
      · exact ⟨rules, r, [], rfl, rfl, hclash⟩
    · rintro ⟨pre, r', post, hsplit, hwinner, hclash⟩
      rcases List.eq_nil_or_concat post with rfl | ⟨post, r'', rfl⟩
      · obtain ⟨rfl, hlast⟩ := List.append_inj' hsplit rfl
        obtain rfl := List.singleton_inj.1 hlast
        exact .inr ⟨c.keys, by rw [← hwinner]; rfl, hclash⟩
      · have hassoc : pre ++ r' :: (post ++ [r'']) = (pre ++ r' :: post) ++ [r''] := by simp
        rw [List.concat_eq_append, hassoc] at hsplit
        obtain ⟨rfl, -⟩ := List.append_inj' hsplit rfl
        exact .inl ⟨pre, r', post, rfl, hwinner, hclash⟩

end Applied

theorem policy_set_iff_single :
    (valueAt (buildAppliedPolicy [⟨"r", "active", "c", [("a", .null)]⟩]).policy ["a"]).isSome :=
  (policy_set_iff (by simp [Distinct, DistinctFields, DistinctField]) (by simp)).2
    ⟨[], _, [], rfl, rfl, by simp⟩

end AionisCore.Memory
