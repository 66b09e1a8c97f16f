import AionisCore.Lib.JsString
import AionisCore.Lib.Json
import Mathlib.Algebra.Order.Ring.Rat

/-!
# Schemas as data

A schema is a syntax tree, `parse` reads a possibly undefined value with it. The result is
`none` where the value is rejected, and `some none` where it is accepted as undefined. An
object keeps the fields of its shape, each as its own schema reads it.
-/

namespace Lib

open Lib.JsString

inductive Schema where
  /-- `z.string().min(lo).max(hi)`, after `.trim()` if it trims. -/
  | string (trims : Bool) (lo : Nat) (hi : Option Nat)
  | literal (value : Json)
  | enum (members : List String)
  | boolean
  /-- `z.number()`, with `.int()` if it is an integer. -/
  | number (integer : Bool) (lo hi : Option ℚ)
  | array (hi : Option Nat) (item : Schema)
  | object (shape : List (String × Schema))
  | nullable (inner : Schema)
  | optional (inner : Schema)
  | withDefault (value : Json) (inner : Schema)

namespace Schema

mutual

def parse : Schema → Option Json → Option (Option Json)
  | .string trims lo hi, some (.str s) =>
    let s := if trims then trim s else s
    if lo ≤ length s ∧ ∀ n ∈ hi, length s ≤ n then some (some (.str s)) else none
  | .literal value, some v => if v == value then some (some v) else none
  | .enum members, some (.str s) => if s ∈ members then some (some (.str s)) else none
  | .boolean, some (.bool b) => some (some (.bool b))
  | .number integer lo hi, some (.num q) =>
    if (integer = true → q.den = 1) ∧ (∀ n ∈ lo, n ≤ q) ∧ ∀ n ∈ hi, q ≤ n then
      some (some (.num q))
    else none
  | .array hi item, some (.arr xs) =>
    if ∀ n ∈ hi, xs.length ≤ n then
      (xs.mapM fun x => (parse item (some x)).bind id).map fun ys => some (.arr ys)
    else none
  | .object shape, some (.obj r) => (parseShape shape r).map fun fields => some (.obj fields)
  | .nullable inner, some v =>
    match v with
    | .null => some (some .null)
    | v => parse inner (some v)
  | .nullable inner, none => parse inner none
  | .optional inner, some v => parse inner (some v)
  | .optional _, none => some none
  | .withDefault _ inner, some v => parse inner (some v)
  | .withDefault value inner, none => parse inner (some value)
  | _, _ => none

def parseShape : List (String × Schema) → Json.Fields → Option Json.Fields
  | [], _ => some []
  | field :: shape, r => do
    let v ← parseField field r
    let rest ← parseShape shape r
    return Json.optional field.1 v ++ rest

def parseField : String × Schema → Json.Fields → Option (Option Json)
  | (k, s), r => parse s (Json.get r k)

end

/-- The fields of an object that the schema accepts. -/
def safeParse (s : Schema) (v : Option Json) : Option Json.Fields :=
  match parse s v with
  | some (some (.obj fields)) => some fields
  | _ => none

/-- `z.string().min(1).max(n)`. -/
def text (n : Nat) : Schema := .string false 1 (some n)

/-- `z.string().min(1).nullable().default(null)`. -/
def nullableTime : Schema := .withDefault .null (.nullable (.string false 1 none))

/-- `z.number().int().min(0)`. -/
def count : Schema := .number true (some 0) none

/-! ## What an object keeps -/

variable {v : Option Json} {shape : List (String × Schema)} {r fields : Json.Fields} {s : Schema}

theorem get_optional {k k' : String} :
    Json.get (Json.optional k v) k' = if k' = k then v else none := by
  cases v with
  | none => simp [Json.optional]
  | some v => simp [Json.optional]

theorem get_parseShape_of_not_mem {k : String} (h : parseShape shape r = some fields)
    (hk : ∀ f ∈ shape, f.1 ≠ k) : Json.get fields k = none := by
  induction shape generalizing fields with
  | nil =>
    rw [parseShape] at h
    obtain rfl := Option.some.inj h
    rfl
  | cons field shape ih =>
    rw [parseShape] at h
    obtain ⟨v, -, h⟩ := Option.bind_eq_some_iff.1 h
    obtain ⟨rest, hrest, h⟩ := Option.bind_eq_some_iff.1 h
    obtain rfl := Option.some.inj h
    rw [List.forall_mem_cons] at hk
    rw [Json.get_append, get_optional, if_neg hk.1.symm, Option.none_or]
    exact ih hrest hk.2

theorem get_parseShape {k : String} (h : parseShape shape r = some fields)
    (hkeys : (shape.map Prod.fst).Nodup) (hs : (k, s) ∈ shape) :
    parse s (Json.get r k) = some (Json.get fields k) := by
  induction shape generalizing fields with
  | nil => cases hs
  | cons field shape ih =>
    rw [parseShape] at h
    obtain ⟨v, hv, h⟩ := Option.bind_eq_some_iff.1 h
    obtain ⟨rest, hrest, h⟩ := Option.bind_eq_some_iff.1 h
    obtain rfl := Option.some.inj h
    rw [List.map_cons, List.nodup_cons] at hkeys
    rw [Json.get_append, get_optional]
    rcases List.mem_cons.1 hs with rfl | hs
    · have hnone : Json.get rest k = none := by
        refine get_parseShape_of_not_mem hrest fun f hf hfk => hkeys.1 ?_
        exact List.mem_map.2 ⟨f, hf, hfk⟩
      rw [if_pos rfl, hnone, Option.or_none]
      exact hv
    · have hne : k ≠ field.1 := by
        rintro rfl
        exact hkeys.1 (List.mem_map.2 ⟨_, hs, rfl⟩)
      rw [if_neg hne, Option.none_or]
      exact ih hrest hkeys.2 hs

theorem safeParse_object (h : safeParse (.object shape) v = some fields) :
    ∃ r, v = some (.obj r) ∧ parseShape shape r = some fields := by
  unfold safeParse at h
  split at h
  · next hparse =>
    obtain rfl := Option.some.inj h
    cases v with
    | none =>
      rw [parse.eq_def] at hparse
      cases hparse
    | some v =>
      cases v with
      | obj r =>
        rw [parse] at hparse
        obtain ⟨fields', hfields, hobj⟩ := Option.map_eq_some_iff.1 hparse
        obtain rfl := Json.obj.inj (Option.some.inj hobj)
        exact ⟨r, rfl, hfields⟩
      | null | bool | num | str | arr =>
        rw [parse.eq_def] at hparse
        cases hparse
  · cases h

/-! ## Reading twice -/

mutual

/-- No object of the schema names a field twice. -/
def wellFormed : Schema → Bool
  | .array _ item => wellFormed item
  | .object shape => decide (shape.map Prod.fst).Nodup && wellFormedShape shape
  | .nullable inner | .optional inner | .withDefault _ inner => wellFormed inner
  | _ => true

def wellFormedShape : List (String × Schema) → Bool
  | [] => true
  | field :: shape => wellFormedField field && wellFormedShape shape

def wellFormedField : String × Schema → Bool
  | (_, s) => wellFormed s

end

theorem parse_nullable {inner : Schema} {v : Json} (h : v ≠ .null) :
    parse (.nullable inner) (some v) = parse inner (some v) := by
  cases v with
  | null => exact absurd rfl h
  | bool | num | str | arr | obj => simp only [parse]

theorem parse_ne_undefined (s : Schema) (v : Json) : parse s (some v) ≠ some none := by
  match s with
  | .string _ _ _ | .literal _ | .enum _ | .boolean | .number _ _ _ | .array _ _ | .object _ =>
    cases v <;> simp [parse]
  | .nullable inner =>
    have ih := parse_ne_undefined inner v
    unfold parse
    split
    · simp
    · exact ih
  | .optional inner | .withDefault _ inner => exact parse_ne_undefined inner v

/-- A shape reads no more of a record than its fields. -/
theorem parseShape_congr {r' : Json.Fields} (h : ∀ f ∈ shape, parseField f r' = parseField f r) :
    parseShape shape r' = parseShape shape r := by
  induction shape with
  | nil => rfl
  | cons field shape ih =>
    rw [List.forall_mem_cons] at h
    rw [parseShape, parseShape, h.1, ih h.2]

theorem mapM_eq_self {f : Json → Option Json} {xs ys : List Json} (h : xs.mapM f = some ys)
    (hf : ∀ x y, f x = some y → f y = some y) : ys.mapM f = some ys := by
  induction xs generalizing ys with
  | nil =>
    obtain rfl := Option.some.inj h
    rfl
  | cons x xs ih =>
    rw [List.mapM_cons] at h
    obtain ⟨y, hy, h⟩ := Option.bind_eq_some_iff.1 h
    obtain ⟨zs, hzs, h⟩ := Option.bind_eq_some_iff.1 h
    obtain rfl := Option.some.inj h
    rw [List.mapM_cons, hf x y hy, ih hzs]
    rfl

theorem length_of_mapM {f : Json → Option Json} {xs ys : List Json} (h : xs.mapM f = some ys) :
    ys.length = xs.length := by
  induction xs generalizing ys with
  | nil =>
    obtain rfl := Option.some.inj h
    rfl
  | cons x xs ih =>
    rw [List.mapM_cons] at h
    obtain ⟨y, -, h⟩ := Option.bind_eq_some_iff.1 h
    obtain ⟨zs, hzs, h⟩ := Option.bind_eq_some_iff.1 h
    obtain rfl := Option.some.inj h
    rw [List.length_cons, List.length_cons, ih hzs]

/-- What a shape has read is read as it is, where its fields are. -/
theorem parseShape_again (h : parseShape shape r = some fields) (hkeys : (shape.map Prod.fst).Nodup)
    (hagain : ∀ f ∈ shape, ∀ v w, parse f.2 v = some (some w) →
      parse f.2 (some w) = some (some w)) : parseShape shape fields = some fields := by
  rw [← h]
  refine parseShape_congr fun f hf => ?_
  obtain ⟨k, s⟩ := f
  have hread := get_parseShape h hkeys hf
  rw [parseField, parseField, hread]
  cases hw : Json.get fields k with
  | some w =>
    rw [hw] at hread
    exact hagain (k, s) hf _ w hread
  | none =>
    rw [hw] at hread
    cases hv : Json.get r k with
    | none => rw [← hread, hv]
    | some v =>
      rw [hv] at hread
      exact absurd hread (parse_ne_undefined s v)

mutual

/-- What a schema has read, it reads as it is. -/
theorem parse_again : (s : Schema) → wellFormed s = true → ∀ v w, parse s v = some (some w) →
    parse s (some w) = some (some w)
  | .string trims lo hi, _, v, w, h => by
    rcases v with _ | _ | _ | _ | t | _ | _ <;> simp only [parse, reduceCtorEq] at h
    have htrim : (if trims = true then trim (if trims = true then trim t else t)
        else if trims = true then trim t else t) = if trims = true then trim t else t := by
      cases trims
      · rfl
      · exact trim_trim t
    generalize (if trims = true then trim t else t) = t' at h htrim
    split at h
    · next hlen =>
      obtain rfl := Option.some.inj (Option.some.inj h)
      simp only [parse, htrim]
      rw [if_pos hlen]
    · cases h
  | .literal value, _, v, w, h => by
    cases v with
    | none => simp [parse] at h
    | some v =>
      simp only [parse] at h
      split at h
      · next heq =>
        obtain rfl := Option.some.inj (Option.some.inj h)
        simp only [parse]
        rw [if_pos heq]
      · cases h
  | .enum members, _, v, w, h => by
    rcases v with _ | _ | _ | _ | t | _ | _ <;> simp only [parse, reduceCtorEq] at h
    split at h
    · next hmem =>
      obtain rfl := Option.some.inj (Option.some.inj h)
      simp only [parse]
      rw [if_pos hmem]
    · cases h
  | .boolean, _, v, w, h => by
    rcases v with _ | _ | b | _ | _ | _ | _ <;> simp only [parse, reduceCtorEq] at h
    obtain rfl := Option.some.inj (Option.some.inj h)
    rfl
  | .number integer lo hi, _, v, w, h => by
    rcases v with _ | _ | _ | q | _ | _ | _ <;> simp only [parse, reduceCtorEq] at h
    split at h
    · next hq =>
      obtain rfl := Option.some.inj (Option.some.inj h)
      simp only [parse]
      rw [if_pos hq]
    · cases h
  | .array hi item, hs, v, w, h => by
    rcases v with _ | _ | _ | _ | _ | xs | _ <;> simp only [parse, reduceCtorEq] at h
    split at h
    · next hlen =>
      obtain ⟨ys, hys, hw⟩ := Option.map_eq_some_iff.1 h
      obtain rfl := Option.some.inj hw
      have hagain := mapM_eq_self hys fun x y hxy => by
        obtain ⟨o, ho, hy⟩ := Option.bind_eq_some_iff.1 hxy
        obtain rfl : o = some y := hy
        rw [parse_again item hs _ y ho]
        rfl
      simp only [parse]
      rw [length_of_mapM hys, if_pos hlen, hagain]
      rfl
    · cases h
  | .object shape, hs, v, w, h => by
    rcases v with _ | _ | _ | _ | _ | _ | r <;> simp only [parse, reduceCtorEq] at h
    obtain ⟨fields, hfields, hw⟩ := Option.map_eq_some_iff.1 h
    obtain rfl := Option.some.inj hw
    rw [wellFormed, Bool.and_eq_true, decide_eq_true_iff] at hs
    simp only [parse]
    rw [parseShape_again hfields hs.1 (parse_again_of_mem shape hs.2)]
    rfl
  | .nullable inner, hs, v, w, h => by
    by_cases hw : w = .null
    · rw [hw]
      rfl
    · rw [parse_nullable hw]
      refine parse_again inner hs v w ?_
      cases v with
      | none => exact h
      | some v =>
        by_cases hv : v = .null
        · rw [hv] at h
          exact absurd (Option.some.inj (Option.some.inj h)).symm hw
        · rwa [parse_nullable hv] at h
  | .optional inner, hs, v, w, h => by
    cases v with
    | none => simp [parse] at h
    | some v => exact parse_again inner hs (some v) w h
  | .withDefault value inner, hs, v, w, h => by
    cases v with
    | none => exact parse_again inner hs (some value) w h
    | some v => exact parse_again inner hs (some v) w h

theorem parse_again_of_mem : (shape : List (String × Schema)) → wellFormedShape shape = true →
    ∀ f ∈ shape, ∀ v w, parse f.2 v = some (some w) → parse f.2 (some w) = some (some w)
  | [], _, f, hf => by cases hf
  | field :: shape, h, f, hf => by
    rw [wellFormedShape, Bool.and_eq_true] at h
    rcases List.mem_cons.1 hf with heq | hf
    · rw [heq]
      exact parse_again_field field h.1
    · exact parse_again_of_mem shape h.2 f hf

theorem parse_again_field : (f : String × Schema) → wellFormedField f = true →
    ∀ v w, parse f.2 v = some (some w) → parse f.2 (some w) = some (some w)
  | (_, s), h => parse_again s h

end

/-- What a schema has read, defined or not, it reads as it is. -/
theorem parse_self {w : Option Json} (hs : wellFormed s = true) (h : parse s v = some w) :
    parse s w = some w := by
  cases w with
  | some w => exact parse_again s hs v w h
  | none =>
    cases v with
    | none => exact h
    | some v => exact absurd h (parse_ne_undefined s v)

theorem wellFormed_of_mem {f : String × Schema} (hs : wellFormedShape shape = true)
    (hf : f ∈ shape) : wellFormed f.2 = true := by
  induction shape with
  | nil => cases hf
  | cons field shape ih =>
    rw [wellFormedShape, Bool.and_eq_true] at hs
    rcases List.mem_cons.1 hf with rfl | hf
    · obtain ⟨k, s⟩ := f
      exact hs.1
    · exact ih hs.2 hf

theorem parse_enum {members : List String} {w : Json}
    (h : parse (.enum members) v = some (some w)) : ∃ s ∈ members, w = .str s := by
  rcases v with _ | _ | _ | _ | s | _ | _ <;> simp only [parse, reduceCtorEq] at h
  split at h
  · next hs => exact ⟨s, hs, (Option.some.inj (Option.some.inj h)).symm⟩
  · cases h

theorem parse_string {trims : Bool} {lo : Nat} {hi : Option Nat} {w : Json}
    (h : parse (.string trims lo hi) v = some (some w)) : ∃ s, w = .str s := by
  rcases v with _ | _ | _ | _ | s | _ | _ <;> simp only [parse, reduceCtorEq] at h
  generalize (if trims = true then trim s else s) = t at h
  split at h
  · exact ⟨_, (Option.some.inj (Option.some.inj h)).symm⟩
  · cases h

/-- The fields that a schema has read are fields it reads as they are. -/
theorem safeParse_again (hs : wellFormed s = true) (h : safeParse s v = some fields) :
    safeParse s (some (.obj fields)) = some fields := by
  unfold safeParse at h
  split at h
  · next hparse =>
    obtain rfl := Option.some.inj h
    rw [safeParse, parse_again s hs _ _ hparse]
  · cases h

end Schema

end Lib
