import Mathlib.Data.Rat.Defs

/-!
# JSON values

A record is the list of its fields. A missing field reads as `none`
(`undefined`), which is not the field holding `null`. `spread base patch` is
`{ ...base, ...patch }`: the fields of `patch` win, and `base` keeps its places.
-/

namespace Lib

inductive Json where
  | null
  | bool (b : Bool)
  | num (q : ℚ)
  | str (s : String)
  | arr (xs : List Json)
  | obj (fields : List (String × Json))
  deriving Repr

namespace Json

/-! ## Equality -/

mutual

def same : Json → Json → Bool
  | .null, .null => true
  | .bool a, .bool b => a == b
  | .num p, .num q => p == q
  | .str s, .str t => s == t
  | .arr xs, .arr ys => sameList xs ys
  | .obj r, .obj s => sameFields r s
  | _, _ => false

def sameList : List Json → List Json → Bool
  | [], [] => true
  | x :: xs, y :: ys => same x y && sameList xs ys
  | _, _ => false

def sameFields : List (String × Json) → List (String × Json) → Bool
  | [], [] => true
  | f :: r, g :: s => sameField f g && sameFields r s
  | _, _ => false

def sameField : String × Json → String × Json → Bool
  | (k, v), (l, w) => k == l && same v w

end

mutual

theorem same_iff : (v w : Json) → (same v w = true ↔ v = w)
  | .null, w => by cases w <;> simp [same]
  | .bool a, w => by cases w <;> simp [same]
  | .num p, w => by cases w <;> simp [same]
  | .str s, w => by cases w <;> simp [same]
  | .arr xs, w => by
    cases w with
    | arr ys => rw [same, sameList_iff xs ys, arr.injEq]
    | _ => simp [same]
  | .obj r, w => by
    cases w with
    | obj s => rw [same, sameFields_iff r s, obj.injEq]
    | _ => simp [same]

theorem sameList_iff : (xs ys : List Json) → (sameList xs ys = true ↔ xs = ys)
  | [], ys => by cases ys <;> simp [sameList]
  | x :: xs, [] => by simp [sameList]
  | x :: xs, y :: ys => by
    rw [sameList, Bool.and_eq_true, same_iff x y, sameList_iff xs ys, List.cons.injEq]

theorem sameFields_iff : (r s : List (String × Json)) → (sameFields r s = true ↔ r = s)
  | [], s => by cases s <;> simp [sameFields]
  | f :: r, [] => by simp [sameFields]
  | f :: r, g :: s => by
    rw [sameFields, Bool.and_eq_true, sameField_iff f g, sameFields_iff r s, List.cons.injEq]

theorem sameField_iff : (f g : String × Json) → (sameField f g = true ↔ f = g)
  | (k, v), (l, w) => by
    rw [sameField, Bool.and_eq_true, beq_iff_eq, same_iff v w, Prod.mk.injEq]

end

instance : DecidableEq Json := fun v w => decidable_of_iff (same v w = true) (same_iff v w)

/-! ## Records -/

abbrev Fields := List (String × Json)

/-- `Boolean(v)`. -/
def truthy : Option Json → Bool
  | none | some .null | some (.bool false) => false
  | some (.num q) => q ≠ 0
  | some (.str s) => s ≠ ""
  | _ => true

/-- `r[k]`. -/
def get (r : Fields) (k : String) : Option Json := r.lookup k

/-- `{ ...base, ...patch }`. -/
def spread (base patch : Fields) : Fields :=
  base.map (fun f => (f.1, (get patch f.1).getD f.2)) ++
    patch.filter fun f => (get base f.1).isNone

/-- `{ ...r, [k]: v }`. -/
def set (r : Fields) (k : String) (v : Json) : Fields := spread r [(k, v)]

@[simp] theorem get_nil (k : String) : get [] k = none := rfl

@[simp] theorem get_cons (k' : String) (v : Json) (r : Fields) (k : String) :
    get ((k', v) :: r) k = if k = k' then some v else get r k := by
  unfold get
  rw [List.lookup_cons]
  by_cases h : k = k'
  · simp [h]
  · rw [if_neg h, beq_eq_false_iff_ne.2 h]

theorem get_append (r s : Fields) (k : String) : get (r ++ s) k = (get r k).or (get s k) := by
  induction r with
  | nil => rfl
  | cons f r ih =>
    rw [List.cons_append, get_cons, get_cons, ih]
    split <;> rfl

theorem get_filter (r : Fields) (p : String → Bool) (k : String) :
    get (r.filter fun f => p f.1) k = if p k then get r k else none := by
  induction r with
  | nil => simp
  | cons f r ih =>
    rw [List.filter_cons]
    by_cases hp : p f.1 = true
    · rw [if_pos hp, get_cons, get_cons, ih]
      by_cases hk : k = f.1
      · simp [hk, hp]
      · simp [hk]
    · rw [if_neg hp, ih, get_cons]
      by_cases hk : k = f.1
      · simp [hk, hp]
      · simp [hk]

theorem get_mapValue (r : Fields) (g : String → Json → Json) (k : String) :
    get (r.map fun f => (f.1, g f.1 f.2)) k = (get r k).map (g k) := by
  induction r with
  | nil => rfl
  | cons f r ih =>
    rw [List.map_cons, get_cons, get_cons, ih]
    by_cases hk : k = f.1 <;> simp [hk]

theorem get_spread (base patch : Fields) (k : String) :
    get (spread base patch) k = (get patch k).or (get base k) := by
  rw [spread, get_append, get_mapValue base fun k v => (get patch k).getD v,
    get_filter patch fun k => (get base k).isNone]
  cases get base k <;> cases get patch k <;> rfl

theorem get_set (r : Fields) (k : String) (v : Json) (k' : String) :
    get (set r k v) k' = if k' = k then some v else get r k' := by
  rw [set, get_spread, get_cons, get_nil]
  split <;> simp

@[simp] theorem get_set_self (r : Fields) (k : String) (v : Json) :
    get (set r k v) k = some v := by simp [get_set]

theorem get_set_of_ne {r : Fields} {k k' : String} {v : Json} (h : k' ≠ k) :
    get (set r k v) k' = get r k' := by simp [get_set, h]

/-- A value that is an object and no array, as its fields. -/
def asRecord : Option Json → Option Fields
  | some (obj fields) => some fields
  | _ => none

/-- The entries of an array value. -/
def asArray : Option Json → Option (List Json)
  | some (arr xs) => some xs
  | _ => none

/-- A field of a value that may be undefined or no record. -/
def field (v : Option Fields) (k : String) : Option Json := v.bind (get · k)

/-- `a ?? b`. -/
def orElse (a b : Option Json) : Option Json :=
  match a with
  | none => b
  | some null => b
  | some v => some v

/-- `s ?? null`. -/
def orNull (s : Option String) : Json := (s.map .str).getD .null

/-- A field that `JSON.stringify` leaves out when it is undefined. -/
def optional (k : String) (v : Option Json) : Fields := (v.map (k, ·)).toList

/-- The string a value is. -/
def textOf : Option Json → Option String
  | some (.str s) => some s
  | _ => none

/-- The strings of an array. -/
def textsOf (v : Option Json) : List String := ((asArray v).getD []).filterMap (textOf ∘ some)

@[simp] theorem textOf_str (s : String) : textOf (some (.str s)) = some s := rfl

@[simp] theorem textOf_orNull (s : Option String) : textOf (some (orNull s)) = s := by
  cases s <;> rfl

@[simp] theorem textsOf_none : textsOf none = [] := rfl

@[simp] theorem textsOf_strings (xs : List String) : textsOf (some (.arr (xs.map .str))) = xs := by
  show (xs.map Json.str).filterMap (textOf ∘ some) = xs
  rw [List.filterMap_map]
  exact List.filterMap_some

end Json

end Lib
