import AionisCore.Lib.Json

/-!
# Paths into JSON values

A path is a list of keys and leads through records only.
-/

namespace Lib.Json

/-! ## Values at paths -/

/-- The value at a path. -/
def valueAt : Json → List String → Option Json
  | v, [] => some v
  | .obj fields, k :: path => (get fields k).bind (valueAt · path)
  | _, _ :: _ => none

/-- On the way of the path there is a value that is no record. -/
def blocks : Json → List String → Bool
  | _, [] => false
  | .obj fields, k :: path => (get fields k).any (blocks · path)
  | _, _ :: _ => true

def isRecord : Json → Bool
  | .obj _ => true
  | _ => false

def isArray : Json → Bool
  | .arr _ => true
  | _ => false

def isScalar (v : Json) : Bool := !isRecord v && !isArray v

theorem valueAt_append (v : Json) (path path' : List String) :
    valueAt v (path ++ path') = (valueAt v path).bind (valueAt · path') := by
  induction path generalizing v with
  | nil => rfl
  | cons k path ih =>
    cases v with
    | obj fields =>
      rw [List.cons_append, valueAt, valueAt, Option.bind_assoc]
      congr 1
      funext w
      exact ih w
    | _ => rfl

variable {v : Json} {path : List String} {k : String}

/-- A path to a value leads through records. -/
theorem isRecord_of_valueAt {w u : Json} {path' : List String}
    (h : valueAt v (path ++ k :: path') = some w) (hu : valueAt v path = some u) :
    isRecord u = true := by
  rw [valueAt_append, hu, Option.bind_some] at h
  cases u with
  | obj fields => rfl
  | _ => cases h

theorem exists_valueAt_of_append {w : Json} {path' : List String}
    (h : valueAt v (path ++ path') = some w) : ∃ u, valueAt v path = some u := by
  rw [valueAt_append] at h
  obtain ⟨u, hu, -⟩ := Option.bind_eq_some_iff.1 h
  exact ⟨u, hu⟩

theorem valueAt_of_blocks (h : blocks v path = true) : valueAt v path = none := by
  induction path generalizing v with
  | nil => cases h
  | cons k path ih =>
    cases v with
    | obj fields =>
      rw [blocks] at h
      rw [valueAt]
      cases hk : get fields k with
      | none => rfl
      | some w =>
        rw [hk] at h
        exact ih h
    | _ => rfl

/-- What blocks a path is no record, and is found at a proper beginning of the path. -/
theorem blocks_iff :
    blocks v path = true ↔
      ∃ front k rest u, path = front ++ k :: rest ∧ valueAt v front = some u ∧
        isRecord u = false := by
  induction path generalizing v with
  | nil => simp [blocks]
  | cons k path ih =>
    constructor
    · intro h
      cases v with
      | obj fields =>
        rw [blocks, Option.any_eq_true] at h
        obtain ⟨w, hw, h⟩ := h
        obtain ⟨front, k', rest, u, rfl, hu, hrecord⟩ := ih.1 h
        exact ⟨k :: front, k', rest, u, rfl, by rw [valueAt, hw]; exact hu, hrecord⟩
      | _ => exact ⟨[], k, path, _, rfl, rfl, rfl⟩
    · rintro ⟨front, k', rest, u, hpath, hu, hrecord⟩
      cases v with
      | obj fields =>
        cases front with
        | nil =>
          obtain rfl := Option.some.inj hu
          cases hrecord
        | cons k'' front =>
          obtain ⟨rfl, rfl⟩ := List.cons.inj hpath
          rw [valueAt] at hu
          obtain ⟨w, hw, hu⟩ := Option.bind_eq_some_iff.1 hu
          rw [blocks, hw]
          exact ih.2 ⟨front, k', rest, u, rfl, hu, hrecord⟩
      | _ => rfl

/-! ## Distinct keys -/

mutual

/-- No record in the value, however deep, has a key twice. Entries of arrays are left aside. -/
def Distinct : Json → Prop
  | .obj fields => (fields.map (·.1)).Nodup ∧ DistinctFields fields
  | _ => True

def DistinctFields : List (String × Json) → Prop
  | [] => True
  | f :: fields => DistinctField f ∧ DistinctFields fields

def DistinctField : String × Json → Prop
  | (_, v) => Distinct v

end

variable {fields : Fields}

theorem distinctFields_iff : DistinctFields fields ↔ ∀ f ∈ fields, Distinct f.2 := by
  induction fields with
  | nil => simp [DistinctFields]
  | cons f fields ih =>
    obtain ⟨k, v⟩ := f
    rw [DistinctFields, ih, List.forall_mem_cons, DistinctField]

theorem mem_of_get (h : get fields k = some v) : (k, v) ∈ fields := by
  induction fields with
  | nil => cases h
  | cons f fields ih =>
    rw [get_cons] at h
    split at h
    · next hk =>
      obtain rfl := Option.some.inj h
      rw [hk]
      exact List.mem_cons_self
    · exact List.mem_cons_of_mem _ (ih h)

theorem get_of_mem (hkeys : (fields.map (·.1)).Nodup) (h : (k, v) ∈ fields) :
    get fields k = some v := by
  induction fields with
  | nil => cases h
  | cons f fields ih =>
    rw [List.map_cons, List.nodup_cons] at hkeys
    rw [get_cons]
    rcases List.mem_cons.1 h with rfl | h
    · rw [if_pos rfl]
    · rw [if_neg, ih hkeys.2 h]
      rintro rfl
      exact hkeys.1 (List.mem_map_of_mem (f := (·.1)) h)

end Lib.Json
