import AionisCore.Lib.JsString
import AionisCore.Lib.Json
import Mathlib.Data.List.Forall2

/-!
# Schemas

A schema reads a possibly undefined value and either rejects it or returns the
parsed value. The combinators follow the schema language of zod.
-/

namespace Lib.Zod

open Lib.JsString

abbrev Schema (α : Type) := Option Json → Option α

variable {α : Type}

def literal (s : String) : Schema Unit
  | some (.str t) => if t = s then some () else none
  | _ => none

def boolean : Schema Bool
  | some (.bool b) => some b
  | _ => none

/-- `z.enum`, as the table of its members. -/
def enum (table : List (String × α)) : Schema α
  | some (.str s) => table.lookup s
  | _ => none

/-- `.trim().min(1).max(n)` on a string; without `n` there is no upper bound. -/
def trimmed (n : Option Nat) (s : String) : Option String :=
  if trim s ≠ "" ∧ ∀ m ∈ n, length (trim s) ≤ m then some (trim s) else none

/-- `z.string().trim().min(1).max(n)`. -/
def trimmedString (n : Option Nat) : Schema String
  | some (.str s) => trimmed n s
  | _ => none

def nullable (p : Schema α) : Schema (Option α)
  | some .null => some none
  | v => (p v).map some

def withDefault (d : α) (p : Schema α) : Schema α
  | none => some d
  | v => p v

/-- `z.array(p).max(n)`. -/
def array (n : Nat) (p : Schema α) : Schema (List α)
  | some (.arr xs) => if xs.length ≤ n then xs.mapM fun x => p (some x) else none
  | _ => none

/-- `.nullable()` after the string checks. -/
def nullableText (n : Option Nat) : Option String → Option (Option String)
  | none => some none
  | some s => (trimmed n s).map some

/-- `.trim().min(1).max(n)` on every entry of an array of at most `k` strings. -/
def trimmedList (k n : Nat) (xs : List String) : Option (List String) :=
  if xs.length ≤ k then xs.mapM (trimmed (some n)) else none

variable {n : Option Nat}

theorem trimmed_eq_some {s t : String} :
    trimmed n s = some t ↔ t = trim s ∧ t ≠ "" ∧ ∀ m ∈ n, length t ≤ m := by
  unfold trimmed
  split
  · next h =>
    constructor
    · intro ht
      obtain rfl := Option.some.inj ht
      exact ⟨rfl, h⟩
    · rintro ⟨rfl, _⟩
      rfl
  · next h =>
    constructor
    · intro ht; cases ht
    · rintro ⟨rfl, h'⟩
      exact absurd h' h

/-- A value a string schema returned is one it accepts as it is. -/
theorem trimmed_of_trimmed {s t : String} (h : trimmed n s = some t) : trimmed n t = some t := by
  obtain ⟨rfl, hne, hlen⟩ := trimmed_eq_some.1 h
  exact trimmed_eq_some.2 ⟨(trim_trim s).symm, hne, hlen⟩

theorem nullableText_of_nullableText {s t : Option String} (h : nullableText n s = some t) :
    nullableText n t = some t := by
  cases s with
  | none => obtain rfl := Option.some.inj h; rfl
  | some s =>
    obtain ⟨u, hu, rfl⟩ := Option.map_eq_some_iff.1 h
    rw [nullableText, trimmed_of_trimmed hu, Option.map_some]

@[simp] theorem guard_eq_some {p : Prop} [Decidable p] {u : Unit} :
    (guard p : Option Unit) = some u ↔ p := by
  unfold guard
  split
  · next h => exact iff_of_true rfl h
  · next h => exact iff_of_false (by simp [failure]) h

variable {β : Type} {xs : List α} {ys : List β}

theorem mapM_eq_some {f : α → Option β} :
    xs.mapM f = some ys ↔ List.Forall₂ (fun x y => f x = some y) xs ys := by
  induction xs generalizing ys with
  | nil => rw [List.forall₂_nil_left_iff, List.mapM_nil]; simp [eq_comm]
  | cons x xs ih =>
    rw [List.mapM_cons]
    constructor
    · intro h
      obtain ⟨y, hy, h⟩ := Option.bind_eq_some_iff.1 h
      obtain ⟨zs, hzs, h⟩ := Option.bind_eq_some_iff.1 h
      obtain rfl := Option.some.inj h
      exact .cons hy (ih.1 hzs)
    · rintro (_ | ⟨hy, hys⟩)
      simp [hy, ih.2 hys]

theorem exists_left_of_forall₂ {R : α → β → Prop} (h : List.Forall₂ R xs ys) {y : β} (hy : y ∈ ys) :
    ∃ x ∈ xs, R x y := by
  induction h with
  | nil => simp at hy
  | cons hr _ ih =>
    rcases List.mem_cons.1 hy with rfl | hy
    · exact ⟨_, List.mem_cons_self, hr⟩
    · obtain ⟨x, hx, hxy⟩ := ih hy
      exact ⟨x, List.mem_cons_of_mem _ hx, hxy⟩

theorem exists_right_of_forall₂ {R : α → β → Prop} (h : List.Forall₂ R xs ys) {x : α}
    (hx : x ∈ xs) : ∃ y ∈ ys, R x y :=
  exists_left_of_forall₂ h.flip hx

theorem mapM_eq_self {f : α → Option α} (h : ∀ x ∈ xs, f x = some x) : xs.mapM f = some xs := by
  rw [mapM_eq_some, List.forall₂_same]
  exact h

/-- A list whose entries are accepted as they are is accepted up to its length bound. -/
theorem trimmedList_eq_some {k n : Nat} {xs ys : List String} :
    trimmedList k n xs = some ys ↔
      xs.length ≤ k ∧ List.Forall₂ (fun x y => trimmed (some n) x = some y) xs ys := by
  unfold trimmedList
  split
  · next h => rw [mapM_eq_some]; exact (and_iff_right h).symm
  · next h => exact iff_of_false (by simp) fun hc => h hc.1

/-- Trimmed non-blank strings pass unchanged or not at all. -/
theorem trimmedList_of_clean {k n : Nat} {xs ys : List String}
    (h : ∀ x ∈ xs, Trimmed x ∧ x ≠ "") :
    trimmedList k n xs = some ys ↔ (xs.length ≤ k ∧ ∀ x ∈ xs, length x ≤ n) ∧ ys = xs := by
  have hself : ∀ x ∈ xs, ∀ y, trimmed (some n) x = some y ↔ length x ≤ n ∧ y = x := by
    intro x hx y
    obtain ⟨ht, hne⟩ := h x hx
    rw [trimmed_eq_some, ht]
    constructor
    · rintro ⟨rfl, -, hlen⟩
      exact ⟨hlen n rfl, rfl⟩
    · rintro ⟨hlen, rfl⟩
      exact ⟨rfl, hne, fun m hm => Option.some.inj hm ▸ hlen⟩
  rw [trimmedList_eq_some]
  constructor
  · rintro ⟨hk, hall⟩
    have hlen : ∀ x ∈ xs, length x ≤ n := by
      intro x hx
      obtain ⟨y, -, hy⟩ := exists_right_of_forall₂ hall hx
      exact ((hself x hx y).1 hy).1
    refine ⟨⟨hk, hlen⟩, ?_⟩
    have heq : List.Forall₂ (fun x y => y = x) xs ys :=
      List.Forall₂.imp (fun x y hxy => ((hself x hxy.1 y).1 hxy.2).2)
        ((List.forall₂_and_left xs ys).2 ⟨fun x hx => hx, hall⟩)
    exact List.forall₂_eq_eq_eq ▸ heq.flip
  · rintro ⟨⟨hk, hlen⟩, rfl⟩
    exact ⟨hk, List.forall₂_same.2 fun x hx => (hself x hx x).2 ⟨hlen x hx, rfl⟩⟩

theorem array_str (k n : Nat) (xs : List String) :
    array k (trimmedString (some n)) (some (.arr (xs.map .str))) = trimmedList k n xs := by
  rw [array, trimmedList, List.length_map]
  have hmap : (xs.map Json.str).mapM (fun x => trimmedString (some n) (some x)) =
      xs.mapM (trimmed (some n)) := by
    induction xs with
    | nil => rfl
    | cons x xs ih => rw [List.map_cons, List.mapM_cons, List.mapM_cons, ih]; rfl
  rw [hmap]

theorem trimmedList_of_trimmedList {k n : Nat} {xs ys : List String}
    (h : trimmedList k n xs = some ys) : trimmedList k n ys = some ys := by
  obtain ⟨hlen, hall⟩ := trimmedList_eq_some.1 h
  refine trimmedList_eq_some.2 ⟨hall.length_eq ▸ hlen, List.forall₂_same.2 fun y hy => ?_⟩
  obtain ⟨x, -, hx⟩ := exists_left_of_forall₂ hall hy
  exact trimmed_of_trimmed hx

end Lib.Zod
