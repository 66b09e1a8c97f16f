import Mathlib.Data.List.Basic

/-!
# Dropping repetitions

A list is gone through once. An element that repeats the one kept last is left out; what is left
has no such element, so that going through it once more changes nothing.
-/

namespace Lib

variable {α : Type} {repeats : α → α → Bool}

/-- The elements kept and the ones left out, where `last` was kept before. -/
def splitRepeats (repeats : α → α → Bool) : Option α → List α → List α × List α
  | _, [] => ([], [])
  | last, x :: xs =>
    if last.any (repeats · x) then
      let (kept, dropped) := splitRepeats repeats last xs
      (kept, x :: dropped)
    else
      let (kept, dropped) := splitRepeats repeats (some x) xs
      (x :: kept, dropped)

def dropRepeats (repeats : α → α → Bool) (last : Option α) (xs : List α) : List α :=
  (splitRepeats repeats last xs).1

variable {last : Option α} {xs : List α}

@[simp] theorem dropRepeats_nil : dropRepeats repeats last [] = [] := rfl

theorem dropRepeats_cons_of_repeats {x : α} (h : last.any (repeats · x) = true) :
    dropRepeats repeats last (x :: xs) = dropRepeats repeats last xs := by
  unfold dropRepeats
  rw [splitRepeats, if_pos h]

theorem dropRepeats_cons_of_new {x : α} (h : ¬ last.any (repeats · x) = true) :
    dropRepeats repeats last (x :: xs) = x :: dropRepeats repeats (some x) xs := by
  unfold dropRepeats
  rw [splitRepeats, if_neg h]

/-- `Omits R last xs kept`: of `xs` only elements are left out that are in relation `R` with the
one kept last. -/
inductive Omits (R : α → α → Prop) : Option α → List α → List α → Prop
  | nil {last : Option α} : Omits R last [] []
  | keep {last : Option α} {x : α} {xs kept : List α} :
    Omits R (some x) xs kept → Omits R last (x :: xs) (x :: kept)
  | leave {last x : α} {xs kept : List α} :
    R last x → Omits R (some last) xs kept → Omits R (some last) (x :: xs) kept

theorem dropRepeats_omits {R : α → α → Prop} (hR : ∀ x y, repeats x y = true → R x y) :
    Omits R last xs (dropRepeats repeats last xs) := by
  induction xs generalizing last with
  | nil => exact .nil
  | cons x xs ih =>
    by_cases h : last.any (repeats · x) = true
    · rw [dropRepeats_cons_of_repeats h]
      obtain ⟨y, rfl, hy⟩ := (Option.any_eq_true _ _).1 h
      exact .leave (hR y x hy) ih
    · rw [dropRepeats_cons_of_new h]
      exact .keep ih

/-- What `R` passes on from the element kept last holds of all elements as soon as it holds of
those that are left. -/
theorem Omits.forall_iff {R : α → α → Prop} {P : α → Prop} (hP : ∀ x y, R x y → P x → P y)
    {kept : List α} (h : Omits R last xs kept) (hlast : ∀ y, last = some y → P y) :
    (∀ x ∈ kept, P x) ↔ ∀ x ∈ xs, P x := by
  induction h with
  | nil => exact Iff.rfl
  | @keep last x xs kept _ ih =>
    rw [List.forall_mem_cons, List.forall_mem_cons]
    refine and_congr_right fun hx => ih fun y hy => ?_
    obtain rfl := Option.some.inj hy
    exact hx
  | @leave last x xs kept hR _ ih =>
    rw [List.forall_mem_cons, ih hlast]
    exact ⟨fun htail => ⟨hP last x hR (hlast last rfl), htail⟩, And.right⟩

/-- What is left has nothing more to leave out. -/
theorem dropRepeats_dropRepeats :
    dropRepeats repeats last (dropRepeats repeats last xs) = dropRepeats repeats last xs := by
  induction xs generalizing last with
  | nil => rfl
  | cons x xs ih =>
    by_cases h : last.any (repeats · x) = true
    · rw [dropRepeats_cons_of_repeats h, ih]
    · rw [dropRepeats_cons_of_new h, dropRepeats_cons_of_new h, ih]

theorem dropRepeats_sublist : (dropRepeats repeats last xs).Sublist xs := by
  induction xs generalizing last with
  | nil => exact List.Sublist.refl _
  | cons x xs ih =>
    by_cases h : last.any (repeats · x) = true
    · rw [dropRepeats_cons_of_repeats h]
      exact ih.cons x
    · rw [dropRepeats_cons_of_new h]
      exact ih.cons_cons x

end Lib
